import Multi64.Lib.Scan

/-! A reader over a scanner. It scans what has come in up to the first item that
is an error, queues the symbols of the others, and hands out the queue before
the error. -/

namespace Multi64

variable {α β γ ε : Type*}

/-- What an item comes to for whoever reads: symbols, or an error. -/
def told (deliver : α → Except ε (List γ)) (a : α) : List (γ ⊕ ε) :=
  match deliver a with
  | .ok xs => xs.map .inl
  | .error e => [.inr e]

/-- All that the items of `b` come to. -/
def tellAll (look : List β → Look α) (deliver : α → Except ε (List γ)) (b : List β) : List (γ ⊕ ε) :=
  (scan look b).1.flatMap (told deliver)

/-- Look at what is held, at most `fuel` times, up to the first error. -/
def drainFuel (look : List β → Look α) (deliver : α → Except ε (List γ)) : Nat → List β → List γ × Option ε × List β
  | 0, b => ([], none, b)
  | fuel + 1, b =>
    match look b with
    | .wait n => ([], none, b.drop n)
    | .skip n => drainFuel look deliver fuel (b.drop n)
    | .emit a n =>
      match deliver a with
      | .ok xs =>
        let r := drainFuel look deliver fuel (b.drop n)
        (xs ++ r.1, r.2)
      | .error e => ([], some e, b.drop n)

/-- A drain takes all of `b` but what waits, or stops behind an error. -/
structure Drained (look : List β → Look α) (deliver : α → Except ε (List γ)) (b : List β) (r : List γ × Option ε × List β) : Prop where
  tells : tellAll look deliver b = r.1.map .inl ++ r.2.1.toList.map .inr ++ tellAll look deliver r.2.2
  holds : (scan look b).2 = (scan look r.2.2).2
  done : r.2.1 = none → scan look r.2.2 = ([], r.2.2)

section Drain

variable {look : List β → Look α} {deliver : α → Except ε (List γ)}

theorem tellAll_append (hs : Stable look) (b t : List β) :
    tellAll look deliver (b ++ t) = tellAll look deliver b ++ tellAll look deliver ((scan look b).2 ++ t) := by
  unfold tellAll
  rw [hs.scan_append, List.flatMap_append]

theorem tellAll_nil {b : List β} (h : (scan look b).1 = []) : tellAll look deliver b = [] := by
  rw [tellAll, h, List.flatMap_nil]

/-- What a scan holds it has already looked at. -/
theorem Stable.scan_held (hs : Stable look) {b : List β} {n : Nat} (h : look b = .wait n) : scan look (b.drop n) = ([], b.drop n) := by
  have happend := hs.wait_append h []
  rw [List.append_nil, List.append_nil, scan_wait h] at happend
  exact happend.symm

variable {b b' : List β} {a : α} {xs : List γ} {e : ε} {r : List γ × Option ε × List β}

theorem Drained.wait (h : scan look b = ([], b')) (hheld : scan look b' = ([], b')) : Drained look deliver b ([], none, b') := by
  refine ⟨?_, ?_, fun _ => hheld⟩
  · rw [tellAll_nil (by rw [h]), tellAll_nil (by rw [hheld])]
    rfl
  · rw [h, hheld]

theorem Drained.skip (h : scan look b = scan look b') (hr : Drained look deliver b' r) : Drained look deliver b r := by
  refine ⟨?_, h ▸ hr.holds, hr.done⟩
  rw [← hr.tells, tellAll, h, tellAll]

theorem Drained.emit (h : scan look b = (a :: (scan look b').1, (scan look b').2)) (hd : deliver a = .ok xs)
    (hr : Drained look deliver b' r) : Drained look deliver b (xs ++ r.1, r.2) := by
  refine ⟨?_, ?_, hr.done⟩
  · have htells := hr.tells
    unfold tellAll at htells ⊢
    rw [h, List.flatMap_cons, htells, told, hd]
    simp only [List.map_append, List.append_assoc]
  · rw [h]
    exact hr.holds

theorem Drained.error (h : scan look b = (a :: (scan look b').1, (scan look b').2)) (hd : deliver a = .error e) :
    Drained look deliver b ([], some e, b') := by
  refine ⟨?_, ?_, nofun⟩
  · unfold tellAll
    rw [h, List.flatMap_cons, told, hd]
    rfl
  · rw [h]

theorem Stable.drain (hs : Stable look) {fuel : Nat} (hfuel : b.length < fuel) :
    Drained look deliver b (drainFuel look deliver fuel b) := by
  induction fuel generalizing b with
  | zero => omega
  | succ fuel ih =>
    cases hl : look b with
    | wait n =>
      simp only [drainFuel, hl]
      exact .wait (scan_wait hl) (hs.scan_held hl)
    | skip n =>
      have hn := hs.toProgress.skip hl
      simp only [drainFuel, hl]
      exact .skip (hs.toProgress.scan_skip hl) (ih (by rw [List.length_drop]; omega))
    | emit a n =>
      have hn := hs.toProgress.emit hl
      have hscan := hs.toProgress.scan_emit hl
      simp only [drainFuel, hl]
      cases hd : deliver a with
      | ok xs => exact .emit hscan hd (ih (by rw [List.length_drop]; omega))
      | error e => exact .error hscan hd

end Drain

/-- Of what the symbols `sent` come to, `out` has been told; the rest is queued,
pending or in the symbols held. -/
structure Carries (look : List β → Look α) (deliver : α → Except ε (List γ)) (sent : List β) (out : List (γ ⊕ ε)) (queue : List γ)
    (pending : Option ε) (held : List β) : Prop where
  tells : tellAll look deliver sent = out ++ queue.map .inl ++ pending.toList.map .inr ++ tellAll look deliver held
  holds : (scan look sent).2 = (scan look held).2

namespace Carries

variable {look : List β → Look α} {deliver : α → Except ε (List γ)} {sent held : List β} {out : List (γ ⊕ ε)} {queue : List γ}
  {pending : Option ε}

theorem start (hp : Progress look) : Carries look deliver [] [] [] none [] := by
  refine ⟨?_, rfl⟩
  rw [tellAll_nil (by rw [hp.scan_nil])]
  rfl

theorem receive (hs : Stable look) (hc : Carries look deliver sent out queue pending held) (got : List β) :
    Carries look deliver (sent ++ got) out queue pending (held ++ got) := by
  obtain ⟨htells, hholds⟩ := hc
  refine ⟨?_, ?_⟩
  · rw [tellAll_append hs sent, tellAll_append hs held, htells, hholds]
    simp only [List.append_assoc]
  · rw [hs.scan_append sent, hs.scan_append held, hholds]

/-- The symbols held are drained while nothing is queued or pending. -/
theorem drain (hc : Carries look deliver sent out [] none held) {r : List γ × Option ε × List β} (hr : Drained look deliver held r) :
    Carries look deliver sent out r.1 r.2.1 r.2.2 := by
  refine ⟨?_, hc.holds.trans hr.holds⟩
  rw [hc.tells, hr.tells]
  simp only [List.map_nil, Option.toList_none, List.append_nil, List.append_assoc]

theorem handOut (hc : Carries look deliver sent out queue pending held) (n : Nat) :
    Carries look deliver sent (out ++ (queue.take n).map .inl) (queue.drop n) pending held := by
  refine ⟨?_, hc.holds⟩
  have hqueue : queue.map (Sum.inl (β := ε)) = (queue.take n).map .inl ++ (queue.drop n).map .inl := by
    rw [← List.map_append, List.take_append_drop]
  rw [hc.tells, hqueue]
  simp only [List.append_assoc]

theorem raise {e : ε} (hc : Carries look deliver sent out [] (some e) held) :
    Carries look deliver sent (out ++ [.inr e]) [] none held := by
  refine ⟨?_, hc.holds⟩
  rw [hc.tells]
  simp only [Option.toList_some, List.map_cons, List.map_nil, Option.toList_none, List.append_nil, List.append_assoc]

/-- With nothing left to tell, all that has come in was told. -/
theorem complete (hc : Carries look deliver sent out [] none held) (hdone : scan look held = ([], held)) :
    out = tellAll look deliver sent := by
  rw [hc.tells, tellAll_nil (by rw [hdone])]
  simp only [List.map_nil, Option.toList_none, List.append_nil]

end Carries

end Multi64
