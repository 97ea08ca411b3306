import Multi64.Lib.Effect
import Multi64.SnapshotOwn

/-! `apply` as the one call it is: a batch of writes put on the cart at once,
and the same writes taken one after the other. -/

namespace Multi64

namespace RetroArch

inductive Call where
  | readMany (regions : List (Nat × Nat))
  | writeMany (regions : List (Nat × Bytes))

/-- What becomes of a request. It may be answered by a console that booted under
it, and one that fails may have done part of its work. -/
inductive Served where
  | served
  | restarted (generation : Nat) (ram : Store)
  | failed (generation : Nat) (ram : Store)

structure Cart where
  ram : Store
  generation : Nat
  calls : List Call

section Apply

variable (bitwise : List (Nat × Nat)) (served : Call → Served)

/-- Make a request. Whether it succeeds, and on which console. -/
def request (call : Call) : Eff Unit Cart Unit := fun c =>
  let calls := c.calls ++ [call]
  match served call with
  | .served => (.ok (), { c with calls := calls })
  | .restarted generation ram => (.ok (), ⟨ram, generation, calls⟩)
  | .failed generation ram => (.error (), ⟨ram, generation, calls⟩)

def readMany (regions : List (Nat × Nat)) : Eff Unit Cart (List Bytes) := do
  request served (.readMany regions)
  let c ← Eff.get
  return regions.map fun r => c.ram.read r.1 r.2

def writeAll (ram : Store) (regions : List (Nat × Bytes)) : Store := regions.foldl (fun ram r => ram.write r.1 r.2) ram

def writeMany (regions : List (Nat × Bytes)) : Eff Unit Cart Unit := do
  request served (.writeMany regions)
  Eff.modify fun c => { c with ram := writeAll c.ram regions }

def liveOf (words : List Nat) (blocks : List Bytes) : SortedMap Nat UInt8 :=
  (words.zip blocks).foldl (fun live e => insertLive live e.1 e.2) .empty

def putRuns (runs : List (Nat × Bytes)) : Eff Unit Cart Unit := if runs = [] then return () else writeMany served runs

def apply (writes : List Write) (readOn : Nat) : Eff Unit Cart Unit := do
  let words := liveWords bitwise writes
  if words = [] then putRuns served (toRuns (merge bitwise .empty writes))
  else
    let blocks ← readMany served (words.map fun p => (p, 4))
    if (← Eff.get).generation ≠ readOn then return ()
    else putRuns served (toRuns (merge bitwise (liveOf words blocks) writes))

end Apply

section OneByOne

variable (bitwise : List (Nat × Nat))

/-- What a write makes of a byte as it stands: the bits it changes, or all of it. -/
def oneByte (w : Write) (i : Nat) (now : UInt8) : UInt8 :=
  let differing := byteAt w.client i ^^^ byteAt w.served i
  if flag bitwise (w.phys + i) then now &&& ~~~differing ||| byteAt w.client i &&& differing else byteAt w.client i

def putOne (ram : Store) (w : Write) : Store := fun a =>
  if w.phys ≤ a ∧ a - w.phys ∈ changed w then oneByte bitwise w (a - w.phys) (ram a) else ram a

end OneByOne

section Lemmas

variable {bitwise : List (Nat × Nat)} {live out : SortedMap Nat UInt8} {writes : List Write} {w : Write} {ram : Store} {a : Nat}

theorem mergedByte_eq (w : Write) (i : Nat) (earlier : Option UInt8) : mergedByte bitwise live w i earlier =
    oneByte bitwise w i ((earlier.or (live.get (w.phys + i))).getD (byteAt w.served i)) := by
  unfold mergedByte oneByte
  by_cases hf : flag bitwise (w.phys + i) = true
  · simp only [if_pos hf]
    generalize (earlier.or (live.get (w.phys + i))).getD (byteAt w.served i) = now
    apply UInt8.toBitVec_inj.mp
    ext k hk
    simp only [UInt8.toBitVec_or, UInt8.toBitVec_and, UInt8.toBitVec_not, UInt8.toBitVec_xor, BitVec.getElem_or,
      BitVec.getElem_and, BitVec.getElem_not, BitVec.getElem_xor]
    cases (byteAt w.client i).toBitVec[k] <;> cases (byteAt w.served i).toBitVec[k] <;> simp
  · simp only [if_neg hf]

/-- A batch merged over what RDRAM held comes to its writes one after the other,
at each byte of which those that need it were read. -/
theorem merge_get (hlive : ∀ w ∈ writes, ∀ i ∈ changed w, w.phys + i = a → flag bitwise a = true →
    live.get a = some (ram a)) :
    ((merge bitwise live writes).get a).getD (ram a) = writes.foldl (putOne bitwise) ram a := by
  induction writes using List.reverseRecOn with
  | nil => rfl
  | append_singleton writes w ih =>
    have hbefore := ih fun w' hw' => hlive w' (List.mem_append_left _ hw')
    have hnd : (changed w).Nodup := List.nodup_range.filter _
    rw [List.foldl_append, merge, List.foldl_append, ← merge]
    simp only [List.foldl_cons, List.foldl_nil]
    rw [foldl_mergeByte _ hnd, putOne, ← hbefore]
    by_cases hin : w.phys ≤ a ∧ a - w.phys ∈ changed w
    · have hat : w.phys + (a - w.phys) = a := by omega
      rw [if_pos hin, if_pos hin, Option.getD_some, mergedByte_eq, hat]
      by_cases hf : flag bitwise a = true
      · have hread := hlive w (List.mem_append_right _ (List.mem_singleton_self w)) _ hin.2 hat hf
        rw [hread]
        cases (merge bitwise live writes).get a with
        | none => rfl
        | some v => rfl
      · simp [oneByte, hat, hf]
    · rw [if_neg hin, if_neg hin]

/-- Only bytes a write changes are merged. -/
theorem merge_changed {v : UInt8} (h : (merge bitwise live writes).get a = some v) :
    ∃ w ∈ writes, w.phys ≤ a ∧ a - w.phys ∈ changed w := by
  induction writes using List.reverseRecOn generalizing v with
  | nil => exact nomatch h
  | append_singleton writes w ih =>
    have hnd : (changed w).Nodup := List.nodup_range.filter _
    rw [merge, List.foldl_append, ← merge] at h
    simp only [List.foldl_cons, List.foldl_nil] at h
    rw [foldl_mergeByte _ hnd] at h
    by_cases hin : w.phys ≤ a ∧ a - w.phys ∈ changed w
    · exact ⟨w, List.mem_append_right _ (List.mem_singleton_self w), hin⟩
    · rw [if_neg hin] at h
      obtain ⟨w', hw', hin'⟩ := ih h
      exact ⟨w', List.mem_append_left _ hw', hin'⟩

section Runs

variable {runs : List (Nat × Bytes)}

/-- The byte at `a` is one of the runs'. -/
def Covered (runs : List (Nat × Bytes)) (a : Nat) : Prop := ∃ r ∈ runs, r.1 ≤ a ∧ a < r.1 + r.2.length

theorem addRun_covers (e : Nat × UInt8) : Covered (addRun runs e) e.1 ∧ (Covered runs a → Covered (addRun runs e) a) := by
  unfold addRun
  cases hlast : runs.getLast? with
  | none =>
    obtain rfl := List.getLast?_eq_none_iff.mp hlast
    exact ⟨⟨_, List.mem_singleton_self _, Nat.le_refl _, Nat.lt_succ_self _⟩, fun ⟨_, hr, _⟩ => (nomatch hr)⟩
  | some r =>
    obtain ⟨init, rfl⟩ := List.getLast?_eq_some_iff.mp hlast
    simp only [List.dropLast_concat]
    by_cases hnext : r.1 + r.2.length = e.1
    · rw [if_pos hnext]
      have hnew : (r.1, r.2 ++ [e.2]) ∈ init ++ [(r.1, r.2 ++ [e.2])] := by simp
      refine ⟨⟨_, hnew, by simp only; omega, by simp only [List.length_append, List.length_singleton]; omega⟩, ?_⟩
      rintro ⟨r', hr', hle, hlt⟩
      rcases List.mem_append.mp hr' with hr' | hr'
      · exact ⟨r', List.mem_append_left _ hr', hle, hlt⟩
      · obtain rfl := List.mem_singleton.mp hr'
        exact ⟨_, hnew, hle, by simp only [List.length_append, List.length_singleton]; omega⟩
    · rw [if_neg hnext]
      refine ⟨⟨(e.1, [e.2]), by simp, Nat.le_refl _, Nat.lt_succ_self _⟩, ?_⟩
      rintro ⟨r', hr', hin⟩
      exact ⟨r', List.mem_append_left _ hr', hin⟩

theorem toRuns_covers (h : out.get a ≠ none) : Covered (toRuns out) a := by
  obtain ⟨v, hv⟩ := Option.ne_none_iff_exists'.mp h
  have hmem := SortedMap.get_eq_some.mp hv
  unfold toRuns
  revert hmem
  generalize out.entries = l
  induction l using List.reverseRecOn with
  | nil => exact nofun
  | append_singleton l e ih =>
    intro hmem
    rw [List.foldl_append, List.foldl_cons, List.foldl_nil]
    have hcovers := @addRun_covers a (l.foldl addRun []) e
    rcases List.mem_append.mp hmem with hmem | hmem
    · exact hcovers.2 (ih hmem)
    · obtain rfl := List.mem_singleton.mp hmem
      exact hcovers.1

/-- Runs that all show one memory leave that where they are and the old one elsewhere. -/
theorem writeAll_get {m : Store} (h : ∀ r ∈ runs, ∀ i < r.2.length, byteAt r.2 i = m (r.1 + i)) (ram : Store) :
    (Covered runs a → writeAll ram runs a = m a) ∧ (¬Covered runs a → writeAll ram runs a = ram a) := by
  induction runs generalizing ram with
  | nil => exact ⟨fun ⟨_, hr, _⟩ => (nomatch hr), fun _ => rfl⟩
  | cons r runs ih =>
    obtain ⟨hin, hout⟩ := ih (fun r' hr' => h r' (List.mem_cons_of_mem r hr')) (ram.write r.1 r.2)
    have hcons : Covered (r :: runs) a ↔ (r.1 ≤ a ∧ a < r.1 + r.2.length) ∨ Covered runs a := by
      simp [Covered]
    rw [writeAll, List.foldl_cons, ← writeAll, hcons]
    by_cases hrest : Covered runs a
    · exact ⟨fun _ => hin hrest, fun hno => absurd (.inr hrest) hno⟩
    · rw [hout hrest]
      refine ⟨fun hor => ?_, fun hno => Store.write_outside _ _ (by omega)⟩
      rcases hor with ⟨hle, hlt⟩ | hcov
      · obtain ⟨i, rfl⟩ := Nat.exists_eq_add_of_le hle
        rw [Store.write_inside _ _ (by omega)]
        exact h r List.mem_cons_self i (by omega)
      · exact absurd hcov hrest

/-- Writing the runs of a map lays it over RDRAM. -/
theorem writeAll_toRuns (out : SortedMap Nat UInt8) (ram : Store) (a : Nat) :
    writeAll ram (toRuns out) a = (out.get a).getD (ram a) := by
  have hshow : ∀ r ∈ toRuns out, ∀ i < r.2.length, byteAt r.2 i = (out.get (r.1 + i)).getD (ram (r.1 + i)) := by
    intro r hr i hi
    rw [mem_toRuns hr hi, Option.getD_some]
  obtain ⟨hin, hout⟩ := @writeAll_get a _ (fun a => (out.get a).getD (ram a)) hshow ram
  by_cases hcov : Covered (toRuns out) a
  · exact hin hcov
  · have hnone : out.get a = none := by
      by_contra hne
      exact hcov (toRuns_covers hne)
    rw [hout hcov, hnone, Option.getD_none]

end Runs

section Live

theorem insertLive_some {p : Nat} {data : Bytes} {v : UInt8} (hv : (insertLive live p data).get a = some v) :
    live.get a = some v ∨ ∃ i < 4, a = p + i ∧ v = byteAt data i := by
  have hfold : ∀ (is : List Nat), (∀ i ∈ is, i < 4) → ∀ live : SortedMap Nat UInt8,
      (is.foldl (fun live i => live.insert (p + i) (byteAt data i)) live).get a = some v →
      live.get a = some v ∨ ∃ i < 4, a = p + i ∧ v = byteAt data i := by
    intro is
    induction is with
    | nil => exact fun _ _ h => .inl h
    | cons i is ih =>
      intro hlt live h
      rcases ih (fun j hj => hlt j (List.mem_cons_of_mem i hj)) _ h with hold | hnew
      · by_cases ha : a = p + i
        · rw [ha, SortedMap.get_insert_self] at hold
          exact .inr ⟨i, hlt i List.mem_cons_self, ha, (Option.some.inj hold).symm⟩
        · rw [SortedMap.get_insert_of_ne ha] at hold
          exact .inl hold
      · exact .inr hnew
  exact hfold (List.range 4) (fun i hi => List.mem_range.mp hi) live hv

theorem insertLive_value (h : ∀ v, live.get a = some v → v = ram a) (p : Nat) {v : UInt8}
    (hv : (insertLive live p (ram.read p 4)).get a = some v) : v = ram a := by
  rcases insertLive_some hv with hold | ⟨i, hi, rfl, rfl⟩
  · exact h v hold
  · exact Store.byteAt_read _ _ _ hi

/-- The live bytes are those of the words read. -/
theorem liveOf_get {words : List Nat} {p i : Nat} (hp : p ∈ words) (hi : i < 4) :
    (liveOf words (words.map fun p => ram.read p 4)).get (p + i) = some (ram (p + i)) := by
  have hfold : ∀ (words : List Nat) (live : SortedMap Nat UInt8), (∀ a v, live.get a = some v → v = ram a) →
      let after := (words.zip (words.map fun p => ram.read p 4)).foldl (fun live e => insertLive live e.1 e.2) live
      (∀ a v, after.get a = some v → v = ram a) ∧ (∀ a, live.get a ≠ none → after.get a ≠ none) ∧
        ∀ p ∈ words, ∀ i < 4, after.get (p + i) ≠ none := by
    intro words
    induction words with
    | nil => exact fun live h => ⟨h, fun _ => id, nofun⟩
    | cons q words ih =>
      intro live h
      obtain ⟨hvalue, hkeeps, hreads⟩ := ih (insertLive live q (ram.read q 4)) fun a v => insertLive_value (h a) q
      obtain ⟨hnew, hold⟩ := Session.insertLive_get live q (ram.read q 4)
      refine ⟨hvalue, fun a ha => hkeeps a (hold a ha), fun p hp i hi => ?_⟩
      rcases List.mem_cons.mp hp with rfl | hp
      · exact hkeeps _ (hnew i hi)
      · exact hreads p hp i hi
  obtain ⟨hvalue, _, hreads⟩ := hfold words .empty nofun
  obtain ⟨v, hv⟩ := Option.ne_none_iff_exists'.mp (hreads p hp i hi)
  rw [← hvalue _ v hv]
  exact hv

end Live

end Lemmas

section Effect

variable {bitwise : List (Nat × Nat)} {served : Call → Served} {writes : List Write}

/-- No request is answered by a console that booted under it. -/
def Steady (served : Call → Served) : Prop := ∀ call generation ram, served call ≠ .restarted generation ram

theorem request_ok {call : Call} {c c' : Cart} (hs : Steady served) (h : request served call c = (.ok (), c')) :
    c' = { c with calls := c.calls ++ [call] } := by
  unfold request at h
  cases hcall : served call with
  | served =>
    rw [hcall] at h
    exact (Prod.mk.inj h).2.symm
  | restarted generation ram => exact absurd hcall (hs call generation ram)
  | failed generation ram =>
    rw [hcall] at h
    nomatch (Prod.mk.inj h).1

theorem request_calls (call : Call) (c : Cart) : (request served call c).2.calls = c.calls ++ [call] := by
  unfold request
  cases served call <;> rfl

/-- The requests of a batch, in the order they may come. -/
def Requests (writes : List Write) (calls : List Call) : Prop :=
  ∃ regions runs, calls.Sublist [.readMany regions, .writeMany runs] ∧
    ∀ r ∈ runs, ∀ i < r.2.length, ∃ w ∈ writes, w.phys ≤ r.1 + i ∧ r.1 + i - w.phys ∈ changed w

theorem putRuns_calls (live : SortedMap Nat UInt8) (c : Cart) :
    let runs := toRuns (merge bitwise live writes)
    (∃ calls, (putRuns served runs c).2.calls = c.calls ++ calls ∧ calls.Sublist [.writeMany runs]) ∧
      ∀ r ∈ runs, ∀ i < r.2.length, ∃ w ∈ writes, w.phys ≤ r.1 + i ∧ r.1 + i - w.phys ∈ changed w := by
  intro runs
  refine ⟨?_, fun r hr i hi => merge_changed (mem_toRuns hr hi)⟩
  unfold putRuns
  by_cases hnone : runs = []
  · rw [if_pos hnone]
    exact ⟨[], (List.append_nil _).symm, List.nil_sublist _⟩
  · rw [if_neg hnone]
    refine ⟨[.writeMany runs], ?_, List.Sublist.refl _⟩
    have hcalls := @request_calls served (.writeMany runs) c
    rw [writeMany, Eff.bind_run]
    revert hcalls
    cases request served (.writeMany runs) c with
    | mk r c' => cases r <;> exact id

theorem putRuns_ok (hs : Steady served) {runs : List (Nat × Bytes)} {c : Cart} (h : (putRuns served runs c).1 = .ok ()) :
    (putRuns served runs c).2.ram = writeAll c.ram runs := by
  unfold putRuns at h ⊢
  by_cases hnone : runs = []
  · rw [if_pos hnone, hnone]
    rfl
  · rw [if_neg hnone] at h ⊢
    unfold writeMany at h ⊢
    obtain ⟨_, c', hreq, _⟩ := Eff.bind_ok_inv h
    rw [Eff.bind_run, hreq]
    obtain rfl := request_ok hs hreq
    rfl

theorem readMany_ok (hs : Steady served) {regions : List (Nat × Nat)} {blocks : List Bytes} {c c' : Cart}
    (h : readMany served regions c = (.ok blocks, c')) :
    c' = { c with calls := c.calls ++ [.readMany regions] } ∧ blocks = regions.map fun r => c.ram.read r.1 r.2 := by
  unfold readMany at h
  have hok : ((request served (.readMany regions) >>= fun _ => Eff.get >>= fun c =>
      pure (regions.map fun r => c.ram.read r.1 r.2)) c).1 = .ok blocks := by rw [h]
  obtain ⟨_, c'', hreq, _⟩ := Eff.bind_ok_inv hok
  rw [Eff.bind_run, hreq] at h
  obtain rfl := request_ok hs hreq
  obtain ⟨hblocks, rfl⟩ := Prod.mk.inj h
  exact ⟨rfl, (Except.ok.inj hblocks).symm⟩

theorem readMany_calls (regions : List (Nat × Nat)) (c : Cart) :
    (readMany served regions c).2.calls = c.calls ++ [.readMany regions] := by
  have hcalls := @request_calls served (.readMany regions) c
  rw [readMany, Eff.bind_run]
  revert hcalls
  cases request served (.readMany regions) c with
  | mk r c' => cases r <;> exact id

theorem apply_calls (writes : List Write) (readOn : Nat) (c : Cart) :
    ∃ calls, (apply bitwise served writes readOn c).2.calls = c.calls ++ calls ∧ Requests writes calls := by
  unfold apply
  by_cases hnone : liveWords bitwise writes = []
  · obtain ⟨⟨calls, hcalls, hsub⟩, hchanged⟩ := @putRuns_calls bitwise served writes .empty c
    simp only [if_pos hnone]
    exact ⟨calls, hcalls, [], _, hsub.cons _, hchanged⟩
  · simp only [if_neg hnone]
    have hread := @readMany_calls served ((liveWords bitwise writes).map fun p => (p, 4)) c
    rw [Eff.bind_run]
    revert hread
    cases readMany served ((liveWords bitwise writes).map fun p => (p, 4)) c with
    | mk r c' =>
      intro hread
      cases r with
      | error e => exact ⟨_, hread, _, [], (List.sublist_append_left [_] [_]), nofun⟩
      | ok blocks =>
        by_cases hlink : c'.generation ≠ readOn
        · refine ⟨[.readMany ((liveWords bitwise writes).map fun p => (p, 4))], ?_, _, [],
            (List.sublist_append_left [_] [_]), nofun⟩
          simp only [Eff.bind_run, Eff.get, if_pos hlink]
          exact hread
        · obtain ⟨⟨calls, hcalls, hsub⟩, hchanged⟩ :=
            @putRuns_calls bitwise served writes (liveOf (liveWords bitwise writes) blocks) c'
          refine ⟨.readMany ((liveWords bitwise writes).map fun p => (p, 4)) :: calls, ?_, _, _, hsub.cons_cons _, hchanged⟩
          simp only [Eff.bind_run, Eff.get, if_neg hlink]
          rw [hcalls]
          simp only [] at hread
          rw [hread, List.append_assoc]
          rfl

/-- On a link that does not restart, a batch that succeeds leaves what its writes
leave one after the other. It takes at most one read and one write, and writes
only bytes that differ. -/
theorem apply_one_by_one (bitwise : List (Nat × Nat)) (served : Call → Served) (writes : List Write) (c : Cart)
    (hs : Steady served) :
    ((apply bitwise served writes c.generation c).1 = .ok () →
      (apply bitwise served writes c.generation c).2.ram = writes.foldl (putOne bitwise) c.ram) ∧
    ∃ calls, (apply bitwise served writes c.generation c).2.calls = c.calls ++ calls ∧ Requests writes calls := by
  refine ⟨fun hok => ?_, apply_calls writes c.generation c⟩
  unfold apply at hok ⊢
  by_cases hnone : liveWords bitwise writes = []
  · simp only [if_pos hnone] at hok ⊢
    rw [putRuns_ok hs hok]
    funext a
    rw [writeAll_toRuns]
    refine merge_get fun w hw i hi hat hf => ?_
    have hmem := mem_liveWords hw hi (hat.symm ▸ hf)
    rw [hnone] at hmem
    exact nomatch hmem
  · simp only [if_neg hnone] at hok ⊢
    obtain ⟨blocks, c', hread, hrest⟩ := Eff.bind_ok_inv hok
    rw [Eff.bind_ok (by rw [hread])]
    simp only [hread] at hrest ⊢
    obtain ⟨rfl, rfl⟩ := readMany_ok hs hread
    simp only [Eff.bind_run, Eff.get, ne_eq, not_true_eq_false, if_false] at hrest ⊢
    rw [putRuns_ok hs hrest]
    funext a
    rw [writeAll_toRuns]
    refine merge_get fun w hw i hi hat hf => ?_
    subst hat
    rw [List.map_map]
    exact liveOf_get (mem_liveWords hw hi hf) (mem_changed.mp hi).1

/-- A flag byte in which two writes set a bit each over one the game set, beside
a byte that is written whole. -/
theorem apply_one_by_one_flags :
    let served : Call → Served := fun _ => .served
    let writes : List Write := [⟨0, [1, 0, 0, 0], [3, 0, 0, 0], none⟩, ⟨0, [3, 0, 0, 0], [11, 9, 0, 0], none⟩]
    let c : Cart := ⟨Store.write (fun _ => 0) 0 [5], 0, []⟩
    (apply [(0, 1)] served writes 0 c).2.ram = writes.foldl (putOne [(0, 1)]) c.ram ∧
      (apply [(0, 1)] served writes 0 c).2.ram 0 = 15 ∧ (apply [(0, 1)] served writes 0 c).2.ram 1 = 9 := by
  intro served writes c
  have hsteady : Steady served := fun _ _ _ h => nomatch h
  have hok : (apply [(0, 1)] served writes 0 c).1 = .ok () := by decide +kernel
  exact ⟨(apply_one_by_one [(0, 1)] served writes c hsteady).1 hok, by decide +kernel, by decide +kernel⟩

end Effect

end RetroArch

end Multi64
