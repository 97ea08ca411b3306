import Multi64.MemHandle
import Multi64.Transport

/-! What a reply says of the request it answers. -/

namespace Multi64

section Header

variable (msg : M64pMsg) (rid : UInt16) (t : Bytes)

theorem byteAt_header : byteAt (appHeader msg ++ t) 4 = msg.code := rfl

theorem readBe16_header : readBe16 (appHeader msg ++ (putBe16 rid ++ t)) 5 = rid := by
  have h := readBe16_append_right (appHeader msg) (putBe16 rid ++ t) 0
  rwa [appHeader_length, readBe16_putBe16] at h

end Header

section Parse

theorem parseHelloAck_inv {b : Bytes} {resp : Response} (h : parseHelloAck b = .ok resp) : resp.rid = none := by
  unfold parseHelloAck at h
  simp only at h
  repeat' split at h
  all_goals (cases h <;> rfl)

theorem parsePeek_inv {b : Bytes} {rom : Bool} {resp : Response} (h : parsePeek b rom = .ok resp) :
    resp.rid = some (readBe16 b 0) := by
  unfold parsePeek at h
  split at h
  · exact nomatch h
  · cases hr : parseRegions b (byteAt b 2).toNat 3 with
    | error e => simp [hr, bind, Except.bind] at h
    | ok r =>
      simp only [hr, bind, Except.bind] at h
      split at h
      · cases h
        rfl
      · cases ht : parseTrailer b r.2 with
        | error e => simp [ht] at h
        | ok tr =>
          simp only [ht] at h
          cases h
          rfl

/-- Every response but a `HELLO_ACK` names the rid behind its header. -/
theorem parse_rid {app : Bytes} {resp : Response} (h : parse app = .ok resp) :
    resp.rid = if isHelloAck app then none else some (readBe16 app 5) := by
  unfold parse at h
  have hdrop : readBe16 (app.drop 5) 0 = readBe16 app 5 := readBe16_drop app 5 0
  split at h
  · exact nomatch h
  simp only at h
  by_cases hack : byteAt app 4 = M64pMsg.helloAck.code
  · rw [if_pos hack] at h
    rw [if_pos (show isHelloAck app = true from decide_eq_true hack)]
    exact parseHelloAck_inv h
  · rw [if_neg hack] at h
    rw [if_neg (by rw [isHelloAck, decide_eq_true_eq]; exact hack), ← hdrop]
    split at h
    · exact parsePeek_inv h
    split at h
    · exact parsePeek_inv h
    split at h
    · split at h
      · exact nomatch h
      · cases h
        rfl
    split at h
    · split at h
      · exact nomatch h
      · cases h
        rfl
    split at h
    · split at h
      · exact nomatch h
      · cases h
        rfl
    split at h <;> exact nomatch h

theorem isHelloAck_of_parse {app : Bytes} {resp : Response} (h : parse app = .ok resp) (hr : resp.rid = none) :
    isHelloAck app = true := by
  have hrid := parse_rid h
  cases hack : isHelloAck app with
  | true => rfl
  | false => simp [hack, hr] at hrid

/-- The message a response is read from. -/
def Response.msg : Response → M64pMsg
  | .helloAck .. => .helloAck
  | .peekV .. => .peekvResp
  | .peekRom .. => .peekromResp
  | .pokeAck .. => .pokeAck
  | .watchAck .. => .watchAck
  | .err .. => .err

theorem parseHelloAck_msg {b : Bytes} {resp : Response} (h : parseHelloAck b = .ok resp) : resp.msg = .helloAck := by
  unfold parseHelloAck at h
  simp only at h
  repeat' split at h
  all_goals (cases h <;> rfl)

theorem parsePeek_msg {b : Bytes} {rom : Bool} {resp : Response} (h : parsePeek b rom = .ok resp) :
    resp.msg = if rom then .peekromResp else .peekvResp := by
  unfold parsePeek at h
  split at h
  · exact nomatch h
  · cases hr : parseRegions b (byteAt b 2).toNat 3 with
    | error e => simp [hr, bind, Except.bind] at h
    | ok r =>
      simp only [hr, bind, Except.bind] at h
      cases rom with
      | true =>
        cases h
        rfl
      | false =>
        cases ht : parseTrailer b r.2 with
        | error e => simp [ht] at h
        | ok tr =>
          simp only [ht] at h
          cases h
          rfl

theorem parse_msg {app : Bytes} {resp : Response} (h : parse app = .ok resp) : byteAt app 4 = resp.msg.code := by
  unfold parse at h
  split at h
  · exact nomatch h
  simp only at h
  split at h
  next hc => rw [hc, parseHelloAck_msg h]
  split at h
  next hc => rw [hc, parsePeek_msg h, if_neg Bool.false_ne_true]
  split at h
  next hc => rw [hc, parsePeek_msg h, if_pos rfl]
  split at h
  next hc =>
    split at h
    · exact nomatch h
    · cases h
      exact hc
  split at h
  next hc =>
    split at h
    · exact nomatch h
    · cases h
      exact hc
  split at h
  next hc =>
    split at h
    · exact nomatch h
    · cases h
      exact hc
  split at h <;> exact nomatch h

end Parse

section Encode

variable {r : Request} {p rest : Bytes}

/-- What a request that carries a rid looks like. -/
theorem Request.encode_rid (he : p = r.encode ++ rest) :
    (r = .hello ∧ isHello p = true) ∨
      ∃ msg rid t, p = appHeader msg ++ (putBe16 rid ++ t) ∧ msg ≠ .hello ∧
        ∀ h s, ∃ ack rest', ack ≠ .helloAck ∧ (perform h s r).2 = appHeader ack ++ (putBe16 rid ++ rest') := by
  subst he
  cases r with
  | hello => exact .inl ⟨rfl, rfl⟩
  | peekv rid rs =>
    refine .inr ⟨.peekv, rid, [UInt8.ofNat rs.length] ++ ((rs.map Region.encode).flatten ++ rest), ?_, (by decide),
      fun h s => ⟨.peekvResp, [UInt8.ofNat rs.length] ++ (peekReply s.ram rs ++
        (peekTrailer s (listReply .peekvResp rid rs.length (peekReply s.ram rs)).length).1), (by decide), ?_⟩⟩
    · simp only [Request.encode, encodeList, List.length_map, List.append_assoc]
    · simp only [perform, listReply, List.append_assoc]
  | pokev rid rs =>
    refine .inr ⟨.pokev, rid, [UInt8.ofNat rs.length] ++ ((rs.map Region.encode).flatten ++ rest), ?_, (by decide),
      fun h s => ⟨.pokeAck, [UInt8.ofNat rs.length] ++ [], (by decide), ?_⟩⟩
    · simp only [Request.encode, encodeList, List.length_map, List.append_assoc]
    · simp only [perform, listReply, List.append_assoc]
  | peekrom rid rs =>
    refine .inr ⟨.peekrom, rid, [UInt8.ofNat rs.length] ++ ((rs.map Region.encode).flatten ++ rest), ?_, (by decide),
      fun h s => ⟨.peekromResp, [UInt8.ofNat rs.length] ++ romReply h rs, (by decide), ?_⟩⟩
    · simp only [Request.encode, encodeList, List.length_map, List.append_assoc]
    · simp only [perform, listReply, List.append_assoc]
  | watch rid slots =>
    refine .inr ⟨.watch, rid, [UInt8.ofNat slots.length] ++ ((slots.map SlotSpec.encode).flatten ++ rest), ?_,
      (by decide), fun h s => ⟨.watchAck, [UInt8.ofNat slots.length] ++ [], (by decide), ?_⟩⟩
    · simp only [Request.encode, encodeList, List.length_map, List.append_assoc]
    · simp only [perform, listReply, List.append_assoc]

/-- The message a request that is served is answered with. -/
def Request.ack : Request → M64pMsg
  | .hello => .helloAck
  | .peekv .. => .peekvResp
  | .pokev .. => .pokeAck
  | .peekrom .. => .peekromResp
  | .watch .. => .watchAck

theorem perform_ack (h : Hooks) (s : MemProto) (r : Request) : byteAt (perform h s r).2 4 = r.ack.code := by
  cases r with
  | hello => simp only [perform, handleHello, List.append_assoc]; rfl
  | _ => simp only [perform, listReply, List.append_assoc]; rfl

/-- The message a request is sent as. -/
def Request.msg : Request → M64pMsg
  | .hello => .hello
  | .peekv .. => .peekv
  | .pokev .. => .pokev
  | .peekrom .. => .peekrom
  | .watch .. => .watch

theorem byteAt_encode (r : Request) (rest : Bytes) : byteAt (r.encode ++ rest) 4 = r.msg.code := by
  cases r <;> simp only [Request.encode, List.append_assoc] <;> rfl

end Encode

theorem M64pMsg.code_inj {a b : M64pMsg} (h : a.code = b.code) : a = b := by
  cases a <;> cases b <;> first | rfl | exact absurd h (by decide)

/-- A reply is a `HELLO_ACK` if and only if the request is a `HELLO`, and any
other names the request's rid. -/
theorem Handled.reply_rid {h : Hooks} {s s' : MemProto} {p reply : Bytes}
    (hh : Handled h s p (some (s', reply))) (hlen : isHello p = false → 8 ≤ p.length) :
    isHelloAck reply = isHello p ∧ (isHello p = false → readBe16 reply 5 = readBe16 p 5) := by
  have hnot : ∀ (msg : M64pMsg) {t : Bytes}, msg ≠ .helloAck → isHelloAck (appHeader msg ++ t) = false :=
    fun _ _ hne => decide_eq_false fun heq => hne (M64pMsg.code_inj heq)
  cases hh with
  | refused rid e hmsg hrid =>
    have hp : isHello p = false := decide_eq_false hmsg
    rw [List.append_assoc]
    refine ⟨(hnot .err nofun).trans hp.symm, fun _ => ?_⟩
    rw [readBe16_header, hrid (hlen hp)]
  | repeated rid n hr =>
    obtain ⟨count, tail, hp⟩ := hr.poke
    rw [hp, List.append_assoc, List.append_assoc]
    exact ⟨(hnot .pokeAck nofun).trans rfl, fun _ => by rw [readBe16_header, readBe16_header]⟩
  | performed r rest he hf hr =>
    rcases Request.encode_rid he with ⟨hr', hp⟩ | ⟨msg, rid, t, hp, hmsg, hperf⟩
    · subst hr'
      refine ⟨?_, fun hno => absurd (hp.symm.trans hno) (by decide)⟩
      rw [hp]
      simp only [perform, handleHello, List.append_assoc]
      rfl
    · obtain ⟨ack, rest', hack, hreply⟩ := hperf h s
      have hno : isHello p = false := by
        rw [hp]
        exact decide_eq_false fun heq => hmsg (M64pMsg.code_inj heq)
      rw [hreply]
      refine ⟨(hnot ack hack).trans hno.symm, fun _ => ?_⟩
      rw [hp, readBe16_header, readBe16_header]

end Multi64
