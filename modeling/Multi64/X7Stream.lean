import Multi64.X7Wire

/-! The host's stream for the cart as whole messages: where each begins, and
what it means that a run of bytes and losses accounts for them. -/

namespace Multi64

/-- A message the host's encoder accepts. -/
structure UsbMessage extends WireMessage where
  fits : payload.length ≤ maxMessageBytes

namespace UsbMessage

variable (m : UsbMessage)

/-- The payload's length on the wire. -/
def padded : Nat := (m.payload.length + 1) / 2 * 2

def wire : Bytes :=
  dmaMagic ++ messageHead m.datatype m.payload.length ++
    (m.payload ++ List.replicate (m.padded - m.payload.length) 0) ++ cmpMagic

theorem encodeMessage_eq : encodeMessage m.datatype m.payload = .ok m.wire := by
  have hfits := m.fits
  have halign : alignUp m.payload.length wireAlign = m.padded := rfl
  rw [encodeMessage, if_neg (by omega)]
  simp only [halign, wire]

theorem le_padded : m.payload.length ≤ m.padded := by
  unfold padded
  omega

@[simp] theorem wire_length : m.wire.length = 12 + m.padded := by
  have hle := m.le_padded
  simp only [wire, List.length_append, dmaMagic_length, messageHead_length, cmpMagic_length, List.length_replicate]
  omega

/-- The first eight bytes, and what is behind them. -/
theorem wire_eq : m.wire = dmaMagic ++ (messageHead m.datatype m.payload.length ++
    (m.payload ++ (List.replicate (m.padded - m.payload.length) 0 ++ cmpMagic))) := by
  simp only [wire, List.append_assoc]

end UsbMessage

def hostStream (ms : List UsbMessage) : Bytes := ms.flatMap UsbMessage.wire

/-- Where message `n` begins. -/
def offset (ms : List UsbMessage) (n : Nat) : Nat := (hostStream (ms.take n)).length

/-- How many messages begin before `p`. -/
def begun : List UsbMessage → Nat → Nat
  | [], _ => 0
  | m :: ms, p => if p = 0 then 0 else begun ms (p - m.wire.length) + 1

section Offsets

variable {ms : List UsbMessage}

@[simp] theorem hostStream_cons (m : UsbMessage) (ms : List UsbMessage) :
    hostStream (m :: ms) = m.wire ++ hostStream ms := rfl

@[simp] theorem offset_zero (ms : List UsbMessage) : offset ms 0 = 0 := rfl

theorem offset_cons (m : UsbMessage) (ms : List UsbMessage) (n : Nat) :
    offset (m :: ms) (n + 1) = m.wire.length + offset ms n := by
  rw [offset, List.take_succ_cons, hostStream_cons, List.length_append, offset]

theorem drop_offset {n : Nat} {m : UsbMessage} (h : ms[n]? = some m) :
    (hostStream ms).drop (offset ms n) = m.wire ++ hostStream (ms.drop (n + 1)) := by
  induction ms generalizing n with
  | nil => simp at h
  | cons x ms ih =>
    cases n with
    | zero =>
      obtain rfl : x = m := by simpa using h
      rfl
    | succ n =>
      have hrest := ih (n := n) (by simpa using h)
      rw [offset_cons, hostStream_cons, ← List.drop_drop, List.drop_left' rfl, hrest]
      rfl

theorem offset_succ {n : Nat} {m : UsbMessage} (h : ms[n]? = some m) :
    offset ms (n + 1) = offset ms n + m.wire.length := by
  induction ms generalizing n with
  | nil => simp at h
  | cons x ms ih =>
    cases n with
    | zero =>
      obtain rfl : x = m := by simpa using h
      simp [offset_cons]
    | succ n =>
      have hrest := ih (n := n) (by simpa using h)
      rw [offset_cons, offset_cons, hrest]
      omega

theorem offset_le (ms : List UsbMessage) (n : Nat) : offset ms n ≤ (hostStream ms).length := by
  induction ms generalizing n with
  | nil => simp [offset]
  | cons m ms ih =>
    cases n with
    | zero => simp
    | succ n =>
      have hrest := ih n
      rw [offset_cons, hostStream_cons, List.length_append]
      omega

@[simp] theorem begun_zero (ms : List UsbMessage) : begun ms 0 = 0 := by
  cases ms with
  | nil => rfl
  | cons m ms => rfl

theorem begun_mono (ms : List UsbMessage) {p q : Nat} (h : p ≤ q) : begun ms p ≤ begun ms q := by
  induction ms generalizing p q with
  | nil => exact Nat.le_refl _
  | cons m ms ih =>
    have hrest := ih (p := p - m.wire.length) (q := q - m.wire.length) (by omega)
    by_cases hp : p = 0
    · rw [hp, begun_zero]
      exact Nat.zero_le _
    · rw [begun, begun, if_neg hp, if_neg (by omega)]
      omega

theorem begun_le (p : Nat) : begun ms p ≤ ms.length := by
  induction ms generalizing p with
  | nil => exact Nat.le_refl _
  | cons m ms ih =>
    have hrest := ih (p - m.wire.length)
    rw [begun, List.length_cons]
    split
    · exact Nat.zero_le _
    · omega

theorem begun_offset {n : Nat} (h : n ≤ ms.length) : begun ms (offset ms n) = n := by
  induction ms generalizing n with
  | nil =>
    obtain rfl : n = 0 := by simpa using h
    rfl
  | cons m ms ih =>
    cases n with
    | zero => simp
    | succ n =>
      have hrest := ih (n := n) (by simpa using h)
      have hpos := m.wire_length
      rw [offset_cons, begun, if_neg (by omega), Nat.add_sub_cancel_left, hrest]

/-- Inside a message, the messages begun are those up to it. -/
theorem begun_inside {n p : Nat} {m : UsbMessage} (h : ms[n]? = some m) (hp : offset ms n < p)
    (hle : p ≤ offset ms n + m.wire.length) : begun ms p = n + 1 := by
  induction ms generalizing n p with
  | nil => simp at h
  | cons x ms ih =>
    cases n with
    | zero =>
      obtain rfl : x = m := by simpa using h
      rw [offset_zero, Nat.zero_add] at hle
      rw [begun, if_neg (by omega), Nat.sub_eq_zero_of_le hle, begun_zero]
    | succ n =>
      rw [offset_cons] at hp hle
      have hrest := ih (n := n) (p := p - x.wire.length) (by simpa using h) (by omega) (by omega)
      rw [begun, if_neg (by omega), hrest]

theorem exists_message (ms : List UsbMessage) {n : Nat} (h : offset ms n < (hostStream ms).length) : ∃ m, ms[n]? = some m := by
  by_cases hn : n < ms.length
  · exact ⟨ms[n], List.getElem?_eq_getElem hn⟩
  · rw [offset, List.take_of_length_le (by omega)] at h
    omega

end Offsets

section Reading

variable {ms : List UsbMessage} {n : Nat} {m : UsbMessage}

theorem slice_message (h : ms[n]? = some m) {i k : Nat} (hle : i + k ≤ m.wire.length) :
    slice (hostStream ms) (offset ms n + i) k = slice m.wire i k := by
  rw [slice, ← List.drop_drop, drop_offset h]
  exact slice_append_left hle _

/-- The header of a message: magic, datatype, size. -/
theorem slice_header (h : ms[n]? = some m) :
    slice (hostStream ms) (offset ms n) 8 = dmaMagic ++ messageHead m.datatype m.payload.length := by
  have hlen := m.wire_length
  rw [← Nat.add_zero (offset ms n), slice_message h (by omega), m.wire_eq]
  rfl

theorem slice_magic (h : ms[n]? = some m) : slice (hostStream ms) (offset ms n) 4 = dmaMagic := by
  have hlen := m.wire_length
  rw [← Nat.add_zero (offset ms n), slice_message h (by omega), m.wire_eq]
  rfl

theorem slice_body (h : ms[n]? = some m) {i k : Nat} (hle : i + k ≤ m.padded) :
    slice (hostStream ms) (offset ms n + 8 + i) k =
      slice (m.payload ++ List.replicate (m.padded - m.payload.length) 0) i k := by
  have hlen := m.wire_length
  have hpad := m.le_padded
  have hbody : i + k ≤ (m.payload ++ List.replicate (m.padded - m.payload.length) 0).length := by
    rw [List.length_append, List.length_replicate]
    omega
  rw [Nat.add_assoc, slice_message h (by omega), slice, ← List.drop_drop, m.wire_eq, ← List.append_assoc m.payload]
  exact slice_append_left hbody _

/-- Of a piece of the padded payload, what is not padding continues the payload. -/
theorem take_slice_body (h : ms[n]? = some m) {i k : Nat} (hle : i + k ≤ m.padded) :
    m.payload.take (min m.payload.length i) ++
      (slice (hostStream ms) (offset ms n + 8 + i) k).take (m.payload.length - min m.payload.length i) =
      m.payload.take (min m.payload.length (i + k)) := by
  rw [slice_body h hle]
  by_cases hi : i ≤ m.payload.length
  · rw [Nat.min_eq_right hi, slice, List.drop_append_of_le_length hi, List.take_take, Nat.min_comm,
      List.take_append_of_le_length (by rw [List.length_drop]; omega),
      show min m.payload.length (i + k) = i + min k (m.payload.length - i) by omega, List.take_add]
  · rw [Nat.min_eq_left (by omega), Nat.sub_self, List.take_zero, List.append_nil, Nat.min_eq_left (by omega)]

theorem slice_trailer (h : ms[n]? = some m) : slice (hostStream ms) (offset ms (n + 1) - 4) 4 = cmpMagic := by
  have hlen := m.wire_length
  have hpad := m.le_padded
  have hnext := offset_succ h
  have hbody : (dmaMagic ++ messageHead m.datatype m.payload.length ++
      (m.payload ++ List.replicate (m.padded - m.payload.length) 0)).length = 8 + m.padded := by
    simp only [List.length_append, dmaMagic_length, messageHead_length, List.length_replicate]
    omega
  rw [show offset ms (n + 1) - 4 = offset ms n + (8 + m.padded) by omega, slice_message h (by omega), slice,
    UsbMessage.wire, List.drop_left' hbody]
  rfl

end Reading

/-- Where the stream has the first bytes of a header, a message begins. -/
def Clean (ms : List UsbMessage) : Prop :=
  ∀ p, slice (hostStream ms) p 4 = dmaMagic → ∃ n, n < ms.length ∧ p = offset ms n

/-- The run `syms` of delivered bytes and reported losses (`none`) accounts for
the first `n` messages: each is not for the agent, delivered whole, or among
those a loss reported at its place stands for. -/
inductive Accounts (ms : List UsbMessage) : Nat → List (Option UInt8) → Prop where
  | start : Accounts ms 0 []
  | other {n : Nat} {syms : List (Option UInt8)} {m : UsbMessage} (h : Accounts ms n syms) (hm : ms[n]? = some m)
      (htype : m.datatype ≠ multi64L3Type) : Accounts ms (n + 1) syms
  | got {n : Nat} {syms : List (Option UInt8)} {m : UsbMessage} (h : Accounts ms n syms) (hm : ms[n]? = some m)
      (htype : m.datatype = multi64L3Type) : Accounts ms (n + 1) (syms ++ m.payload.map some)
  | lost {n k : Nat} {syms : List (Option UInt8)} (h : Accounts ms n syms) (hle : n ≤ k) (hk : k ≤ ms.length) :
      Accounts ms k (syms ++ [none])

/-- What a loss in the run follows accounts for the messages up to it. -/
theorem Accounts.before_loss {ms : List UsbMessage} {n : Nat} {syms : List (Option UInt8)} (h : Accounts ms n syms) :
    ∀ pre post, syms = pre ++ none :: post → ∃ k ≤ n, Accounts ms k pre := by
  induction h with
  | start => simp
  | other h hm htype ih =>
    intro pre post heq
    obtain ⟨k, hle, hk⟩ := ih pre post heq
    exact ⟨k, by omega, hk⟩
  | @got n syms m h hm htype ih =>
    intro pre post heq
    have hsplit : ∃ post', syms = pre ++ none :: post' := by
      rcases List.append_eq_append_iff.mp heq with ⟨c, hpre, hpay⟩ | ⟨c, hsyms, hpost⟩
      · have hmem : (none : Option UInt8) ∈ m.payload.map some := by simp [hpay]
        simp at hmem
      · cases c with
        | nil =>
          have hmem : (none : Option UInt8) ∈ m.payload.map some := by
            rw [show m.payload.map some = none :: post from hpost.symm]
            simp
          simp at hmem
        | cons x c =>
          obtain ⟨rfl, -⟩ := List.cons.inj hpost
          exact ⟨c, hsyms⟩
    obtain ⟨post', hpost'⟩ := hsplit
    obtain ⟨k, hle, hk⟩ := ih pre post' hpost'
    exact ⟨k, by omega, hk⟩
  | @lost n k syms h hle hk ih =>
    intro pre post heq
    rcases List.append_eq_append_iff.mp heq with ⟨c, hpre, hpay⟩ | ⟨c, hsyms, hpost⟩
    · cases c with
      | nil =>
        rw [List.append_nil] at hpre
        exact ⟨n, hle, hpre ▸ h⟩
      | cons x c => simp at hpay
    · cases c with
      | nil =>
        rw [List.append_nil] at hsyms
        exact ⟨n, hle, hsyms ▸ h⟩
      | cons x c =>
        obtain ⟨rfl, -⟩ := List.cons.inj hpost
        obtain ⟨j, hj, hacc⟩ := ih pre c hsyms
        exact ⟨j, by omega, hacc⟩

/-- A byte handed over comes with the whole of its payload. -/
theorem Accounts.whole {ms : List UsbMessage} {n : Nat} {syms : List (Option UInt8)} (h : Accounts ms n syms)
    {b : UInt8} (hb : some b ∈ syms) : ∃ m ∈ ms, b ∈ m.payload ∧ ∀ b' ∈ m.payload, some b' ∈ syms := by
  induction h with
  | start => simp at hb
  | other h hm htype ih => exact ih hb
  | got h hm htype ih =>
    rcases List.mem_append.mp hb with hold | hnew
    · obtain ⟨m, hmem, hin, hall⟩ := ih hold
      exact ⟨m, hmem, hin, fun b' hb' => List.mem_append_left _ (hall b' hb')⟩
    · refine ⟨_, List.mem_of_getElem? hm, by simpa using hnew, fun b' hb' => List.mem_append_right _ ?_⟩
      exact List.mem_map_of_mem hb'
  | lost h hle hk ih =>
    have hold := (List.mem_append.mp hb).resolve_right (by simp)
    obtain ⟨m, hmem, hin, hall⟩ := ih hold
    exact ⟨m, hmem, hin, fun b' hb' => List.mem_append_left _ (hall b' hb')⟩

theorem Accounts.le_length {ms : List UsbMessage} {n : Nat} {syms : List (Option UInt8)} (h : Accounts ms n syms) :
    n ≤ ms.length := by
  cases h with
  | start => exact Nat.zero_le _
  | other h hm htype => exact (List.getElem?_eq_some_iff.mp hm).1
  | got h hm htype => exact (List.getElem?_eq_some_iff.mp hm).1
  | lost h hle hk => exact hk

end Multi64
