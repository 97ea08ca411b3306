import Multi64.Lib.Except
import Multi64.Lib.Lines
import Multi64.Pj64Bridge

/-! Which replies of the Project64 connector are one line, and what a client that
splits the stream at the newlines makes of them. -/

namespace Multi64

namespace LuaJson

open Lua

section Encoded

variable {s : Bytes} {l : List Bytes} {x : UInt8}

theorem mem_intercalate {sep : UInt8} (h : x ∈ [sep].intercalate l) : x = sep ∨ ∃ s ∈ l, x ∈ s := by
  induction l with
  | nil => simp [List.intercalate] at h
  | cons a l ih =>
    cases l with
    | nil =>
      rw [List.intercalate_singleton] at h
      exact .inr ⟨a, List.mem_cons_self, h⟩
    | cons b l =>
      rw [List.intercalate_cons_cons, List.mem_append, List.mem_append, List.mem_singleton] at h
      rcases h with (h | h) | h
      · exact .inr ⟨a, List.mem_cons_self, h⟩
      · exact .inl h
      · rcases ih h with h | ⟨s, hs, h⟩
        · exact .inl h
        · exact .inr ⟨s, List.mem_cons_of_mem a hs, h⟩

/-- What an escaped character leaves has no control characters. -/
theorem escapeChar_printable (hb : x < 0x20 ∨ x = 0x5C ∨ x = 0x22) : ∀ y ∈ escapeChar x, 0x20 ≤ y := by
  have hall : ∀ n : Fin 256, (UInt8.ofNat n < 0x20 ∨ UInt8.ofNat n = 0x5C ∨ UInt8.ofNat n = 0x22) →
      ∀ y ∈ escapeChar (UInt8.ofNat n), 0x20 ≤ y := by
    decide +kernel
  have hx := hall ⟨x.toNat, x.toNat_lt⟩
  rw [UInt8.ofNat_toNat] at hx
  exact hx hb

theorem encodeString_printable (s : Bytes) : ∀ y ∈ encodeString s, 0x20 ≤ y := by
  intro y hy
  rw [encodeString, List.mem_append, List.mem_cons, List.mem_flatMap, List.mem_singleton] at hy
  rcases hy with (rfl | ⟨b, -, hy⟩) | rfl
  · decide
  · by_cases hb : b < 0x20 ∨ b = 0x5C ∨ b = 0x22
    · rw [if_pos hb] at hy
      exact escapeChar_printable hb y hy
    · rw [if_neg hb, List.mem_singleton] at hy
      rw [hy]
      exact UInt8.not_lt.mp fun hlt => hb (.inl hlt)
  · decide

theorem encodeNumber_printable (n : Int) : ∀ y ∈ encodeNumber n, 0x20 ≤ y := by
  intro y hy
  rw [encodeNumber, List.mem_append] at hy
  rcases hy with hy | hy
  · by_cases hn : n < 0
    · rw [if_pos hn, List.mem_singleton] at hy
      rw [hy]
      decide
    · simp [if_neg hn] at hy
  · obtain ⟨c, hc, rfl⟩ := List.mem_map.mp hy
    have hdigit := Nat.isDigit_of_mem_toDigits (by decide) (by decide) hc
    simp only [Char.isDigit, Bool.and_eq_true, decide_eq_true_eq] at hdigit
    obtain ⟨hlow, hhigh⟩ := hdigit
    rw [UInt8.le_iff_toNat_le, UInt8.toNat_ofNat']
    have hlow' : 0x30 ≤ c.toNat := hlow
    have hhigh' : c.toNat ≤ 0x39 := hhigh
    rw [Nat.mod_eq_of_lt (by omega)]
    exact le_trans (by decide) hlow'

theorem encodeArray_printable (hl : ∀ a ∈ l, ∀ y ∈ a, 0x20 ≤ y) : ∀ y ∈ encodeArray l, 0x20 ≤ y := by
  intro y hy
  rw [encodeArray, List.mem_append, List.mem_cons, List.mem_singleton] at hy
  rcases hy with (rfl | hy) | rfl
  · decide
  · rcases mem_intercalate hy with rfl | ⟨a, ha, hy⟩
    · decide
    · exact hl a ha y hy
  · decide

theorem encode_printable (v : Shown) : ∀ y ∈ encode v, 0x20 ≤ y := by
  cases v with
  | num n => exact encodeNumber_printable n
  | str s => exact encodeString_printable s
  | array l =>
    refine encodeArray_printable fun a ha => ?_
    obtain ⟨n, -, rfl⟩ := List.mem_map.mp ha
    exact encodeNumber_printable n

theorem encodeField_printable {e : Value × Shown} (h : encodeField e = .ok s) : ∀ y ∈ s, 0x20 ≤ y := by
  obtain ⟨key, v⟩ := e
  cases key with
  | str key =>
    intro y hy
    rw [← Except.ok.inj h, List.mem_append, List.mem_append, List.mem_singleton] at hy
    rcases hy with (hy | rfl) | hy
    · exact encodeString_printable key y hy
    · decide
    · exact encode_printable v y hy
  | nil | bool | num | table => exact nomatch h

theorem encodeTable_printable {t : Tables} {entries : List (Value × Shown)} (h : encodeTable t entries = .ok s) :
    ∀ y ∈ s, 0x20 ≤ y := by
  rw [encodeTable] at h
  split at h
  · simp only at h
    split at h
    · rw [← Except.ok.inj h]
      refine encodeArray_printable fun a ha => ?_
      obtain ⟨v, -, rfl⟩ := List.mem_map.mp ha
      exact encode_printable v
    · exact nomatch h
  · obtain ⟨fields, hfields, h⟩ := except_bind_ok h
    rw [← Except.ok.inj h]
    intro y hy
    rw [List.mem_append, List.mem_cons, List.mem_singleton] at hy
    rcases hy with (rfl | hy) | rfl
    · decide
    · rcases mem_intercalate hy with rfl | ⟨a, ha, hy⟩
      · decide
      · obtain ⟨e, -, he⟩ := mapM_mem hfields ha
        exact encodeField_printable he y hy
    · decide

end Encoded

end LuaJson

namespace Pj64

open Lua LuaJson

section Text

variable {data : Bytes}

theorem utf8Char_eq (b : UInt8) : utf8Char b = String.utf8EncodeChar (Char.ofNat b.toNat) := by
  have hall : ∀ n : Fin 256, utf8Char (UInt8.ofNat n) = String.utf8EncodeChar (Char.ofNat (UInt8.ofNat n).toNat) := by
    decide +kernel
  have hb := hall ⟨b.toNat, b.toNat_lt⟩
  rwa [UInt8.ofNat_toNat] at hb

/-- The text of a bytestring is a character for each byte, with its code. -/
theorem decode_bytesToText (data : Bytes) :
    (bytesToText data).toByteArray.utf8Decode? = some (data.map fun b => Char.ofNat b.toNat).toArray := by
  have htext : (bytesToText data).toByteArray = (data.map fun b => Char.ofNat b.toNat).utf8Encode := by
    rw [List.utf8Encode, List.flatMap_map, bytesToText]
    congr 2
    exact funext utf8Char_eq
  rw [htext, List.utf8Decode?_utf8Encode]

end Text

section Answers

variable {env : Env} {mem after payload reply message : Bytes} {r : ReadSpec}

/-- The bytes a read covers, as they are in memory. -/
def covered (mem : Bytes) (r : ReadSpec) : Bytes := slice mem (r.addr % 0x20000000).toNat (extent r.ty r.size).2.toNat

/-- What a `read` of a bytestring covers. -/
def payloadText (mem payload : Bytes) : Option Bytes :=
  if ((words payload).headD []).map lower = ascii "read" then
    (readArgs (words payload)).bind fun r => if r.ty = .bytestring then some (covered mem r) else none
  else none

def rawText (mem message : Bytes) : Option Bytes := (parseLine message).bind fun line => payloadText mem line.2

theorem phys_ok {size : Nat} {addr len : Int} {p : Nat} (h : phys size addr len = .ok p) : p = (addr % 0x20000000).toNat := by
  rw [phys] at h
  split at h
  · exact nomatch h
  · exact (Except.ok.inj h).symm

/-- A block is the bytes in memory that the read covers. -/
theorem fetch_region {at_ : Nat × Int} {block : Bytes} (hregion : region mem r = .ok at_) (hfetch : fetch mem at_ = .ok block) :
    block = covered mem r := by
  rw [region] at hregion
  rw [fetch] at hfetch
  by_cases hbytes : 0 < (extent r.ty r.size).2
  · simp only [if_pos hbytes] at hregion
    obtain ⟨p, hp, rfl⟩ := except_map_ok hregion
    rw [if_neg (by simpa using hbytes)] at hfetch
    split at hfetch
    · rw [← Except.ok.inj hfetch, phys_ok hp, covered]
    · exact nomatch hfetch
  · simp only [if_neg hbytes] at hregion
    obtain rfl := Except.ok.inj hregion
    rw [if_pos (by simpa using hbytes)] at hfetch
    have hnone : (extent r.ty r.size).2.toNat = 0 := by omega
    rw [← Except.ok.inj hfetch, covered, hnone, slice, List.take_zero]

theorem readAll_one {l : List Shown} (h : readAll mem [r] = .ok l) : ∃ v, l = [v] ∧ shown r (covered mem r) = .ok v := by
  obtain ⟨regions, hregions, h⟩ := except_bind_ok h
  obtain ⟨blocks, hblocks, h⟩ := except_bind_ok h
  obtain ⟨at_, rest, hregion, hrest, rfl⟩ := mapM_cons_ok hregions
  obtain rfl := Except.ok.inj hrest
  obtain ⟨block, rest, hfetch, hrest, rfl⟩ := mapM_cons_ok hblocks
  obtain rfl := Except.ok.inj hrest
  obtain ⟨v, rest, hshown, hrest, rfl⟩ := mapM_cons_ok h
  obtain rfl := Except.ok.inj hrest
  exact ⟨v, rfl, fetch_region hregion hfetch ▸ hshown⟩

theorem answerRead_text {args : List Bytes} (h : answerRead mem args = .ok reply) :
    (∀ y ∈ reply, 0x20 ≤ y) ∧ (∀ r, readArgs args = some r → r.ty ≠ .bytestring) ∨
      ∃ r, readArgs args = some r ∧ r.ty = .bytestring ∧ reply = bytesToText (covered mem r) := by
  rw [answerRead] at h
  cases hargs : readArgs args with
  | none =>
    rw [hargs] at h
    left
    rw [← Except.ok.inj h]
    exact ⟨by decide +kernel, by simp⟩
  | some r =>
    rw [hargs] at h
    obtain ⟨l, hl, h⟩ := except_bind_ok h
    obtain ⟨v, rfl, hv⟩ := readAll_one hl
    by_cases hty : r.ty = .bytestring
    · right
      rw [shown, hty] at hv
      obtain rfl := Except.ok.inj hv
      exact ⟨r, rfl, hty, (Except.ok.inj h).symm⟩
    · left
      have hlist : ∃ ns, v = .array ns := by
        rw [shown] at hv
        split at hv
        · exact absurd ‹_› hty
        · obtain ⟨ns, -, rfl⟩ := except_map_ok hv
          exact ⟨ns, rfl⟩
      obtain ⟨ns, rfl⟩ := hlist
      rw [← Except.ok.inj h]
      refine ⟨encode_printable _, fun r' hr' => ?_⟩
      rwa [← Option.some.inj hr']

theorem answerDict_printable (h : answerDict env mem payload = .ok reply) : ∀ y ∈ reply, 0x20 ≤ y := by
  have hinvalid : ∀ y ∈ ascii "Invalid Dict JSON Format", 0x20 ≤ y := by decide +kernel
  rw [answerDict] at h
  split at h
  · simp only at h
    split at h
    · rw [← Except.ok.inj h]
      exact hinvalid
    · obtain ⟨values, -, h⟩ := except_bind_ok h
      exact encodeTable_printable h
  · rw [← Except.ok.inj h]
    exact hinvalid

theorem writeArgs_printable {args : List Bytes} {refused : Bytes} (h : writeArgs args payload = .ok (.inl refused)) :
    ∀ y ∈ refused, 0x20 ≤ y := by
  rw [writeArgs] at h
  split at h
  · rw [← Sum.inl.inj (Except.ok.inj h)]
    decide +kernel
  · split at h
    · rw [← Sum.inl.inj (Except.ok.inj h)]
      decide +kernel
    · obtain ⟨data, -, h⟩ := except_map_ok h
      exact nomatch h
    · split at h
      · rw [← Sum.inl.inj (Except.ok.inj h)]
        decide +kernel
      · obtain ⟨data, -, h⟩ := except_map_ok h
        exact nomatch h

/-- An answer is printable, but for the text of a bytestring. -/
theorem answer_text (h : answer env mem payload = .ok (reply, after)) :
    (∀ y ∈ reply, 0x20 ≤ y) ∧ payloadText mem payload = none ∨
      ∃ text, payloadText mem payload = some text ∧ reply = bytesToText text := by
  have hother : ∀ {command : Bytes}, ((words payload).headD []).map lower = command → command ≠ ascii "read" →
      payloadText mem payload = none := fun hc hne => by rw [payloadText, hc, if_neg hne]
  rw [answer] at h
  split at h
  next hc =>
    obtain ⟨shown, hshown, h⟩ := except_map_ok h
    obtain ⟨rfl, -⟩ := Prod.mk.inj h
    exact .inl ⟨encodeTable_printable hshown, hother hc (by decide)⟩
  split at h
  next hc =>
    obtain ⟨shown, hshown, h⟩ := except_map_ok h
    obtain ⟨rfl, -⟩ := Prod.mk.inj h
    rw [payloadText, if_pos hc]
    obtain ⟨hquiet, hnone⟩ | ⟨r, hr, hty, rfl⟩ := answerRead_text hshown
    · left
      refine ⟨hquiet, ?_⟩
      cases hargs : readArgs (words payload) with
      | none => rfl
      | some r => simp [hnone r hargs]
    · right
      exact ⟨covered mem r, by simp [hr, hty], rfl⟩
  split at h
  next hc =>
    obtain ⟨shown, hshown, h⟩ := except_map_ok h
    obtain ⟨rfl, -⟩ := Prod.mk.inj h
    exact .inl ⟨answerDict_printable hshown, hother hc (by decide)⟩
  split at h
  next hc =>
    obtain ⟨args, hargs, h⟩ := except_bind_ok h
    left
    refine ⟨?_, hother hc (by decide)⟩
    cases args with
    | inl refused =>
      obtain ⟨rfl, -⟩ := Prod.mk.inj (Except.ok.inj h)
      exact writeArgs_printable hargs
    | inr write =>
      obtain ⟨after', -, h⟩ := except_bind_ok h
      obtain ⟨rfl, -⟩ := Prod.mk.inj (Except.ok.inj h)
      decide +kernel
  next hread _ _ =>
    obtain ⟨rfl, -⟩ := Prod.mk.inj (Except.ok.inj h)
    exact .inl ⟨by decide +kernel, by rw [payloadText, if_neg hread]⟩

theorem handle_some {id : Bytes} (hline : parseLine message = some (id, payload))
    (h : handle env mem message = .ok (reply, after)) :
    ∃ shown, answer env mem payload = .ok (shown, after) ∧ reply = id ++ 0x3A :: shown := by
  rw [handle, hline] at h
  obtain ⟨⟨shown, after'⟩, hanswer, h⟩ := except_map_ok h
  obtain ⟨rfl, rfl⟩ := Prod.mk.inj h
  exact ⟨shown, hanswer, rfl⟩

end Answers

/-- A line of the client that was answered. The server splits what the client
sends at the newlines, so none is in it. -/
structure Exchange where
  env : Env
  mem : Bytes
  message : Bytes
  reply : Bytes
  after : Bytes
  line : 0x0A ∉ message
  answered : handle env mem message = .ok (reply, after)

namespace Exchange

/-- A `read` of a bytestring finds no newline in memory. -/
def Plain (x : Exchange) : Prop := ∀ text, rawText x.mem x.message = some text → 0x0A ∉ text

/-- A reply is the id, and for the `read` of a bytestring a character for each
byte in memory. -/
theorem reply_eq (x : Exchange) {id payload : Bytes} (hline : parseLine x.message = some (id, payload)) :
    ∃ shown, x.reply = id ++ 0x3A :: shown ∧ ∀ text, rawText x.mem x.message = some text →
      shown.toByteArray.utf8Decode? = some (text.map fun b => Char.ofNat b.toNat).toArray := by
  obtain ⟨shown, hanswer, hreply⟩ := handle_some hline x.answered
  refine ⟨shown, hreply, fun text htext => ?_⟩
  rw [rawText, hline, Option.bind_some] at htext
  obtain ⟨-, hnone⟩ | ⟨text', htext', rfl⟩ := answer_text hanswer
  · exact nomatch htext.symm.trans hnone
  · rw [Option.some.inj (htext.symm.trans htext'), decode_bytesToText]

end Exchange

section Stream

/-- What the server sends for the lines it answered: each reply and a newline. -/
def sent (l : List Exchange) : Bytes := ended 0x0A (l.map Exchange.reply)

end Stream

end Pj64

end Multi64
