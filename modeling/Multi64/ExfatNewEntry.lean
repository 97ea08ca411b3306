import Multi64.ExfatDirSlots

/-! A new entry of a directory: built, written to the free slots that were found
for it, and listed beside the entries that were there. -/

namespace Multi64

namespace Exfat

section Splice

variable {slots new : List Bytes} {r n : Nat}

theorem sameOutside_splice (hlen : new.length = n) (hin : r + n ≤ slots.length) :
    SameOutside slots (slots.take r ++ (new ++ slots.drop (r + n))) r n := by
  have htake : (slots.take r).length = r := by
    rw [List.length_take]
    omega
  refine ⟨?_, fun i hi => ?_, fun i hi => ?_⟩
  · simp only [List.length_append, List.length_drop, htake, hlen]
    omega
  · have hlt : i < slots.length := by omega
    simp [slot, List.getD_eq_getElem?_getD, List.getElem?_append_left, htake, hi, hlt]
  · obtain ⟨k, rfl⟩ := Nat.exists_eq_add_of_le hi
    have hk : r + n + k - r - n = k := by omega
    rw [slot, slot, List.getD_eq_getElem?_getD, List.getD_eq_getElem?_getD, List.getElem?_append_right (by omega),
      List.getElem?_append_right (by omega), htake, hlen, hk, List.getElem?_drop]

end Splice

section New

variable {nameHash : Text → UInt16} {now : Stamp} {name : Text} {attributes : UInt16} {first : UInt32} {len : UInt64}
  {contiguous : Bool} {set : List Slab} {p : Partition} {dir : ExfatDirSlots} {link : FlakyCard} {r : Nat}

theorem validateRenameName_ok (h : validateRenameName name = .ok ()) :
    0 < (Text.encodeUtf16 name).length ∧ (Text.encodeUtf16 name).length ≤ 255 := by
  unfold validateRenameName at h
  cases hdot : refuseDotName name with
  | error e =>
    rw [hdot] at h
    nomatch h
  | ok u =>
    simp only [hdot] at h
    by_cases hlen : (Text.encodeUtf16 name).length = 0 ∨ maxFilenameLen < (Text.encodeUtf16 name).length
    · rw [if_pos hlen] at h
      nomatch h
    · rw [maxFilenameLen] at hlen
      omega

theorem contiguous_flag : (if contiguous = true then (0x03 : UInt8) else 0x01).toNat.testBit 1 = contiguous := by
  cases contiguous <;> decide

end New

/-- A partition of one sector, and a directory of the 16 slots in it. -/
def sectorPartition : Partition := ⟨0, 512, by decide, by decide, by decide⟩

def sectorDir : ExfatDirSlots := ⟨[0], 16⟩

theorem sectorDir_sound : sectorDir.Sound sectorPartition :=
  ⟨by decide, by decide, by decide, List.pairwise_singleton _ _⟩

/-- A card with these slots, which obeys every command. -/
def slotCard (slots : List Bytes) : FlakyCard := ⟨fun a => byteAt slots.flatten a, fun _ => .works, 0⟩

theorem slot_past {slots : List Bytes} {i : Nat} (h : slots.length ≤ i) : Unused slots i := by
  have hnil : slot slots i = [] := by simp [slot, h]
  rw [Unused, hnil]
  decide

end Exfat

end Multi64
