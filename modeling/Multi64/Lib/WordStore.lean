import Multi64.Lib.Store

/-! Words of a store, most significant byte first. -/

namespace Multi64

/-- Two ranges of addresses, a start and a length each, with none in common. -/
abbrev RunsApart (a n c k : Nat) : Prop := a + n ≤ c ∨ c + k ≤ a

namespace Store

variable (m : Store) {a c : Nat} {v : UInt32}

def read32 (a : Nat) : UInt32 := readBe32 (m.read a 4) 0

def write32 (a : Nat) (v : UInt32) : Store := m.write a (putBe32 v)

theorem read32_write32 (a : Nat) (v : UInt32) : (m.write32 a v).read32 a = v := by
  have hread : (m.write a (putBe32 v)).read a 4 = putBe32 v := m.read_write a (putBe32 v)
  have hput := readBe32_putBe32 v []
  rw [List.append_nil] at hput
  rw [read32, write32, hread, hput]

/-- A word that a write does not reach. -/
theorem read32_write {b : Bytes} (h : RunsApart a b.length c 4) : (m.write a b).read32 c = m.read32 c := by
  rw [read32, m.read_write_disjoint a h.symm, read32]

theorem read32_write32_apart (h : RunsApart a 4 c 4) : (m.write32 a v).read32 c = m.read32 c :=
  m.read32_write (by simpa using h)

end Store

end Multi64
