import Multi64.Lib.Except
import Multi64.Lib.Image
import Multi64.Lib.LuaNumber
import Multi64.Pj64Framing
import Multi64.Pj64Lists

/-! Numbers that a client of the Project64 connector writes, and reads back. -/

namespace Multi64

namespace Lua

namespace Num

/-- The whole number toward zero, and 0 of what is no number. -/
def whole : Num → Int
  | .int n => n
  | .float (.finite d) => truncated d.val
  | .float _ => 0

/-- A number that is not below 0, if it is one. -/
def Nonneg : Num → Prop
  | .int n => 0 ≤ n
  | .float x => ∀ d, x = .finite d → 0 ≤ d.val

theorem Nonneg.ofRat {q : ℚ} (h : 0 ≤ q) : Nonneg (.float (.ofRat q)) := by
  intro d hd
  rw [Flt.ofRat_finite hd]
  exact rounded_nonneg h

theorem Nonneg.ofWhole {n : Int} (h : 0 ≤ n) : Nonneg (.ofWhole n) := by
  rw [Num.ofWhole]
  split
  · exact h
  · exact .ofRat (by exact_mod_cast h)

theorem Nonneg.toFlt {x : Num} (h : Nonneg x) : Nonneg (.float x.toFlt) := by
  cases x with
  | int n => exact .ofRat (by exact_mod_cast h)
  | float x => exact h

theorem Nonneg.div {x : Num} (h : Nonneg x) {m : ℚ} (hm : 0 ≤ m) : Nonneg (x.div m) := by
  have hflt := h.toFlt
  rw [Num.div]
  cases hx : x.toFlt with
  | finite d => exact .ofRat (div_nonneg (hflt d hx) hm)
  | inf negative => exact fun d hd => nomatch hd
  | nan => exact fun d hd => nomatch hd

theorem Nonneg.ceil {x : Num} (h : Nonneg x) : Nonneg x.ceil := by
  cases x with
  | int n => exact h
  | float x =>
    cases x with
    | finite d => exact .ofWhole (Int.ceil_nonneg (h d rfl))
    | inf negative => exact h
    | nan => exact h

theorem Nonneg.toInteger {x : Num} (h : Nonneg x) {n : Int} (hn : x.toInteger = some n) : 0 ≤ n := by
  cases x with
  | int m => exact Option.some.inj hn ▸ h
  | float x =>
    cases x with
    | finite d =>
      simp only [Num.toInteger] at hn
      split at hn
      · rw [← Option.some.inj hn]
        exact Int.floor_nonneg.mpr (h d rfl)
      · cases hn
    | inf negative => cases hn
    | nan => cases hn

end Num

end Lua

namespace Pj64

open Lua LuaJson

section Bits

variable {v : Value} {ty : Ty} {values : List Value}

/-- A number in a type's range. -/
def inRange (ty : Ty) (n : Int) : Int := if ty.isSigned then n.bmod (256 ^ ty.step) else n % 256 ^ ty.step

/-- What is read back of a value. -/
def stored (ty : Ty) (v : Value) : Int := inRange ty (toNumber v).whole

def chunk (ty : Ty) (v : Value) : Bytes := (putLe ((toNumber v).whole % 256 ^ ty.step).toNat ty.step).reverse

end Bits

section Views

variable {env : Env} {mem : Bytes} {r : ReadSpec} {ty : Ty} {addr : Int} {n : Nat}

/-- Where a read begins. -/
def start (addr : Int) : Nat := (addr % 0x20000000).toNat

/-- How many values a read covers. -/
def count (r : ReadSpec) : Nat := (extent r.ty r.size).1.toNat

/-- What a read shows of memory: the bytes as text, or each value from its own
bytes. -/
def view (mem : Bytes) (r : ReadSpec) : Shown :=
  match r.ty with
  | .bytestring => .str (bytesToText (slice mem (start r.addr) (count r)))
  | ty => .array ((List.range (count r)).map fun i => unpack ty (slice mem (start r.addr + i * ty.step) ty.step))

/-- A read that is in RDRAM. -/
def Fits (mem : Bytes) (r : ReadSpec) : Prop := start r.addr + count r * r.ty.step ≤ mem.length

end Views

section Written

variable {mem data : Bytes} {ty : Ty} {values : List Value} {p : Nat} {r : ReadSpec}

end Written

section Lines

variable {env : Env} {mem message id : Bytes} {ty : Ty} {addr : Int} {l : List Spaced}

/-- A read of the values of a list, where and as they were written. -/
structure Covers (r : ReadSpec) (ty : Ty) (addr : Int) (l : List Spaced) : Prop where
  ty : r.ty = ty
  start : r.addr % 0x20000000 = addr % 0x20000000
  count : (extent r.ty r.size).1 = l.length

end Lines

end Pj64

end Multi64
