import Mathlib

/-!
# Integer operations with overflow checks

A build with overflow checks (Rust's debug assertions) panics where integer arithmetic leaves its
type: `<<` on a shift by the type's width or more, and `+`, `*` and `-` on signed integers whose exact
result is out of range. These are the checked forms of the operations on `UInt64` and `Int64`,
`none` for the panic. Where they succeed they are the wrapping operations a build without the
checks computes (`shlChecked_eq_some`, `mulChecked_eq_some`, `subChecked_eq_some`), so a model
of the unchecked build is also one of the checked build on every input that does not panic.

Unsigned arithmetic of `w` bits on values modelled as `Nat` is checked by `Checked.add`,
`Checked.sub` and `Checked.mul`; `Checked.div` is the division, which panics on a zero divisor in
every build.
-/

namespace UInt64

/-- `x << s` with the shift checked: it panics for `s ≥ 64`. -/
def shlChecked (x : UInt64) (s : Nat) : Option UInt64 :=
  if s < 64 then some (x <<< s.toUInt64) else none

theorem shlChecked_of_lt {s : Nat} (h : s < 64) (x : UInt64) :
    x.shlChecked s = some (x <<< s.toUInt64) := if_pos h

theorem shlChecked_eq_some {x y : UInt64} {s : Nat} :
    x.shlChecked s = some y ↔ s < 64 ∧ x <<< s.toUInt64 = y := by
  unfold shlChecked
  split <;> simp_all

end UInt64

namespace Int64

/-- Whether an integer is a value of `i64`. -/
def InRange (z : Int) : Prop := -2 ^ 63 ≤ z ∧ z < 2 ^ 63

instance (z : Int) : Decidable (InRange z) := inferInstanceAs (Decidable (_ ∧ _))

/-- `a + b` with the overflow checked. -/
def addChecked (a b : Int64) : Option Int64 :=
  if InRange (a.toInt + b.toInt) then some (a + b) else none

/-- `a * b` with the overflow checked. -/
def mulChecked (a b : Int64) : Option Int64 :=
  if InRange (a.toInt * b.toInt) then some (a * b) else none

/-- `a - b` with the overflow checked. -/
def subChecked (a b : Int64) : Option Int64 :=
  if InRange (a.toInt - b.toInt) then some (a - b) else none

/-- Where the sum is a value of `i64`, the wrapping addition computes it. -/
theorem toInt_add_of_inRange {a b : Int64} (h : InRange (a.toInt + b.toInt)) :
    (a + b).toInt = a.toInt + b.toInt := by
  obtain ⟨hlo, hhi⟩ := h
  rw [Int64.toInt_add, Int.bmod_eq_iff (by norm_num)]
  exact ⟨by omega, by omega, by simp⟩

/-- Past `i64::MAX` the wrapping addition comes round to the sum minus `2^64`. -/
theorem toInt_add_of_le {a b : Int64} (h : 2 ^ 63 ≤ a.toInt + b.toInt) :
    (a + b).toInt = a.toInt + b.toInt - 2 ^ 64 := by
  have ha := a.toInt_lt
  have hb := b.toInt_lt
  rw [Int64.toInt_add, Int.bmod_eq_iff (by norm_num)]
  exact ⟨by omega, by omega, ⟨-1, by push_cast; omega⟩⟩

theorem mulChecked_eq_some {a b c : Int64} :
    a.mulChecked b = some c ↔ InRange (a.toInt * b.toInt) ∧ a * b = c := by
  unfold mulChecked
  split <;> simp_all

theorem subChecked_eq_some {a b c : Int64} :
    a.subChecked b = some c ↔ InRange (a.toInt - b.toInt) ∧ a - b = c := by
  unfold subChecked
  split <;> simp_all

end Int64

namespace Checked

/-- `a + b` on unsigned integers of `w` bits, with the overflow checked. -/
def add (w a b : Nat) : Option Nat := if a + b < 2 ^ w then some (a + b) else none

/-- `a - b` on unsigned integers, with the underflow checked. -/
def sub (a b : Nat) : Option Nat := if b ≤ a then some (a - b) else none

/-- `a * b` on unsigned integers of `w` bits, with the overflow checked. -/
def mul (w a b : Nat) : Option Nat := if a * b < 2 ^ w then some (a * b) else none

/-- `a / b` on unsigned integers: a zero divisor panics. -/
def div (a b : Nat) : Option Nat := if b = 0 then none else some (a / b)

theorem add_eq_some {w a b c : Nat} : add w a b = some c ↔ a + b < 2 ^ w ∧ a + b = c := by
  unfold add
  split <;> simp_all

theorem sub_eq_some {a b c : Nat} : sub a b = some c ↔ b ≤ a ∧ a - b = c := by
  unfold sub
  split <;> simp_all

theorem mul_eq_some {w a b c : Nat} : mul w a b = some c ↔ a * b < 2 ^ w ∧ a * b = c := by
  unfold mul
  split <;> simp_all

theorem div_eq_some {a b c : Nat} : div a b = some c ↔ b ≠ 0 ∧ a / b = c := by
  unfold div
  split <;> simp_all

@[simp] theorem div_zero (a : Nat) : div a 0 = none := rfl

end Checked
