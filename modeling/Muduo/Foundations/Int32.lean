import Mathlib.Tactic

/-!
# Signed integers of 32 bits

Every result of an operation on an `int` is passed through `int32`, which fails
where the result does not fit. A computation that does not fail has not
overflowed anywhere, and is then the computation on integers.
-/

namespace Foundations

variable {ε : Type*}

/-- The value, if an `int` can hold it. -/
def int32 (overflow : ε) (n : ℤ) : Except ε ℤ :=
  if -2147483648 ≤ n ∧ n ≤ 2147483647 then .ok n else .error overflow

theorem int32_ok {overflow : ε} {n : ℤ} (hlow : -2147483648 ≤ n) (hhigh : n ≤ 2147483647) :
    int32 overflow n = .ok n :=
  if_pos ⟨hlow, hhigh⟩

/-- Where nothing is negative, division truncates as it rounds down. -/
theorem tdiv_of_nonneg {n : ℤ} (h : 0 ≤ n) (d : ℤ) : n.tdiv d = n / d :=
  Int.tdiv_eq_ediv_of_nonneg h

end Foundations
