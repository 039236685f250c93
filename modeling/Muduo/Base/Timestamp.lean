import Mathlib.Tactic

/-!
# Points in time

A `Timestamp` counts microseconds since the epoch in an `int64_t`. The results of sums and
differences are reduced modulo `2 ^ 64`, as the machine does it.
-/

namespace Muduo

/-- `microSecondsSinceEpoch_`. -/
abbrev Timestamp := ℤ

/-- What an `int64_t` keeps of a result. -/
def int64 (n : ℤ) : ℤ := Int.bmod n (2 ^ 64)

/-- The values of an `int64_t`. -/
def FitsInt64 (n : ℤ) : Prop := -2 ^ 63 ≤ n ∧ n < 2 ^ 63

instance (n : ℤ) : Decidable (FitsInt64 n) := inferInstanceAs (Decidable (_ ∧ _))

theorem int64_of_fits {n : ℤ} (h : FitsInt64 n) : int64 n = n :=
  Int.bmod_eq_of_le h.1 h.2

theorem fits_int64 (n : ℤ) : FitsInt64 (int64 n) :=
  ⟨Int.le_bmod (by decide), Int.bmod_lt (by decide)⟩

theorem fits_sub {a b : ℤ} (ha : 0 < a) (ha' : FitsInt64 a) (hb : 0 < b) (hb' : FitsInt64 b) :
    FitsInt64 (a - b) := by
  unfold FitsInt64 at *
  omega

namespace Timestamp

def kMicroSecondsPerSecond : ℤ := 1000 * 1000

def invalid : Timestamp := 0

def valid (t : Timestamp) : Bool := 0 < t

end Timestamp

/-- The seconds are given in the whole microseconds that the source makes of them. -/
def addTime (timestamp : Timestamp) (microseconds : ℤ) : Timestamp :=
  int64 (timestamp + microseconds)

end Muduo
