import Mathlib.Tactic
import Mathlib.Data.Nat.Digits.Lemmas

/-!
# Positional numerals

A numeral lists the digits of a number, the highest one first; zero has one digit.
Reading is written down on its own, so that a printed text can be compared with what a
reader makes of it.
-/

namespace Foundations

variable {α : Type*} {b n : ℕ}

/-- The digits of `n` in base `b`. -/
def numeral (b n : ℕ) : List ℕ := if n = 0 then [0] else (Nat.digits b n).reverse

theorem numeral_of_lt (h : n < b) : numeral b n = [n] := by
  rw [numeral]
  split_ifs with hn
  · rw [hn]
  · rw [Nat.digits_of_lt b n hn h, List.reverse_singleton]

/-- The last digit is the remainder, and the others are the numeral of the quotient. -/
theorem numeral_of_le (hb : 1 < b) (h : b ≤ n) : numeral b n = numeral b (n / b) ++ [n % b] := by
  have hn : n ≠ 0 := by omega
  have hq : n / b ≠ 0 := (Nat.div_pos h (by omega)).ne'
  rw [numeral, numeral, if_neg hn, if_neg hq, Nat.digits_def' hb (Nat.pos_of_ne_zero hn),
    List.reverse_cons]

theorem numeral_ne_nil (hb : 1 < b) (n : ℕ) : numeral b n ≠ [] := by
  rcases lt_or_ge n b with h | h
  · simp [numeral_of_lt h]
  · simp [numeral_of_le hb h]

theorem lt_of_mem_numeral (hb : 1 < b) {d : ℕ} (hd : d ∈ numeral b n) : d < b := by
  rw [numeral] at hd
  split_ifs at hd
  · rw [List.mem_singleton] at hd
    omega
  · exact Nat.digits_lt_base hb (List.mem_reverse.mp hd)

theorem numeral_of_head (h : (numeral b n).head? = some 0) : numeral b n = [0] := by
  rw [numeral] at h ⊢
  split_ifs at h ⊢ with hn
  · rfl
  · rw [List.head?_reverse] at h
    have hne : Nat.digits b n ≠ [] := Nat.digits_ne_nil_iff_ne_zero.mpr hn
    rw [List.getLast?_eq_some_getLast hne] at h
    exact absurd (Option.some.inj h) (Nat.getLast_digit_ne_zero b hn)

theorem length_numeral_le (hb : 1 < b) {k : ℕ} (hk : 0 < k) (h : n < b ^ k) :
    (numeral b n).length ≤ k := by
  rw [numeral]
  split_ifs
  · exact hk
  · rw [List.length_reverse]
    exact (Nat.digits_length_le_iff hb n).mpr h

/-- The number that a text denotes, if it is not empty and consists of digits. -/
def readNumeral (b : ℕ) (digitOf : α → Option ℕ) (text : List α) : Option ℕ :=
  if text.isEmpty then none else text.foldlM (fun v c => (digitOf c).map (v * b + ·)) 0

theorem readNumeral_numeral (hb : 1 < b) {digitOf : α → Option ℕ} {glyph : ℕ → α}
    (hglyph : ∀ d < b, digitOf (glyph d) = some d) (n : ℕ) :
    readNumeral b digitOf ((numeral b n).map glyph) = some n := by
  have hne : ((numeral b n).map glyph).isEmpty = false := by
    simp [numeral_ne_nil hb n]
  rw [readNumeral, hne, if_neg (by simp)]
  clear hne
  induction n using Nat.strong_induction_on with
  | _ n ih =>
    rcases lt_or_ge n b with h | h
    · simp [numeral_of_lt h, hglyph n h]
    · have hrest := ih (n / b) (Nat.div_lt_self (by omega) hb)
      have hdigit := hglyph (n % b) (Nat.mod_lt n (by omega))
      rw [numeral_of_le hb h, List.map_append, List.foldlM_append, hrest]
      simp [hdigit, Nat.div_add_mod']

end Foundations
