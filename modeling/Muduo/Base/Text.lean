import Muduo.Foundations.Numerals

/-!
# Strings

A string is the list of its bytes.
-/

namespace Muduo

open Foundations

abbrev Bytes := List UInt8

def ascii (s : String) : Bytes := s.toList.map fun c => UInt8.ofNat c.toNat

/-- What `snprintf` leaves in a buffer of `size` bytes, the last of which ends the string. -/
def snprintf (size : ℕ) (text : Bytes) : Bytes := text.take (size - 1)

theorem snprintf_of_lt {size : ℕ} {text : Bytes} (h : text.length < size) :
    snprintf size text = text :=
  List.take_of_length_le (by omega)

/-- What `%d` prints for a number that is not negative. -/
def decimal (n : ℕ) : Bytes :=
  if n = 0 then ascii "0" else (Nat.digits 10 n).reverse.map fun d => UInt8.ofNat (48 + d)

/-- What `%d` prints. -/
def signedDecimal : ℤ → Bytes
  | .ofNat n => decimal n
  | .negSucc n => ascii "-" ++ decimal (n + 1)

/-- What `%d` prints with a width, which is filled up with blanks. -/
def blankPadded (width : ℕ) (v : ℤ) : Bytes :=
  List.replicate (width - (signedDecimal v).length) 32 ++ signedDecimal v

/-- What `%d` prints with a width and the flag `0`. -/
def zeroPadded (width : ℕ) (v : ℤ) : Bytes :=
  (if v < 0 then ascii "-" else []) ++ List.replicate (width - (signedDecimal v).length) 48 ++
    decimal v.natAbs

theorem decimal_eq_numeral (n : ℕ) :
    decimal n = (numeral 10 n).map fun d => UInt8.ofNat (48 + d) := by
  rw [decimal, numeral]
  split_ifs
  · rfl
  · rfl

theorem signedDecimal_eq (v : ℤ) :
    signedDecimal v = (if v < 0 then ascii "-" else []) ++ decimal v.natAbs := by
  cases v with
  | ofNat n => rfl
  | negSucc n => simp [signedDecimal]

theorem ofNat_digit_inj {d e : ℕ} (hd : d < 10) (he : e < 10)
    (h : UInt8.ofNat (48 + d) = UInt8.ofNat (48 + e)) : d = e := by
  have hnat := congrArg UInt8.toNat h
  simp only [UInt8.toNat_ofNat'] at hnat
  omega

theorem decimal_inj {m n : ℕ} (hm : 0 < m) (hn : 0 < n) (h : decimal m = decimal n) : m = n := by
  rw [decimal, decimal, if_neg hm.ne', if_neg hn.ne', List.map_reverse, List.map_reverse,
    List.reverse_inj] at h
  rw [← Nat.digits_inj_iff (b := 10)]
  have hlength : (Nat.digits 10 m).length = (Nat.digits 10 n).length := by
    simpa using congrArg List.length h
  refine List.ext_getElem hlength fun k hk hk' => ?_
  have hdigit := congrArg (fun l : Bytes => l[k]?) h
  simp only [List.getElem?_map, List.getElem?_eq_getElem hk, List.getElem?_eq_getElem hk',
    Option.map_some, Option.some.injEq] at hdigit
  exact ofNat_digit_inj (Nat.digits_lt_base (by decide) (List.getElem_mem hk))
    (Nat.digits_lt_base (by decide) (List.getElem_mem hk')) hdigit

theorem length_decimal_le {n k : ℕ} (h : n < 10 ^ (k + 1)) : (decimal n).length ≤ k + 1 := by
  rw [decimal]
  split_ifs
  · exact Nat.succ_le_succ (Nat.zero_le k)
  · simpa using (Nat.digits_length_le_iff (by decide) n).mpr h

theorem length_zeroPadded {k : ℕ} {v : ℤ} (hpos : 0 ≤ v) (h : v < 10 ^ (k + 1)) :
    (zeroPadded (k + 1) v).length = k + 1 := by
  obtain ⟨n, rfl⟩ := Int.eq_ofNat_of_zero_le hpos
  have hlength := length_decimal_le (show n < 10 ^ (k + 1) by exact_mod_cast h)
  rw [zeroPadded, if_neg (by omega), List.nil_append, List.length_append, List.length_replicate,
    Int.natAbs_natCast]
  show k + 1 - (decimal n).length + (decimal n).length = k + 1
  omega

end Muduo
