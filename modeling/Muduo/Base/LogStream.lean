import Muduo.Foundations.Numerals
import Muduo.Base.FixedBuffer

/-!
# Formatting log messages

`LogStream` formats values into a buffer of 4000 bytes. Texts go through `append`.
Numbers are written at `current()` directly, behind a test for 32 free bytes; that this
is enough follows from the lengths of the numerals.
-/

namespace Muduo

open Foundations

/-- A table of digits; the digit zero stands at `zero`, and in front of it are digits for
negative remainders. -/
structure DigitTable where
  base : ℕ
  digits : Bytes
  zero : ℕ
  two_le : 2 ≤ base

namespace DigitTable

def decimal : DigitTable := ⟨10, ascii "9876543210123456789", 9, by decide⟩

def hex : DigitTable := ⟨16, ascii "0123456789ABCDEF", 0, by decide⟩

variable (t : DigitTable)

/-- `zero[lsd]`. -/
def digit (lsd : ℤ) : Except Fault UInt8 :=
  if 0 ≤ t.zero + lsd then
    match t.digits[(t.zero + lsd).toNat]? with
    | some c => .ok c
    | none => .error .outOfBounds
  else .error .outOfBounds

variable {t}

theorem natAbs_tdiv (i : ℤ) : (i.tdiv t.base).natAbs = i.natAbs / t.base :=
  Int.natAbs_tdiv i t.base

theorem natAbs_tdiv_lt {i : ℤ} (h : i.tdiv t.base ≠ 0) : (i.tdiv t.base).natAbs < i.natAbs := by
  have hpos : 0 < (i.tdiv t.base).natAbs := Int.natAbs_pos.mpr h
  rw [natAbs_tdiv] at hpos ⊢
  exact Nat.div_lt_self (Nat.pos_of_div_pos hpos) t.two_le

end DigitTable

variable {SIZE : ℕ}

/-- The loop of `convert` and `convertHex`. The result is the position behind the digits. -/
def emitDigits (t : DigitTable) (b : FixedBuffer SIZE) (p : ℕ) (i : ℤ) :
    Except Fault (FixedBuffer SIZE × ℕ) := do
  let c ← t.digit (i.tmod t.base)
  let b ← b.write p [c]
  if h : i.tdiv t.base ≠ 0 then emitDigits t b (p + 1) (i.tdiv t.base) else return (b, p + 1)
termination_by i.natAbs
decreasing_by exact DigitTable.natAbs_tdiv_lt h

/-- The end of both functions: the zero, the digits in their order, and the length. -/
def terminate (b : FixedBuffer SIZE) (buf p : ℕ) : Except Fault (FixedBuffer SIZE × ℕ) := do
  let b ← b.write p [0]
  let b ← b.reverse buf p
  return (b, p - buf)

def convert (b : FixedBuffer SIZE) (buf : ℕ) (value : ℤ) : Except Fault (FixedBuffer SIZE × ℕ) := do
  let (b, p) ← emitDigits .decimal b buf value
  let (b, p) ←
    if value < 0 then do
      let b ← b.write p (ascii "-")
      pure (b, p + 1)
    else pure (b, p)
  terminate b buf p

def convertHex (b : FixedBuffer SIZE) (buf : ℕ) (value : UInt64) :
    Except Fault (FixedBuffer SIZE × ℕ) := do
  let (b, p) ← emitDigits .hex b buf value.toNat
  terminate b buf p

/-- The integer types of up to 64 bits. -/
structure IntegerType where
  signed : Bool
  width : ℕ
  width_le : width ≤ 64
  deriving DecidableEq, Repr

namespace IntegerType

variable (T : IntegerType)

def low : ℤ := if T.signed then -2 ^ (T.width - 1) else 0

def high : ℤ := if T.signed then 2 ^ (T.width - 1) else 2 ^ T.width

def Holds (v : ℤ) : Prop := T.low ≤ v ∧ v < T.high

instance (v : ℤ) : Decidable (T.Holds v) := inferInstanceAs (Decidable (_ ∧ _))

end IntegerType

def kSmallBuffer : ℕ := 4000

structure LogStream where
  buffer : FixedBuffer kSmallBuffer

/-- What `operator<<` takes. A `double` is given by what `snprintf` prints for it. -/
inductive LogValue where
  | bool (v : Bool)
  | char (v : UInt8)
  | integer (T : IntegerType) (v : ℤ) (holds : T.Holds v)
  | pointer (p : UInt64)
  | double (text : Bytes) (short : text.length < 32)
  /-- a pointer to a string, which ends at its first zero -/
  | cString (str : Option Bytes)
  /-- `string`, `StringPiece` and the helpers that know their length -/
  | string (v : Bytes)
  | buffer (v : FixedBuffer kSmallBuffer)

namespace LogStream

def kMaxNumericSize : ℕ := 32

def new : LogStream := ⟨.new⟩

variable (s : LogStream)

def append (data : Bytes) : Except Fault LogStream :=
  if data.length < s.buffer.avail then do
    let b ← s.buffer.write s.buffer.cur data
    let b ← b.add data.length
    return ⟨b⟩
  else return s

def formatInteger (v : ℤ) : Except Fault LogStream :=
  if kMaxNumericSize ≤ s.buffer.avail then do
    let (b, len) ← convert s.buffer s.buffer.cur v
    let b ← b.add len
    return ⟨b⟩
  else return s

def formatPointer (p : UInt64) : Except Fault LogStream :=
  if kMaxNumericSize ≤ s.buffer.avail then do
    let b ← s.buffer.write s.buffer.cur (ascii "0")
    let b ← b.write (b.cur + 1) (ascii "x")
    let (b, len) ← convertHex b (b.cur + 2) p
    let b ← b.add (len + 2)
    return ⟨b⟩
  else return s

/-- `snprintf` ends its text with a zero. -/
def formatDouble (text : Bytes) : Except Fault LogStream :=
  if kMaxNumericSize ≤ s.buffer.avail then do
    let b ← s.buffer.write s.buffer.cur (snprintf kMaxNumericSize text ++ [0])
    let b ← b.add text.length
    return ⟨b⟩
  else return s

/-- `operator<<`. -/
def insert : LogValue → Except Fault LogStream
  | .bool v => s.append (if v then ascii "1" else ascii "0")
  | .char v => s.append [v]
  | .integer _ v _ => s.formatInteger v
  | .pointer p => s.formatPointer p
  | .double text _ => s.formatDouble text
  | .cString none => s.append (ascii "(null)")
  | .cString (some str) => s.append (str.takeWhile (· ≠ 0))
  | .string v => s.append v
  | .buffer v => s.append v.bytes

def insertAll (values : List LogValue) : Except Fault LogStream := values.foldlM insert s

end LogStream

theorem emitDigits_eq {t : DigitTable} {glyph : ℕ → UInt8} (i : ℤ)
    (hglyph : ∀ lsd : ℤ, lsd.natAbs < t.base → 0 ≤ lsd ∨ i < 0 →
      t.digit lsd = .ok (glyph lsd.natAbs)) (b : FixedBuffer SIZE) (p : ℕ)
    (hroom : p + (numeral t.base i.natAbs).length ≤ SIZE) :
    emitDigits t b p i = .ok (b.put p ((numeral t.base i.natAbs).map glyph).reverse,
      p + (numeral t.base i.natAbs).length) := by
  induction hn : i.natAbs using Nat.strong_induction_on generalizing i b p with
  | _ n ih =>
    rw [hn] at hroom
    have hbase := t.two_le
    have hmod : (i.tmod t.base).natAbs = n % t.base := by
      rw [Int.natAbs_tmod, hn, Int.natAbs_natCast]
    have hdiv : (i.tdiv t.base).natAbs = n / t.base := by
      rw [DigitTable.natAbs_tdiv, hn]
    have hsign : 0 ≤ i.tmod t.base ∨ i < 0 := by
      rcases lt_or_ge i 0 with hneg | hpos
      · exact .inr hneg
      · exact .inl (Int.tmod_nonneg _ hpos)
    have hdigit := hglyph _ (hmod ▸ Nat.mod_lt n (by omega)) hsign
    rw [hmod] at hdigit
    rw [emitDigits, hdigit, ok_bind]
    rcases lt_or_ge n t.base with hlt | hge
    · -- the last digit of the loop is the first one of the numeral
      have hstop : ¬ i.tdiv t.base ≠ 0 := by
        rw [not_not, ← Int.natAbs_eq_zero, hdiv]
        exact Nat.div_eq_of_lt hlt
      rw [numeral_of_lt hlt] at hroom ⊢
      rw [b.write_ok hroom, ok_bind, dif_neg hstop, Nat.mod_eq_of_lt hlt]
      rfl
    · have hmore : i.tdiv t.base ≠ 0 := by
        rw [← Int.natAbs_ne_zero, hdiv]
        exact (Nat.div_pos hge (by omega)).ne'
      have hlength : (numeral t.base n).length = (numeral t.base (n / t.base)).length + 1 := by
        rw [numeral_of_le (by omega) hge, List.length_append, List.length_singleton]
      have hglyph' : ∀ lsd : ℤ, lsd.natAbs < t.base → 0 ≤ lsd ∨ i.tdiv t.base < 0 →
          t.digit lsd = .ok (glyph lsd.natAbs) := by
        intro lsd hlsd hneg
        refine hglyph lsd hlsd (hneg.imp_right fun hneg => ?_)
        by_contra hpos
        exact absurd (Int.tdiv_nonneg (not_lt.mp hpos) (Int.natCast_nonneg _)) (not_le.mpr hneg)
      have hrest := ih (n / t.base) (Nat.div_lt_self (by omega) (by omega)) (i.tdiv t.base) hglyph'
        (b.put p [glyph (n % t.base)]) (p + 1) (by rw [hdiv]; omega) hdiv
      have hput := FixedBuffer.put_put (b := b) p [glyph (n % t.base)]
        ((numeral t.base (n / t.base)).map glyph).reverse
      rw [List.length_singleton] at hput
      rw [b.write_ok (by rw [List.length_singleton]; omega), ok_bind, dif_pos hmore, hrest, hput,
        numeral_of_le (by omega) hge, List.map_append, List.reverse_append, List.length_append]
      simp only [List.map_cons, List.map_nil, List.reverse_singleton, List.length_singleton]
      congr 2
      omega

theorem decimal_digit {lsd : ℤ} (h : lsd.natAbs < 10) :
    DigitTable.decimal.digit lsd = .ok (UInt8.ofNat (48 + lsd.natAbs)) := by
  have hlow : -9 ≤ lsd := by omega
  have hhigh : lsd ≤ 9 := by omega
  interval_cases lsd <;> rfl

/-- The digits of `digitsHex`. -/
def hexGlyph (d : ℕ) : UInt8 := UInt8.ofNat (if d < 10 then 48 + d else 55 + d)

theorem hex_digit {lsd : ℤ} (h : lsd.natAbs < 16) (hpos : 0 ≤ lsd) :
    DigitTable.hex.digit lsd = .ok (hexGlyph lsd.natAbs) := by
  have hhigh : lsd ≤ 15 := by omega
  interval_cases lsd <;> rfl

/-- What is printed for an address, without the prefix. -/
def hexadecimal (v : UInt64) : Bytes := (numeral 16 v.toNat).map hexGlyph

theorem emitDigits_decimal {b : FixedBuffer SIZE} {p : ℕ} {i : ℤ}
    (h : p + (decimal i.natAbs).length ≤ SIZE) :
    emitDigits .decimal b p i =
      .ok (b.put p (decimal i.natAbs).reverse, p + (decimal i.natAbs).length) := by
  rw [decimal_eq_numeral, List.length_map] at h ⊢
  exact emitDigits_eq (t := .decimal) i (fun lsd hlsd _ => decimal_digit hlsd) b p h

theorem emitDigits_hex {b : FixedBuffer SIZE} {p : ℕ} {v : UInt64}
    (h : p + (hexadecimal v).length ≤ SIZE) :
    emitDigits .hex b p v.toNat =
      .ok (b.put p (hexadecimal v).reverse, p + (hexadecimal v).length) := by
  rw [hexadecimal, List.length_map] at h ⊢
  have hdigit : ∀ lsd : ℤ, lsd.natAbs < 16 → 0 ≤ lsd ∨ (v.toNat : ℤ) < 0 →
      DigitTable.hex.digit lsd = .ok (hexGlyph lsd.natAbs) :=
    fun lsd hlsd hsign => hex_digit hlsd (hsign.resolve_right (by omega))
  exact emitDigits_eq (t := .hex) v.toNat hdigit b p h

theorem terminate_put {b : FixedBuffer SIZE} {buf : ℕ} {text : Bytes}
    (h : buf + text.length + 1 ≤ SIZE) :
    terminate (b.put buf text.reverse) buf (buf + text.length) =
      .ok (b.put buf (text ++ [0]), text.length) := by
  have hput := FixedBuffer.put_put (b := b) buf text.reverse [0]
  have hreverse := FixedBuffer.reverse_put (b := b) (p := buf) (s := text.reverse) [0]
    (by rw [List.length_reverse]; omega)
  rw [List.length_reverse] at hput hreverse
  rw [List.reverse_reverse] at hreverse
  rw [terminate, FixedBuffer.write_ok h, ok_bind, hput, hreverse, ok_bind, Nat.add_sub_cancel_left]
  rfl

theorem convert_eq {b : FixedBuffer SIZE} {buf : ℕ} {value : ℤ}
    (h : buf + (signedDecimal value).length + 1 ≤ SIZE) :
    convert b buf value =
      .ok (b.put buf (signedDecimal value ++ [0]), (signedDecimal value).length) := by
  by_cases hneg : value < 0
  · have htext : signedDecimal value = ascii "-" ++ decimal value.natAbs := by
      rw [signedDecimal_eq, if_pos hneg]
    have hlength : (signedDecimal value).length = (decimal value.natAbs).length + 1 := by
      rw [htext, List.length_append, Nat.add_comm]
      rfl
    have hput : (b.put buf (decimal value.natAbs).reverse).put
        (buf + (decimal value.natAbs).length) (ascii "-") =
        b.put buf (signedDecimal value).reverse := by
      have hput := FixedBuffer.put_put (b := b) buf (decimal value.natAbs).reverse (ascii "-")
      rw [List.length_reverse] at hput
      rw [hput, htext, List.reverse_append]
      rfl
    have hwrite : (b.put buf (decimal value.natAbs).reverse).write
        (buf + (decimal value.natAbs).length) (ascii "-") =
        .ok ((b.put buf (decimal value.natAbs).reverse).put
          (buf + (decimal value.natAbs).length) (ascii "-")) :=
      FixedBuffer.write_ok (by rw [hlength] at h; exact le_of_lt h)
    have hend := terminate_put (b := b) h
    rw [convert, emitDigits_decimal (by omega), ok_bind]
    simp only [if_pos hneg, hwrite, ok_bind, hput, pure_eq_ok]
    rw [hlength, ← add_assoc] at hend
    rw [hend, hlength]
  · have htext : signedDecimal value = decimal value.natAbs := by
      rw [signedDecimal_eq, if_neg hneg, List.nil_append]
    rw [htext] at h ⊢
    rw [convert, emitDigits_decimal (by omega), ok_bind]
    simp only [if_neg hneg, ok_bind, pure_eq_ok]
    exact terminate_put h

theorem convertHex_eq {b : FixedBuffer SIZE} {buf : ℕ} {v : UInt64}
    (h : buf + (hexadecimal v).length + 1 ≤ SIZE) :
    convertHex b buf v = .ok (b.put buf (hexadecimal v ++ [0]), (hexadecimal v).length) := by
  rw [convertHex, emitDigits_hex (by omega), ok_bind]
  exact terminate_put h

def decimalDigit (c : UInt8) : Option ℕ :=
  if 48 ≤ c.toNat ∧ c.toNat ≤ 57 then some (c.toNat - 48) else none

def hexDigit (c : UInt8) : Option ℕ :=
  if 48 ≤ c.toNat ∧ c.toNat ≤ 57 then some (c.toNat - 48)
  else if 65 ≤ c.toNat ∧ c.toNat ≤ 70 then some (c.toNat - 55) else none

def magnitude (text : Bytes) : Bytes := if text.head? = some 45 then text.tail else text

def readInteger (text : Bytes) : Option ℤ :=
  (readNumeral 10 decimalDigit (magnitude text)).map fun n : ℕ =>
    if text.head? = some 45 then -(n : ℤ) else n

def NoLeadingZero (digits : Bytes) : Prop := digits.head? = some 48 → digits = [48]

theorem noLeadingZero_map {base : ℕ} (hbase : 1 < base) {glyph : ℕ → UInt8}
    (hzero : ∀ d < base, glyph d = 48 ↔ d = 0) (n : ℕ) :
    NoLeadingZero ((numeral base n).map glyph) := by
  intro hhead
  rw [List.head?_map, Option.map_eq_some_iff] at hhead
  obtain ⟨d, hd, hglyph⟩ := hhead
  have hlt := lt_of_mem_numeral hbase (List.mem_of_mem_head? hd)
  rw [(hzero d hlt).mp hglyph] at hd
  rw [numeral_of_head hd, List.map_singleton, (hzero 0 (by omega)).mpr rfl]

theorem decimalDigit_ofNat {d : ℕ} (h : d < 10) : decimalDigit (UInt8.ofNat (48 + d)) = some d := by
  interval_cases d <;> rfl

theorem hexDigit_hexGlyph {d : ℕ} (h : d < 16) : hexDigit (hexGlyph d) = some d := by
  interval_cases d <;> rfl

theorem readNumeral_decimal (n : ℕ) : readNumeral 10 decimalDigit (decimal n) = some n := by
  rw [decimal_eq_numeral]
  exact readNumeral_numeral (by decide) (fun d hd => decimalDigit_ofNat hd) n

theorem readNumeral_hexadecimal (v : UInt64) :
    readNumeral 16 hexDigit (hexadecimal v) = some v.toNat :=
  readNumeral_numeral (by decide) (fun _ hd => hexDigit_hexGlyph hd) v.toNat

theorem noLeadingZero_decimal (n : ℕ) : NoLeadingZero (decimal n) := by
  rw [decimal_eq_numeral]
  refine noLeadingZero_map (by decide) (fun d hd => ?_) n
  interval_cases d <;> decide

theorem noLeadingZero_hexadecimal (v : UInt64) : NoLeadingZero (hexadecimal v) := by
  refine noLeadingZero_map (by decide) (fun d hd => ?_) v.toNat
  interval_cases d <;> decide

theorem head_decimal (n : ℕ) : (decimal n).head? ≠ some 45 := by
  rw [decimal_eq_numeral, List.head?_map]
  intro hhead
  obtain ⟨d, hd, hglyph⟩ := Option.map_eq_some_iff.mp hhead
  have hlt : d < 10 := lt_of_mem_numeral (by decide) (List.mem_of_mem_head? hd)
  interval_cases d <;> simp at hglyph

theorem head_signedDecimal (v : ℤ) : (signedDecimal v).head? = some 45 ↔ v < 0 := by
  cases v with
  | ofNat n => exact iff_of_false (head_decimal n) (not_lt.mpr (Int.natCast_nonneg n))
  | negSucc n => simp [signedDecimal, ascii]

theorem magnitude_signedDecimal (v : ℤ) : magnitude (signedDecimal v) = decimal v.natAbs := by
  cases v with
  | ofNat n => exact if_neg (head_decimal n)
  | negSucc n => rfl

theorem readInteger_signedDecimal (v : ℤ) : readInteger (signedDecimal v) = some v := by
  rw [readInteger, magnitude_signedDecimal, readNumeral_decimal, Option.map_some,
    if_congr (head_signedDecimal v) rfl rfl]
  congr 1
  split_ifs <;> omega

theorem IntegerType.Holds.bounds {T : IntegerType} {v : ℤ} (h : T.Holds v) :
    -2 ^ 63 ≤ v ∧ v < 2 ^ 64 := by
  have hwidth := T.width_le
  have hhalf : (2 : ℤ) ^ (T.width - 1) ≤ 2 ^ 63 := by gcongr <;> omega
  have hfull : (2 : ℤ) ^ T.width ≤ 2 ^ 64 := by gcongr; omega
  obtain ⟨hlow, hhigh⟩ := h
  unfold low at hlow
  unfold high at hhigh
  split_ifs at hlow hhigh
  · constructor <;> omega
  · constructor <;> omega

theorem length_signedDecimal_le {v : ℤ} (hlow : -2 ^ 63 ≤ v) (hhigh : v < 2 ^ 64) :
    (signedDecimal v).length ≤ 20 := by
  cases v with
  | ofNat n =>
    have hn : n < 10 ^ (19 + 1) := by
      rw [Int.ofNat_eq_natCast] at hhigh
      omega
    exact length_decimal_le hn
  | negSucc n =>
    have hn : n + 1 < 10 ^ (18 + 1) := by omega
    have hdigits := length_decimal_le hn
    rw [signedDecimal, List.length_append]
    exact Nat.add_le_add (le_of_eq rfl) hdigits

theorem length_hexadecimal_le (v : UInt64) : (hexadecimal v).length ≤ 16 := by
  rw [hexadecimal, List.length_map]
  exact length_numeral_le (by decide) (by decide) (by norm_num; exact v.toNat_lt)

/-- Every value of every integer type is printed as its numeral, and every address as its
hexadecimal numeral, with at most 20 and 16 characters; with the terminator, and the
prefix of an address, nothing is written behind the first `kMaxNumericSize` bytes, be they the
last of their array. -/
theorem numbers_are_printed_exactly :
    (∀ (T : IntegerType) (value : ℤ), T.Holds value → ∀ (SIZE buf : ℕ) (b : FixedBuffer SIZE),
      buf + LogStream.kMaxNumericSize ≤ SIZE → ∃ text : Bytes,
        convert b buf value = .ok (b.put buf (text ++ [0]), text.length) ∧
        readInteger text = some value ∧ (text.head? = some 45 ↔ value < 0) ∧
        NoLeadingZero (magnitude text) ∧ text.length ≤ 20 ∧
        text.length + 1 ≤ LogStream.kMaxNumericSize) ∧
    ∀ (value : UInt64) (SIZE buf : ℕ) (b : FixedBuffer SIZE),
      buf + LogStream.kMaxNumericSize ≤ SIZE → ∃ text : Bytes,
        convertHex b (buf + 2) value = .ok (b.put (buf + 2) (text ++ [0]), text.length) ∧
        readNumeral 16 hexDigit text = some value.toNat ∧ NoLeadingZero text ∧
        text.length ≤ 16 ∧ 2 + text.length + 1 ≤ LogStream.kMaxNumericSize := by
  constructor
  · intro T value hvalue SIZE buf b hroom
    obtain ⟨hlow, hhigh⟩ := hvalue.bounds
    have hlength := length_signedDecimal_le hlow hhigh
    unfold LogStream.kMaxNumericSize at hroom ⊢
    refine ⟨signedDecimal value, convert_eq (by omega), readInteger_signedDecimal value,
      head_signedDecimal value, ?_, hlength, by omega⟩
    rw [magnitude_signedDecimal]
    exact noLeadingZero_decimal _
  · intro value SIZE buf b hroom
    have hlength := length_hexadecimal_le value
    unfold LogStream.kMaxNumericSize at hroom ⊢
    exact ⟨hexadecimal value, convertHex_eq (by omega), readNumeral_hexadecimal value,
      noLeadingZero_hexadecimal value, hlength, by omega⟩

/-- The lowest value of `long`. -/
theorem lowest_long_is_printed :
    ∃ text : Bytes, convert (FixedBuffer.new : FixedBuffer 32) 0 (-9223372036854775808) =
        .ok (FixedBuffer.new.put 0 (text ++ [0]), text.length) ∧
      readInteger text = some (-9223372036854775808) := by
  have hholds : (⟨true, 64, le_rfl⟩ : IntegerType).Holds (-9223372036854775808) := by decide
  obtain ⟨text, hconvert, hread, -⟩ := numbers_are_printed_exactly.1 _ _ hholds 32 0 .new le_rfl
  exact ⟨text, hconvert, hread⟩

namespace LogValue

def text : LogValue → Bytes
  | .bool v => if v then ascii "1" else ascii "0"
  | .char v => [v]
  | .integer _ v _ => signedDecimal v
  | .pointer p => ascii "0x" ++ hexadecimal p
  | .double text _ => text
  | .cString none => ascii "(null)"
  | .cString (some str) => str.takeWhile (· ≠ 0)
  | .string v => v
  | .buffer v => v.bytes

def isNumeric : LogValue → Bool
  | .integer .. | .pointer _ | .double .. => true
  | .bool _ | .char _ | .cString _ | .string _ | .buffer _ => false

/-- The test in front of the writes. -/
def Fits (v : LogValue) (avail : ℕ) : Prop :=
  if v.isNumeric then LogStream.kMaxNumericSize ≤ avail else v.text.length < avail

instance (v : LogValue) (avail : ℕ) : Decidable (v.Fits avail) :=
  inferInstanceAs (Decidable (if v.isNumeric = true then LogStream.kMaxNumericSize ≤ avail
    else v.text.length < avail))

theorem fits_char (c : UInt8) (avail : ℕ) : (char c).Fits avail ↔ 1 < avail := Iff.rfl

def addTo (v : LogValue) (content : Bytes) : Bytes :=
  if v.Fits (kSmallBuffer - content.length) then content ++ v.text else content

end LogValue

namespace LogStream

def fill (content : Bytes) (values : List LogValue) : Bytes :=
  values.foldl (fun content v => v.addTo content) content

theorem avail_new : 1 ≤ new.buffer.avail := by decide

variable {s s' : LogStream} {v : LogValue}

/-- A piece is written entirely, and a byte is left. -/
structure Takes (s : LogStream) (text : Bytes) (s' : LogStream) : Prop where
  bytes : s'.buffer.bytes = s.buffer.bytes ++ text
  avail : s'.buffer.avail + text.length = s.buffer.avail
  room : 1 ≤ s'.buffer.avail

theorem takes_of_put (text rest : Bytes) (h : text.length < s.buffer.avail) :
    ∃ b, (s.buffer.put s.buffer.cur (text ++ rest)).add text.length = .ok b ∧
      s.Takes text ⟨b⟩ := by
  unfold FixedBuffer.avail at h
  obtain ⟨b, hb, hcur, hbytes⟩ :=
    FixedBuffer.add_put (b := s.buffer) text rest (by omega)
  refine ⟨b, hb, hbytes, ?_, ?_⟩
  · simp only [FixedBuffer.avail, hcur]
    omega
  · simp only [FixedBuffer.avail, hcur]
    omega

theorem append_eq (data : Bytes) : s.append data = .ok ⟨s.buffer.append data⟩ := by
  have hwrite := FixedBuffer.append_eq_write (b := s.buffer) data
  by_cases h : data.length < s.buffer.avail
  · rw [if_pos h] at hwrite
    obtain ⟨b, hb, hadd⟩ := bind_eq_ok.mp hwrite
    rw [append, if_pos h, hb, ok_bind, hadd]
    rfl
  · rw [if_neg h] at hwrite
    rw [append, if_neg h, ← Except.ok.inj hwrite]
    rfl

theorem append_takes {data : Bytes} (h : data.length < s.buffer.avail) :
    ∃ s', s.append data = .ok s' ∧ s.Takes data s' := by
  have hcur := FixedBuffer.cur_append h
  refine ⟨_, append_eq data, FixedBuffer.bytes_append h, ?_, ?_⟩
  · simp only [FixedBuffer.avail, hcur] at h ⊢
    omega
  · simp only [FixedBuffer.avail, hcur] at h ⊢
    omega

theorem append_skips {data : Bytes} (h : ¬ data.length < s.buffer.avail) :
    s.append data = .ok s := by
  rw [append_eq, FixedBuffer.append, dif_neg h]

section Numbers

variable (h : kMaxNumericSize ≤ s.buffer.avail)
include h

theorem cur_add_le : s.buffer.cur + kMaxNumericSize ≤ kSmallBuffer := by
  unfold FixedBuffer.avail at h
  unfold kMaxNumericSize at h ⊢
  omega

theorem formatInteger_takes {T : IntegerType} {v : ℤ} (hv : T.Holds v) :
    ∃ s', s.formatInteger v = .ok s' ∧ s.Takes (signedDecimal v) s' := by
  obtain ⟨hlow, hhigh⟩ := hv.bounds
  have hlength := length_signedDecimal_le hlow hhigh
  have hcur := cur_add_le h
  have hroom := h
  unfold kMaxNumericSize at hcur hroom
  obtain ⟨b, hb, htakes⟩ := takes_of_put (s := s) (signedDecimal v) [0] (by omega)
  refine ⟨⟨b⟩, ?_, htakes⟩
  rw [formatInteger, if_pos h, convert_eq (by omega), ok_bind]
  simp only [hb, ok_bind, pure_eq_ok]

theorem formatPointer_takes (p : UInt64) :
    ∃ s', s.formatPointer p = .ok s' ∧ s.Takes (ascii "0x" ++ hexadecimal p) s' := by
  have hlength := length_hexadecimal_le p
  have hcur := cur_add_le h
  have hroom := h
  unfold kMaxNumericSize at hcur hroom
  have hall : (ascii "0x" ++ hexadecimal p).length = (hexadecimal p).length + 2 := by
    rw [List.length_append, Nat.add_comm]
    rfl
  obtain ⟨b, hb, htakes⟩ :=
    takes_of_put (s := s) (ascii "0x" ++ hexadecimal p) [0] (by omega)
  rw [hall, List.append_assoc] at hb
  have hzero : s.buffer.write s.buffer.cur (ascii "0") =
      .ok (s.buffer.put s.buffer.cur (ascii "0")) :=
    FixedBuffer.write_ok (by simp [ascii]; omega)
  have hx : (s.buffer.put s.buffer.cur (ascii "0")).write (s.buffer.cur + 1) (ascii "x") =
      .ok (s.buffer.put s.buffer.cur (ascii "0x")) := by
    rw [FixedBuffer.write_ok (by simp [ascii]; omega)]
    exact congrArg Except.ok (FixedBuffer.put_put s.buffer.cur (ascii "0") (ascii "x"))
  have hdigits : (s.buffer.put s.buffer.cur (ascii "0x")).put (s.buffer.cur + 2)
      (hexadecimal p ++ [0]) = s.buffer.put s.buffer.cur (ascii "0x" ++ (hexadecimal p ++ [0])) :=
    FixedBuffer.put_put s.buffer.cur (ascii "0x") (hexadecimal p ++ [0])
  have hhex : convertHex (s.buffer.put s.buffer.cur (ascii "0x")) (s.buffer.cur + 2) p =
      .ok (s.buffer.put s.buffer.cur (ascii "0x" ++ (hexadecimal p ++ [0])),
        (hexadecimal p).length) := by
    rw [convertHex_eq (by omega), hdigits]
  refine ⟨⟨b⟩, ?_, htakes⟩
  rw [formatPointer, if_pos h, hzero, ok_bind]
  show ((s.buffer.put s.buffer.cur (ascii "0")).write (s.buffer.cur + 1) (ascii "x") >>= _) = _
  rw [hx, ok_bind]
  show (convertHex (s.buffer.put s.buffer.cur (ascii "0x")) (s.buffer.cur + 2) p >>= _) = _
  rw [hhex, ok_bind]
  simp only [hb, ok_bind, pure_eq_ok]

theorem formatDouble_takes {text : Bytes} (hshort : text.length < 32) :
    ∃ s', s.formatDouble text = .ok s' ∧ s.Takes text s' := by
  have hcur := cur_add_le h
  have hroom := h
  unfold kMaxNumericSize at hcur hroom
  obtain ⟨b, hb, htakes⟩ := takes_of_put (s := s) text [0] (by omega)
  have hwhole : snprintf kMaxNumericSize text = text := snprintf_of_lt hshort
  refine ⟨⟨b⟩, ?_, htakes⟩
  rw [formatDouble, if_pos h, hwhole,
    FixedBuffer.write_ok (by rw [List.length_append, List.length_singleton]; omega), ok_bind, hb]
  rfl

end Numbers

theorem insert_takes (h : v.Fits s.buffer.avail) :
    ∃ s', s.insert v = .ok s' ∧ s.Takes v.text s' := by
  cases v with
  | integer T v hv => exact formatInteger_takes h hv
  | pointer p => exact formatPointer_takes h p
  | double text hshort => exact formatDouble_takes h hshort
  | cString str => cases str <;> exact append_takes h
  | bool _ | char _ | string _ | buffer _ => exact append_takes h

theorem insert_skips (h : ¬ v.Fits s.buffer.avail) : s.insert v = .ok s := by
  cases v with
  | integer T v hv => exact if_neg h
  | pointer p => exact if_neg h
  | double text hshort => exact if_neg h
  | cString str => cases str <;> exact append_skips h
  | bool _ | char _ | string _ | buffer _ => exact append_skips h

theorem insert_addTo (hroom : 1 ≤ s.buffer.avail) :
    ∃ s', s.insert v = .ok s' ∧ 1 ≤ s'.buffer.avail ∧ s'.buffer.bytes = v.addTo s.buffer.bytes := by
  have havail : kSmallBuffer - s.buffer.bytes.length = s.buffer.avail := by
    rw [FixedBuffer.length_bytes]
    rfl
  rw [LogValue.addTo, havail]
  by_cases hfits : v.Fits s.buffer.avail
  · obtain ⟨s', hs', htakes⟩ := insert_takes hfits
    rw [if_pos hfits]
    exact ⟨s', hs', htakes.room, htakes.bytes⟩
  · rw [if_neg hfits]
    exact ⟨s, insert_skips hfits, hroom, rfl⟩

theorem insertAll_fill (values : List LogValue) (hroom : 1 ≤ s.buffer.avail) :
    ∃ s', s.insertAll values = .ok s' ∧ 1 ≤ s'.buffer.avail ∧
      s'.buffer.bytes = fill s.buffer.bytes values := by
  induction values generalizing s with
  | nil => exact ⟨s, rfl, hroom, rfl⟩
  | cons v values ih =>
    obtain ⟨s₁, hs₁, hroom₁, hbytes₁⟩ := insert_addTo (v := v) hroom
    obtain ⟨s', hs', hroom', hbytes'⟩ := ih hroom₁
    refine ⟨s', ?_, hroom', ?_⟩
    · rw [insertAll, List.foldlM_cons, hs₁]
      exact hs'
    · rw [hbytes', hbytes₁]
      rfl

theorem fill_append (content : Bytes) (values values' : List LogValue) :
    fill content (values ++ values') = fill (fill content values) values' :=
  List.foldl_append

theorem fill_singleton (content : Bytes) (v : LogValue) : fill content [v] = v.addTo content := rfl

/-- All pieces are kept if there is room for them and one more number. -/
theorem fill_of_short {content : Bytes} {values : List LogValue}
    (h : content.length + (values.flatMap LogValue.text).length + kMaxNumericSize ≤ kSmallBuffer) :
    fill content values = content ++ values.flatMap LogValue.text := by
  induction values generalizing content with
  | nil => simp [fill]
  | cons v values ih =>
    rw [List.flatMap_cons, List.length_append] at h
    unfold kMaxNumericSize kSmallBuffer at h
    have hfits : v.Fits (kSmallBuffer - content.length) := by
      unfold LogValue.Fits kMaxNumericSize kSmallBuffer
      split_ifs <;> omega
    have hstep : fill content (v :: values) = fill (v.addTo content) values := rfl
    rw [hstep, LogValue.addTo, if_pos hfits, ih, List.flatMap_cons, List.append_assoc]
    rw [List.length_append]
    unfold kMaxNumericSize kSmallBuffer
    omega

theorem fill_eq_flatMap (content : Bytes) (values : List LogValue) :
    ∃ kept : List LogValue, kept.Sublist values ∧
      fill content values = content ++ kept.flatMap LogValue.text := by
  induction values generalizing content with
  | nil => exact ⟨[], .slnil, by simp [fill]⟩
  | cons v values ih =>
    obtain ⟨kept, hsub, hfill⟩ := ih (v.addTo content)
    have hstep : fill content (v :: values) = fill (v.addTo content) values := rfl
    rw [hstep, hfill, LogValue.addTo]
    split_ifs with hfits
    · exact ⟨v :: kept, hsub.cons_cons v, by rw [List.flatMap_cons, List.append_assoc]⟩
    · exact ⟨kept, hsub.cons v, rfl⟩

/-- No sequence of values makes the stream write behind its buffer. Its content consists
of whole pieces in their order; a text is missing only if it was not shorter than the free
space at its moment, and a number only if fewer than `kMaxNumericSize` bytes were free. -/
theorem pieces_are_whole (values : List LogValue) :
    (∃ s, new.insertAll values = .ok s ∧ 1 ≤ s.buffer.avail ∧
      ∃ kept : List LogValue, kept.Sublist values ∧
        s.buffer.bytes = kept.flatMap LogValue.text) ∧
    ∀ before v after, values = before ++ v :: after →
      ∃ s₁ s₂, new.insertAll before = .ok s₁ ∧ s₁.insert v = .ok s₂ ∧ 1 ≤ s₁.buffer.avail ∧
        1 ≤ s₂.buffer.avail ∧ (s₂.buffer.bytes = s₁.buffer.bytes ++ v.text ∨
          s₂ = s₁ ∧ if v.isNumeric then s₁.buffer.avail < kMaxNumericSize
            else s₁.buffer.avail ≤ v.text.length) := by
  constructor
  · obtain ⟨s, hs, hroom, hbytes⟩ := insertAll_fill values avail_new
    obtain ⟨kept, hsub, hfill⟩ := fill_eq_flatMap [] values
    exact ⟨s, hs, hroom, kept, hsub, hbytes.trans hfill⟩
  · intro before v after _
    obtain ⟨s₁, hs₁, hroom, -⟩ := insertAll_fill before avail_new
    by_cases hfits : v.Fits s₁.buffer.avail
    · obtain ⟨s₂, hs₂, htakes⟩ := insert_takes hfits
      exact ⟨s₁, s₂, hs₁, hs₂, hroom, htakes.room, .inl htakes.bytes⟩
    · refine ⟨s₁, s₁, hs₁, insert_skips hfits, hroom, hroom, .inr ⟨rfl, ?_⟩⟩
      unfold LogValue.Fits at hfits
      split_ifs at hfits ⊢
      · exact not_le.mp hfits
      · exact not_lt.mp hfits

end LogStream

end Muduo
