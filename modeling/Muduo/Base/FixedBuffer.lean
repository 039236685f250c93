import Mathlib.Data.List.GetD
import Muduo.Foundations.Machine
import Muduo.Base.Text

/-!
# Buffers of a fixed size

`FixedBuffer` is an array with a position behind what was written. `append` takes a text
that fits entirely, with a byte to spare, or not at all; who writes at `current()` looks
after the end of the array alone. Writes are here checked against that end.
-/

namespace Muduo

open Foundations

/-- `reset` moves the position only: `data_` keeps what it had. -/
structure FixedBuffer (SIZE : ℕ) where
  data : ℕ → UInt8
  cur : ℕ
  fits : cur ≤ SIZE

namespace FixedBuffer

variable {SIZE : ℕ}

def new : FixedBuffer SIZE := ⟨fun _ => 0, 0, Nat.zero_le _⟩

variable (b : FixedBuffer SIZE)

def length : ℕ := b.cur

def avail : ℕ := SIZE - b.cur

def append (buf : Bytes) : FixedBuffer SIZE :=
  if h : buf.length < b.avail then
    { data := fun i => if b.cur ≤ i then buf.getD (i - b.cur) (b.data i) else b.data i
      cur := b.cur + buf.length
      fits := by unfold avail at h; omega }
  else b

def reset : FixedBuffer SIZE := { b with cur := 0, fits := Nat.zero_le _ }

/-- `data()` with `length()`. -/
def bytes : Bytes := (List.range b.cur).map b.data

/-- The array with `text` at position `p`. -/
def put (p : ℕ) (text : Bytes) : FixedBuffer SIZE :=
  { b with data := fun i => if p ≤ i then text.getD (i - p) (b.data i) else b.data i }

/-- The bytes of `text` are stored from position `p` on. -/
def write (p : ℕ) (text : Bytes) : Except Fault (FixedBuffer SIZE) :=
  if p + text.length ≤ SIZE then .ok (b.put p text) else .error .outOfBounds

/-- `std::reverse`. -/
def reverse (first last : ℕ) : Except Fault (FixedBuffer SIZE) :=
  if last ≤ SIZE then
    .ok { b with
      data := fun i => if first ≤ i ∧ i < last then b.data (first + last - 1 - i) else b.data i }
  else .error .outOfBounds

def add (len : ℕ) : Except Fault (FixedBuffer SIZE) :=
  if h : b.cur + len ≤ SIZE then .ok { b with cur := b.cur + len, fits := h }
  else .error .outOfBounds

variable {b}

@[simp] theorem length_bytes : b.bytes.length = b.cur := by simp [bytes]

theorem bytes_eq_nil (h : b.cur = 0) : b.bytes = [] := by simp [bytes, h]

theorem avail_of_empty (h : b.cur = 0) : b.avail = SIZE := by simp [avail, h]

theorem data_put_of_lt {p i : ℕ} (text : Bytes) (h : i < p) : (b.put p text).data i = b.data i :=
  if_neg (Nat.not_le.mpr h)

theorem data_put_add {p k : ℕ} {text : Bytes} (h : k < text.length) :
    (b.put p text).data (p + k) = text[k] := by
  simp [put, h]

theorem put_put (p : ℕ) (s t : Bytes) : (b.put p s).put (p + s.length) t = b.put p (s ++ t) := by
  have hdata : ((b.put p s).put (p + s.length) t).data = (b.put p (s ++ t)).data := by
    funext i
    simp only [put]
    by_cases hs : p + s.length ≤ i
    · have hp : p ≤ i := by omega
      have hcut : i - p - s.length = i - (p + s.length) := by omega
      rw [if_pos hs, if_pos hp, if_pos hp, List.getD_append_right _ _ _ _ (by omega), hcut,
        List.getD_eq_default s _ (by omega)]
    · by_cases hp : p ≤ i
      · rw [if_neg hs, if_pos hp, if_pos hp, List.getD_append _ _ _ _ (by omega)]
      · rw [if_neg hs, if_neg hp, if_neg hp]
  simp only [put] at hdata ⊢
  rw [hdata]

theorem write_ok {p : ℕ} {text : Bytes} (h : p + text.length ≤ SIZE) :
    b.write p text = .ok (b.put p text) :=
  if_pos h

theorem reverse_put {p : ℕ} {s : Bytes} (t : Bytes) (h : p + s.length ≤ SIZE) :
    (b.put p (s ++ t)).reverse p (p + s.length) = .ok (b.put p (s.reverse ++ t)) := by
  have hdata : (fun i => if p ≤ i ∧ i < p + s.length then
      (b.put p (s ++ t)).data (p + (p + s.length) - 1 - i) else (b.put p (s ++ t)).data i) =
      (b.put p (s.reverse ++ t)).data := by
    funext i
    by_cases hi : p ≤ i ∧ i < p + s.length
    · obtain ⟨k, rfl⟩ := Nat.exists_eq_add_of_le hi.1
      have hk : k < s.length := by omega
      have hmirror : p + (p + s.length) - 1 - (p + k) = p + (s.length - 1 - k) := by omega
      rw [if_pos hi, hmirror, data_put_add (by simp; omega), data_put_add (by simp; omega),
        List.getElem_append_left (by omega), List.getElem_append_left (by simpa using hk),
        List.getElem_reverse]
    · rw [if_neg hi]
      by_cases hp : p ≤ i
      · have hlong : s.length ≤ i - p := by omega
        simp only [put, if_pos hp]
        rw [List.getD_append_right _ _ _ _ hlong, List.getD_append_right _ _ _ _ (by simpa),
          List.length_reverse]
      · rw [data_put_of_lt _ (by omega), data_put_of_lt _ (by omega)]
  rw [reverse, if_pos h, hdata]
  rfl

/-- A text that was stored at the position is appended when the position moves behind it. -/
theorem bytes_of_put {b' : FixedBuffer SIZE} (text rest : Bytes)
    (hcur : b'.cur = b.cur + text.length) (hdata : b'.data = (b.put b.cur (text ++ rest)).data) :
    b'.bytes = b.bytes ++ text := by
  rw [bytes, hcur, hdata, List.range_add, List.map_append, List.map_map]
  congr 1
  · refine List.map_congr_left fun i hi => ?_
    exact data_put_of_lt _ (List.mem_range.mp hi)
  · apply List.ext_getElem
    · simp
    · intro k hk hk'
      have hlt : k < (text ++ rest).length := by
        rw [List.length_append]
        omega
      rw [List.getElem_map, List.getElem_range, Function.comp_apply]
      exact (data_put_add hlt).trans (List.getElem_append_left hk')

theorem add_put (text rest : Bytes) (h : b.cur + text.length ≤ SIZE) :
    ∃ b', (b.put b.cur (text ++ rest)).add text.length = .ok b' ∧
      b'.cur = b.cur + text.length ∧ b'.bytes = b.bytes ++ text :=
  ⟨_, dif_pos h, rfl, bytes_of_put text rest rfl rfl⟩

theorem cur_append {buf : Bytes} (h : buf.length < b.avail) :
    (b.append buf).cur = b.cur + buf.length := by
  rw [append, dif_pos h]

theorem bytes_append {buf : Bytes} (h : buf.length < b.avail) :
    (b.append buf).bytes = b.bytes ++ buf := by
  apply bytes_of_put buf [] (cur_append h)
  rw [append, dif_pos h, List.append_nil]
  rfl

theorem append_eq_write (buf : Bytes) :
    (if buf.length < b.avail then b.write b.cur buf >>= (·.add buf.length) else .ok b) =
      .ok (b.append buf) := by
  by_cases h : buf.length < b.avail
  · have hfits : b.cur + buf.length ≤ SIZE := by
      unfold avail at h
      omega
    rw [if_pos h, write_ok hfits, ok_bind, append, dif_pos h]
    exact dif_pos hfits
  · rw [if_neg h, append, dif_neg h]

end FixedBuffer

end Muduo
