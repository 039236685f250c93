import Mathlib.Tactic

/-!
# Slices of a list that stands for an array

A half-open range of an array is a slice. Copying a block into an array
overwrites a range of the same length, and resizing keeps a prefix and pads.
The lemmas say what a slice reads after either operation.
-/

namespace Foundations

variable {α : Type*}

/-- The elements at positions `i, ..., j - 1`. -/
def slice (l : List α) (i j : ℕ) : List α := (l.take j).drop i

/-- Copy the block `d` into the array, starting at position `i`. -/
def overwrite (l : List α) (i : ℕ) (d : List α) : List α :=
  l.take i ++ d ++ l.drop (i + d.length)

/-- Give the array length `n`, padding with `x` when it grows. -/
def resize (l : List α) (n : ℕ) (x : α) : List α :=
  l.take n ++ List.replicate (n - l.length) x

@[simp] theorem length_slice (l : List α) (i j : ℕ) :
    (slice l i j).length = min j l.length - i := by
  simp [slice]

@[simp] theorem length_resize (l : List α) (n : ℕ) (x : α) : (resize l n x).length = n := by
  simp [resize]
  omega

theorem length_overwrite {l : List α} {i : ℕ} {d : List α} (h : i + d.length ≤ l.length) :
    (overwrite l i d).length = l.length := by
  simp [overwrite]
  omega

@[simp] theorem slice_self (l : List α) (i : ℕ) : slice l i i = [] := by
  simp [slice]

theorem slice_add_left (l : List α) (i k j : ℕ) : slice l (i + k) j = (slice l i j).drop k := by
  simp [slice, List.drop_drop]

theorem take_slice {l : List α} {i j k : ℕ} (h : i + k ≤ j) :
    (slice l i j).take k = slice l i (i + k) := by
  rw [slice, slice, List.take_drop, List.take_take, min_eq_left h]

/-- Moving the right end back by `k` drops the last `k` elements. -/
theorem slice_sub_right {l : List α} {i j : ℕ} (k : ℕ) (hk : i + k ≤ j) (hj : j ≤ l.length) :
    slice l i (j - k) = (slice l i j).take ((slice l i j).length - k) := by
  have hlen : (slice l i j).length - k = j - k - i := by
    rw [length_slice]
    omega
  rw [hlen, slice, slice, List.take_drop, List.take_take]
  congr 2
  omega

theorem slice_append_slice {l : List α} {i j k : ℕ} (hij : i ≤ j) (hjk : j ≤ k) :
    slice l i j ++ slice l j k = slice l i k := by
  have hj : l.take j = (l.take k).take j := by rw [List.take_take, min_eq_left hjk]
  have hd : (l.take k).drop i = ((l.take k).take j).drop i ++ (l.take k).drop j := by
    conv_lhs => rw [← List.take_append_drop j (l.take k), List.drop_append]
    rcases le_or_gt (l.take k).length j with h | h
    · simp [List.drop_eq_nil_of_le h]
    · have : i - ((l.take k).take j).length = 0 := by
        rw [List.length_take]
        omega
      rw [this, List.drop_zero]
  rw [slice, slice, slice, hj, ← hd]

theorem take_overwrite {l : List α} {i : ℕ} (d : List α) {k : ℕ} (hk : k ≤ i)
    (hi : i ≤ l.length) : (overwrite l i d).take k = l.take k := by
  have hlen : k ≤ (l.take i).length := by
    rw [List.length_take]
    omega
  rw [overwrite, List.append_assoc, List.take_append_of_le_length hlen, List.take_take,
    min_eq_left hk]

theorem drop_overwrite {l : List α} {i : ℕ} {d : List α} {k : ℕ} (hk : i + d.length ≤ k)
    (hd : i + d.length ≤ l.length) : (overwrite l i d).drop k = l.drop k := by
  obtain ⟨m, rfl⟩ := Nat.exists_eq_add_of_le hk
  have hlen : (l.take i ++ d).length = i + d.length := by
    simp
    omega
  have hnil : (l.take i ++ d).drop (i + d.length + m) = [] := by
    rw [List.drop_eq_nil_iff, hlen]
    omega
  rw [overwrite, List.drop_append, hnil, hlen, List.nil_append, List.drop_drop,
    Nat.add_sub_cancel_left]

/-- The block that was copied in is read back from its own range. -/
theorem slice_overwrite_self {l : List α} {i : ℕ} {d : List α} (h : i + d.length ≤ l.length) :
    slice (overwrite l i d) i (i + d.length) = d := by
  have hlen : (l.take i ++ d).length = i + d.length := by
    simp
    omega
  have hi : (l.take i).length = i := by
    simp
    omega
  rw [slice, overwrite, ← hlen, List.take_left', List.drop_left' hi]
  rfl

theorem slice_overwrite_before {l : List α} {i : ℕ} (d : List α) {r k : ℕ} (hk : k ≤ i)
    (hi : i ≤ l.length) : slice (overwrite l i d) r k = slice l r k := by
  rw [slice, slice, take_overwrite d hk hi]

theorem slice_overwrite_after {l : List α} {i : ℕ} {d : List α} {r k : ℕ}
    (hr : i + d.length ≤ r) (h : i + d.length ≤ l.length) :
    slice (overwrite l i d) r k = slice l r k := by
  rw [slice, slice, List.drop_take, List.drop_take, drop_overwrite hr h]

/-- Copying a block behind a range extends what the range reads. -/
theorem slice_overwrite_append {l : List α} {r i : ℕ} {d : List α} (hr : r ≤ i)
    (h : i + d.length ≤ l.length) :
    slice (overwrite l i d) r (i + d.length) = slice l r i ++ d := by
  rw [← slice_append_slice hr (Nat.le_add_right i d.length), slice_overwrite_self h,
    slice_overwrite_before d le_rfl (by omega)]

/-- Copying a block in front of a range extends what the range reads. -/
theorem slice_overwrite_prepend {l : List α} {i k : ℕ} {d : List α} (hk : i + d.length ≤ k)
    (h : i + d.length ≤ l.length) :
    slice (overwrite l i d) i k = d ++ slice l (i + d.length) k := by
  rw [← slice_append_slice (Nat.le_add_right i d.length) hk, slice_overwrite_self h,
    slice_overwrite_after le_rfl h]

theorem slice_resize {l : List α} {i j n : ℕ} (x : α) (hj : j ≤ l.length) (hn : l.length ≤ n) :
    slice (resize l n x) i j = slice l i j := by
  rw [slice, slice, resize, List.take_of_length_le hn, List.take_append_of_le_length hj]

end Foundations
