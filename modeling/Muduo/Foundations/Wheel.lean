import Mathlib.Tactic
import Mathlib.Data.List.ModifyLast

/-!
# Timing wheels

A wheel is a row of sets, the oldest one in front. A visitor is put into the last set, and with
each turn the front goes away and an empty set comes to the end. A visitor may be in several
sets; its age is the number of turns since it was put into one for the last time.
-/

namespace Foundations
namespace Wheel

variable {α : Type*} [DecidableEq α]

/-- `x` is put into the last set. -/
def touch (w : List (Finset α)) (x : α) : List (Finset α) := w.modifyLast (insert x)

def turn (w : List (Finset α)) : List (Finset α) := w.tail ++ [∅]

/-- Some set has `x`. -/
def holds (w : List (Finset α)) (x : α) : Bool := w.any (x ∈ ·)

/-- The members of the front that are in no other set. -/
def expiring (w : List (Finset α)) : Finset α :=
  (w.head?.getD ∅).filter fun x => ¬holds w.tail x

/-- How many sets were added since `x` was put into one. -/
def age (w : List (Finset α)) (x : α) : Option ℕ := w.reverse.findIdx? (x ∈ ·)

variable {w : List (Finset α)} {x y : α}

theorem age_concat (w : List (Finset α)) (b : Finset α) (x : α) :
    age (w ++ [b]) x = if x ∈ b then some 0 else (age w x).map (· + 1) := by
  simp only [age, List.reverse_append, List.reverse_singleton, List.singleton_append,
    List.findIdx?_cons, decide_eq_true_eq]

theorem holds_iff_age : holds w x = true ↔ (age w x).isSome = true := by
  rw [holds, age, List.findIdx?_isSome, List.any_reverse]

theorem age_lt {k : ℕ} (h : age w x = some k) : k < w.length := by
  obtain ⟨hlt, -⟩ := List.findIdx?_eq_some_iff_getElem.mp h
  simpa using hlt

theorem age_touch (hw : w ≠ []) (x y : α) :
    age (touch w x) y = if y = x then some 0 else age w y := by
  obtain ⟨init, b, rfl⟩ := (List.eq_nil_or_concat' w).resolve_left hw
  rw [touch, List.modifyLast_concat, age_concat, age_concat]
  by_cases h : y = x
  · simp [h]
  · simp [h]

theorem age_cons (b : Finset α) (w : List (Finset α)) (x : α) :
    age (b :: w) x = (age w x).or (if x ∈ b then some w.length else none) := by
  rw [age, List.reverse_cons, List.findIdx?_append, age]
  congr 1
  by_cases h : x ∈ b
  · simp [h]
  · simp [h]

theorem age_turn (hw : w ≠ []) (x : α) :
    age (turn w) x = (age w x).bind fun k => if k + 1 < w.length then some (k + 1) else none := by
  cases w with
  | nil => exact absurd rfl hw
  | cons b w =>
    rw [turn, List.tail_cons, age_concat, if_neg (Finset.notMem_empty x), age_cons]
    cases hage : age w x with
    | none =>
      by_cases h : x ∈ b
      · simp [h]
      · simp [h]
    | some k =>
      have hlt := age_lt hage
      simp [hlt]

theorem mem_expiring (hw : w ≠ []) : x ∈ expiring w ↔ age w x = some (w.length - 1) := by
  cases w with
  | nil => exact absurd rfl hw
  | cons b w =>
    rw [expiring, Finset.mem_filter, age_cons, List.tail_cons, holds_iff_age, List.length_cons,
      Nat.add_sub_cancel]
    show x ∈ b ∧ _ ↔ _
    cases hage : age w x with
    | none =>
      by_cases h : x ∈ b
      · simp [h]
      · simp [h]
    | some k =>
      have hlt := age_lt hage
      have hne : k ≠ w.length := by omega
      simp [hne]

@[simp] theorem length_touch (w : List (Finset α)) (x : α) : (touch w x).length = w.length := by
  rcases List.eq_nil_or_concat' w with rfl | ⟨init, b, rfl⟩
  · rfl
  · simp [touch, List.modifyLast_concat]

omit [DecidableEq α] in
theorem length_turn (hw : w ≠ []) : (turn w).length = w.length := by
  have hpos := List.length_pos_iff.mpr hw
  rw [turn, List.length_append, List.length_tail, List.length_singleton]
  omega

theorem age_replicate (n : ℕ) (x : α) : age (List.replicate n ∅) x = none := by
  rw [age, List.reverse_replicate, List.findIdx?_eq_none_iff]
  intro b hb
  simp [List.eq_of_mem_replicate hb]

end Wheel
end Foundations
