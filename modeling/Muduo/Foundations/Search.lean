import Mathlib.Tactic

/-!
# Searching for two adjacent elements

The position of the first occurrence of a pattern of two elements. What is found
stays found when the list grows at its end.
-/

namespace Foundations

variable {α : Type*} [DecidableEq α]

/-- The position of the first `a` with a `b` right behind it. -/
def findPair (a b : α) : List α → Option ℕ
  | x :: y :: l => if x = a ∧ y = b then some 0 else (findPair a b (y :: l)).map (· + 1)
  | _ => none

variable {a b : α} {l : List α} {n : ℕ}

theorem findPair_lt (h : findPair a b l = some n) : n + 2 ≤ l.length := by
  induction l generalizing n with
  | nil => simp [findPair] at h
  | cons x l ih =>
    cases l with
    | nil => simp [findPair] at h
    | cons y l =>
      rw [findPair] at h
      split_ifs at h with hxy
      · cases h
        simp
      · obtain ⟨m, hm, rfl⟩ := Option.map_eq_some_iff.mp h
        have := ih hm
        simp only [List.length_cons] at this ⊢
        omega

theorem findPair_append (h : findPair a b l = some n) (m : List α) :
    findPair a b (l ++ m) = some n := by
  induction l generalizing n with
  | nil => simp [findPair] at h
  | cons x l ih =>
    cases l with
    | nil => simp [findPair] at h
    | cons y l =>
      rw [findPair] at h
      simp only [List.cons_append, findPair]
      split_ifs at h ⊢ with hxy
      · exact h
      · obtain ⟨k, hk, rfl⟩ := Option.map_eq_some_iff.mp h
        have := ih hk
        rw [List.cons_append] at this
        rw [this]
        rfl

theorem findPair_eq_none (h : b ∉ l) : findPair a b l = none := by
  induction l with
  | nil => rfl
  | cons x l ih =>
    rw [List.mem_cons, not_or] at h
    cases l with
    | nil => rfl
    | cons y l =>
      have hy : y ≠ b := fun heq => h.2 (heq ▸ List.mem_cons_self)
      rw [findPair, if_neg fun hxy => hy hxy.2, ih h.2, Option.map_none]

theorem findPair_tail {x : α} (h : findPair a b (x :: l) = none) : findPair a b l = none := by
  cases l with
  | nil => rfl
  | cons y l =>
    rw [findPair] at h
    split_ifs at h
    exact Option.map_eq_none_iff.mp h

theorem findPair_suffix {m : List α} (h : findPair a b (l ++ m) = none) :
    findPair a b m = none := by
  induction l with
  | nil => exact h
  | cons x l ih => exact ih (findPair_tail h)

theorem findPair_append_none {m : List α} (hl : a ∉ l) (hm : findPair a b m = none) :
    findPair a b (l ++ m) = none := by
  induction l with
  | nil => exact hm
  | cons x l ih =>
    rw [List.mem_cons, not_or] at hl
    have hrest := ih hl.2
    rw [List.cons_append]
    cases hlm : l ++ m with
    | nil => rfl
    | cons y rest =>
      rw [hlm] at hrest
      rw [findPair, if_neg fun hxy => hl.1 hxy.1.symm, hrest, Option.map_none]

/-- A text without the pattern ends where the pattern stands behind it. -/
theorem findPair_line (hab : a ≠ b) (h : findPair a b l = none) (m : List α) :
    findPair a b (l ++ a :: b :: m) = some l.length := by
  induction l with
  | nil => simp [findPair]
  | cons x l ih =>
    cases l with
    | nil => simp [findPair, hab]
    | cons y l =>
      rw [findPair] at h
      split_ifs at h with hxy
      have := ih (Option.map_eq_none_iff.mp h)
      rw [List.cons_append] at this
      simp only [List.cons_append, findPair, if_neg hxy, this]
      rfl

/-- Where the pattern is found, it stands behind a text without it. -/
theorem findPair_cut (h : findPair a b l = some n) :
    l = l.take n ++ a :: b :: l.drop (n + 2) ∧ findPair a b (l.take n) = none := by
  induction l generalizing n with
  | nil => simp [findPair] at h
  | cons x l ih =>
    cases l with
    | nil => simp [findPair] at h
    | cons y l =>
      rw [findPair] at h
      split_ifs at h with hxy
      · cases h
        simp [hxy, findPair]
      · obtain ⟨m, hm, rfl⟩ := Option.map_eq_some_iff.mp h
        obtain ⟨hcut, hnone⟩ := ih hm
        refine ⟨congrArg (x :: ·) hcut, ?_⟩
        cases m with
        | zero => rfl
        | succ m =>
          simp only [List.take_succ_cons, findPair, if_neg hxy] at hnone ⊢
          rw [hnone]
          rfl

end Foundations
