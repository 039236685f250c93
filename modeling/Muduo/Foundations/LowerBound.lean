import Mathlib.Tactic

/-!
# Binary search

A range is halved until it is empty, by a test of its middle element. In a list whose
elements pass the test up to some position, and fail it from there on, the search ends at
that position. In any other list it still ends between an element that passes the test and
one that fails it, or at an end of the list.
-/

namespace Foundations

variable {α : Type*} (p : α → Bool) (l : List α)

/-- The search among the `len` positions from `first` on. -/
def lowerBoundFrom (first len : ℕ) : ℕ :=
  if len = 0 then first
  else
    match l[first + len / 2]? with
    | some x =>
      if p x then lowerBoundFrom (first + len / 2 + 1) (len - len / 2 - 1)
      else lowerBoundFrom first (len / 2)
    | none => first
termination_by len

def lowerBound : ℕ := lowerBoundFrom p l 0 l.length

/-- The element in front of `first` passes the test, the one at `last` fails it. -/
structure Bracket (first last : ℕ) : Prop where
  last_le : last ≤ l.length
  passes : ∀ {i x}, i + 1 = first → l[i]? = some x → p x
  fails : ∀ {x}, l[last]? = some x → ¬ p x

variable {p l} {first len : ℕ}

theorem Bracket.search (h : Bracket p l first (first + len)) :
    Bracket p l (lowerBoundFrom p l first len) (lowerBoundFrom p l first len) := by
  fun_induction lowerBoundFrom p l first len with
  | case1 first => exact h
  | case2 first len hlen x hx hpass ih =>
    have hend : first + len / 2 + 1 + (len - len / 2 - 1) = first + len := by omega
    refine ih ⟨by rw [hend]; exact h.last_le, ?_, by rw [hend]; exact h.fails⟩
    intro i y hi hy
    cases Nat.succ.inj hi
    cases hx.symm.trans hy
    exact hpass
  | case3 first len hlen x hx hfail ih =>
    have hlast := h.last_le
    refine ih ⟨by omega, h.passes, ?_⟩
    intro y hy
    cases hx.symm.trans hy
    exact hfail
  | case4 first len hlen hnone =>
    have hlast := h.last_le
    have hout := List.getElem?_eq_none_iff.mp hnone
    omega

theorem bracket_lowerBound (p : α → Bool) (l : List α) :
    Bracket p l (lowerBound p l) (lowerBound p l) := by
  refine Bracket.search ⟨by omega, fun hi _ => by omega, fun hx => ?_⟩
  rw [zero_add, List.getElem?_eq_none_iff.mpr le_rfl] at hx
  cases hx

section Split

variable (hsplit : ∀ {i j : ℕ} {x y : α}, i < j → l[i]? = some x → l[j]? = some y → p y → p x)

include hsplit

/-- If what stands in front of a passing element passes too, a bracketed position has the
passing elements in front of it. -/
theorem Bracket.lt_iff {i k : ℕ} {x : α} (h : Bracket p l k k) (hx : l[i]? = some x) :
    i < k ↔ p x := by
  constructor
  · intro hi
    obtain ⟨m, rfl⟩ : ∃ m, k = m + 1 := ⟨k - 1, by omega⟩
    have hlast := h.last_le
    obtain ⟨y, hy⟩ : ∃ y, l[m]? = some y := ⟨_, List.getElem?_eq_getElem (by omega)⟩
    have hpass := h.passes rfl hy
    rcases (Nat.le_of_lt_succ hi).eq_or_lt with heq | hlt
    · rw [← heq] at hy
      cases hx.symm.trans hy
      exact hpass
    · exact hsplit hlt hx hy hpass
  · intro hpass
    by_contra hi
    have hlen := (List.getElem?_eq_some_iff.mp hx).1
    rcases (Nat.le_of_not_lt hi).eq_or_lt with heq | hlt
    · rw [← heq] at hx
      exact h.fails hx hpass
    · have hy := List.getElem?_eq_getElem (hlt.trans hlen)
      exact h.fails hy (hsplit hlt hy hx hpass)

theorem Bracket.unique {k m : ℕ} (hk : Bracket p l k k) (hm : Bracket p l m m) : k = m := by
  wlog hlt : k < m generalizing k m with hwlog
  · by_contra hne
    exact hne (hwlog hm hk (by omega)).symm
  · have hx := List.getElem?_eq_getElem (hlt.trans_le hm.last_le)
    exact absurd ((hm.lt_iff hsplit hx).mp hlt) (hk.fails hx)

end Split

end Foundations
