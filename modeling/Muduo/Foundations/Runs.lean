import Mathlib.Tactic

/-!
# Maximal runs

The elements of a list that pass a test stand in maximal runs: blocks of such elements whose
neighbours fail the test, or are missing at an end of the list. A run is given by the position
of its first element and the position behind its last. A search that goes from one failing
element to the next passes all runs in their order.
-/

namespace Foundations

variable {α : Type*} (p : α → Bool) (l : List α)

/-- The position of the first element from `start` on that passes the test. -/
def findFrom (start : ℕ) : Option ℕ := ((l.drop start).findIdx? p).map (start + ·)

structure MaximalRun (i j : ℕ) : Prop where
  nonempty : i < j
  le_length : j ≤ l.length
  inside : ∀ {k x}, i ≤ k → k < j → l[k]? = some x → p x
  before : ∀ {k x}, k + 1 = i → l[k]? = some x → ¬ p x
  behind : ∀ {x}, l[j]? = some x → ¬ p x

/-- All runs from a position on, in their order. -/
structure RunsFrom (start : ℕ) (runs : List (ℕ × ℕ)) : Prop where
  sorted : runs.Pairwise fun r s => r.2 < s.1
  mem_iff : ∀ {i j}, (i, j) ∈ runs ↔ start ≤ i ∧ MaximalRun p l i j

variable {p l} {start pos : ℕ}

theorem findFrom_eq_some (h : findFrom p l start = some pos) :
    start ≤ pos ∧ (∃ x, l[pos]? = some x ∧ p x) ∧
      ∀ {k x}, start ≤ k → k < pos → l[k]? = some x → ¬ p x := by
  obtain ⟨n, hn, rfl⟩ := Option.map_eq_some_iff.mp h
  obtain ⟨hlt, hpass, hfail⟩ := List.findIdx?_eq_some_iff_getElem.mp hn
  refine ⟨Nat.le_add_right _ _, ⟨_, ?_, hpass⟩, ?_⟩
  · rw [← List.getElem?_drop, List.getElem?_eq_getElem hlt]
  · intro k x hstart hk hx
    obtain ⟨m, rfl⟩ := Nat.exists_eq_add_of_le hstart
    rw [← List.getElem?_drop] at hx
    obtain ⟨hm, rfl⟩ := List.getElem?_eq_some_iff.mp hx
    exact hfail m (by omega)

theorem findFrom_lt (h : findFrom p l start = some pos) : start ≤ pos ∧ pos < l.length := by
  obtain ⟨hle, ⟨x, hx, -⟩, -⟩ := findFrom_eq_some h
  exact ⟨hle, (List.getElem?_eq_some_iff.mp hx).1⟩

theorem findFrom_eq_none (h : findFrom p l start = none) {k : ℕ} {x : α} (hstart : start ≤ k)
    (hx : l[k]? = some x) : ¬ p x := by
  have hall := List.findIdx?_eq_none_iff.mp (Option.map_eq_none_iff.mp h)
  obtain ⟨m, rfl⟩ := Nat.exists_eq_add_of_le hstart
  rw [← List.getElem?_drop] at hx
  simp [hall x (List.mem_of_getElem? hx)]

/-- Behind a first part of the list only the rest of it matters. -/
theorem findFrom_append (l m : List α) (start : ℕ) :
    findFrom p (l ++ m) (l.length + start) = (findFrom p m start).map (l.length + ·) := by
  rw [findFrom, findFrom, List.drop_length_add_append, Option.map_map]
  congr 1
  funext n
  exact Nat.add_assoc _ _ _

/-- The first element that passes the test stands behind a part that has none. -/
theorem findFrom_zero_append {l m : List α} {x : α} (hl : ∀ y ∈ l, ¬ p y) (hx : p x) :
    findFrom p (l ++ x :: m) 0 = some l.length := by
  have hnone : l.findIdx? p = none := List.findIdx?_eq_none_iff.mpr fun y hy => by simp [hl y hy]
  simp [findFrom, List.findIdx?_append, hnone, List.findIdx?_cons, hx]

variable (hstart : ∀ {k x}, k + 1 = start → l[k]? = some x → ¬ p x)
  (hblock : ∀ {k x}, start ≤ k → k < pos → l[k]? = some x → p x)
  (hend : ∀ {x}, l[pos]? = some x → ¬ p x)

include hstart hblock hend

/-- Between two elements that fail there is one run, if there is anything. -/
theorem maximalRun_iff_of_block (hle : start ≤ pos) (hpos : pos ≤ l.length) {i j : ℕ}
    (hi : start ≤ i) :
    MaximalRun p l i j ↔
      (start < pos ∧ i = start ∧ j = pos) ∨ (pos + 1 ≤ i ∧ MaximalRun p l i j) := by
  constructor
  · intro h
    have hij := h.nonempty
    have hj := h.le_length
    by_cases hlate : pos < i
    · exact .inr ⟨hlate, h⟩
    -- the element at `pos` fails, so that the run begins and ends in front of it
    have hpassed : ¬ (i ≤ pos ∧ pos < j) := by
      rintro ⟨hfrom, hto⟩
      have hx := List.getElem?_eq_getElem (hto.trans_le hj)
      exact hend hx (h.inside hfrom hto hx)
    have hfirst : i = start := by
      by_contra hne
      have hx := List.getElem?_eq_getElem (show i - 1 < l.length by omega)
      exact h.before (by omega) hx (hblock (by omega) (by omega) hx)
    have hlast : j = pos := by
      by_contra hne
      have hx := List.getElem?_eq_getElem (show j < l.length by omega)
      exact h.behind hx (hblock (by omega) (by omega) hx)
    exact .inl ⟨by omega, hfirst, hlast⟩
  · rintro (⟨hlt, rfl, rfl⟩ | ⟨-, h⟩)
    · exact ⟨hlt, hpos, hblock, hstart, hend⟩
    · exact h

theorem RunsFrom.cons (hle : start ≤ pos) (hpos : pos ≤ l.length) {runs : List (ℕ × ℕ)}
    (h : RunsFrom p l (pos + 1) runs) :
    RunsFrom p l start ((if start < pos then [(start, pos)] else []) ++ runs) := by
  constructor
  · refine List.pairwise_append.mpr ⟨?_, h.sorted, ?_⟩
    · split_ifs
      · exact List.pairwise_singleton _ _
      · exact .nil
    · intro r hr s hs
      obtain ⟨hs, -⟩ := h.mem_iff.mp hs
      split_ifs at hr
      · rw [List.mem_singleton.mp hr]
        exact hs
      · cases hr
  · intro i j
    rw [List.mem_append, h.mem_iff]
    constructor
    · rintro (hblockrun | ⟨hi, hrun⟩)
      · split_ifs at hblockrun with hlt
        · obtain ⟨rfl, rfl⟩ := Prod.mk.inj (List.mem_singleton.mp hblockrun)
          exact ⟨le_rfl, hlt, hpos, hblock, hstart, hend⟩
        · cases hblockrun
      · exact ⟨by omega, hrun⟩
    · rintro ⟨hi, hrun⟩
      rcases (maximalRun_iff_of_block hstart hblock hend hle hpos hi).mp hrun with
        ⟨hlt, rfl, rfl⟩ | hlater
      · exact .inl (by simp [hlt])
      · exact .inr hlater

omit hstart hblock hend

theorem runsFrom_of_length_le (h : l.length ≤ start) : RunsFrom p l start [] := by
  refine ⟨.nil, fun {i j} => ?_⟩
  constructor
  · intro hmem
    cases hmem
  · rintro ⟨hi, hrun⟩
    have hij := hrun.nonempty
    have hj := hrun.le_length
    omega

end Foundations
