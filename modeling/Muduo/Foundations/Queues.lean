import Mathlib.Tactic
import Mathlib.Algebra.BigOperators.Fin

/-!
# Several queues

Messages wait in one of finitely many queues, each of which is first in, first out.
How often a message waits, wherever that is, changes by one when it is queued or taken.
-/

namespace Foundations

variable {κ α : Type*} [DecidableEq κ]

/-- A message goes to the end of the queue `k`. -/
def push (q : κ → List α) (k : κ) (as : List α) : κ → List α := Function.update q k (q k ++ as)

theorem mem_push {q : κ → List α} {k l : κ} {as : List α} {a : α} (h : a ∈ q l) :
    a ∈ push q k as l := by
  rw [push, Function.update_apply]
  split_ifs with hl
  · subst hl
    exact List.mem_append_left as h
  · exact h

variable [Fintype κ] [DecidableEq α]

/-- How often `a` waits. -/
def waiting (q : κ → List α) (a : α) : ℕ := ∑ k, (q k).count a

theorem waiting_update (q : κ → List α) (k : κ) (as : List α) (a : α) :
    waiting (Function.update q k as) a + (q k).count a = waiting q a + as.count a := by
  have hrest : ∑ l ∈ Finset.univ.erase k, (Function.update q k as l).count a =
      ∑ l ∈ Finset.univ.erase k, (q l).count a := by
    apply Finset.sum_congr rfl
    intro l hl
    rw [Function.update_of_ne (Finset.ne_of_mem_erase hl)]
  have hk := Finset.mem_univ k
  rw [waiting, waiting, ← Finset.add_sum_erase _ _ hk, ← Finset.add_sum_erase _ _ hk, hrest,
    Function.update_self]
  omega

theorem waiting_push (q : κ → List α) (k : κ) (as : List α) (a : α) :
    waiting (push q k as) a = waiting q a + as.count a := by
  have h := waiting_update q k (q k ++ as) a
  rw [List.count_append] at h
  rw [push]
  omega

theorem waiting_pop {q : κ → List α} {k : κ} {b : α} {as : List α} (h : q k = b :: as) (a : α) :
    waiting q a = waiting (Function.update q k as) a + [b].count a := by
  have hupdate := waiting_update q k as a
  rw [h, ← List.singleton_append, List.count_append] at hupdate
  omega

omit [DecidableEq κ] in
theorem waiting_pos {q : κ → List α} {a : α} : 0 < waiting q a ↔ ∃ k, a ∈ q k := by
  simp only [waiting, Finset.sum_pos_iff, Finset.mem_univ, true_and, List.count_pos_iff]

end Foundations
