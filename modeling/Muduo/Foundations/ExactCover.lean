import Mathlib.Data.List.Perm.Lattice
import Mathlib.Tactic

/-!
# Exact covers

Options are to be chosen such that every item is met once. A search takes an item and tries
the options that meet it. What remains are the items that the option does not meet.
-/

namespace Foundations

variable {κ ρ : Type*} [DecidableEq κ]

/-- The options `R` together meet each of the items once, and nothing else. -/
structure ExactCover (meets : ρ → List κ) (options : List ρ) (items : List κ) (R : List ρ) :
    Prop where
  chosen : ∀ r ∈ R, r ∈ options
  perm : (R.flatMap meets).Perm items

namespace ExactCover

variable {meets : ρ → List κ} {options : List ρ} {items : List κ} {R : List ρ} {r : ρ}

/-- One of the options meets a given item, and the others cover what it leaves. -/
theorem choose [DecidableEq ρ] (h : ExactCover meets options items R) (hnodup : items.Nodup)
    {c : κ} (hc : c ∈ items) :
    ∃ r ∈ options, c ∈ meets r ∧ (∀ k ∈ meets r, k ∈ items) ∧
      ∃ R', ExactCover meets options (items.filter (· ∉ meets r)) R' := by
  obtain ⟨r, hr, hcr⟩ := List.mem_flatMap.mp (h.perm.mem_iff.mpr hc)
  have hperm : (meets r ++ (R.erase r).flatMap meets).Perm items := by
    rw [← List.flatMap_cons]
    exact ((List.perm_cons_erase hr).flatMap_right meets).symm.trans h.perm
  have hdisjoint := (List.nodup_append'.mp (hperm.nodup_iff.mpr hnodup)).2.2
  refine ⟨r, h.chosen r hr, hcr, fun k hk => hperm.mem_iff.mp (List.mem_append_left _ hk),
    R.erase r, fun r' hr' => h.chosen r' (List.mem_of_mem_erase hr'), ?_⟩
  have hfilter := hperm.filter fun k => decide (k ∉ meets r)
  rw [List.filter_append] at hfilter
  have hnone : (meets r).filter (fun k => decide (k ∉ meets r)) = [] := by
    simp [List.filter_eq_nil_iff]
  have hall : ((R.erase r).flatMap meets).filter (fun k => decide (k ∉ meets r)) =
      (R.erase r).flatMap meets := by
    rw [List.filter_eq_self]
    intro k hk
    simpa using fun hk' => hdisjoint hk' hk
  rwa [hnone, hall, List.nil_append] at hfilter

theorem cons (hr : r ∈ options) (hmeets : (meets r).Nodup) (hsub : ∀ k ∈ meets r, k ∈ items)
    (hnodup : items.Nodup) (h : ExactCover meets options (items.filter (· ∉ meets r)) R) :
    ExactCover meets options items (r :: R) where
  chosen r' hr' := by
    rcases List.mem_cons.mp hr' with rfl | hr'
    · exact hr
    · exact h.chosen r' hr'
  perm := by
    have hmet : (items.filter (· ∈ meets r)).Perm (meets r) := by
      rw [List.perm_ext_iff_of_nodup (hnodup.filter _) hmeets]
      intro k
      simpa using hsub k
    have hsplit := List.filter_append_perm (fun k => decide (k ∈ meets r)) items
    have hrest : items.filter (fun k => !decide (k ∈ meets r)) = items.filter (· ∉ meets r) := by
      congr 1
      funext k
      simp
    rw [hrest] at hsplit
    rw [List.flatMap_cons]
    exact (hmet.symm.append h.perm).trans hsplit

end ExactCover
end Foundations
