import Mathlib.Tactic

/-!
# Ordered maps

An associative container that keeps its entries in the increasing order of their keys. What
is found under a key behind an assignment or an erasure does not depend on the order; the
order says that the entries are what is found.
-/

namespace Foundations

theorem lookup_cons_eq {κ ν : Type*} [BEq κ] [LawfulBEq κ] [DecidableEq κ] (key k : κ) (v : ν)
    (entries : List (κ × ν)) :
    ((k, v) :: entries).lookup key = if key = k then some v else entries.lookup key := by
  by_cases h : key = k
  · simp [h]
  · have hne : (key == k) = false := beq_false_of_ne h
    simp [List.lookup_cons, hne, h]

structure OrderedMap (κ ν : Type*) [LT κ] where
  entries : List (κ × ν)
  sorted : entries.Pairwise fun x y => x.1 < y.1

namespace OrderedMap

variable {κ ν : Type*} [LT κ]

def empty : OrderedMap κ ν := ⟨[], .nil⟩

def find [BEq κ] (m : OrderedMap κ ν) (key : κ) : Option ν := m.entries.lookup key

@[simp] theorem find_empty [BEq κ] (key : κ) : (empty : OrderedMap κ ν).find key = none := rfl

theorem mem_entries_of_find [BEq κ] [LawfulBEq κ] {m : OrderedMap κ ν} {key : κ} {value : ν}
    (h : m.find key = some value) : (key, value) ∈ m.entries := by
  obtain ⟨front, rest, hentries, -⟩ := List.lookup_eq_some_iff.mp h
  rw [hentries]
  simp

variable [DecidableEq κ]

def erase (m : OrderedMap κ ν) (key : κ) : OrderedMap κ ν where
  entries := m.entries.filter (·.1 ≠ key)
  sorted := m.sorted.filter _

section Assign

variable [DecidableLT κ]

def assignEntry (key : κ) (value : ν) : List (κ × ν) → List (κ × ν)
  | [] => [(key, value)]
  | (k, v) :: entries =>
    if key = k then (key, value) :: entries
    else if key < k then (key, value) :: (k, v) :: entries
    else (k, v) :: assignEntry key value entries

theorem mem_assignEntry {key : κ} {value : ν} {entries : List (κ × ν)} {e : κ × ν}
    (h : e ∈ assignEntry key value entries) : e = (key, value) ∨ e ∈ entries := by
  induction entries with
  | nil => exact .inl (List.mem_singleton.mp h)
  | cons entry entries ih =>
    obtain ⟨k, v⟩ := entry
    rw [assignEntry] at h
    split_ifs at h with heq hlt
    · rcases List.mem_cons.mp h with h | h
      · exact .inl h
      · exact .inr (List.mem_cons_of_mem _ h)
    · exact List.mem_cons.mp h
    · rcases List.mem_cons.mp h with h | h
      · exact .inr (h ▸ List.mem_cons_self)
      · exact (ih h).imp id (List.mem_cons_of_mem _)

variable [IsTrans κ (· < ·)] [Std.Trichotomous (α := κ) (· < ·)]

theorem pairwise_assignEntry (key : κ) (value : ν) {entries : List (κ × ν)}
    (h : entries.Pairwise fun x y => x.1 < y.1) :
    (assignEntry key value entries).Pairwise fun x y => x.1 < y.1 := by
  induction entries with
  | nil => exact List.pairwise_singleton _ _
  | cons entry entries ih =>
    obtain ⟨k, v⟩ := entry
    obtain ⟨hlt, hrest⟩ := List.pairwise_cons.mp h
    rw [assignEntry]
    split_ifs with heq hbefore
    · subst heq
      exact List.pairwise_cons.mpr ⟨hlt, hrest⟩
    · refine List.pairwise_cons.mpr ⟨fun e he => ?_, h⟩
      rcases List.mem_cons.mp he with rfl | he
      · exact hbefore
      · exact IsTrans.trans _ _ _ hbefore (hlt e he)
    · refine List.pairwise_cons.mpr ⟨fun e he => ?_, ih hrest⟩
      rcases mem_assignEntry he with rfl | he
      · by_contra hafter
        exact heq (Std.Trichotomous.trichotomous key k hbefore hafter)
      · exact hlt e he

/-- `m[key] = value`. -/
def assign (m : OrderedMap κ ν) (key : κ) (value : ν) : OrderedMap κ ν where
  entries := assignEntry key value m.entries
  sorted := pairwise_assignEntry key value m.sorted

end Assign

variable [BEq κ] [LawfulBEq κ]

theorem mem_entries_iff [Std.Irrefl (α := κ) (· < ·)] {m : OrderedMap κ ν} {key : κ} {value : ν} :
    (key, value) ∈ m.entries ↔ m.find key = some value := by
  refine ⟨fun hmem => ?_, mem_entries_of_find⟩
  obtain ⟨entries, hsorted⟩ := m
  show entries.lookup key = some value
  induction entries with
  | nil => cases hmem
  | cons entry entries ih =>
    obtain ⟨k, v⟩ := entry
    obtain ⟨hlt, hsorted⟩ := List.pairwise_cons.mp hsorted
    rw [lookup_cons_eq]
    rcases List.mem_cons.mp hmem with heq | hlater
    · cases heq
      rw [if_pos rfl]
    · have hne : key ≠ k := by
        rintro rfl
        exact Std.Irrefl.irrefl key (hlt (key, value) hlater)
      rw [if_neg hne, ih hsorted hlater]

theorem find_erase (m : OrderedMap κ ν) (key k : κ) :
    (m.erase key).find k = if k = key then none else m.find k := by
  obtain ⟨entries, hsorted⟩ := m
  show (entries.filter (·.1 ≠ key)).lookup k = if k = key then none else entries.lookup k
  clear hsorted
  induction entries with
  | nil => simp
  | cons entry entries ih =>
    obtain ⟨k', v⟩ := entry
    rw [List.filter_cons, lookup_cons_eq]
    by_cases hkey : k' = key
    · rw [if_neg (by simp [hkey]), ih, hkey]
      split_ifs <;> rfl
    · rw [if_pos (by simp [hkey]), lookup_cons_eq, ih]
      by_cases hk : k = k'
      · rw [if_pos hk, if_neg (hk ▸ hkey), if_pos hk]
      · rw [if_neg hk, if_neg hk]

variable [DecidableLT κ]

theorem lookup_assignEntry (key k : κ) (value : ν) (entries : List (κ × ν)) :
    (assignEntry key value entries).lookup k =
      if k = key then some value else entries.lookup k := by
  induction entries with
  | nil => exact lookup_cons_eq k key value []
  | cons entry entries ih =>
    obtain ⟨k', v⟩ := entry
    rw [assignEntry]
    by_cases heq : key = k'
    · rw [if_pos heq, lookup_cons_eq, lookup_cons_eq, heq]
      split_ifs <;> rfl
    rw [if_neg heq]
    by_cases hlt : key < k'
    · rw [if_pos hlt, lookup_cons_eq]
    rw [if_neg hlt, lookup_cons_eq, ih, lookup_cons_eq]
    by_cases hk : k = k'
    · rw [if_pos hk, if_neg fun h => heq (h.symm.trans hk), if_pos hk]
    · rw [if_neg hk, if_neg hk]

variable [IsTrans κ (· < ·)] [Std.Trichotomous (α := κ) (· < ·)]

theorem find_assign (m : OrderedMap κ ν) (key k : κ) (value : ν) :
    (m.assign key value).find k = if k = key then some value else m.find k :=
  lookup_assignEntry key k value m.entries

end OrderedMap
end Foundations
