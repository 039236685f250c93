import Mathlib.Tactic
import Mathlib.Data.List.Sort

/-!
# Ordered sets

A set kept in increasing order, with the operations of an ordered associative
container: insertion says whether the key is new, erasure how many keys went
away, and `below` and `onwards` are the two sides of a lower bound.
-/

namespace Foundations

structure OrderedSet (α : Type*) [LinearOrder α] where
  toList : List α
  sorted : toList.Pairwise (· < ·)
  deriving DecidableEq

namespace OrderedSet

variable {α β γ : Type*} [LinearOrder α] [LinearOrder β]

def empty : OrderedSet α := ⟨[], .nil⟩

instance : Membership α (OrderedSet α) := ⟨fun s x => x ∈ s.toList⟩

instance (x : α) (s : OrderedSet α) : Decidable (x ∈ s) :=
  inferInstanceAs (Decidable (x ∈ s.toList))

variable (s : OrderedSet α) (x : α)

def size : ℕ := s.toList.length

def first : Option α := s.toList.head?

theorem pairwise_orderedInsert {l : List α} (hl : l.Pairwise (· < ·)) {x : α} (hx : x ∉ l) :
    (l.orderedInsert (· ≤ ·) x).Pairwise (· < ·) := by
  have hle : l.Pairwise (· ≤ ·) := hl.imp fun h => h.le
  have hnodup : (l.orderedInsert (· ≤ ·) x).Nodup := by
    rw [(List.perm_orderedInsert (· ≤ ·) x l).nodup_iff, List.nodup_cons]
    exact ⟨hx, hl.imp fun h => h.ne⟩
  exact ((hle.orderedInsert x l).and hnodup).imp fun h => lt_of_le_of_ne h.1 h.2

def insert : OrderedSet α × Bool :=
  if h : x ∈ s then (s, false)
  else (⟨s.toList.orderedInsert (· ≤ ·) x, pairwise_orderedInsert s.sorted h⟩, true)

def erase : OrderedSet α × ℕ :=
  (⟨s.toList.erase x, s.sorted.sublist List.erase_sublist⟩, if x ∈ s then 1 else 0)

/-- The keys in front of the lower bound of `x`. -/
def below : List α := s.toList.takeWhile (· < x)

/-- The keys from the lower bound of `x` on. -/
def onwards : OrderedSet α :=
  ⟨s.toList.dropWhile (· < x), s.sorted.sublist (List.dropWhile_sublist _)⟩

variable {s x}

theorem mem_toList {y : α} : y ∈ s.toList ↔ y ∈ s := .rfl

@[simp] theorem not_mem_empty : x ∉ (empty : OrderedSet α) := List.not_mem_nil

theorem nodup : s.toList.Nodup := s.sorted.imp fun h => h.ne

theorem insert_new (h : x ∉ s) : (s.insert x).2 = true := by
  rw [insert, dif_neg h]

theorem mem_insert {y : α} : y ∈ (s.insert x).1 ↔ y = x ∨ y ∈ s := by
  by_cases h : x ∈ s
  · rw [insert, dif_pos h]
    constructor
    · exact .inr
    · rintro (rfl | hy)
      · exact h
      · exact hy
  · rw [insert, dif_neg h]
    exact List.mem_orderedInsert _

theorem erase_one (h : x ∈ s) : (s.erase x).2 = 1 := if_pos h

theorem mem_erase {y : α} : y ∈ (s.erase x).1 ↔ y ≠ x ∧ y ∈ s :=
  s.nodup.mem_erase_iff

theorem below_eq_filter : s.below x = s.toList.filter (· < x) := by
  obtain ⟨l, hl⟩ := s
  show l.takeWhile (· < x) = _
  induction l with
  | nil => rfl
  | cons a l ih =>
    obtain ⟨ha, hl⟩ := List.pairwise_cons.mp hl
    by_cases h : a < x
    · simp [h, ih hl]
    · have hnone : ∀ y ∈ l, ¬ y < x := fun y hy hlt => h ((ha y hy).trans hlt)
      simpa [h] using hnone

theorem below_append_onwards : s.below x ++ (s.onwards x).toList = s.toList :=
  List.takeWhile_append_dropWhile

theorem mem_below {y : α} : y ∈ s.below x ↔ y ∈ s ∧ y < x := by
  rw [below_eq_filter, List.mem_filter, decide_eq_true_iff, mem_toList]

theorem below_nodup : (s.below x).Nodup :=
  s.nodup.sublist (List.takeWhile_sublist _)

theorem mem_onwards {y : α} : y ∈ s.onwards x ↔ y ∈ s ∧ x ≤ y := by
  have hsplit : y ∈ s ↔ y ∈ s.below x ∨ y ∈ s.onwards x := by
    rw [← mem_toList, ← below_append_onwards, List.mem_append, mem_toList]
  have hdisj : List.Disjoint (s.below x) (s.onwards x).toList := by
    apply List.disjoint_of_nodup_append
    rw [below_append_onwards]
    exact s.nodup
  constructor
  · intro hy
    refine ⟨hsplit.mpr (.inr hy), ?_⟩
    by_contra hlt
    exact hdisj (mem_below.mpr ⟨hsplit.mpr (.inr hy), not_le.mp hlt⟩) hy
  · rintro ⟨hy, hle⟩
    rcases hsplit.mp hy with hb | ho
    · exact absurd (mem_below.mp hb).2 (not_lt.mpr hle)
    · exact ho

theorem first_eq_none : s.first = none ↔ ∀ y, y ∉ s := by
  rw [first, List.head?_eq_none_iff, List.eq_nil_iff_forall_not_mem]
  rfl

theorem mem_of_first (h : s.first = some x) : x ∈ s :=
  List.mem_of_head? h

theorem first_le (h : s.first = some x) {y : α} (hy : y ∈ s) : x ≤ y := by
  obtain ⟨l, hl⟩ := s
  cases l with
  | nil => cases h
  | cons a l =>
    cases h
    rcases List.mem_cons.mp hy with rfl | hy
    · exact le_rfl
    · exact ((List.pairwise_cons.mp hl).1 y hy).le

theorem size_eq_of_same_image {t : OrderedSet β} (f : α → γ) (g : β → γ)
    (hf : ∀ x ∈ s, ∀ y ∈ s, f x = f y → x = y) (hg : ∀ x ∈ t, ∀ y ∈ t, g x = g y → x = y)
    (h : ∀ c, (∃ x ∈ s, f x = c) ↔ ∃ y ∈ t, g y = c) : s.size = t.size := by
  have hs : (s.toList.map f).Nodup := s.nodup.map_on hf
  have ht : (t.toList.map g).Nodup := t.nodup.map_on hg
  have hperm : (s.toList.map f).Perm (t.toList.map g) := by
    rw [List.perm_ext_iff_of_nodup hs ht]
    intro c
    simpa only [List.mem_map, mem_toList] using h c
  simpa [size] using hperm.length_eq

end OrderedSet
end Foundations
