import Muduo.Sudoku.Matrix
import Muduo.Sudoku.Search

/-!
# The rules of the puzzle

A solution has every value once in each row, column and box, and keeps the numbers that were
given. The exact covers of the matrix are the solutions of the board. Numbers that were given
twice in a row are not checked anywhere; the matrix then has fewer empty cells in the row than
values that it lacks, and no exact cover.
-/

namespace Muduo
namespace SudokuSolver

open Foundations

inductive Part
  | row
  | column
  | box
  deriving DecidableEq, Repr

namespace Part

def of : Part → ℕ → ℕ
  | row, i => i / 9
  | column, i => i % 9
  | box, i => boxOf i

def name : Part → ℕ → ℕ → ℕ
  | row => getRowCol
  | column => getColCol
  | box => getBoxCol

def cells (p : Part) (k : ℕ) : List ℕ := (List.range kCells).filter (p.of · = k)

theorem of_lt (p : Part) {i : ℕ} (hi : i < kCells) : p.of i < 9 := by
  simp only [kCells] at hi
  cases p <;> simp only [of, boxOf] <;> omega

theorem name_ge (p : Part) (k v : ℕ) : 100 ≤ p.name k v := by
  cases p <;> simp only [name, getRowCol, getColCol, getBoxCol] <;> omega

theorem name_mod (p : Part) {k v : ℕ} (hv : v ∈ values) : p.name k v % 10 = v := by
  rw [mem_values] at hv
  cases p <;> simp only [name, getRowCol, getColCol, getBoxCol] <;> omega

theorem name_inj {p p' : Part} {k k' v v' : ℕ} (hk : k < 9) (hk' : k' < 9) (hv : v ∈ values)
    (hv' : v' ∈ values) (h : p.name k v = p'.name k' v') : p = p' ∧ k = k' ∧ v = v' := by
  rw [mem_values] at hv hv'
  cases p <;> cases p' <;> simp only [name, getRowCol, getColCol, getBoxCol] at h <;>
    simp only [reduceCtorEq, true_and] <;> omega

theorem mem_cells {p : Part} {k i : ℕ} : i ∈ p.cells k ↔ i < kCells ∧ p.of i = k := by
  simp [cells]

theorem cells_length (p : Part) {k : ℕ} (hk : k < 9) : (p.cells k).length = 9 := by
  have hall : ∀ k < 9, (row.cells k).length = 9 ∧ (column.cells k).length = 9 ∧
      (box.cells k).length = 9 := by decide +kernel
  cases p
  · exact (hall k hk).1
  · exact (hall k hk).2.1
  · exact (hall k hk).2.2

end Part

theorem mem_rowNames {q : ℕ × ℕ} {k : ℕ} :
    k ∈ rowNames q ↔ k = q.1 ∨ ∃ p : Part, k = p.name (p.of q.1) q.2 := by
  simp only [rowNames, List.mem_cons, List.not_mem_nil, or_false]
  refine or_congr_right ⟨?_, ?_⟩
  · rintro (h | h | h)
    · exact ⟨.row, h⟩
    · exact ⟨.column, h⟩
    · exact ⟨.box, h⟩
  · rintro ⟨p, h⟩
    cases p
    · exact .inl h
    · exact .inr (.inl h)
    · exact .inr (.inr h)

def Used.has (u : Used) : Part → ℕ → ℕ → Bool
  | .row => u.rows
  | .column => u.cols
  | .box => u.boxes

section Board

variable {board g : ℕ → ℕ}

theorem foldl_mark (part : ℕ → ℕ) (xs : List ℕ) (table : ℕ → ℕ → Bool) (k v : ℕ) :
    xs.foldl (fun t i => mark t (part i) (board i)) table k v = true ↔
      table k v = true ∨ ∃ i ∈ xs, part i = k ∧ board i = v := by
  induction xs generalizing table with
  | nil => simp
  | cons i xs ih =>
    have hmark : mark table (part i) (board i) k v = true ↔
        table k v = true ∨ part i = k ∧ board i = v := by
      by_cases hk : k = part i
      · subst hk
        by_cases hv : v = board i
        · simp [mark, hv]
        · simp [mark, Function.update_of_ne hv, Ne.symm hv]
      · simp [mark, Function.update_of_ne hk, Ne.symm hk]
    rw [List.foldl_cons, ih, hmark]
    simp [or_assoc]

theorem used_has (p : Part) (k v : ℕ) : (used board).has p k v = true ↔
    ∃ i < kCells, p.of i = k ∧ board i = v := by
  have hfold : ∀ (xs : List ℕ) (u : Used),
      (xs.foldl (fun u i =>
        { rows := mark u.rows (i / 9) (board i)
          cols := mark u.cols (i % 9) (board i)
          boxes := mark u.boxes (boxOf i) (board i) : Used }) u).has p =
        xs.foldl (fun t i => mark t (p.of i) (board i)) (u.has p) := by
    intro xs
    induction xs with
    | nil => intro u; rfl
    | cons i xs ih =>
      intro u
      rw [List.foldl_cons, ih]
      cases p <;> rfl
  rw [used, hfold, foldl_mark]
  cases p <;> simp [Used.has]

theorem used_has_false (p : Part) (k v : ℕ) : (used board).has p k v = false ↔
    ∀ i < kCells, p.of i = k → board i ≠ v := by
  rw [← Bool.not_eq_true, used_has]
  push Not
  rfl

theorem mem_candidates_iff {q : ℕ × ℕ} : q ∈ candidates board ↔
    q.1 < kCells ∧ board q.1 = 0 ∧ q.2 ∈ values ∧
      ∀ p : Part, ∀ i < kCells, p.of i = p.of q.1 → board i ≠ q.2 := by
  have hblocks : (used board).blocks q.1 q.2 = false ↔
      ∀ p : Part, (used board).has p (p.of q.1) q.2 = false := by
    simp only [Used.blocks, Bool.or_eq_false_iff]
    constructor
    · rintro ⟨⟨hrow, hcol⟩, hbox⟩ p
      cases p
      · exact hrow
      · exact hcol
      · exact hbox
    · exact fun h => ⟨⟨h .row, h .column⟩, h .box⟩
  rw [mem_candidates, hblocks]
  simp only [used_has_false]

theorem mem_columnNames_iff {k : ℕ} : k ∈ columnNames board ↔
    (k < kCells ∧ board k = 0) ∨ ∃ p : Part, ∃ j < 9, ∃ v ∈ values,
      (∀ i < kCells, p.of i = j → board i ≠ v) ∧ k = p.name j v := by
  rw [mem_columnNames]
  simp only [← used_has_false]
  refine or_congr_right ⟨?_, ?_⟩
  · rintro ⟨j, hj, v, hv, h | h | h⟩
    · exact ⟨.row, j, hj, v, hv, h⟩
    · exact ⟨.column, j, hj, v, hv, h⟩
    · exact ⟨.box, j, hj, v, hv, h⟩
  · rintro ⟨p, j, hj, v, hv, h⟩
    refine ⟨j, hj, v, hv, ?_⟩
    cases p
    · exact .inl h
    · exact .inr (.inl h)
    · exact .inr (.inr h)

structure Solves (board g : ℕ → ℕ) : Prop where
  given : ∀ i < kCells, board i ≠ 0 → g i = board i
  complete : ∀ p : Part, ∀ k < 9, ((p.cells k).map g).Perm values

/-- A choice of candidates that meets every column of the matrix once. -/
abbrev Fills (board : ℕ → ℕ) (C : List (ℕ × ℕ)) : Prop :=
  ExactCover rowNames (candidates board) (columnNames board) C

def written (board : ℕ → ℕ) (C : List (ℕ × ℕ)) : ℕ → ℕ :=
  C.foldl (fun b q => Function.update b q.1 q.2) board

theorem written_cases (board : ℕ → ℕ) (C : List (ℕ × ℕ)) (i : ℕ) :
    (written board C i = board i ∧ ∀ q ∈ C, q.1 ≠ i) ∨
      ∃ q ∈ C, q.1 = i ∧ written board C i = q.2 := by
  induction C generalizing board with
  | nil => exact .inl ⟨rfl, by simp⟩
  | cons q C ih =>
    rcases ih (Function.update board q.1 q.2) with ⟨heq, hnot⟩ | ⟨q', hq', hi, heq⟩
    · by_cases hi : q.1 = i
      · refine .inr ⟨q, List.mem_cons_self, hi, heq.trans ?_⟩
        rw [hi, Function.update_self]
      · refine .inl ⟨heq.trans (Function.update_of_ne (Ne.symm hi) _ _), fun q' hq' => ?_⟩
        rcases List.mem_cons.mp hq' with rfl | hq'
        · exact hi
        · exact hnot q' hq'
    · exact .inr ⟨q', List.mem_cons_of_mem _ hq', hi, heq⟩

/-- Two different candidates of a cover have no column in common. -/
theorem Fills.unique {C : List (ℕ × ℕ)} (h : Fills board C) {q q' : ℕ × ℕ} (hq : q ∈ C)
    (hq' : q' ∈ C) {k : ℕ} (hk : k ∈ rowNames q) (hk' : k ∈ rowNames q') : q = q' := by
  have hnodup := List.nodup_flatMap.mp (h.perm.nodup_iff.mpr (columnNames_nodup board))
  by_contra hne
  have : Std.Symm fun a b : ℕ × ℕ => (rowNames a).Disjoint (rowNames b) :=
    ⟨fun _ _ hdis => hdis.symm⟩
  exact hnodup.2.forall hq hq' hne hk hk'

theorem Fills.written_of_mem {C : List (ℕ × ℕ)} (h : Fills board C) {q : ℕ × ℕ} (hq : q ∈ C) :
    written board C q.1 = q.2 := by
  rcases written_cases board C q.1 with ⟨-, hnot⟩ | ⟨q', hq', hcell, heq⟩
  · exact absurd rfl (hnot q hq)
  · have hk : q.1 ∈ rowNames q' := mem_rowNames.mpr (.inl hcell.symm)
    rw [heq, h.unique hq' hq hk (mem_rowNames.mpr (.inl rfl))]

theorem Fills.solves {C : List (ℕ × ℕ)} (h : Fills board C) : Solves board (written board C) := by
  have hgiven : ∀ i < kCells, board i ≠ 0 → written board C i = board i := by
    intro i _ hne
    rcases written_cases board C i with ⟨heq, -⟩ | ⟨q, hq, rfl, -⟩
    · exact heq
    · exact absurd (mem_candidates_iff.mp (h.chosen q hq)).2.1 hne
  refine ⟨hgiven, fun p k hk => ?_⟩
  have hsub : values ⊆ (p.cells k).map (written board C) := by
    intro v hv
    by_cases hused : ∃ i < kCells, p.of i = k ∧ board i = v
    · obtain ⟨i, hi, hof, heq⟩ := hused
      have hne : board i ≠ 0 := by
        rw [mem_values] at hv
        omega
      exact List.mem_map.mpr ⟨i, Part.mem_cells.mpr ⟨hi, hof⟩, (hgiven i hi hne).trans heq⟩
    · have hname : p.name k v ∈ columnNames board := by
        refine mem_columnNames_iff.mpr (.inr ⟨p, k, hk, v, hv, fun i hi hof heq => ?_, rfl⟩)
        exact hused ⟨i, hi, hof, heq⟩
      obtain ⟨q, hq, hmem⟩ := List.mem_flatMap.mp (h.perm.mem_iff.mpr hname)
      obtain ⟨hcell, -, hval, -⟩ := mem_candidates_iff.mp (h.chosen q hq)
      rcases mem_rowNames.mp hmem with heq | ⟨p', heq⟩
      · have := p.name_ge k v
        simp only [kCells] at hcell
        omega
      · obtain ⟨rfl, rfl, rfl⟩ := Part.name_inj hk (p'.of_lt hcell) hv hval heq
        exact List.mem_map.mpr ⟨q.1, Part.mem_cells.mpr ⟨hcell, rfl⟩, h.written_of_mem hq⟩
  have hnodup : values.Nodup := by decide
  refine ((List.subperm_of_subset hnodup hsub).perm_of_length_le ?_).symm
  rw [List.length_map, p.cells_length hk]
  decide

theorem Solves.mem_values (h : Solves board g) {i : ℕ} (hi : i < kCells) : g i ∈ values :=
  (h.complete .row (Part.row.of i) (Part.row.of_lt hi)).mem_iff.mp
    (List.mem_map_of_mem (Part.mem_cells.mpr ⟨hi, rfl⟩))

theorem Solves.inj (h : Solves board g) (p : Part) {i j : ℕ} (hi : i < kCells) (hj : j < kCells)
    (hof : p.of i = p.of j) (heq : g i = g j) : i = j := by
  have hnodup : ((p.cells (p.of j)).map g).Nodup :=
    (h.complete p (p.of j) (p.of_lt hj)).nodup_iff.mpr (by decide)
  exact List.inj_on_of_nodup_map hnodup (Part.mem_cells.mpr ⟨hi, hof⟩)
    (Part.mem_cells.mpr ⟨hj, rfl⟩) heq

def choice (board g : ℕ → ℕ) : List (ℕ × ℕ) :=
  ((List.range kCells).filter (board · = 0)).map fun i => (i, g i)

theorem mem_choice {q : ℕ × ℕ} : q ∈ choice board g ↔
    q.1 < kCells ∧ board q.1 = 0 ∧ q.2 = g q.1 := by
  simp only [choice, List.mem_map, List.mem_filter, List.mem_range, decide_eq_true_eq]
  constructor
  · rintro ⟨i, ⟨hi, hempty⟩, rfl⟩
    exact ⟨hi, hempty, rfl⟩
  · rintro ⟨hi, hempty, heq⟩
    exact ⟨q.1, ⟨hi, hempty⟩, Prod.ext rfl heq.symm⟩

theorem Solves.candidate (h : Solves board g) {q : ℕ × ℕ} (hq : q ∈ choice board g) :
    q ∈ candidates board := by
  obtain ⟨hi, hempty, heq⟩ := mem_choice.mp hq
  have hv := h.mem_values hi
  refine mem_candidates_iff.mpr ⟨hi, hempty, heq ▸ hv, fun p j hj hof hboard => ?_⟩
  rw [heq] at hboard
  rw [SudokuSolver.mem_values] at hv
  have hgj := h.given j hj (by omega)
  obtain rfl := h.inj p hj hi hof (hgj.trans hboard)
  omega

theorem Solves.fills (h : Solves board g) : Fills board (choice board g) := by
  refine ⟨fun q hq => h.candidate hq, ?_⟩
  have hnodup : (choice board g).Nodup := by
    refine (List.nodup_range.filter _).map fun i j hij => ?_
    exact congrArg Prod.fst hij
  have hflat : ((choice board g).flatMap rowNames).Nodup := by
    refine List.nodup_flatMap.mpr ⟨fun q hq => rowNames_nodup (h.candidate hq), ?_⟩
    refine hnodup.imp_of_mem fun {q q'} hq hq' hne k hk hk' => hne ?_
    obtain ⟨hi, -, heq⟩ := mem_choice.mp hq
    obtain ⟨hi', -, heq'⟩ := mem_choice.mp hq'
    have hcell : q.1 = q'.1 := by
      rcases mem_rowNames.mp hk with rfl | ⟨p, rfl⟩ <;>
        rcases mem_rowNames.mp hk' with heqk | ⟨p', heqk⟩
      · exact heqk
      · have := p'.name_ge (p'.of q'.1) q'.2
        simp only [kCells] at hi
        omega
      · have := p.name_ge (p.of q.1) q.2
        simp only [kCells] at hi'
        omega
      · have hval : q.2 ∈ values := heq ▸ h.mem_values hi
        have hval' : q'.2 ∈ values := heq' ▸ h.mem_values hi'
        obtain ⟨rfl, hof, hv⟩ := Part.name_inj (p.of_lt hi) (p'.of_lt hi') hval hval' heqk
        exact h.inj p hi hi' hof (by rw [← heq, ← heq', hv])
    exact Prod.ext hcell (by rw [heq, heq', hcell])
  refine (List.perm_ext_iff_of_nodup hflat (columnNames_nodup board)).mpr fun k => ?_
  rw [List.mem_flatMap]
  constructor
  · rintro ⟨q, hq, hk⟩
    exact rowNames_subset (h.candidate hq) k hk
  · intro hk
    rcases mem_columnNames_iff.mp hk with ⟨hcell, hempty⟩ | ⟨p, j, hj, v, hv, hfree, rfl⟩
    · exact ⟨(k, g k), mem_choice.mpr ⟨hcell, hempty, rfl⟩, mem_rowNames.mpr (.inl rfl)⟩
    · obtain ⟨i, hi, rfl⟩ := List.mem_map.mp ((h.complete p j hj).mem_iff.mpr hv)
      obtain ⟨hcell, rfl⟩ := Part.mem_cells.mp hi
      have hempty : board i = 0 := by
        by_contra hne
        exact hfree i hcell rfl (h.given i hcell hne).symm
      exact ⟨(i, g i), mem_choice.mpr ⟨hcell, hempty, rfl⟩, mem_rowNames.mpr (.inr ⟨p, rfl⟩)⟩

end Board

def candidateOf (name : ℕ → ℕ) (r : List ℕ) : ℕ × ℕ :=
  ((r.map name).getD 0 0, (r.map name).getD 1 0 % 10)

section Nodes

variable {board : ℕ → ℕ} {M : Layout} {s : SudokuSolver}
  (h : Built board (columnNames board) ((candidates board).map rowNames) M s)
include h

theorem Built.candidateOf_spec {r : List ℕ} (hr : r ∈ M.rows) :
    candidateOf s.name r ∈ candidates board ∧
      r.map s.name = rowNames (candidateOf s.name r) := by
  have hmem : r.map s.name ∈ (candidates board).map rowNames :=
    h.rows ▸ List.mem_map_of_mem hr
  obtain ⟨q, hq, hnames⟩ := List.mem_map.mp hmem
  have hval := (mem_candidates_iff.mp hq).2.2.1
  have hreads : candidateOf s.name r = q := by
    rw [candidateOf, ← hnames]
    exact Prod.ext rfl (Part.row.name_mod hval)
  rw [hreads]
  exact ⟨hq, hnames.symm⟩

theorem Built.reads {r : List ℕ} (hr : r ∈ M.rows) :
    Reads s.name r (candidateOf s.name r).1 (candidateOf s.name r).2 := by
  obtain ⟨hq, hnames⟩ := h.candidateOf_spec hr
  set q := candidateOf s.name r
  obtain ⟨hcell, -, hval, -⟩ := mem_candidates_iff.mp hq
  simp only [kCells] at hcell
  have hnode : ∀ k ∈ rowNames q, ∃ n ∈ r, s.name n = k := fun k hk =>
    List.mem_map.mp (hnames ▸ hk)
  refine ⟨fun n hn => ?_, ?_, ?_⟩
  · have hmem : s.name n ∈ rowNames q := hnames ▸ List.mem_map_of_mem hn
    rcases mem_rowNames.mp hmem with heq | ⟨p, heq⟩
    · exact .inl ⟨by omega, heq⟩
    · exact .inr ⟨heq ▸ p.name_ge _ _, heq ▸ p.name_mod hval⟩
  · obtain ⟨n, hn, heq⟩ := hnode q.1 (mem_rowNames.mpr (.inl rfl))
    exact ⟨n, hn, by omega⟩
  · obtain ⟨n, hn, heq⟩ := hnode _ (mem_rowNames.mpr (.inr ⟨.row, rfl⟩))
    exact ⟨n, hn, heq ▸ Part.row.name_ge _ _⟩

theorem Built.map_name_meets {R : List (List ℕ)} (hR : ∀ r ∈ R, r ∈ M.rows) :
    (R.flatMap (meets M)).map s.name = (R.map (candidateOf s.name)).flatMap rowNames := by
  rw [List.map_flatMap, List.flatMap_map]
  refine List.flatMap_congr fun r hr => ?_
  rw [← (h.candidateOf_spec (hR r hr)).2, meets, List.map_map]
  refine List.map_congr_left fun n hn => ?_
  exact h.col_name n (List.mem_flatten.mpr ⟨r, hR r hr, hn⟩)

theorem Built.fills {R : List (List ℕ)} (hR : Covers M M.heads R) :
    Fills board (R.map (candidateOf s.name)) := by
  refine ⟨fun q hq => ?_, ?_⟩
  · obtain ⟨r, hr, rfl⟩ := List.mem_map.mp hq
    exact (h.candidateOf_spec (hR.chosen r hr)).1
  · rw [← h.map_name_meets hR.chosen, ← h.heads]
    exact hR.perm.map s.name

theorem Built.covers {C : List (ℕ × ℕ)} (hC : Fills board C) : ∃ R, Covers M M.heads R := by
  have hrow : ∀ q ∈ C, ∃ r ∈ M.rows, candidateOf s.name r = q := by
    intro q hq
    have hmem : rowNames q ∈ M.rows.map (List.map s.name) :=
      h.rows ▸ List.mem_map_of_mem (hC.chosen q hq)
    obtain ⟨r, hr, hnames⟩ := List.mem_map.mp hmem
    have hval := (mem_candidates_iff.mp (hC.chosen q hq)).2.2.1
    refine ⟨r, hr, ?_⟩
    rw [candidateOf, hnames]
    exact Prod.ext rfl (Part.row.name_mod hval)
  choose! f hf hcandidate using hrow
  have hR : ∀ r ∈ C.map f, r ∈ M.rows := by
    intro r hr
    obtain ⟨q, hq, rfl⟩ := List.mem_map.mp hr
    exact hf q hq
  have hmap : (C.map f).map (candidateOf s.name) = C := by
    rw [List.map_map]
    exact (List.map_congr_left fun q hq => hcandidate q hq).trans (List.map_id C)
  have hnames : (((C.map f).flatMap (meets M)).map s.name).Perm (M.heads.map s.name) := by
    rw [h.map_name_meets hR, hmap, h.heads]
    exact hC.perm
  have hnodup : (M.heads.map s.name).Nodup := h.heads ▸ columnNames_nodup board
  have hheads : ∀ c ∈ (C.map f).flatMap (meets M), c ∈ M.heads := by
    intro c hc
    obtain ⟨r, hr, hc⟩ := List.mem_flatMap.mp hc
    obtain ⟨n, hn, rfl⟩ := List.mem_map.mp hc
    exact M.col_mem r (hR r hr) n hn
  refine ⟨C.map f, hR, ?_⟩
  refine (List.perm_ext_iff_of_nodup (List.Nodup.of_map _ (hnames.nodup_iff.mpr hnodup))
    M.heads_nodup).mpr fun c => ⟨hheads c, fun hc => ?_⟩
  obtain ⟨d, hd, heq⟩ := List.mem_map.mp (hnames.mem_iff.mpr (List.mem_map_of_mem hc))
  exact List.inj_on_of_nodup_map hnodup (hheads d hd) hc heq ▸ hd

theorem Built.solve_board :
    (∃ s', solve kMaxNodes s = .ok (true, s') ∧ Solves board s'.inout) ∨
      (solve kMaxNodes s = .ok (false, s) ∧ ∀ g, ¬ Solves board g) := by
  have hlen : (M.items []).length < kMaxNodes := by
    have hcolumns := columnNames_length board
    rw [← h.heads, List.length_map] at hcolumns
    rw [Layout.items_nil, kMaxNodes]
    omega
  have hstack : List.Forall₂ (· ∈ ·) s.stack ([] : List (List ℕ)) := h.stack ▸ .nil
  have hdecides := solve_decides (fun r hr => h.reads hr) h.holds hstack (by simp) hlen
  simp only [Decides, Layout.items_nil] at hdecides
  rcases hdecides with ⟨s', R, hresult, hcover, hboard⟩ | ⟨hresult, hnone⟩
  · refine .inl ⟨s', hresult, ?_⟩
    have hwritten : s'.inout = written board (R.map (candidateOf s.name)) := by
      rw [hboard, h.inout, written, List.foldl_map]
      rfl
    exact hwritten ▸ (h.fills hcover).solves
  · refine .inr ⟨hresult, fun g hg => ?_⟩
    obtain ⟨R, hR⟩ := h.covers hg.fills
    exact hnone R hR

end Nodes

/-- Columns of a new solver that are covered in any order and uncovered in the opposite one:
every pointer and every size is what it was. -/
theorem uncover_restores (board : ℕ → ℕ) {ks : List ℕ} (hnodup : ks.Nodup)
    (hks : ∀ k ∈ ks, k ∈ columnNames board) :
    ∃ (s : SudokuSolver) (cs : List ℕ) (t : SudokuSolver), make board = .ok s ∧
      ks.map s.columns = cs.map some ∧ cs.foldlM cover s = .ok t ∧
      cs.reverse.foldlM uncover t = .ok s := by
  obtain ⟨M, s, hmake, h⟩ := make_built board
  have hcolumn : ∀ k ∈ ks, ∃ c ∈ M.heads, s.columns k = some c ∧ s.name c = k := by
    intro k hk
    obtain ⟨c, hc, hname⟩ := List.mem_map.mp (h.heads ▸ hks k hk)
    exact ⟨c, hc, (h.columns k c).mpr ⟨hc, hname⟩, hname⟩
  choose! f hmem hcolumns hname using hcolumn
  have hback : (ks.map f).map s.name = ks := by
    rw [List.map_map]
    exact (List.map_congr_left hname).trans (List.map_id ks)
  have hcs : ∀ c ∈ ks.map f, c ∈ M.items [] := by
    intro c hc
    obtain ⟨k, hk, rfl⟩ := List.mem_map.mp hc
    exact M.items_nil ▸ hmem k hk
  rw [← hback] at hnodup
  obtain ⟨hcover, huncover⟩ := h.holds.uncover_all (List.Nodup.of_map s.name hnodup) hcs
  refine ⟨s, ks.map f, _, hmake, ?_, hcover, huncover⟩
  rw [List.map_map]
  exact List.map_congr_left hcolumns

/-- The first two cells of an empty board. -/
theorem uncover_restores_cells :
    ∃ (s : SudokuSolver) (cs : List ℕ) (t : SudokuSolver), make (fun _ => 0) = .ok s ∧
      [0, 1].map s.columns = cs.map some ∧ cs.foldlM cover s = .ok t ∧
      cs.reverse.foldlM uncover t = .ok s :=
  uncover_restores (fun _ => 0) (by decide) fun k hk => by
    rw [mem_columnNames_iff]
    have hk : k < 2 := by
      rcases List.mem_pair.mp hk with rfl | rfl <;> decide
    exact .inl ⟨hk.trans (by decide), rfl⟩

end SudokuSolver

open SudokuSolver Foundations

/-- A filled grid that agrees with the puzzle, in which `0` is an empty cell. -/
structure IsSolution (puzzle grid : Bytes) : Prop where
  length : grid.length = kCells
  given : ∀ i < kCells, puzzle.getD i 0 ≠ 48 → grid.getD i 0 = puzzle.getD i 0
  complete : ∀ p : Part, ∀ k < 9,
    ((p.cells k).map fun i => grid.getD i 0).Perm (ascii "123456789")

def digit (v : ℕ) : UInt8 := UInt8.ofNat (v + 48)

theorem map_digit_values : values.map digit = ascii "123456789" := by decide

theorem digit_of_range (b : UInt8) (h : 0 ≤ b.toInt8.toInt - 48 ∧ b.toInt8.toInt - 48 ≤ 9) :
    b = digit (b.toInt8.toInt - 48).toNat := by
  have hall : ∀ n < 256, 0 ≤ (UInt8.ofNat n).toInt8.toInt - 48 ∧
      (UInt8.ofNat n).toInt8.toInt - 48 ≤ 9 →
      UInt8.ofNat n = digit ((UInt8.ofNat n).toInt8.toInt - 48).toNat := by decide +kernel
  have hb := hall b.toNat b.toNat_lt
  rw [UInt8.ofNat_toNat] at hb
  exact hb h

theorem digit_value {v : ℕ} (hv : v < 10) : (digit v).toInt8.toInt - 48 = v := by
  have hall : ∀ v < 10, (digit v).toInt8.toInt - 48 = (v : ℤ) := by decide
  exact hall v hv

section Answer

variable {puzzle grid : Bytes}

def boardOf (puzzle : Bytes) (i : ℕ) : ℕ := (digitOf puzzle i).toNat

/-- `valid`. -/
def Digits (puzzle : Bytes) : Prop :=
  ∀ i < kCells, 0 ≤ digitOf puzzle i ∧ digitOf puzzle i ≤ 9

theorem Digits.digit_boardOf (h : Digits puzzle) {i : ℕ} (hi : i < kCells) :
    digit (boardOf puzzle i) = puzzle.getD i 0 := (digit_of_range _ (h i hi)).symm

theorem IsSolution.digit_boardOf (h : IsSolution puzzle grid) {i : ℕ} (hi : i < kCells) :
    boardOf grid i ∈ values ∧ digit (boardOf grid i) = grid.getD i 0 := by
  have hmem : grid.getD i 0 ∈ values.map digit := by
    rw [map_digit_values]
    refine (h.complete .row (Part.row.of i) (Part.row.of_lt hi)).mem_iff.mp ?_
    exact List.mem_map_of_mem (f := fun i => grid.getD i 0) (Part.mem_cells.mpr ⟨hi, rfl⟩)
  obtain ⟨v, hv, heq⟩ := List.mem_map.mp hmem
  have hboard : boardOf grid i = v := by
    rw [boardOf, digitOf, ← heq, digit_value (SudokuSolver.mem_values.mp hv).2]
    rfl
  rw [hboard]
  exact ⟨hv, heq⟩

theorem IsSolution.digits (h : IsSolution puzzle grid) : Digits puzzle := by
  intro i hi
  by_cases hempty : puzzle.getD i 0 = 48
  · rw [digitOf, hempty]
    decide
  · obtain ⟨hv, hdigit⟩ := h.digit_boardOf hi
    rw [h.given i hi hempty] at hdigit
    rw [SudokuSolver.mem_values] at hv
    rw [digitOf, ← hdigit, digit_value hv.2]
    omega

theorem IsSolution.solves (h : IsSolution puzzle grid) :
    Solves (boardOf puzzle) (boardOf grid) := by
  refine ⟨fun i hi hne => ?_, fun p k hk => ?_⟩
  · have hgiven : puzzle.getD i 0 ≠ 48 := by
      intro heq
      rw [boardOf, digitOf, heq] at hne
      exact hne (by decide)
    rw [boardOf, boardOf, digitOf, digitOf, h.given i hi hgiven]
  · have hvalue : values = (values.map digit).map fun b => (b.toInt8.toInt - 48).toNat := by decide
    rw [hvalue, map_digit_values]
    have hperm := (h.complete p k hk).map fun b => (b.toInt8.toInt - 48).toNat
    rwa [List.map_map] at hperm

theorem Digits.isSolution (h : Digits puzzle) {g : ℕ → ℕ} (hg : Solves (boardOf puzzle) g) :
    IsSolution puzzle ((List.range kCells).map fun i => UInt8.ofNat (g i + 48)) := by
  have hget : ∀ i < kCells,
      ((List.range kCells).map fun i => UInt8.ofNat (g i + 48)).getD i 0 = digit (g i) := by
    intro i hi
    simp [List.getD, hi, digit]
  refine ⟨by simp, fun i hi hne => ?_, fun p k hk => ?_⟩
  · have hboard : boardOf puzzle i ≠ 0 := by
      intro hzero
      have hdigit := h.digit_boardOf hi
      rw [hzero] at hdigit
      exact hne hdigit.symm
    rw [hget i hi, hg.given i hi hboard, h.digit_boardOf hi]
  · have hmap : (p.cells k).map (fun i =>
        ((List.range kCells).map fun i => UInt8.ofNat (g i + 48)).getD i 0) =
        ((p.cells k).map g).map digit := by
      rw [List.map_map]
      exact List.map_congr_left fun i hi => hget i (Part.mem_cells.mp hi).1
    rw [hmap, ← map_digit_values]
    exact (hg.complete p k hk).map digit

/-- The answer to a puzzle of 81 characters is a solution, or `NoSolution` when there is
none. -/
theorem solveSudoku_answers (hpuzzle : puzzle.length = kCells) :
    ∃ result, solveSudoku puzzle = .ok result ∧
      (IsSolution puzzle result ∨ result = kNoSolution ∧ ∀ grid, ¬ IsSolution puzzle grid) := by
  rw [solveSudoku, assertThat_pos hpuzzle, ok_bind]
  have hvalid : ((List.range kCells).all fun i =>
      0 ≤ digitOf puzzle i ∧ digitOf puzzle i ≤ 9) = true ↔ Digits puzzle := by
    simp [Digits]
  split_ifs with hall
  · have hdigits := hvalid.mp hall
    obtain ⟨M, s, hmake, hbuilt⟩ := make_built (boardOf puzzle)
    have hmake' : SudokuSolver.make (fun i => (digitOf puzzle i).toNat) = .ok s := hmake
    rw [hmake', ok_bind]
    rcases hbuilt.solve_board with ⟨s', hresult, hsolves⟩ | ⟨hresult, hnone⟩
    · rw [hresult, ok_bind]
      exact ⟨_, rfl, .inl (hdigits.isSolution hsolves)⟩
    · rw [hresult, ok_bind]
      exact ⟨_, rfl, .inr ⟨rfl, fun grid hgrid => hnone _ hgrid.solves⟩⟩
  · exact ⟨_, rfl, .inr ⟨rfl, fun grid hgrid => hall (hvalid.mpr hgrid.digits)⟩⟩

/-- A board without a number in it. -/
theorem solveSudoku_answers_empty :
    ∃ result, solveSudoku (List.replicate 81 48) = .ok result ∧
      (IsSolution (List.replicate 81 48) result ∨
        result = kNoSolution ∧ ∀ grid, ¬ IsSolution (List.replicate 81 48) grid) :=
  solveSudoku_answers List.length_replicate

end Answer
end Muduo
