import Muduo.Sudoku.DancingLinks

/-!
# The search for an exact cover

`solve` takes a column, covers it, and tries the rows that meet it. For each row the other
columns of the row are covered as well, and what remains is solved in the same way. When
nothing was found every column has been uncovered again, and the solver is in the very state
in which it was called.
-/

namespace Muduo
namespace SudokuSolver

open Foundations

variable {M : Layout} {cov : List ℕ} {s : SudokuSolver} {c n : ℕ}

/-- The state behind the covers of `cs`, in this order. -/
def coveredAll (M : Layout) : List ℕ → List ℕ → SudokuSolver → SudokuSolver
  | _, [], s => s
  | cov, c :: cs, s => coveredAll M (c :: cov) cs (covered M cov c s)

theorem coveredAll_snoc (cs : List ℕ) (cov : List ℕ) (s : SudokuSolver) (c : ℕ) :
    coveredAll M cov (cs ++ [c]) s = covered M (cs.reverse ++ cov) c (coveredAll M cov cs s) := by
  induction cs generalizing cov s with
  | nil => rfl
  | cons d cs ih => simp [coveredAll, ih]

theorem coveredAll_keeps (M : Layout) (cs : List ℕ) (cov : List ℕ) (s : SudokuSolver) :
    Keeps s (coveredAll M cov cs s) := by
  induction cs generalizing cov s with
  | nil => exact .refl s
  | cons c cs ih => exact (covered_keeps M cov c s).trans (ih _ _)

theorem covered_stack (M : Layout) (cov : List ℕ) (c : ℕ) (s : SudokuSolver) (stack : List ℕ) :
    covered M cov c { s with stack := stack } = { covered M cov c s with stack := stack } := by
  have htake : ∀ (js : List ℕ) (s : SudokuSolver),
      js.foldl takeOut { s with stack := stack } =
        { js.foldl takeOut s with stack := stack } := by
    intro js
    induction js with
    | nil => intro s; rfl
    | cons j js ih => intro s; exact ih (s.takeOut j)
  exact htake (M.taken cov c) { s with horizontal := s.horizontal.unlink c }

theorem coveredAll_stack (M : Layout) (cs : List ℕ) (cov : List ℕ) (s : SudokuSolver)
    (stack : List ℕ) : coveredAll M cov cs { s with stack := stack } =
      { coveredAll M cov cs s with stack := stack } := by
  induction cs generalizing cov s with
  | nil => rfl
  | cons c cs ih => rw [coveredAll, covered_stack, ih, coveredAll]

theorem mem_items_append {cs : List ℕ} {d : ℕ} :
    d ∈ M.items (cs.reverse ++ cov) ↔ d ∈ M.items cov ∧ d ∉ cs := by
  simp only [Layout.mem_items, List.mem_append, List.mem_reverse, not_or]
  tauto

theorem Holds.coveredAll (h : Holds M cov s) {cs : List ℕ} (hnodup : cs.Nodup)
    (hcs : ∀ c ∈ cs, c ∈ M.items cov) :
    Holds M (cs.reverse ++ cov) (coveredAll M cov cs s) := by
  induction cs using List.reverseRecOn with
  | nil => exact h
  | append_singleton cs c ih =>
    have hnodup' := List.nodup_append'.mp hnodup
    have hcs' := ih hnodup'.1 fun d hd => hcs d (List.mem_append_left _ hd)
    have hc : c ∈ M.items (cs.reverse ++ cov) :=
      mem_items_append.mpr ⟨hcs c (by simp), fun hc => hnodup'.2.2 hc (by simp)⟩
    rw [coveredAll_snoc, List.reverse_append]
    exact hcs'.covered hc

/-- Columns that were covered one after the other come back in the opposite order. -/
theorem Holds.uncover_all (h : Holds M cov s) {cs : List ℕ} (hnodup : cs.Nodup)
    (hcs : ∀ c ∈ cs, c ∈ M.items cov) :
    cs.foldlM cover s = .ok (SudokuSolver.coveredAll M cov cs s) ∧
      cs.reverse.foldlM uncover (SudokuSolver.coveredAll M cov cs s) = .ok s := by
  induction cs generalizing cov s with
  | nil => exact ⟨rfl, rfl⟩
  | cons c cs ih =>
    rw [List.nodup_cons] at hnodup
    have hc := hcs c List.mem_cons_self
    obtain ⟨hforth, hback⟩ := ih (h.covered hc) hnodup.2 fun d hd => by
      have hne : d ≠ c := fun heq => hnodup.1 (heq ▸ hd)
      rw [Layout.items_cons, List.mem_erase_of_ne hne]
      exact hcs d (List.mem_cons_of_mem _ hd)
    refine ⟨by rw [List.foldlM_cons, h.cover_eq hc, ok_bind, hforth]; rfl, ?_⟩
    rw [List.reverse_cons, List.foldlM_append, SudokuSolver.coveredAll, hback, ok_bind,
      List.foldlM_cons, h.uncover_covered hc]
    rfl

section Row

variable (h : Holds M cov s) (hn : n ∈ M.rows.flatten)
  (hnodup : ((M.others n).map M.col).Nodup)
  (hcols : ∀ c ∈ (M.others n).map M.col, c ∈ M.items cov)
include h hn hnodup hcols

omit hn in
/-- The matrix when the first columns of the row are covered, and the next one. -/
theorem Holds.prefix_of_row {done rest : List ℕ} (hsplit : M.others n = done ++ rest) :
    Holds M ((done.map M.col).reverse ++ cov) (SudokuSolver.coveredAll M cov (done.map M.col) s) ∧
      ∀ a ∈ rest, M.col a ∈ M.items ((done.map M.col).reverse ++ cov) := by
  rw [hsplit, List.map_append] at hnodup hcols
  have hparts := List.nodup_append'.mp hnodup
  refine ⟨h.coveredAll hparts.1 fun c hc => hcols c (List.mem_append_left _ hc), fun a ha => ?_⟩
  have hmem : M.col a ∈ rest.map M.col := List.mem_map_of_mem ha
  exact mem_items_append.mpr
    ⟨hcols _ (List.mem_append_right _ hmem), fun hdone => hparts.2.2 hdone hmem⟩

theorem Holds.coverOthers_eq : s.coverOthers n =
    .ok (SudokuSolver.coveredAll M cov ((M.others n).map M.col) s) := by
  have hring := h.rows n hn
  obtain ⟨s', hs', -, rfl⟩ := forEach_spec right (fun s j => s.cover (s.col j)) n n (M.others n)
    (I := fun done t => (∃ rest, M.others n = done ++ rest) ∧
      t = SudokuSolver.coveredAll M cov (done.map M.col) s)
    (List.nodup_cons.mp hring.nodup).1
    (fun done t ⟨⟨rest, hrest⟩, ht⟩ => by
      have hdone := (h.prefix_of_row hnodup hcols hrest).1
      exact ht ▸ (hdone.rows n hn).forth)
    (fun done a t ⟨rest, hrest⟩ ⟨_, ht⟩ => by
      obtain ⟨hdone, hnext⟩ := h.prefix_of_row hnodup hcols hrest
      refine ⟨_, ?_, ⟨rest, by simp [hrest]⟩, rfl⟩
      rw [ht, hdone.col, hdone.cover_eq (hnext a (by simp)), List.map_append, List.map_singleton,
        coveredAll_snoc])
    (others_length_lt hn) (s := s) ⟨⟨_, rfl⟩, rfl⟩
  exact hs'

theorem Holds.uncoverOthers_eq :
    (SudokuSolver.coveredAll M cov ((M.others n).map M.col) s).uncoverOthers n = .ok s := by
  have hring := h.rows n hn
  obtain ⟨s', hs', hend, hsplit, rfl⟩ := forEach_spec left (fun s j => s.uncover (s.col j)) n n
    (M.others n).reverse
    (I := fun done t => ∃ rest, M.others n = rest ++ done.reverse ∧
      t = SudokuSolver.coveredAll M cov (rest.map M.col) s)
    (by simpa using (List.nodup_cons.mp hring.nodup).1)
    (fun done t ⟨rest, hrest, ht⟩ => by
      have hdone := (h.prefix_of_row hnodup hcols hrest).1
      exact ht ▸ (hdone.rows n hn).visits_prev)
    (fun done a t ⟨later, hlater⟩ ⟨rest, hrest, ht⟩ => by
      have hall : M.others n = later.reverse ++ a :: done.reverse := by
        rw [← List.reverse_reverse (M.others n), hlater]
        simp
      obtain rfl : rest = later.reverse ++ [a] := by
        rw [hall, List.append_cons] at hrest
        exact (List.append_cancel_right hrest).symm
      obtain ⟨hdone, hnext⟩ := h.prefix_of_row hnodup hcols hall
      refine ⟨SudokuSolver.coveredAll M cov (later.reverse.map M.col) s, ?_, later.reverse,
        by simp [hall], rfl⟩
      rw [ht, (coveredAll_keeps M _ cov s).col, h.col, List.map_append, List.map_singleton,
        coveredAll_snoc]
      exact hdone.uncover_covered (hnext a (by simp)))
    (by rw [List.length_reverse]; exact others_length_lt hn)
    (s := SudokuSolver.coveredAll M cov ((M.others n).map M.col) s) ⟨_, by simp, rfl⟩
  obtain rfl : hend = [] := by simpa using hsplit
  exact hs'

end Row

theorem scanColumns_mem {xs : List ℕ} {a : ℕ} (hway : Visits s.right a xs s.root)
    (hroot : s.root ∉ xs) {fuel : ℕ} (hfuel : xs.length < fuel) (c : ℕ) :
    ∃ d ∈ c :: xs, s.scanColumns fuel c (s.right a) = .ok d := by
  induction xs generalizing a fuel c with
  | nil =>
    obtain ⟨fuel, rfl⟩ : ∃ k, fuel = k + 1 := ⟨fuel - 1, by simp at hfuel; omega⟩
    exact ⟨c, by simp, by rw [show s.right a = s.root from hway, scanColumns, if_pos rfl]⟩
  | cons x xs ih =>
    obtain ⟨fuel, rfl⟩ : ∃ k, fuel = k + 1 := ⟨fuel - 1, by simp at hfuel; omega⟩
    rw [List.mem_cons, not_or] at hroot
    have hnext := ih hway.2 hroot.2 (by simpa using hfuel)
    rw [hway.1, scanColumns, if_neg (Ne.symm hroot.1)]
    split_ifs
    · exact ⟨x, by simp, rfl⟩
    · obtain ⟨d, hd, heq⟩ := hnext x
      exact ⟨d, List.mem_cons_of_mem _ hd, heq⟩
    · obtain ⟨d, hd, heq⟩ := hnext c
      refine ⟨d, ?_, heq⟩
      rcases List.mem_cons.mp hd with rfl | hd
      · simp
      · simp [hd]

theorem Holds.getMinColumn_mem (h : Holds M cov s) (hne : M.items cov ≠ []) :
    ∃ c ∈ M.items cov, s.getMinColumn = .ok c := by
  obtain ⟨x, xs, hitems⟩ := List.exists_cons_of_ne_nil hne
  have hring := h.heads
  have hlen : (M.items cov).length < kMaxNodes + 1 :=
    M.length_lt M.items_nodup fun d hd => List.mem_append_left _
      (List.mem_cons_of_mem _ (Layout.mem_items.mp hd).1)
  rw [hitems] at hring hlen ⊢
  have hfirst : s.right s.root = x := by
    rw [h.root]
    exact hring.forth.1
  have hroot : s.root ∉ xs := by
    have := (List.nodup_cons.mp hring.nodup).1
    rw [h.root]
    exact fun hmem => this (List.mem_cons_of_mem _ hmem)
  rw [getMinColumn, hfirst]
  split_ifs
  · have hway : Visits s.right x xs s.root := by
      rw [h.root]
      exact hring.forth.2
    exact scanColumns_mem hway hroot (by simp at hlen ⊢; omega) x
  · exact ⟨x, by simp, rfl⟩

/-- The names of the nodes of a row: one of them is a cell, and the others are a value
somewhere. -/
structure Reads (name : ℕ → ℕ) (r : List ℕ) (cell val : ℕ) : Prop where
  names : ∀ n ∈ r, name n < 100 ∧ name n = cell ∨ 100 ≤ name n ∧ name n % 10 = val
  cell : ∃ n ∈ r, name n < 100
  val : ∃ n ∈ r, 100 ≤ name n

/-- What a row says is known when the loop has seen all its nodes. -/
theorem readRow_eq {cell val : ℕ} {xs : List ℕ} {a b : ℕ} (hway : Visits s.right a xs b)
    (hnames : ∀ n ∈ xs, s.name n < 100 ∧ s.name n = cell ∨
      100 ≤ s.name n ∧ s.name n % 10 = val)
    (knownCell knownVal : Option ℕ)
    (hcell : knownCell = some cell ∨ knownCell = none ∧ ∃ n ∈ xs, s.name n < 100)
    (hval : knownVal = some val ∨ knownVal = none ∧ ∃ n ∈ xs, 100 ≤ s.name n)
    {fuel : ℕ} (hfuel : xs.length < fuel) :
    s.readRow fuel knownCell knownVal (s.right a) = .ok (cell, val) := by
  induction xs generalizing a fuel knownCell knownVal with
  | nil =>
    obtain ⟨fuel, rfl⟩ : ∃ k, fuel = k + 1 := ⟨fuel - 1, by simp at hfuel; omega⟩
    obtain rfl : knownCell = some cell := hcell.resolve_right (by simp)
    obtain rfl : knownVal = some val := hval.resolve_right (by simp)
    rfl
  | cons x xs ih =>
    obtain ⟨fuel, rfl⟩ : ∃ k, fuel = k + 1 := ⟨fuel - 1, by simp at hfuel; omega⟩
    have hrest := fun n hn => hnames n (List.mem_cons_of_mem x hn)
    have hlen : xs.length < fuel := by simpa using hfuel
    rw [hway.1]
    by_cases hboth : knownCell = some cell ∧ knownVal = some val
    · rw [hboth.1, hboth.2]
      rfl
    · have hstep : s.readRow (fuel + 1) knownCell knownVal x =
          if s.name x < 100 then s.readRow fuel (some (s.name x)) knownVal (s.right x)
          else s.readRow fuel knownCell (some (s.name x % 10)) (s.right x) := by
        rcases hcell with rfl | ⟨rfl, -⟩ <;> rcases hval with rfl | ⟨rfl, -⟩ <;>
          first | rfl | exact absurd ⟨rfl, rfl⟩ hboth
      rw [hstep]
      rcases hnames x (by simp) with ⟨hx, hname⟩ | ⟨hx, hname⟩
      · rw [if_pos hx, hname]
        refine ih hway.2 hrest _ _ (.inl rfl) ?_ hlen
        simpa [Nat.not_le.mpr hx] using hval
      · rw [if_neg (Nat.not_lt.mpr hx), hname]
        refine ih hway.2 hrest _ _ ?_ (.inl rfl) hlen
        simpa [Nat.not_lt.mpr hx] using hcell

/-- `inout_[cell] = val`. -/
def write (reads : List ℕ → ℕ × ℕ) (board : ℕ → ℕ) (r : List ℕ) : ℕ → ℕ :=
  Function.update board (reads r).1 (reads r).2

section Solve

variable {reads : List ℕ → ℕ × ℕ}

theorem Holds.readRow_eq (h : Holds M cov s) {r : List ℕ} (hr : r ∈ M.rows)
    (hreads : Reads s.name r (reads r).1 (reads r).2) (hn : n ∈ r) :
    s.readRow (kMaxNodes + 1) none none n = .ok (reads r) := by
  have hnode : n ∈ M.rows.flatten := List.mem_flatten.mpr ⟨r, hr, hn⟩
  have hring := h.rows n hnode
  have hmem : ∀ m, m ∈ n :: M.others n ↔ m ∈ r := fun m => M.mem_cons_others hr hn
  obtain ⟨m, hnext⟩ : ∃ m, s.right m = n := ⟨_, (hring.prev_spec List.mem_cons_self).2⟩
  have hway : Visits s.right m (n :: M.others n) n := ⟨hnext, hring.forth⟩
  have hlen : (n :: M.others n).length < kMaxNodes + 1 :=
    M.length_lt (M.others_nodup hr hn) fun k hk =>
      List.mem_append_right _ (List.mem_flatten.mpr ⟨r, hr, (hmem k).mp hk⟩)
  have hread := SudokuSolver.readRow_eq hway
    (fun k hk => hreads.names k ((hmem k).mp hk)) none none
    (.inr ⟨rfl, by simpa only [hmem] using hreads.cell⟩)
    (.inr ⟨rfl, by simpa only [hmem] using hreads.val⟩) hlen
  rwa [hnext] at hread

theorem Holds.fill_eq (h : Holds M cov s) {Q : List (List ℕ)} (hQ : ∀ r ∈ Q, r ∈ M.rows)
    (hreads : ∀ r ∈ M.rows, Reads s.name r (reads r).1 (reads r).2)
    (hstack : List.Forall₂ (· ∈ ·) s.stack Q) :
    s.fill = .ok { s with inout := Q.foldl (write reads) s.inout } := by
  have hfold : ∀ (ns : List ℕ) (Q : List (List ℕ)) (board : ℕ → ℕ), (∀ r ∈ Q, r ∈ M.rows) →
      List.Forall₂ (· ∈ ·) ns Q →
      ns.foldlM (fun inout n => do
        let read ← s.readRow (kMaxNodes + 1) none none n
        return Function.update inout read.1 read.2) board = .ok (Q.foldl (write reads) board) := by
    intro ns Q board hQ hall
    induction hall generalizing board with
    | nil => rfl
    | @cons n r ns Q hn _ ih =>
      have hr := hQ r List.mem_cons_self
      rw [List.foldlM_cons, h.readRow_eq hr (hreads r hr) hn, ok_bind]
      exact ih _ fun r hr => hQ r (List.mem_cons_of_mem _ hr)
  rw [fill]
  exact congrArg (Except.map _) (hfold s.stack Q s.inout hQ hstack)

def meets (M : Layout) (r : List ℕ) : List ℕ := r.map M.col

/-- A choice of rows that meets each of the items once. -/
abbrev Covers (M : Layout) (items : List ℕ) (R : List (List ℕ)) : Prop :=
  ExactCover (meets M) M.rows items R

theorem items_of_row (hn : n ∈ M.active cov c) {r : List ℕ} (hr : r ∈ M.rows) (hnr : n ∈ r) :
    M.items (((M.others n).map M.col).reverse ++ c :: cov) =
      (M.items cov).filter (· ∉ meets M r) := by
  rw [Layout.items, Layout.items, List.filter_filter]
  refine List.filter_congr fun d _ => ?_
  obtain ⟨-, rfl, -⟩ := Layout.mem_active.mp hn
  have hperm := (M.others_perm r hr n hnr).map M.col
  have hmem : d ∈ meets M r ↔ d = M.col n ∨ d ∈ (M.others n).map M.col := by
    rw [meets, ← hperm.mem_iff, List.map_cons, List.mem_cons]
  rw [← Bool.decide_and, decide_eq_decide, hmem]
  simp only [List.mem_append, List.mem_reverse, List.mem_cons, not_or]
  tauto

theorem others_of_active (hn : n ∈ M.active cov c) :
    ((M.others n).map M.col).Nodup ∧
      ∀ d ∈ (M.others n).map M.col, d ∈ M.items (c :: cov) := by
  obtain ⟨⟨r, hr, hnr⟩, rfl, halive⟩ := Layout.mem_active.mp hn
  have hnodup := ((M.others_perm r hr n hnr).map M.col).nodup_iff.mpr (M.cols_nodup r hr)
  rw [List.map_cons, List.nodup_cons] at hnodup
  refine ⟨hnodup.2, fun d hd => ?_⟩
  obtain ⟨m, hm, rfl⟩ := List.mem_map.mp hd
  have hmr := (M.mem_cons_others hr hnr).mp (List.mem_cons_of_mem _ hm)
  have hne : M.col m ≠ M.col n := fun heq => hnodup.1 (heq ▸ hd)
  rw [Layout.mem_items, List.mem_cons, not_or]
  exact ⟨M.col_mem r hr m hmr, hne, halive m (List.mem_cons_of_mem _ hm)⟩

/-- What a call of `solve` does: it finds an exact cover of the columns that are left and
writes it to the board behind the rows `Q` of the stack, or there is none and it has changed
nothing. -/
def Decides (M : Layout) (reads : List ℕ → ℕ × ℕ) (cov : List ℕ) (Q : List (List ℕ))
    (s : SudokuSolver) (result : Except Fault (Bool × SudokuSolver)) : Prop :=
  (∃ s' R, result = .ok (true, s') ∧ Covers M (M.items cov) R ∧
    s'.inout = (Q ++ R).foldl (write reads) s.inout) ∨
  (result = .ok (false, s) ∧ ∀ R, ¬ Covers M (M.items cov) R)

variable {Q : List (List ℕ)}

/-- The loop over the rows of a column, when the calls in it decide what is left. -/
theorem tryRows_decides {solve : SudokuSolver → Except Fault (Bool × SudokuSolver)}
    (h : Holds M cov s) (hc : c ∈ M.items cov) (hstack : List.Forall₂ (· ∈ ·) s.stack Q)
    (hQ : ∀ r ∈ Q, r ∈ M.rows)
    (hsolve : ∀ {cov' : List ℕ} {s' : SudokuSolver} (Q' : List (List ℕ)), Holds M cov' s' →
      s'.name = s.name → List.Forall₂ (· ∈ ·) s'.stack Q' → (∀ r ∈ Q', r ∈ M.rows) →
      (M.items cov').length < (M.items cov).length → Decides M reads cov' Q' s' (solve s'))
    {rest : List ℕ} {a fuel : ℕ} (hrest : ∀ n ∈ rest, n ∈ M.active cov c)
    (hway : Visits (covered M cov c s).down a rest c) (hfuel : rest.length < fuel) :
    let result := tryRows solve c fuel (covered M cov c s) ((covered M cov c s).down a)
    (∃ s' R, result = .ok (true, s') ∧ Covers M (M.items cov) R ∧
      s'.inout = (Q ++ R).foldl (write reads) s.inout) ∨
    (result = .ok (false, s) ∧ ∀ n ∈ rest, ∀ r ∈ M.rows, n ∈ r →
      ∀ R, ¬ Covers M ((M.items cov).filter (· ∉ meets M r)) R) := by
  have hkeeps := covered_keeps M cov c s
  induction rest generalizing a fuel with
  | nil =>
    obtain ⟨fuel, rfl⟩ : ∃ k, fuel = k + 1 := ⟨fuel - 1, by simp at hfuel; omega⟩
    refine .inr ⟨?_, by simp⟩
    rw [show (covered M cov c s).down a = c from hway, tryRows, if_pos rfl,
      h.uncover_covered hc]
    rfl
  | cons n rest ih =>
    obtain ⟨fuel, rfl⟩ : ∃ k, fuel = k + 1 := ⟨fuel - 1, by simp at hfuel; omega⟩
    have hn := hrest n List.mem_cons_self
    obtain ⟨⟨r, hr, hnr⟩, hcol, halive⟩ := Layout.mem_active.mp hn
    have hnode : n ∈ M.rows.flatten := List.mem_flatten.mpr ⟨r, hr, hnr⟩
    have hne : n ≠ c := fun heq => M.head_notMem (Layout.mem_items.mp hc).1 (heq ▸ hnode)
    obtain ⟨hnodup, hcols⟩ := others_of_active hn
    set t := covered M cov c s with ht
    set cs := (M.others n).map M.col with hcs
    have hheld : Holds M (c :: cov) t := h.covered hc
    have hpushed : Holds M (c :: cov) { t with stack := t.stack ++ [n] } :=
      ⟨hheld.root, hheld.col, hheld.rows, hheld.heads, hheld.columns, hheld.size⟩
    have hdeep := hpushed.coveredAll hnodup hcols
    have hdeepkeeps := coveredAll_keeps M cs (c :: cov) { t with stack := t.stack ++ [n] }
    have hitems := items_of_row hn hr hnr
    have hsub : ∀ k ∈ meets M r, k ∈ M.items cov := by
      intro k hk
      obtain ⟨m, hm, rfl⟩ := List.mem_map.mp hk
      exact Layout.mem_items.mpr ⟨M.col_mem r hr m hm, (M.alive_iff hr hnr).mp halive m hm⟩
    have hless : (M.items (cs.reverse ++ c :: cov)).length < (M.items cov).length := by
      rw [hitems]
      refine List.length_filter_lt_length_iff_exists.mpr ⟨c, hc, ?_⟩
      have : c ∈ meets M r := hcol ▸ List.mem_map_of_mem hnr
      simpa using this
    have hdecides := hsolve (Q ++ [r]) hdeep (hdeepkeeps.name.trans hkeeps.name)
      (by
        rw [hdeepkeeps.stack, show t.stack = s.stack from hkeeps.stack]
        exact List.rel_append hstack (.cons hnr .nil))
      (by
        intro r' hr'
        rcases List.mem_append.mp hr' with hr' | hr'
        · exact hQ r' hr'
        · exact List.mem_singleton.mp hr' ▸ hr) hless
    rw [hway.1]
    rw [tryRows, if_neg hne, hpushed.coverOthers_eq hnode hnodup hcols, ok_bind]
    rcases hdecides with ⟨s', R, hresult, hcover, hboard⟩ | ⟨hresult, hnone⟩
    · refine .inl ⟨s', r :: R, ?_, ?_, ?_⟩
      · rw [hresult]
        rfl
      · rw [hitems] at hcover
        exact hcover.cons hr (M.cols_nodup r hr) hsub M.items_nodup
      · rw [hboard, hdeepkeeps.inout, List.append_assoc]
        exact congrArg ((Q ++ r :: R).foldl (write reads)) hkeeps.inout
    · rw [hresult, ok_bind]
      have hpopped :
          { coveredAll M (c :: cov) cs { t with stack := t.stack ++ [n] } with
            stack :=
              (coveredAll M (c :: cov) cs { t with stack := t.stack ++ [n] }).stack.dropLast } =
            coveredAll M (c :: cov) cs t := by
        rw [coveredAll_stack]
        simp [← (coveredAll_keeps M cs (c :: cov) t).stack]
      have hback := ih (fun m hm => hrest m (List.mem_cons_of_mem _ hm)) hway.2
        (by simpa using hfuel)
      simp only [Bool.false_eq_true, if_false]
      rw [hpopped, hheld.uncoverOthers_eq hnode hnodup hcols, ok_bind]
      rcases hback with hfound | ⟨hfalse, hrestnone⟩
      · exact .inl hfound
      · refine .inr ⟨hfalse, fun m hm r' hr' hmr' R hcover => ?_⟩
        rcases List.mem_cons.mp hm with rfl | hm
        · obtain rfl := M.row_unique hr hr' hnr hmr'
          exact hnone R (hitems ▸ hcover)
        · exact hrestnone m hm r' hr' hmr' R hcover

theorem solve_decides (hreads : ∀ r ∈ M.rows, Reads s.name r (reads r).1 (reads r).2)
    (h : Holds M cov s) (hstack : List.Forall₂ (· ∈ ·) s.stack Q) (hQ : ∀ r ∈ Q, r ∈ M.rows)
    {fuel : ℕ} (hfuel : (M.items cov).length < fuel) :
    Decides M reads cov Q s (solve fuel s) := by
  induction fuel generalizing cov s Q with
  | zero => omega
  | succ fuel ih =>
    have hleft : s.left s.root = s.root ↔ M.items cov = [] := by
      rw [h.root]
      exact h.heads.prev_head_iff
    rw [solve]
    split_ifs with hempty
    · rw [h.fill_eq hQ hreads hstack]
      refine .inl ⟨_, [], rfl, ⟨by simp, ?_⟩, by simp⟩
      simp [hleft.mp hempty]
    · obtain ⟨c, hc, hmin⟩ := h.getMinColumn_mem (fun hnil => hempty (hleft.mpr hnil))
      rw [hmin, ok_bind, h.cover_eq hc, ok_bind]
      have htry := tryRows_decides h hc hstack hQ
        (fun {cov' s'} Q' h' hname hstack' hQ' hless =>
          ih (hname ▸ hreads) h' hstack' hQ' (by omega))
        (fun n hn => hn) (h.covered_ring hc).forth active_length_lt
      rcases htry with hfound | ⟨hfalse, hnone⟩
      · exact .inl hfound
      · refine .inr ⟨hfalse, fun R hcover => ?_⟩
        -- some row of a cover meets the column, and the loop has tried it
        obtain ⟨r, hr, hcr, hsub, R', hcover'⟩ := hcover.choose M.items_nodup hc
        obtain ⟨n, hnr, hcol⟩ := List.mem_map.mp hcr
        have hactive : n ∈ M.active cov c := by
          refine Layout.mem_active.mpr ⟨⟨r, hr, hnr⟩, hcol, (M.alive_iff hr hnr).mpr ?_⟩
          exact fun m hm => (Layout.mem_items.mp (hsub _ (List.mem_map_of_mem hm))).2
        exact hnone n hactive r hr hnr R' hcover'

end Solve
end SudokuSolver
end Muduo
