import Muduo.Foundations.ExactCover
import Muduo.Sudoku.Solver

/-!
# Covering and uncovering columns

The matrix as it was laid out stays the same during the search. What changes is which columns
are covered. The header of a covered column is out of the ring of headers, and a row that
meets one is out of the rings of all other columns. `uncover` takes the nodes in the opposite
order and leads back to the very state before `cover`.
-/

namespace Muduo
namespace SudokuSolver

open Foundations

/-- The nodes of a matrix. -/
structure Layout where
  root : ℕ
  heads : List ℕ
  rows : List (List ℕ)
  col : ℕ → ℕ
  /-- the other nodes of a node's row, in the order in which `right` visits them -/
  others : ℕ → List ℕ
  nodup : (root :: heads ++ rows.flatten).Nodup
  bounded : ∀ n ∈ root :: heads ++ rows.flatten, n < kMaxNodes
  col_mem : ∀ r ∈ rows, ∀ n ∈ r, col n ∈ heads
  cols_nodup : ∀ r ∈ rows, (r.map col).Nodup
  others_perm : ∀ r ∈ rows, ∀ n ∈ r, (n :: others n).Perm r

namespace Layout

variable (M : Layout) (cov : List ℕ)

def items : List ℕ := M.heads.filter (· ∉ cov)

def Alive (n : ℕ) : Prop := ∀ m ∈ n :: M.others n, M.col m ∉ cov

instance (n : ℕ) : Decidable (M.Alive cov n) := inferInstanceAs (Decidable (∀ _ ∈ _, _))

/-- The nodes of a column whose rows can still be chosen. -/
def active (c : ℕ) : List ℕ := (M.rows.flatten.filter (M.col · = c)).filter (M.Alive cov ·)

variable {M cov} {r : List ℕ} {n m c : ℕ}

theorem mem_items : c ∈ M.items cov ↔ c ∈ M.heads ∧ c ∉ cov := by simp [items]

theorem mem_active : n ∈ M.active cov c ↔
    (∃ r ∈ M.rows, n ∈ r) ∧ M.col n = c ∧ M.Alive cov n := by
  simp only [active, List.mem_filter, List.mem_flatten, decide_eq_true_eq, and_assoc]

theorem heads_nodup : M.heads.Nodup :=
  (List.nodup_append'.mp (List.nodup_cons.mp M.nodup).2).1

theorem nodes_nodup : M.rows.flatten.Nodup :=
  (List.nodup_append'.mp (List.nodup_cons.mp M.nodup).2).2.1

theorem root_notMem : M.root ∉ M.heads ∧ M.root ∉ M.rows.flatten := by
  have := (List.nodup_cons.mp M.nodup).1
  simpa [not_or] using this

theorem head_notMem (hc : c ∈ M.heads) : c ∉ M.rows.flatten := fun hc' =>
  (List.nodup_append'.mp (List.nodup_cons.mp M.nodup).2).2.2 hc hc'

theorem items_nodup : (M.items cov).Nodup := M.heads_nodup.filter _

theorem active_nodup : (M.active cov c).Nodup := (M.nodes_nodup.filter _).filter _

theorem row_unique {r' : List ℕ} (hr : r ∈ M.rows) (hr' : r' ∈ M.rows) (hn : n ∈ r)
    (hn' : n ∈ r') : r = r' := by
  by_contra hne
  have hpair := (List.nodup_flatten.mp M.nodes_nodup).2
  have : Std.Symm (@List.Disjoint ℕ) := ⟨fun _ _ h => h.symm⟩
  exact hpair.forall hr hr' hne hn hn'

theorem mem_cons_others (hr : r ∈ M.rows) (hn : n ∈ r) : m ∈ n :: M.others n ↔ m ∈ r :=
  (M.others_perm r hr n hn).mem_iff

theorem alive_iff (hr : r ∈ M.rows) (hn : n ∈ r) :
    M.Alive cov n ↔ ∀ m ∈ r, M.col m ∉ cov := by
  simp only [Alive, M.mem_cons_others hr hn]

theorem col_inj (hr : r ∈ M.rows) (hn : n ∈ r) (hm : m ∈ r) (h : M.col n = M.col m) : n = m :=
  List.inj_on_of_nodup_map (M.cols_nodup r hr) hn hm h

theorem others_nodup (hr : r ∈ M.rows) (hn : n ∈ r) : (n :: M.others n).Nodup :=
  (M.others_perm r hr n hn).nodup_iff.mpr (List.Nodup.of_map _ (M.cols_nodup r hr))

/-- Distinct nodes of the matrix are few enough for every loop. -/
theorem length_lt {xs : List ℕ} (hnodup : xs.Nodup)
    (hxs : ∀ n ∈ xs, n ∈ M.root :: M.heads ++ M.rows.flatten) : xs.length < kMaxNodes + 1 := by
  rw [← List.toFinset_card_of_nodup hnodup, Nat.lt_succ_iff, ← Finset.card_range kMaxNodes]
  refine Finset.card_le_card fun n hn => ?_
  exact Finset.mem_range.mpr (M.bounded n (hxs n (List.mem_toFinset.mp hn)))

/-- In the order in which `cover` comes to them. -/
def taken (M : Layout) (cov : List ℕ) (c : ℕ) : List ℕ := (M.active cov c).flatMap M.others

theorem mem_taken {j : ℕ} : j ∈ M.taken cov c ↔
    ∃ r ∈ M.rows, (∀ m ∈ r, M.col m ∉ cov) ∧ j ∈ r ∧ ∃ n ∈ r, n ≠ j ∧ M.col n = c := by
  simp only [taken, List.mem_flatMap, mem_active]
  constructor
  · rintro ⟨n, ⟨⟨r, hr, hn⟩, hcol, halive⟩, hj⟩
    refine ⟨r, hr, (M.alive_iff hr hn).mp halive, ?_, n, hn, ?_, hcol⟩
    · exact (M.mem_cons_others hr hn).mp (List.mem_cons_of_mem _ hj)
    · rintro rfl
      exact (List.nodup_cons.mp (M.others_nodup hr hn)).1 hj
  · rintro ⟨r, hr, halive, hj, n, hn, hne, hcol⟩
    refine ⟨n, ⟨⟨r, hr, hn⟩, hcol, (M.alive_iff hr hn).mpr halive⟩, ?_⟩
    exact ((List.mem_cons.mp ((M.mem_cons_others hr hn).mpr hj)).resolve_left hne.symm)

theorem taken_nodup : (M.taken cov c).Nodup := by
  refine List.nodup_flatMap.mpr ⟨fun n hn => ?_, ?_⟩
  · obtain ⟨⟨r, hr, hn⟩, -⟩ := mem_active.mp hn
    exact (List.nodup_cons.mp (M.others_nodup hr hn)).2
  · refine List.Pairwise.imp_of_mem (fun {n n'} hn hn' hne => ?_) M.active_nodup
    obtain ⟨⟨r, hr, hnr⟩, hcol, -⟩ := mem_active.mp hn
    obtain ⟨⟨r', hr', hnr'⟩, hcol', -⟩ := mem_active.mp hn'
    intro m hm hm'
    have hmr := (M.mem_cons_others hr hnr).mp (List.mem_cons_of_mem _ hm)
    have hmr' := (M.mem_cons_others hr' hnr').mp (List.mem_cons_of_mem _ hm')
    obtain rfl := M.row_unique hr hr' hmr hmr'
    exact hne (M.col_inj hr hnr hnr' (hcol.trans hcol'.symm))

/-- Each of them is in the ring of a column that is not covered, and not in that of `c`. -/
theorem taken_active {j : ℕ} (hj : j ∈ M.taken cov c) :
    M.col j ∈ M.items cov ∧ j ∈ M.active cov (M.col j) ∧ M.col j ≠ c := by
  obtain ⟨r, hr, halive, hjr, n, hn, hne, rfl⟩ := mem_taken.mp hj
  refine ⟨mem_items.mpr ⟨M.col_mem r hr j hjr, halive j hjr⟩,
    mem_active.mpr ⟨⟨r, hr, hjr⟩, rfl, (M.alive_iff hr hjr).mpr halive⟩, fun heq => ?_⟩
  exact hne (M.col_inj hr hn hjr heq.symm)

theorem active_cons {d : ℕ} (hd : d ≠ c) :
    M.active (c :: cov) d = (M.active cov d).filter (· ∉ M.taken cov c) := by
  rw [active, active, List.filter_filter (p := fun x => decide (x ∉ M.taken cov c))]
  refine List.filter_congr fun n hn => ?_
  obtain ⟨hn, hcol⟩ := List.mem_filter.mp hn
  obtain ⟨r, hr, hnr⟩ := List.mem_flatten.mp hn
  have hcol : M.col n = d := by simpa using hcol
  rw [← Bool.decide_and, decide_eq_decide, M.alive_iff hr hnr, M.alive_iff hr hnr]
  constructor
  · intro halive
    refine ⟨fun htaken => ?_, fun m hm => (not_or.mp (List.mem_cons.not.mp (halive m hm))).2⟩
    obtain ⟨r', hr', -, hnr', m, hm, -, hcm⟩ := mem_taken.mp htaken
    obtain rfl := M.row_unique hr hr' hnr hnr'
    exact (not_or.mp (List.mem_cons.not.mp (halive m hm))).1 hcm
  · rintro ⟨hnot, halive⟩ m hm hmem
    rcases List.mem_cons.mp hmem with hcm | hmem
    · have hne : m ≠ n := fun heq => hd (by rw [← hcol, ← heq, hcm])
      exact hnot (mem_taken.mpr ⟨r, hr, halive, hnr, m, hm, hne, hcm⟩)
    · exact halive m hm hmem

theorem items_cons : M.items (c :: cov) = (M.items cov).erase c := by
  rw [M.items_nodup.erase_eq_filter, items, items, List.filter_filter]
  refine List.filter_congr fun d _ => ?_
  by_cases hd : d = c <;> simp [hd]

end Layout

section TakeOut

variable {s : SudokuSolver} {js : List ℕ}

/-- `cover` and `uncover` leave the rest of the solver alone. -/
structure Keeps (s s' : SudokuSolver) : Prop where
  root : s'.root = s.root
  col : s'.col = s.col
  name : s'.name = s.name
  stack : s'.stack = s.stack
  inout : s'.inout = s.inout

theorem Keeps.refl (s : SudokuSolver) : Keeps s s := ⟨rfl, rfl, rfl, rfl, rfl⟩

theorem Keeps.trans {s₁ s₂ s₃ : SudokuSolver} (h : Keeps s₁ s₂) (h' : Keeps s₂ s₃) :
    Keeps s₁ s₃ :=
  ⟨h'.root.trans h.root, h'.col.trans h.col, h'.name.trans h.name, h'.stack.trans h.stack,
    h'.inout.trans h.inout⟩

theorem takeOut_keeps (js : List ℕ) (s : SudokuSolver) : Keeps s (js.foldl takeOut s) := by
  induction js generalizing s with
  | nil => exact .refl s
  | cons j js ih =>
    have htake : Keeps s (s.takeOut j) := ⟨rfl, rfl, rfl, rfl, rfl⟩
    exact htake.trans (ih (s.takeOut j))

@[simp] theorem horizontal_takeOut (js : List ℕ) (s : SudokuSolver) :
    (js.foldl takeOut s).horizontal = s.horizontal := by
  induction js generalizing s with
  | nil => rfl
  | cons j js ih => exact ih (s.takeOut j)

@[simp] theorem horizontal_putBack (js : List ℕ) (s : SudokuSolver) :
    (js.foldl putBack s).horizontal = s.horizontal := by
  induction js generalizing s with
  | nil => rfl
  | cons j js ih => exact ih (s.putBack j)

@[simp] theorem vertical_takeOut (js : List ℕ) (s : SudokuSolver) :
    (js.foldl takeOut s).vertical = js.foldl Links.unlink s.vertical := by
  induction js generalizing s with
  | nil => rfl
  | cons j js ih => exact ih (s.takeOut j)

theorem size_takeOut (js : List ℕ) (s : SudokuSolver) (c : ℕ) :
    (js.foldl takeOut s).size c = s.size c - js.countP (s.col · = c) := by
  induction js generalizing s with
  | nil => simp
  | cons j js ih =>
    have hcol : (s.takeOut j).col = s.col := rfl
    rw [List.foldl_cons, ih, hcol, List.countP_cons]
    by_cases hj : s.col j = c
    · simp only [takeOut, hj, Function.update_self, decide_true, if_true, Nat.cast_add,
        Nat.cast_one]
      omega
    · simp [takeOut, hj, Function.update_of_ne (Ne.symm hj)]

variable {cs : List ℕ} {nodes : ℕ → List ℕ}

theorem putBack_takeOut {c j : ℕ} (hr : Ring s.vertical c (nodes c)) (hj : j ∈ nodes c) :
    (s.takeOut j).putBack j = s := by
  simp only [takeOut, putBack, Links.relink_unlink_of_ring hr hj, Function.update_self,
    Function.update_idem, sub_add_cancel, Function.update_eq_self]

theorem putBack_takeOut_all (hr : Rings s.vertical cs nodes) (hnodup : js.Nodup)
    (hjs : ∀ j ∈ js, ∃ c ∈ cs, j ∈ nodes c) :
    js.reverse.foldl putBack (js.foldl takeOut s) = s := by
  induction js generalizing s nodes with
  | nil => rfl
  | cons j js ih =>
    rw [List.nodup_cons] at hnodup
    obtain ⟨c, hc, hj⟩ := hjs j (by simp)
    have hrest := ih (s := s.takeOut j) (hr.unlink hc hj) hnodup.2 fun k hk => by
      obtain ⟨d, hd, hk'⟩ := hjs k (List.mem_cons_of_mem _ hk)
      have hne : k ≠ j := fun heq => hnodup.1 (heq ▸ hk)
      exact ⟨d, hd, List.mem_filter.mpr ⟨hk', by simpa using hne⟩⟩
    rw [List.reverse_cons, List.foldl_append, List.foldl_cons (b := s), hrest]
    exact putBack_takeOut (hr.ring c hc) hj

end TakeOut

section Loops

variable {s : SudokuSolver} {xs : List ℕ} {n : ℕ}

theorem forEach_takeOut (hr : Ring s.horizontal n xs) (hlen : xs.length < kMaxNodes + 1) :
    forEach right (fun s j => .ok (s.takeOut j)) n (kMaxNodes + 1) s (s.right n) =
      .ok (xs.foldl takeOut s) := by
  obtain ⟨s', hs', rfl⟩ := forEach_spec right (fun s j => .ok (s.takeOut j)) n n xs
    (I := fun done t => t = done.foldl takeOut s) (List.nodup_cons.mp hr.nodup).1
    (fun done t ht => by
      rw [ht, right, horizontal_takeOut]
      exact hr.forth)
    (fun done a t _ ht => ⟨_, rfl, by rw [ht, List.foldl_append]; rfl⟩) hlen rfl
  exact hs'

theorem forEach_putBack (hr : Ring s.horizontal n xs) (hlen : xs.length < kMaxNodes + 1) :
    forEach left (fun s j => .ok (s.putBack j)) n (kMaxNodes + 1) s (s.left n) =
      .ok (xs.reverse.foldl putBack s) := by
  have hnot : n ∉ xs.reverse := by simpa using (List.nodup_cons.mp hr.nodup).1
  obtain ⟨s', hs', rfl⟩ := forEach_spec left (fun s j => .ok (s.putBack j)) n n xs.reverse
    (I := fun done t => t = done.foldl putBack s) hnot
    (fun done t ht => by
      rw [ht, left, horizontal_putBack]
      exact hr.visits_prev)
    (fun done a t _ ht => ⟨_, rfl, by rw [ht, List.foldl_append]; rfl⟩)
    (by rwa [List.length_reverse]) rfl
  exact hs'

end Loops

/-- The links of a matrix in which the columns `cov` are covered. -/
structure Holds (M : Layout) (cov : List ℕ) (s : SudokuSolver) : Prop where
  root : s.root = M.root
  col : s.col = M.col
  rows : ∀ n ∈ M.rows.flatten, Ring s.horizontal n (M.others n)
  heads : Ring s.horizontal M.root (M.items cov)
  columns : Rings s.vertical (M.items cov) (M.active cov)
  size : ∀ c ∈ M.items cov, s.size c = (M.active cov c).length

section Cover

variable {M : Layout} {cov : List ℕ} {s : SudokuSolver} {c : ℕ}

/-- The state behind `cover`. -/
def covered (M : Layout) (cov : List ℕ) (c : ℕ) (s : SudokuSolver) : SudokuSolver :=
  (M.taken cov c).foldl takeOut { s with horizontal := s.horizontal.unlink c }

theorem Holds.active_ring (h : Holds M cov s) (hc : c ∈ M.items cov) :
    Ring s.vertical c (M.active cov c) := h.columns.ring c hc

theorem active_length_lt : (M.active cov c).length < kMaxNodes + 1 :=
  M.length_lt M.active_nodup fun n hn => by
    obtain ⟨⟨r, hr, hn⟩, -⟩ := Layout.mem_active.mp hn
    exact List.mem_append_right _ (List.mem_flatten.mpr ⟨r, hr, hn⟩)

theorem others_length_lt {n : ℕ} (hn : n ∈ M.rows.flatten) :
    (M.others n).length < kMaxNodes + 1 := by
  obtain ⟨r, hr, hnr⟩ := List.mem_flatten.mp hn
  refine M.length_lt (List.nodup_cons.mp (M.others_nodup hr hnr)).2 fun m hm => ?_
  have hmr := (M.mem_cons_others hr hnr).mp (List.mem_cons_of_mem _ hm)
  exact List.mem_append_right _ (List.mem_flatten.mpr ⟨r, hr, hmr⟩)

theorem mem_nodes_of_active {n : ℕ} (hn : n ∈ M.active cov c) : n ∈ M.rows.flatten := by
  obtain ⟨⟨r, hr, hn⟩, -⟩ := Layout.mem_active.mp hn
  exact List.mem_flatten.mpr ⟨r, hr, hn⟩

/-- The rows are not touched when the header of a column leaves the ring of headers. -/
theorem Holds.rows_unlink (h : Holds M cov s) (hc : c ∈ M.items cov) {n : ℕ}
    (hn : n ∈ M.rows.flatten) : Ring (s.horizontal.unlink c) n (M.others n) := by
  refine h.heads.unlink_apart hc (h.rows n hn) fun a ha ha' => ?_
  obtain ⟨r, hr, hnr⟩ := List.mem_flatten.mp hn
  have hnode : a ∈ M.rows.flatten :=
    List.mem_flatten.mpr ⟨r, hr, (M.mem_cons_others hr hnr).mp ha⟩
  rcases List.mem_cons.mp ha' with rfl | hitem
  · exact M.root_notMem.2 hnode
  · exact M.head_notMem (Layout.mem_items.mp hitem).1 hnode

/-- The rings of all columns while `cover` or `uncover` is at work: behind the first nodes
that `cover` comes to. -/
theorem Holds.partly (h : Holds M cov s) {js ks : List ℕ} (hjs : M.taken cov c = js ++ ks) :
    Rings (js.foldl Links.unlink s.vertical) (M.items cov)
        (fun d => (M.active cov d).filter (· ∉ js)) ∧
      (M.active cov c).filter (· ∉ js) = M.active cov c := by
  have hsub : ∀ j ∈ js, j ∈ M.taken cov c := fun j hj => hjs ▸ List.mem_append_left _ hj
  have hnodup : js.Nodup := (List.nodup_append'.mp (hjs ▸ M.taken_nodup)).1
  refine ⟨h.columns.unlinkAll hnodup fun j hj => ?_, ?_⟩
  · obtain ⟨hitem, hactive, -⟩ := M.taken_active (hsub j hj)
    exact ⟨_, hitem, hactive⟩
  · rw [List.filter_eq_self]
    intro n hn
    have hne : n ∉ js := fun hnj =>
      (M.taken_active (hsub n hnj)).2.2 (Layout.mem_active.mp hn).2.1
    simpa using hne

theorem Holds.cover_eq (h : Holds M cov s) (hc : c ∈ M.items cov) :
    s.cover c = .ok (covered M cov c s) := by
  obtain ⟨s', hs', -, rfl⟩ := forEach_spec down
    (fun s row =>
      forEach right (fun s j => .ok (s.takeOut j)) row (kMaxNodes + 1) s (s.right row))
    c c (M.active cov c)
    (I := fun done t => (∃ rest, M.active cov c = done ++ rest) ∧
      t = (done.flatMap M.others).foldl takeOut
        { s with horizontal := s.horizontal.unlink c })
    (List.nodup_cons.mp (h.active_ring hc).nodup).1
    (fun done t ⟨⟨rest, hrest⟩, ht⟩ => by
      have hjs : M.taken cov c = done.flatMap M.others ++ rest.flatMap M.others := by
        rw [Layout.taken, hrest, List.flatMap_append]
      obtain ⟨hrings, hall⟩ := h.partly hjs
      rw [ht, down, vertical_takeOut]
      exact hall ▸ (hrings.ring c hc).forth)
    (fun done a t ⟨rest, hrest⟩ ⟨_, ht⟩ => by
      have hmem : a ∈ M.active cov c := by simp [hrest]
      have hnode := mem_nodes_of_active hmem
      refine ⟨_, forEach_takeOut ?_ (others_length_lt hnode), ⟨rest, by simp [hrest]⟩, ?_⟩
      · rw [ht, horizontal_takeOut]
        exact h.rows_unlink hc hnode
      · rw [ht, List.flatMap_append, List.foldl_append]
        simp)
    active_length_lt (s := { s with horizontal := s.horizontal.unlink c })
    ⟨⟨_, rfl⟩, rfl⟩
  exact hs'

theorem covered_keeps (M : Layout) (cov : List ℕ) (c : ℕ) (s : SudokuSolver) :
    Keeps s (covered M cov c s) := by
  have hunlink : Keeps s { s with horizontal := s.horizontal.unlink c } :=
    ⟨rfl, rfl, rfl, rfl, rfl⟩
  exact hunlink.trans (takeOut_keeps _ _)

theorem Holds.covered (h : Holds M cov s) (hc : c ∈ M.items cov) :
    Holds M (c :: cov) (covered M cov c s) := by
  have hkeeps := covered_keeps M cov c s
  obtain ⟨hrings, -⟩ := h.partly (c := c) (List.append_nil _).symm
  have hsub : M.items (c :: cov) ⊆ M.items cov := by
    rw [Layout.items_cons]
    exact List.erase_subset
  have hne : ∀ d ∈ M.items (c :: cov), d ≠ c := fun d hd heq =>
    (Layout.mem_items.mp hd).2 (heq ▸ List.mem_cons_self)
  have hvertical : (SudokuSolver.covered M cov c s).vertical =
      (M.taken cov c).foldl Links.unlink s.vertical := vertical_takeOut _ _
  have hhorizontal : (SudokuSolver.covered M cov c s).horizontal = s.horizontal.unlink c :=
    horizontal_takeOut _ _
  refine ⟨hkeeps.root.trans h.root, hkeeps.col.trans h.col, fun n hn => ?_, ?_, ?_,
    fun d hd => ?_⟩
  · rw [hhorizontal]
    exact h.rows_unlink hc hn
  · rw [hhorizontal, Layout.items_cons]
    exact h.heads.unlink hc
  · rw [hvertical]
    exact hrings.restrict hsub fun d hd => (Layout.active_cons (hne d hd)).symm
  · have hcount : (M.taken cov c).countP (M.col · = d) + (M.active (c :: cov) d).length =
        (M.active cov d).length := by
      have hperm : ((M.taken cov c).filter (M.col · = d)).Perm
          ((M.active cov d).filter (· ∈ M.taken cov c)) := by
        rw [List.perm_ext_iff_of_nodup (M.taken_nodup.filter _) (M.active_nodup.filter _)]
        intro j
        simp only [List.mem_filter, decide_eq_true_eq]
        constructor
        · rintro ⟨hj, rfl⟩
          exact ⟨(M.taken_active hj).2.1, hj⟩
        · rintro ⟨hj, htaken⟩
          exact ⟨htaken, (Layout.mem_active.mp hj).2.1⟩
      rw [List.countP_eq_length_filter, hperm.length_eq, Layout.active_cons (hne d hd),
        ← List.countP_eq_length_filter, ← List.countP_eq_length_filter]
      have := List.length_eq_countP_add_countP (l := M.active cov d)
        (fun j => decide (j ∈ M.taken cov c))
      simpa using this.symm
    have hsize : (SudokuSolver.covered M cov c s).size d =
        s.size d - (M.taken cov c).countP (s.col · = d) := size_takeOut _ _ _
    rw [hsize, h.col, h.size d (hsub hd)]
    omega

theorem Holds.covered_ring (h : Holds M cov s) (hc : c ∈ M.items cov) :
    Ring (SudokuSolver.covered M cov c s).vertical c (M.active cov c) := by
  obtain ⟨hrings, hall⟩ := h.partly (c := c) (List.append_nil _).symm
  rw [SudokuSolver.covered, vertical_takeOut]
  exact hall ▸ hrings.ring c hc

theorem Holds.uncover_covered (h : Holds M cov s) (hc : c ∈ M.items cov) :
    (SudokuSolver.covered M cov c s).uncover c = .ok s := by
  -- the states on the way back are those of the way forth
  let t (js : List ℕ) := js.foldl takeOut { s with horizontal := s.horizontal.unlink c }
  have hback : ∀ js ks, M.taken cov c = js ++ ks →
      ks.reverse.foldl putBack (SudokuSolver.covered M cov c s) = t js := by
    intro js ks hjs
    have hrings := (h.partly hjs).1
    rw [SudokuSolver.covered, hjs, List.foldl_append]
    have hnodup := List.nodup_append'.mp (hjs ▸ M.taken_nodup)
    have hvertical : (t js).vertical = js.foldl Links.unlink s.vertical := vertical_takeOut _ _
    refine putBack_takeOut_all (hvertical ▸ hrings) hnodup.2.1 fun k hk => ?_
    obtain ⟨hitem, hactive, -⟩ := M.taken_active (hjs ▸ List.mem_append_right js hk)
    have hnot : k ∉ js := fun hk' => hnodup.2.2 hk' hk
    exact ⟨_, hitem, List.mem_filter.mpr ⟨hactive, by simpa using hnot⟩⟩
  have hring := h.active_ring hc
  obtain ⟨s', hs', -, hend⟩ := forEach_spec up
    (fun s row =>
      forEach left (fun s j => .ok (s.putBack j)) row (kMaxNodes + 1) s (s.left row))
    c c (M.active cov c).reverse
    (I := fun done u => (∃ rest, (M.active cov c).reverse = done ++ rest) ∧
      u = (done.reverse.flatMap M.others).reverse.foldl putBack
        (SudokuSolver.covered M cov c s))
    (by simpa using (List.nodup_cons.mp hring.nodup).1)
    (fun done u ⟨⟨rest, hrest⟩, hu⟩ => by
      have hjs : M.taken cov c =
          rest.reverse.flatMap M.others ++ done.reverse.flatMap M.others := by
        rw [Layout.taken, ← List.flatMap_append, ← List.reverse_append, ← hrest,
          List.reverse_reverse]
      obtain ⟨hrings, hall⟩ := h.partly hjs
      rw [hu, hback _ _ hjs, up, vertical_takeOut]
      exact (hall ▸ hrings.ring c hc).visits_prev)
    (fun done a u ⟨rest, hrest⟩ ⟨_, hu⟩ => by
      have hmem : a ∈ (M.active cov c).reverse := by simp [hrest]
      have hnode := mem_nodes_of_active (List.mem_reverse.mp hmem)
      refine ⟨_, forEach_putBack ?_ (others_length_lt hnode), ⟨rest, by simp [hrest]⟩, ?_⟩
      · rw [hu, horizontal_putBack, SudokuSolver.covered, horizontal_takeOut]
        exact h.rows_unlink hc hnode
      · rw [hu, List.reverse_append, List.flatMap_append, List.reverse_append,
          List.foldl_append]
        simp)
    (by rw [List.length_reverse]; exact active_length_lt)
    (s := SudokuSolver.covered M cov c s) ⟨⟨_, rfl⟩, rfl⟩
  have hstart : s' = { s with horizontal := s.horizontal.unlink c } := by
    rw [hend, List.reverse_reverse]
    exact hback [] (M.taken cov c) rfl
  rw [uncover, hs', ok_bind, hstart]
  simp only [Links.relink_unlink_of_ring h.heads hc]
  rfl

end Cover
end SudokuSolver
end Muduo
