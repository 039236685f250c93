import Muduo.Sudoku.DancingLinks

/-!
# The constructor

The nodes are taken from `nodes_` one after the other. A column is a new header at the end of
the ring of headers, and a row starts as four nodes, each at the end of the ring of its column
and a row by itself, that are then linked to each other.
-/

namespace Muduo
namespace SudokuSolver

open Foundations

namespace Layout

variable (M : Layout) {n c : ℕ}

def all : List ℕ := M.root :: M.heads ++ M.rows.flatten

def column (c : ℕ) : List ℕ := M.rows.flatten.filter (M.col · = c)

@[simp] theorem items_nil : M.items [] = M.heads := by simp [items]

@[simp] theorem active_nil : M.active [] = M.column := by
  funext c
  rw [active, column, List.filter_eq_self.mpr]
  simp [Alive]

variable {M}

theorem node_mem_all {r : List ℕ} (hr : r ∈ M.rows) (hn : n ∈ r) : n ∈ M.all :=
  List.mem_append_right _ (List.mem_flatten.mpr ⟨r, hr, hn⟩)

theorem head_mem_all (hc : c ∈ M.heads) : c ∈ M.all :=
  List.mem_append_left _ (List.mem_cons_of_mem _ hc)

theorem map_update {r : List ℕ} (hr : r ∈ M.rows) (hn : n ∉ M.all) (f : ℕ → ℕ) (v : ℕ) :
    r.map (Function.update f n v) = r.map f := by
  refine List.map_congr_left fun m hm => ?_
  have hne : m ≠ n := fun heq => hn (heq ▸ node_mem_all hr hm)
  exact Function.update_of_ne hne _ _

variable (M)

def addHead (n : ℕ) (hn : n ∉ M.all) (hbound : n < kMaxNodes) : Layout where
  root := M.root
  heads := M.heads ++ [n]
  rows := M.rows
  col := Function.update M.col n n
  others := M.others
  nodup := by
    have hperm : (M.root :: (M.heads ++ [n]) ++ M.rows.flatten).Perm (n :: M.all) := by
      rw [all, ← List.cons_append, List.append_assoc, List.singleton_append]
      exact List.perm_middle
    exact hperm.nodup_iff.mpr (List.nodup_cons.mpr ⟨hn, M.nodup⟩)
  bounded m hm := by
    have hm : m = n ∨ m ∈ M.all := by
      simp only [all, List.mem_append, List.mem_cons, List.not_mem_nil, or_false] at hm ⊢
      tauto
    rcases hm with rfl | hm
    · exact hbound
    · exact M.bounded m hm
  col_mem r hr m hm := by
    have hne : m ≠ n := fun heq => hn (heq ▸ node_mem_all hr hm)
    rw [Function.update_of_ne hne]
    exact List.mem_append_left _ (M.col_mem r hr m hm)
  cols_nodup r hr := by
    rw [map_update hr hn]
    exact M.cols_nodup r hr
  others_perm := M.others_perm

/-- With one more node in a column, as a row by itself. -/
def addNode (n c : ℕ) (hn : n ∉ M.all) (hbound : n < kMaxNodes) (hc : c ∈ M.heads) : Layout where
  root := M.root
  heads := M.heads
  rows := M.rows ++ [[n]]
  col := Function.update M.col n c
  others := Function.update M.others n []
  nodup := by
    have hperm : (M.root :: M.heads ++ (M.rows ++ [[n]]).flatten).Perm (n :: M.all) := by
      rw [List.flatten_append, ← List.append_assoc]
      exact List.perm_append_singleton n M.all
    exact hperm.nodup_iff.mpr (List.nodup_cons.mpr ⟨hn, M.nodup⟩)
  bounded m hm := by
    have hm : m = n ∨ m ∈ M.all := by
      simp only [all, List.flatten_append, List.flatten_singleton, List.mem_append,
        List.mem_cons, List.not_mem_nil, or_false] at hm ⊢
      tauto
    rcases hm with rfl | hm
    · exact hbound
    · exact M.bounded m hm
  col_mem r hr m hm := by
    rcases List.mem_append.mp hr with hr | hr
    · have hne : m ≠ n := fun heq => hn (heq ▸ node_mem_all hr hm)
      rw [Function.update_of_ne hne]
      exact M.col_mem r hr m hm
    · obtain rfl : r = [n] := List.mem_singleton.mp hr
      obtain rfl : m = n := List.mem_singleton.mp hm
      rwa [Function.update_self]
  cols_nodup r hr := by
    rcases List.mem_append.mp hr with hr | hr
    · rw [map_update hr hn]
      exact M.cols_nodup r hr
    · obtain rfl : r = [n] := List.mem_singleton.mp hr
      exact List.nodup_singleton _
  others_perm r hr m hm := by
    rcases List.mem_append.mp hr with hr | hr
    · have hne : m ≠ n := fun heq => hn (heq ▸ node_mem_all hr hm)
      rw [Function.update_of_ne hne]
      exact M.others_perm r hr m hm
    · obtain rfl : r = [n] := List.mem_singleton.mp hr
      obtain rfl : m = n := List.mem_singleton.mp hm
      rw [Function.update_self]

/-- Four nodes that follow each other in a circle, with those before and behind them. -/
def circle (a b c d : ℕ) (others : ℕ → List ℕ) (n : ℕ) : List ℕ :=
  if n = a then [b, c, d]
  else if n = b then [c, d, a]
  else if n = c then [d, a, b]
  else if n = d then [a, b, c]
  else others n

theorem circle_eq {a b c d : ℕ} (h : [a, b, c, d].Nodup) (others : ℕ → List ℕ) :
    circle a b c d others a = [b, c, d] ∧ circle a b c d others b = [c, d, a] ∧
      circle a b c d others c = [d, a, b] ∧ circle a b c d others d = [a, b, c] := by
  simp only [List.nodup_cons, List.mem_cons, List.not_mem_nil, or_false, not_or] at h
  obtain ⟨⟨hab, hac, had⟩, ⟨hbc, hbd⟩, hcd, -⟩ := h
  simp [circle, Ne.symm hab, Ne.symm hac, Ne.symm had, Ne.symm hbc, Ne.symm hbd, Ne.symm hcd]

theorem circle_of_notMem {a b c d : ℕ} (hn : n ∉ [a, b, c, d]) (others : ℕ → List ℕ) :
    circle a b c d others n = others n := by
  simp only [List.mem_cons, List.not_mem_nil, or_false, not_or] at hn
  rw [circle, if_neg hn.1, if_neg hn.2.1, if_neg hn.2.2.1, if_neg hn.2.2.2]

variable {M} in
theorem flatten_join {rows : List (List ℕ)} {a b c d : ℕ}
    (hrows : M.rows = rows ++ [[a], [b], [c], [d]]) :
    (rows ++ [[a, b, c, d]]).flatten = M.rows.flatten := by
  simp [hrows]

variable {M} in
theorem notMem_join {rows : List (List ℕ)} {a b c d : ℕ} {r : List ℕ}
    (hrows : M.rows = rows ++ [[a], [b], [c], [d]]) (hr : r ∈ rows) (hn : n ∈ r) :
    n ∉ [a, b, c, d] := by
  have hnodup := M.nodes_nodup
  rw [hrows, List.flatten_append, List.nodup_append'] at hnodup
  exact fun hn' => hnodup.2.2 (List.mem_flatten.mpr ⟨r, hr, hn⟩) (by simpa using hn')

def join (rows : List (List ℕ)) (a b c d : ℕ) (hrows : M.rows = rows ++ [[a], [b], [c], [d]])
    (hcols : ([a, b, c, d].map M.col).Nodup) : Layout where
  root := M.root
  heads := M.heads
  rows := rows ++ [[a, b, c, d]]
  col := M.col
  others := circle a b c d M.others
  nodup := by
    rw [flatten_join hrows]
    exact M.nodup
  bounded n hn := M.bounded n (by rwa [flatten_join hrows] at hn)
  col_mem r hr n hn := by
    have hmem : n ∈ (rows ++ [[a, b, c, d]]).flatten := List.mem_flatten.mpr ⟨r, hr, hn⟩
    rw [flatten_join hrows] at hmem
    obtain ⟨r', hr', hn'⟩ := List.mem_flatten.mp hmem
    exact M.col_mem r' hr' n hn'
  cols_nodup r hr := by
    rcases List.mem_append.mp hr with hr | hr
    · exact M.cols_nodup r (hrows ▸ List.mem_append_left _ hr)
    · exact List.mem_singleton.mp hr ▸ hcols
  others_perm r hr n hn := by
    rcases List.mem_append.mp hr with hr | hr
    · rw [circle_of_notMem (notMem_join hrows hr hn)]
      exact M.others_perm r (hrows ▸ List.mem_append_left _ hr) n hn
    · obtain rfl : r = [a, b, c, d] := List.mem_singleton.mp hr
      obtain ⟨ha, hb, hc, hd⟩ := circle_eq (List.Nodup.of_map _ hcols) M.others
      simp only [List.mem_cons, List.not_mem_nil, or_false] at hn
      rcases hn with rfl | rfl | rfl | rfl
      · rw [ha]
      · rw [hb]
        exact (List.perm_append_comm : ([n, c, d] ++ [a]).Perm ([a] ++ [n, c, d]))
      · rw [hc]
        exact (List.perm_append_comm : ([n, d] ++ [a, b]).Perm ([a, b] ++ [n, d]))
      · rw [hd]
        exact (List.perm_append_comm : ([n] ++ [a, b, c]).Perm ([a, b, c] ++ [n]))

end Layout

section Links

variable {M : Layout} {s s' : SudokuSolver} {n c : ℕ}

theorem notMem_rings (hn : n ∉ M.all) :
    n ∉ M.root :: M.heads ∧ (∀ c ∈ M.heads, n ∉ c :: M.column c) ∧
      ∀ r ∈ M.rows, ∀ m ∈ r, n ∉ m :: M.others m := by
  refine ⟨fun hmem => hn (List.mem_append_left _ hmem), fun c hc hmem => ?_,
    fun r hr m hm hmem => ?_⟩
  · rcases List.mem_cons.mp hmem with rfl | hmem
    · exact hn (Layout.head_mem_all hc)
    · exact hn (List.mem_append_right _ (List.mem_filter.mp hmem).1)
  · exact hn (Layout.node_mem_all hr ((M.mem_cons_others hr hm).mp hmem))

theorem row_notMem_heads {r : List ℕ} (hr : r ∈ M.rows) {m : ℕ} (hm : m ∈ r) :
    ∀ a ∈ m :: M.others m, a ∉ M.root :: M.heads := by
  intro a ha hmem
  have hnode : a ∈ M.rows.flatten :=
    List.mem_flatten.mpr ⟨r, hr, (M.mem_cons_others hr hm).mp ha⟩
  rcases List.mem_cons.mp hmem with rfl | hhead
  · exact M.root_notMem.2 hnode
  · exact M.head_notMem hhead hnode

theorem Holds.addHead (h : Holds M [] s) (hn : n ∉ M.all) (hbound : n < kMaxNodes)
    (hroot : s'.root = s.root) (hcol : s'.col = Function.update s.col n n)
    (hhorizontal : s'.horizontal = (s.horizontal.alone n).insertBefore s.root n)
    (hvertical : s'.vertical = s.vertical.alone n)
    (hsize : s'.size = Function.update s.size n 0) : Holds (M.addHead n hn hbound) [] s' := by
  obtain ⟨hhead, hcolumn, hrow⟩ := notMem_rings hn
  have hheads : Ring s.horizontal M.root M.heads := by simpa using h.heads
  have hring := hheads.alone_apart hhead
  have hne : n ≠ M.root := fun heq => hhead (heq ▸ List.mem_cons_self)
  have hold : ∀ c, c ≠ n → (M.addHead n hn hbound).column c = M.column c := by
    intro c _
    refine List.filter_congr fun m hm => ?_
    have hne : m ≠ n := fun heq => hn (heq ▸ List.mem_append_right _ hm)
    simp [Layout.addHead, Function.update_of_ne hne]
  have hnew : (M.addHead n hn hbound).column n = [] := by
    refine List.filter_eq_nil_iff.mpr fun m hm => ?_
    obtain ⟨r, hr, hm⟩ := List.mem_flatten.mp hm
    have hne : m ≠ n := fun heq => hn (heq ▸ Layout.node_mem_all hr hm)
    have hcol : M.col m ≠ n := fun heq =>
      hn (heq ▸ Layout.head_mem_all (M.col_mem r hr m hm))
    simpa [Layout.addHead, Function.update_of_ne hne] using hcol
  have hneHead : ∀ c ∈ M.heads, c ≠ n := fun c hc heq => hn (heq ▸ Layout.head_mem_all hc)
  refine ⟨hroot.trans h.root, by rw [hcol, h.col]; rfl, fun m hm => ?_, ?_, ?_, fun c hc => ?_⟩
  · obtain ⟨r, hr, hmr⟩ := List.mem_flatten.mp hm
    rw [hhorizontal, h.root]
    exact hring.insertBefore_apart hne ((h.rows m hm).alone_apart (hrow r hr m hmr))
      (hrow r hr m hmr) (row_notMem_heads (M := M) hr hmr)
  · rw [hhorizontal, h.root, Layout.items_nil]
    exact hring.insertBefore hhead
  · rw [hvertical, Layout.items_nil, Layout.active_nil]
    have hcolumns : Rings s.vertical M.heads M.column := by simpa using h.columns
    exact hcolumns.addHead hcolumn hnew fun c hc => hold c (hneHead c hc)
  · rw [Layout.items_nil] at hc
    rw [Layout.active_nil, hsize]
    rcases List.mem_append.mp hc with hc | hc
    · have hsize := h.size c (by simpa using hc)
      rw [Layout.active_nil] at hsize
      rw [Function.update_of_ne (hneHead c hc), hold c (hneHead c hc), hsize]
    · obtain rfl : c = n := List.mem_singleton.mp hc
      rw [Function.update_self, hnew]
      rfl

theorem Holds.addNode (h : Holds M [] s) (hn : n ∉ M.all) (hbound : n < kMaxNodes)
    (hc : c ∈ M.heads) (hroot : s'.root = s.root) (hcol : s'.col = Function.update s.col n c)
    (hhorizontal : s'.horizontal = s.horizontal.alone n)
    (hvertical : s'.vertical = (s.vertical.alone n).insertBefore c n)
    (hsize : ∀ d ∈ M.heads, s'.size d = Function.update s.size c (s.size c + 1) d) :
    Holds (M.addNode n c hn hbound hc) [] s' := by
  obtain ⟨hhead, hcolumn, hrow⟩ := notMem_rings hn
  have hcolumns : Rings s.vertical M.heads M.column := by simpa using h.columns
  have hcolumnEq : ∀ d, (M.addNode n c hn hbound hc).column d =
      M.column d ++ if c = d then [n] else [] := by
    intro d
    have hold : M.rows.flatten.filter (fun m => decide (Function.update M.col n c m = d)) =
        M.column d := by
      refine List.filter_congr fun m hm => ?_
      have hne : m ≠ n := fun heq => hn (heq ▸ List.mem_append_right _ hm)
      rw [Function.update_of_ne hne]
    show (M.rows ++ [[n]]).flatten.filter (fun m => decide (Function.update M.col n c m = d)) = _
    rw [List.flatten_append, List.filter_append, hold]
    by_cases hd : c = d <;> simp [hd]
  have hold : ∀ d, d ≠ c → (M.addNode n c hn hbound hc).column d = M.column d := by
    intro d hd
    rw [hcolumnEq, if_neg hd.symm, List.append_nil]
  have hnew : (M.addNode n c hn hbound hc).column c = M.column c ++ [n] := by
    rw [hcolumnEq, if_pos rfl]
  refine ⟨hroot.trans h.root, by rw [hcol, h.col]; rfl, fun m hm => ?_, ?_, ?_, fun d hd => ?_⟩
  · obtain ⟨r, hr, hmr⟩ := List.mem_flatten.mp hm
    rw [hhorizontal]
    show Ring _ m (Function.update M.others n [] m)
    rcases List.mem_append.mp hr with hr | hr
    · have hne : m ≠ n := fun heq => hn (heq ▸ Layout.node_mem_all hr hmr)
      rw [Function.update_of_ne hne]
      exact (h.rows m (List.mem_flatten.mpr ⟨r, hr, hmr⟩)).alone_apart (hrow r hr m hmr)
    · obtain rfl : r = [n] := List.mem_singleton.mp hr
      obtain rfl : m = n := List.mem_singleton.mp hmr
      rw [Function.update_self]
      exact Ring.alone _ _
  · have hheads : Ring s.horizontal M.root M.heads := by simpa using h.heads
    rw [hhorizontal, Layout.items_nil]
    exact hheads.alone_apart hhead
  · rw [hvertical, Layout.items_nil, Layout.active_nil]
    exact hcolumns.addNode hc hcolumn hnew fun d _ hd => hold d hd
  · rw [Layout.items_nil] at hd
    have hd : d ∈ M.heads := hd
    have hsizeOld := h.size d (by simpa using hd)
    rw [Layout.active_nil] at hsizeOld ⊢
    rw [hsize d hd]
    by_cases heq : d = c
    · subst heq
      rw [Function.update_self, hnew, hsizeOld]
      simp
    · rw [Function.update_of_ne heq, hold d heq, hsizeOld]

theorem Holds.join (h : Holds M [] s) {rows : List (List ℕ)} {a b c d : ℕ}
    (hrows : M.rows = rows ++ [[a], [b], [c], [d]]) (hcols : ([a, b, c, d].map M.col).Nodup) :
    Holds (M.join rows a b c d hrows hcols) [] (((s.putLeft a b).putLeft a c).putLeft a d) := by
  have hnodup : [a, b, c, d].Nodup := List.Nodup.of_map _ hcols
  have hlone : ∀ m ∈ [a, b, c, d], Ring s.horizontal m [] := by
    intro m hm
    have hr : [m] ∈ M.rows := by
      rw [hrows]
      simp only [List.mem_cons, List.not_mem_nil, or_false] at hm
      rcases hm with rfl | rfl | rfl | rfl <;> simp
    have hring := h.rows m (List.mem_flatten.mpr ⟨[m], hr, List.mem_singleton.mpr rfl⟩)
    have hperm := M.others_perm [m] hr m (List.mem_singleton.mpr rfl)
    rwa [List.perm_nil.mp ((List.perm_cons m).mp hperm)] at hring
  have hdistinct := hnodup
  simp only [List.nodup_cons, List.mem_cons, List.not_mem_nil, or_false, not_or] at hdistinct
  obtain ⟨⟨hab, hac, had⟩, ⟨hbc, hbd⟩, hcd, -⟩ := hdistinct
  have hringB : Ring (s.horizontal.insertBefore a b) a [b] :=
    (hlone a (by simp)).insertBefore (by simpa using Ne.symm hab)
  have hringC : Ring ((s.horizontal.insertBefore a b).insertBefore a c) a [b, c] :=
    hringB.insertBefore (by simp [Ne.symm hac, Ne.symm hbc])
  have hringD : Ring (((s.horizontal.insertBefore a b).insertBefore a c).insertBefore a d) a
      [b, c, d] :=
    hringC.insertBefore (by simp [Ne.symm had, Ne.symm hbd, Ne.symm hcd])
  have hapart : ∀ {m : ℕ} {xs : List ℕ}, Ring s.horizontal m xs →
      (∀ x ∈ m :: xs, x ∉ [a, b, c, d]) →
      Ring (((s.horizontal.insertBefore a b).insertBefore a c).insertBefore a d) m xs := by
    intro m xs hring hnot
    have hfour : ∀ k ∈ [a, b, c, d], k ∉ m :: xs := fun k hk hmem => hnot k hmem hk
    have hsub : ∀ {ys : List ℕ}, ys ⊆ [a, b, c, d] → ∀ x ∈ m :: xs, x ∉ ys :=
      fun hys x hx hmem => hnot x hx (hys hmem)
    have h₁ := (hlone a (by simp)).insertBefore_apart (Ne.symm hab) hring (hfour b (by simp))
      (hsub (by simp))
    have h₂ := hringB.insertBefore_apart (Ne.symm hac) h₁ (hfour c (by simp)) (hsub (by simp))
    exact hringC.insertBefore_apart (Ne.symm had) h₂ (hfour d (by simp)) (hsub (by simp))
  have hnodes : ∀ m ∈ [a, b, c, d], m ∈ M.rows.flatten := by
    intro m hm
    rw [hrows, List.flatten_append]
    exact List.mem_append_right _ (by simpa using hm)
  have hcolumn : (M.join rows a b c d hrows hcols).column = M.column := by
    funext e
    rw [Layout.column, Layout.column]
    exact congrArg (List.filter _) (Layout.flatten_join hrows)
  refine ⟨h.root, h.col, fun m hm => ?_, ?_, ?_, fun e he => ?_⟩
  · obtain ⟨r, hr, hmr⟩ := List.mem_flatten.mp hm
    show Ring _ m (Layout.circle a b c d M.others m)
    rcases List.mem_append.mp hr with hr | hr
    · have hr' : r ∈ M.rows := hrows ▸ List.mem_append_left _ hr
      rw [Layout.circle_of_notMem (Layout.notMem_join hrows hr hmr)]
      refine hapart (h.rows m (List.mem_flatten.mpr ⟨r, hr', hmr⟩)) fun x hx => ?_
      exact Layout.notMem_join hrows hr ((M.mem_cons_others hr' hmr).mp hx)
    · obtain rfl : r = [a, b, c, d] := List.mem_singleton.mp hr
      obtain ⟨ha, hb, hc, hd⟩ := Layout.circle_eq hnodup M.others
      simp only [List.mem_cons, List.not_mem_nil, or_false] at hmr
      rcases hmr with rfl | rfl | rfl | rfl
      · exact ha ▸ hringD
      · exact hb ▸ Foundations.Ring.rotate
          (show Foundations.Ring _ a ([] ++ m :: [c, d]) from hringD)
      · exact hc ▸ Foundations.Ring.rotate
          (show Foundations.Ring _ a ([b] ++ m :: [d]) from hringD)
      · exact hd ▸ Foundations.Ring.rotate
          (show Foundations.Ring _ a ([b, c] ++ m :: []) from hringD)
  · have hheads : Ring s.horizontal M.root M.heads := by simpa using h.heads
    rw [Layout.items_nil]
    refine hapart hheads fun x hx hmem => ?_
    obtain ⟨r, hr, hxr⟩ := List.mem_flatten.mp (hnodes x hmem)
    exact row_notMem_heads hr hxr x List.mem_cons_self hx
  · have hcolumns : Rings s.vertical M.heads M.column := by simpa using h.columns
    rw [Layout.items_nil, Layout.active_nil, hcolumn]
    exact hcolumns
  · rw [Layout.items_nil] at he
    have hsize := h.size e (by rw [Layout.items_nil]; exact he)
    rw [Layout.active_nil] at hsize ⊢
    rw [hcolumn]
    exact hsize

end Links

/-- The columns that the solver has, by their names, and the names of the nodes of its rows. -/
structure Built (board : ℕ → ℕ) (names : List ℕ) (rows : List (List ℕ)) (M : Layout)
    (s : SudokuSolver) : Prop where
  holds : Holds M [] s
  fresh : ∀ n ∈ M.all, n < s.curNode
  count : s.curNode = 1 + names.length + rows.flatten.length
  heads : M.heads.map s.name = names
  columns : ∀ k c, s.columns k = some c ↔ c ∈ M.heads ∧ s.name c = k
  rows : M.rows.map (List.map s.name) = rows
  col_name : ∀ n ∈ M.rows.flatten, s.name (M.col n) = s.name n
  stack : s.stack = []
  inout : s.inout = board

section Steps

variable {board : ℕ → ℕ} {names : List ℕ} {rows : List (List ℕ)} {M : Layout}
  {s : SudokuSolver} {k : ℕ}

theorem Built.notMem_all (h : Built board names rows M s) : s.curNode ∉ M.all := fun hmem =>
  absurd (h.fresh _ hmem) (lt_irrefl _)

theorem Built.map_name (h : Built board names rows M s) {ns : List ℕ} (hns : ∀ n ∈ ns, n ∈ M.all)
    (k : ℕ) : ns.map (Function.update s.name s.curNode k) = ns.map s.name := by
  refine List.map_congr_left fun n hn => ?_
  exact Function.update_of_ne (h.fresh n (hns n hn)).ne _ _

/-- The state behind `appendColumn`. -/
def withColumn (s : SudokuSolver) (k : ℕ) : SudokuSolver :=
  { s with
    horizontal := (s.horizontal.alone s.curNode).insertBefore s.root s.curNode
    vertical := s.vertical.alone s.curNode
    col := Function.update s.col s.curNode s.curNode
    name := Function.update s.name s.curNode k
    size := Function.update s.size s.curNode 0
    curNode := s.curNode + 1
    columns := Function.update s.columns k (some s.curNode) }

theorem appendColumn_eq (hnone : s.columns k = none) (hroom : s.curNode < kMaxNodes) :
    s.appendColumn k = .ok (s.withColumn k) := by
  rw [SudokuSolver.appendColumn, newColumn, newNode, assertThat_pos hnone, assertThat_pos hroom]
  rfl

theorem Built.appendColumn (h : Built board names rows M s) (hk : k ∉ names)
    (hroom : s.curNode < kMaxNodes) :
    ∃ M', s.appendColumn k = .ok (s.withColumn k) ∧
      Built board (names ++ [k]) rows M' (s.withColumn k) := by
  have hname : ∀ c ∈ M.heads, s.name c ≠ k := fun c hc heq =>
    hk (h.heads ▸ heq ▸ List.mem_map_of_mem hc)
  have hnone : s.columns k = none := by
    by_contra hsome
    obtain ⟨c, hc⟩ := Option.ne_none_iff_exists'.mp hsome
    exact hname c ((h.columns k c).mp hc).1 ((h.columns k c).mp hc).2
  have hold : ∀ n ∈ M.all, (s.withColumn k).name n = s.name n := fun n hn =>
    Function.update_of_ne (h.fresh n hn).ne _ _
  refine ⟨M.addHead s.curNode h.notMem_all hroom, appendColumn_eq hnone hroom,
    h.holds.addHead h.notMem_all hroom rfl rfl rfl rfl rfl, fun n hn => ?_, ?_, ?_, fun k' c => ?_,
    ?_, fun n hn => ?_, h.stack, h.inout⟩
  · have hn : n ∈ M.all ∨ n = s.curNode := by
      simp only [Layout.all, Layout.addHead, List.mem_append, List.mem_cons, List.not_mem_nil,
        or_false] at hn ⊢
      tauto
    rcases hn with hn | rfl
    · exact Nat.lt_succ_of_lt (h.fresh n hn)
    · exact Nat.lt_succ_self _
  · simp only [withColumn, h.count, List.length_append, List.length_singleton]
    omega
  · show (M.heads ++ [s.curNode]).map (Function.update s.name s.curNode k) = names ++ [k]
    rw [List.map_append, h.map_name (fun c hc => Layout.head_mem_all hc), h.heads]
    simp
  · show Function.update s.columns k (some s.curNode) k' = some c ↔
      c ∈ M.heads ++ [s.curNode] ∧ Function.update s.name s.curNode k c = k'
    rw [List.mem_append, List.mem_singleton]
    by_cases hc : c = s.curNode
    · have hnot : ∀ j, s.columns j ≠ some s.curNode := fun j hj =>
        h.notMem_all (Layout.head_mem_all ((h.columns j _).mp hj).1)
      subst hc
      by_cases hk' : k' = k
      · simp [hk']
      · simp [Function.update_of_ne hk', hnot, Ne.symm hk']
    · rw [Function.update_of_ne hc]
      by_cases hk' : k' = k
      · subst hk'
        rw [Function.update_self]
        constructor
        · exact fun heq => absurd (Option.some_injective _ heq).symm hc
        · exact fun ⟨hmem, heq⟩ => absurd heq (hname c (hmem.resolve_right hc))
      · rw [Function.update_of_ne hk', h.columns k' c]
        simp [hc]
  · show M.rows.map (List.map (Function.update s.name s.curNode k)) = rows
    rw [← h.rows]
    exact List.map_congr_left fun r hr => h.map_name (fun n hn => Layout.node_mem_all hr hn) k
  · have hn' : n ∈ M.rows.flatten := hn
    obtain ⟨r, hr, hnr⟩ := List.mem_flatten.mp hn'
    have hcol : (M.addHead s.curNode h.notMem_all hroom).col n = M.col n :=
      Function.update_of_ne (h.fresh n (Layout.node_mem_all hr hnr)).ne _ _
    rw [hcol, hold _ (Layout.head_mem_all (M.col_mem r hr n hnr)),
      hold n (Layout.node_mem_all hr hnr)]
    exact h.col_name n hn'

/-- The state behind `newRow`, for a node of the column `c`. -/
def withNode (s : SudokuSolver) (c k : ℕ) : SudokuSolver :=
  { s with
    horizontal := s.horizontal.alone s.curNode
    vertical := (s.vertical.alone s.curNode).insertBefore c s.curNode
    col := Function.update (Function.update s.col s.curNode c) s.curNode c
    name := Function.update s.name s.curNode k
    size := Function.update (Function.update s.size s.curNode 0) c
      (Function.update s.size s.curNode 0 c + 1)
    curNode := s.curNode + 1 }

theorem newRow_eq {c : ℕ} (hc : s.columns k = some c) (hroom : s.curNode < kMaxNodes) :
    s.newRow k = .ok (s.curNode, s.withNode c k) := by
  simp only [newRow, hc, newNode, assertThat_pos hroom]
  rfl

theorem Built.newRow (h : Built board names rows M s) (hk : k ∈ names)
    (hroom : s.curNode < kMaxNodes) :
    ∃ M' s', s.newRow k = .ok (s.curNode, s') ∧ s'.curNode = s.curNode + 1 ∧
      M'.rows = M.rows ++ [[s.curNode]] ∧ Built board names (rows ++ [[k]]) M' s' := by
  obtain ⟨c, hc, hname⟩ := List.mem_map.mp (h.heads ▸ hk)
  have hne : c ≠ s.curNode := (h.fresh c (Layout.head_mem_all hc)).ne
  have hold : ∀ n ∈ M.all, (s.withNode c k).name n = s.name n := fun n hn =>
    Function.update_of_ne (h.fresh n hn).ne _ _
  refine ⟨M.addNode s.curNode c h.notMem_all hroom hc, s.withNode c k,
    newRow_eq ((h.columns k c).mpr ⟨hc, hname⟩) hroom, rfl, rfl,
    h.holds.addNode h.notMem_all hroom hc rfl ?_ rfl rfl ?_, fun n hn => ?_, ?_, ?_,
    fun k' d => ?_, ?_, fun n hn => ?_, h.stack, h.inout⟩
  · exact Function.update_idem _ _ _
  · intro d hd
    have hned : d ≠ s.curNode := (h.fresh d (Layout.head_mem_all hd)).ne
    simp only [withNode, Function.update_of_ne hne]
    by_cases heq : d = c
    · simp [heq]
    · simp [Function.update_of_ne heq, Function.update_of_ne hned]
  · have hn : n ∈ M.all ∨ n = s.curNode := by
      simp only [Layout.all, Layout.addNode, List.flatten_append, List.flatten_singleton,
        List.mem_append, List.mem_cons, List.not_mem_nil, or_false] at hn ⊢
      tauto
    rcases hn with hn | rfl
    · exact Nat.lt_succ_of_lt (h.fresh n hn)
    · exact Nat.lt_succ_self _
  · simp only [withNode, h.count, List.flatten_append, List.length_append,
      List.flatten_singleton, List.length_singleton]
    omega
  · show M.heads.map (Function.update s.name s.curNode k) = names
    rw [h.map_name (fun c hc => Layout.head_mem_all hc), h.heads]
  · show s.columns k' = some d ↔ d ∈ M.heads ∧ Function.update s.name s.curNode k d = k'
    rw [h.columns]
    refine and_congr_right fun hd => ?_
    rw [Function.update_of_ne (h.fresh d (Layout.head_mem_all hd)).ne]
  · show (M.rows ++ [[s.curNode]]).map (List.map (Function.update s.name s.curNode k)) = _
    have hrows : M.rows.map (List.map (Function.update s.name s.curNode k)) = rows := by
      rw [← h.rows]
      exact List.map_congr_left fun r hr => h.map_name (fun n hn => Layout.node_mem_all hr hn) k
    rw [List.map_append, hrows]
    simp
  · obtain ⟨r, hr, hnr⟩ := List.mem_flatten.mp hn
    show (s.withNode c k).name (Function.update M.col s.curNode c n) = _
    rcases List.mem_append.mp hr with hr | hr
    · have hmem := Layout.node_mem_all hr hnr
      rw [Function.update_of_ne (h.fresh n hmem).ne,
        hold _ (Layout.head_mem_all (M.col_mem r hr n hnr)), hold n hmem]
      exact h.col_name n (List.mem_flatten.mpr ⟨r, hr, hnr⟩)
    · obtain rfl : r = [s.curNode] := List.mem_singleton.mp hr
      obtain rfl : n = s.curNode := List.mem_singleton.mp hnr
      rw [Function.update_self, hold c (Layout.head_mem_all hc), hname]
      show k = Function.update s.name s.curNode k s.curNode
      rw [Function.update_self]

theorem Built.join {k₁ k₂ k₃ k₄ a b c d : ℕ} {rs : List (List ℕ)}
    (h : Built board names (rows ++ [[k₁], [k₂], [k₃], [k₄]]) M s)
    (hrows : M.rows = rs ++ [[a], [b], [c], [d]]) (hnodup : [k₁, k₂, k₃, k₄].Nodup) :
    ∃ M', Built board names (rows ++ [[k₁, k₂, k₃, k₄]]) M'
      (((s.putLeft a b).putLeft a c).putLeft a d) := by
  have hnames := h.rows
  rw [hrows, List.map_append] at hnames
  obtain ⟨hrs, hlast⟩ := List.append_inj' hnames (by simp)
  simp only [List.map_cons, List.map_nil, List.cons.injEq, and_true] at hlast
  obtain ⟨ha, hb, hc, hd⟩ := hlast
  have hnodes : ∀ n ∈ [a, b, c, d], n ∈ M.rows.flatten := by
    intro n hn
    rw [hrows, List.flatten_append]
    exact List.mem_append_right _ (by simpa using hn)
  have hcols : ([a, b, c, d].map M.col).Nodup := by
    refine List.Nodup.of_map s.name ?_
    have hmap : ([a, b, c, d].map M.col).map s.name = [k₁, k₂, k₃, k₄] := by
      rw [List.map_map, ← ha, ← hb, ← hc, ← hd]
      exact List.map_congr_left (g := s.name) fun n hn => h.col_name n (hnodes n hn)
    rwa [hmap]
  refine ⟨M.join rs a b c d hrows hcols, h.holds.join hrows hcols, fun n hn => ?_, ?_, h.heads,
    h.columns, ?_, fun n hn => ?_, h.stack, h.inout⟩
  · refine h.fresh n ?_
    rw [Layout.all, ← Layout.flatten_join hrows]
    exact hn
  · show s.curNode = _
    simpa using h.count
  · show (rs ++ [[a, b, c, d]]).map (List.map s.name) = _
    rw [List.map_append, hrs]
    simp [ha, hb, hc, hd]
  · exact h.col_name n (Layout.flatten_join hrows ▸ hn)

end Steps

def rowNames (p : ℕ × ℕ) : List ℕ :=
  [p.1, getRowCol (p.1 / 9) p.2, getColCol (p.1 % 9) p.2, getBoxCol (boxOf p.1) p.2]

section Make

variable {board : ℕ → ℕ} {names : List ℕ} {rows : List (List ℕ)} {M : Layout}
  {s : SudokuSolver}

theorem Built.appendRow (h : Built board names rows M s) {i v : ℕ}
    (hnames : ∀ k ∈ rowNames (i, v), k ∈ names) (hnodup : (rowNames (i, v)).Nodup)
    (hroom : s.curNode + 4 ≤ kMaxNodes) :
    ∃ M' s', s.appendRow i v = .ok s' ∧ Built board names (rows ++ [rowNames (i, v)]) M' s' := by
  obtain ⟨M₁, s₁, heq₁, hcur₁, hrows₁, h₁⟩ := h.newRow (hnames i (by simp [rowNames])) (by omega)
  obtain ⟨M₂, s₂, heq₂, hcur₂, hrows₂, h₂⟩ :=
    h₁.newRow (hnames (getRowCol (i / 9) v) (by simp [rowNames])) (by omega)
  obtain ⟨M₃, s₃, heq₃, hcur₃, hrows₃, h₃⟩ :=
    h₂.newRow (hnames (getColCol (i % 9) v) (by simp [rowNames])) (by omega)
  obtain ⟨M₄, s₄, heq₄, hcur₄, hrows₄, h₄⟩ :=
    h₃.newRow (hnames (getBoxCol (boxOf i) v) (by simp [rowNames])) (by omega)
  have hrows : M₄.rows = M.rows ++ [[s.curNode], [s₁.curNode], [s₂.curNode], [s₃.curNode]] := by
    simp [hrows₄, hrows₃, hrows₂, hrows₁]
  have hbuilt : Built board names (rows ++ [[i], [getRowCol (i / 9) v], [getColCol (i % 9) v],
      [getBoxCol (boxOf i) v]]) M₄ s₄ := by simpa using h₄
  obtain ⟨M', h'⟩ := hbuilt.join hrows hnodup
  refine ⟨M', _, ?_, h'⟩
  simp only [SudokuSolver.appendRow, heq₁, heq₂, heq₃, heq₄, ok_bind, pure_eq_ok]

end Make

def cellNames (board : ℕ → ℕ) (i : ℕ) : List ℕ := if board i = 0 then [i] else []

/-- The columns for a value that a row, a column or a box lacks. -/
def valueNames (u : Used) (i v : ℕ) : List ℕ :=
  (if u.rows i v then [] else [getRowCol i v]) ++ (if u.cols i v then [] else [getColCol i v]) ++
    (if u.boxes i v then [] else [getBoxCol i v])

def columnNames (board : ℕ → ℕ) : List ℕ :=
  (List.range kCells).flatMap (cellNames board) ++
    (List.range 9).flatMap fun i => values.flatMap fun v => valueNames (used board) i v

/-- A value that a row, a column or a box has already. -/
def Used.blocks (u : Used) (i v : ℕ) : Bool :=
  u.rows (i / 9) v || u.cols (i % 9) v || u.boxes (boxOf i) v

def candidatesAt (board : ℕ → ℕ) (i : ℕ) : List (ℕ × ℕ) :=
  if board i = 0 then (values.filter fun v => !(used board).blocks i v).map (i, ·) else []

def candidates (board : ℕ → ℕ) : List (ℕ × ℕ) := (List.range kCells).flatMap (candidatesAt board)

def start (board : ℕ → ℕ) : SudokuSolver :=
  { blank board with
    horizontal := (blank board).horizontal.alone 0
    vertical := (blank board).vertical.alone 0
    col := Function.update (blank board).col 0 0
    name := Function.update (blank board).name 0 0
    size := Function.update (blank board).size 0 0
    curNode := 1 }

section Make

variable {board : ℕ → ℕ}

theorem appendUnless_eq (s : SudokuSolver) (present : Bool) (k : ℕ) :
    s.appendUnless present k =
      (if present then [] else [k]).foldlM SudokuSolver.appendColumn s := by
  cases present with
  | false => exact (bind_pure (s.appendColumn k)).symm
  | true => rfl

theorem make_eq (board : ℕ → ℕ) : make board =
    ((columnNames board).foldlM SudokuSolver.appendColumn (start board) >>= fun s =>
      (candidates board).foldlM (fun s p => s.appendRow p.1 p.2) s) := by
  have hcell : ∀ (s : SudokuSolver) i, s.appendCell board i =
      (cellNames board i).foldlM SudokuSolver.appendColumn s := by
    intro s i
    rw [appendCell, cellNames]
    split_ifs
    · exact (bind_pure (s.appendColumn i)).symm
    · rfl
  have hvalue : ∀ (s : SudokuSolver) i v, s.appendValue (used board) i v =
      (valueNames (used board) i v).foldlM SudokuSolver.appendColumn s := by
    intro s i v
    simp only [appendValue, valueNames, appendUnless_eq, List.foldlM_append, bind_assoc]
  have hcandidate : ∀ (s : SudokuSolver) i, s.appendCandidates board (used board) i =
      (candidatesAt board i).foldlM (fun s p => s.appendRow p.1 p.2) s := by
    intro s i
    rw [appendCandidates, candidatesAt]
    split_ifs
    · rw [List.foldlM_map]
      induction values generalizing s with
      | nil => rfl
      | cons v vs ih =>
        rw [List.foldlM_cons, List.filter_cons, appendCandidate, ← Used.blocks]
        cases (used board).blocks i v with
        | false =>
          simp only [Bool.false_eq_true, if_false, Bool.not_false, if_true, List.foldlM_cons]
          exact bind_congr fun s' => ih s'
        | true =>
          simp only [if_true, Bool.not_true, Bool.false_eq_true, if_false]
          exact ih s
    · rfl
  have hroot : (blank board).newColumn 0 = .ok (0, start board) := by
    have hroom : (blank board).curNode < kMaxNodes := show 0 < kMaxNodes by decide
    rw [newColumn, newNode, assertThat_pos hroom]
    rfl
  rw [make, hroot, ok_bind, columnNames, List.foldlM_append, bind_assoc, foldlM_flatMap,
    candidates]
  simp only [foldlM_flatMap, ← hcell, ← hvalue, ← hcandidate]
  rfl

theorem mem_columnNames {k : ℕ} : k ∈ columnNames board ↔
    (k < kCells ∧ board k = 0) ∨ ∃ i < 9, ∃ v ∈ values,
      ((used board).rows i v = false ∧ k = getRowCol i v) ∨
      ((used board).cols i v = false ∧ k = getColCol i v) ∨
      ((used board).boxes i v = false ∧ k = getBoxCol i v) := by
  have hcell : k ∈ (List.range kCells).flatMap (cellNames board) ↔ k < kCells ∧ board k = 0 := by
    simp only [List.mem_flatMap, List.mem_range, cellNames]
    constructor
    · rintro ⟨i, hi, hk⟩
      split_ifs at hk with h
      · obtain rfl := List.mem_singleton.mp hk
        exact ⟨hi, h⟩
      · simp at hk
    · rintro ⟨hk, h⟩
      exact ⟨k, hk, by simp [h]⟩
  have hvalue : ∀ i v, k ∈ valueNames (used board) i v ↔
      ((used board).rows i v = false ∧ k = getRowCol i v) ∨
      ((used board).cols i v = false ∧ k = getColCol i v) ∨
      ((used board).boxes i v = false ∧ k = getBoxCol i v) := by
    intro i v
    have hif : ∀ (b : Bool) (j : ℕ), k ∈ (if b then [] else [j]) ↔ b = false ∧ k = j := by
      intro b j
      cases b <;> simp
    rw [valueNames, List.mem_append, List.mem_append, hif, hif, hif, or_assoc]
  rw [columnNames, List.mem_append, hcell]
  simp only [List.mem_flatMap, List.mem_range, hvalue]

theorem mem_candidates {p : ℕ × ℕ} : p ∈ candidates board ↔
    p.1 < kCells ∧ board p.1 = 0 ∧ p.2 ∈ values ∧ (used board).blocks p.1 p.2 = false := by
  obtain ⟨i, v⟩ := p
  simp only [candidates, List.mem_flatMap, List.mem_range, candidatesAt]
  constructor
  · rintro ⟨j, hj, hp⟩
    split_ifs at hp with h
    · obtain ⟨w, hw, heq⟩ := List.mem_map.mp hp
      obtain ⟨rfl, rfl⟩ := Prod.mk.inj heq
      simpa [hj, h] using hw
    · simp at hp
  · rintro ⟨hi, h, hv, hfree⟩
    exact ⟨i, hi, by simp [h, hv, hfree]⟩

theorem mem_values {v : ℕ} : v ∈ values ↔ 1 ≤ v ∧ v < 10 := by
  rw [values, List.mem_range'_1]

def allNames : List ℕ :=
  List.range kCells ++ (List.range 9).flatMap fun i => values.flatMap fun v =>
    [getRowCol i v, getColCol i v, getBoxCol i v]

theorem columnNames_sublist (board : ℕ → ℕ) : (columnNames board).Sublist allNames := by
  have hcells : ((List.range kCells).flatMap (cellNames board)).Sublist (List.range kCells) := by
    have hsub := List.Sublist.flatMap_right (List.range kCells) (f := cellNames board)
      (g := fun i => [i]) fun i _ => by rw [cellNames]; split_ifs <;> simp
    simpa using hsub
  have hvalues : ∀ i v, (valueNames (used board) i v).Sublist
      [getRowCol i v, getColCol i v, getBoxCol i v] := by
    intro i v
    have hif : ∀ (b : Bool) (j : ℕ), (if b then [] else [j]).Sublist [j] := by
      intro b j
      cases b <;> simp
    exact ((hif _ _).append (hif _ _)).append (hif _ _)
  exact hcells.append (List.Sublist.flatMap_right _ fun i _ =>
    List.Sublist.flatMap_right _ fun v _ => hvalues i v)

theorem allNames_nodup : allNames.Nodup := by
  have hname : ∀ {k i v : ℕ}, k ∈ [getRowCol i v, getColCol i v, getBoxCol i v] →
      ∃ b ∈ [100, 200, 300], k = b + i * 10 + v := by
    intro k i v hk
    simpa [getRowCol, getColCol, getBoxCol] using hk
  have hvalues : values.Nodup := by decide
  refine List.nodup_append'.mpr ⟨List.nodup_range, List.nodup_flatMap.mpr
    ⟨fun i hi => List.nodup_flatMap.mpr ⟨fun v hv => ?_, ?_⟩, ?_⟩, fun k hk hk' => ?_⟩
  · simp only [getRowCol, getColCol, getBoxCol, List.nodup_cons, List.mem_cons, List.not_mem_nil,
      or_false, not_or, List.nodup_nil, and_true, not_false_eq_true]
    omega
  · refine hvalues.imp_of_mem fun {v w} hv hw hne k hk hk' => ?_
    obtain ⟨b, hb, heq⟩ := hname hk
    obtain ⟨c, hc, heq'⟩ := hname hk'
    rw [mem_values] at hv hw
    simp only [List.mem_cons, List.not_mem_nil, or_false, List.mem_range] at hb hc hi
    omega
  · refine List.nodup_range.imp_of_mem fun {i j} hi hj hne k hk hk' => ?_
    obtain ⟨v, hv, hk⟩ := List.mem_flatMap.mp hk
    obtain ⟨w, hw, hk'⟩ := List.mem_flatMap.mp hk'
    obtain ⟨b, hb, heq⟩ := hname hk
    obtain ⟨c, hc, heq'⟩ := hname hk'
    rw [mem_values] at hv hw
    simp only [List.mem_cons, List.not_mem_nil, or_false, List.mem_range] at hb hc hi hj
    omega
  · obtain ⟨i, hi, hk'⟩ := List.mem_flatMap.mp hk'
    obtain ⟨v, hv, hk'⟩ := List.mem_flatMap.mp hk'
    obtain ⟨b, hb, heq⟩ := hname hk'
    simp only [List.mem_range, kCells] at hk
    simp only [List.mem_cons, List.not_mem_nil, or_false] at hb
    omega

theorem columnNames_nodup (board : ℕ → ℕ) : (columnNames board).Nodup :=
  (columnNames_sublist board).nodup allNames_nodup

theorem columnNames_length (board : ℕ → ℕ) : (columnNames board).length ≤ 324 := by
  have hall : allNames.length = 324 := by decide +kernel
  exact hall ▸ (columnNames_sublist board).length_le

theorem candidates_length (board : ℕ → ℕ) : (candidates board).length ≤ 729 := by
  have hsub : (candidates board).Sublist
      ((List.range kCells).flatMap fun i => values.map (i, ·)) := by
    refine List.Sublist.flatMap_right _ fun i _ => ?_
    rw [candidatesAt]
    split_ifs
    · exact List.filter_sublist.map _
    · exact List.nil_sublist _
  have hall : ((List.range kCells).flatMap fun i => values.map (i, ·)).length = 729 := by
    decide +kernel
  exact hall ▸ hsub.length_le

theorem rowNames_subset {p : ℕ × ℕ} (hp : p ∈ candidates board) :
    ∀ k ∈ rowNames p, k ∈ columnNames board := by
  obtain ⟨hi, hempty, hv, hfree⟩ := mem_candidates.mp hp
  simp only [Used.blocks, Bool.or_eq_false_iff] at hfree
  obtain ⟨⟨hrow, hcol⟩, hbox⟩ := hfree
  have hlt : p.1 / 9 < 9 ∧ p.1 % 9 < 9 ∧ boxOf p.1 < 9 := by
    simp only [kCells] at hi
    simp only [boxOf]
    omega
  intro k hk
  simp only [rowNames, List.mem_cons, List.not_mem_nil, or_false] at hk
  rw [mem_columnNames]
  rcases hk with rfl | rfl | rfl | rfl
  · exact .inl ⟨hi, hempty⟩
  · exact .inr ⟨_, hlt.1, _, hv, .inl ⟨hrow, rfl⟩⟩
  · exact .inr ⟨_, hlt.2.1, _, hv, .inr (.inl ⟨hcol, rfl⟩)⟩
  · exact .inr ⟨_, hlt.2.2, _, hv, .inr (.inr ⟨hbox, rfl⟩)⟩

theorem rowNames_nodup {p : ℕ × ℕ} (hp : p ∈ candidates board) : (rowNames p).Nodup := by
  obtain ⟨hi, -, hv, -⟩ := mem_candidates.mp hp
  rw [mem_values] at hv
  simp only [kCells] at hi
  simp only [rowNames, getRowCol, getColCol, getBoxCol, boxOf, List.nodup_cons, List.mem_cons,
    List.not_mem_nil, or_false, not_or, List.nodup_nil, and_true, not_false_eq_true]
  omega

theorem start_built (board : ℕ → ℕ) : ∃ M, Built board [] [] M (start board) := by
  refine ⟨⟨0, [], [], (start board).col, fun _ => [], by simp, by simp [kMaxNodes], by simp,
    by simp, by simp⟩, ⟨rfl, rfl, by simp, ?_, ⟨by simp, by simp⟩, by simp⟩, ?_, rfl, rfl, ?_, rfl,
    by simp, rfl, rfl⟩
  · exact Ring.alone _ _
  · simp [Layout.all, start]
  · simp [start, blank]

theorem make_built (board : ℕ → ℕ) : ∃ M s, make board = .ok s ∧
    Built board (columnNames board) ((candidates board).map rowNames) M s := by
  obtain ⟨M₀, hstart⟩ := start_built board
  obtain ⟨s₁, hs₁, M₁, h₁⟩ := foldlM_spec (columnNames board) SudokuSolver.appendColumn
    (I := fun done s => ∃ M, Built board done [] M s)
    (fun done k s ⟨rest, hrest⟩ ⟨M, h⟩ => by
      have hnodup := columnNames_nodup board
      have hlen := columnNames_length board
      rw [hrest] at hnodup hlen
      have hk : k ∉ done := fun hk => (List.nodup_append'.mp hnodup).2.2 hk (by simp)
      have hroom : s.curNode < kMaxNodes := by
        simp only [List.length_append, List.length_cons] at hlen
        simp only [h.count, kMaxNodes, List.flatten_nil, List.length_nil]
        omega
      obtain ⟨M', heq, h'⟩ := h.appendColumn hk hroom
      exact ⟨_, heq, M', h'⟩)
    ⟨M₀, hstart⟩
  obtain ⟨s₂, hs₂, M₂, h₂⟩ := foldlM_spec (candidates board) (fun s p => s.appendRow p.1 p.2)
    (I := fun done s => ∃ M, Built board (columnNames board) (done.map rowNames) M s)
    (fun done p s ⟨rest, hrest⟩ ⟨M, h⟩ => by
      have hp : p ∈ candidates board := by simp [hrest]
      have hroom : s.curNode + 4 ≤ kMaxNodes := by
        have hcolumns := columnNames_length board
        have hrows := candidates_length board
        have hflat : (done.map rowNames).flatten.length = 4 * done.length := by
          simp [List.length_flatten, Function.comp_def, rowNames, List.sum_replicate, mul_comm]
        simp only [hrest, List.length_append, List.length_cons] at hrows
        simp only [h.count, kMaxNodes, hflat]
        omega
      obtain ⟨M', s', heq, h'⟩ := h.appendRow (rowNames_subset hp) (rowNames_nodup hp) hroom
      exact ⟨s', heq, M', by simpa using h'⟩)
    ⟨M₁, h₁⟩
  exact ⟨M₂, s₂, by rw [make_eq, hs₁, ok_bind, hs₂], h₂⟩

end Make
end SudokuSolver
end Muduo
