import Muduo.Foundations.Runs
import Muduo.Base.Text

/-!
# Paths of the inspector

`split` cuts the path of a request at its slashes. A position `start` behind the last slash
and the position of the next one move through the string; what is between them is a part of
the path, unless it is empty.
-/

namespace Muduo

open Foundations

namespace Inspector

/-- The character `/`. -/
def slash : UInt8 := 47

/-- `str.find('/', pos)`; `npos` is `none`. -/
def find (str : Bytes) (pos : ℕ) : Option ℕ := findFrom (· = slash) str pos

def substr (str : Bytes) (pos n : ℕ) : Bytes := (str.drop pos).take n

/-- The part between two slashes, unless it is empty. -/
def pushPart (str : Bytes) (start pos : ℕ) (result : List Bytes) : List Bytes :=
  if start < pos then result ++ [substr str start (pos - start)] else result

/-- The loop of `split` and what follows it. -/
def splitFrom (str : Bytes) (start : ℕ) (result : List Bytes) : List Bytes :=
  match _ : find str start with
  | some pos => splitFrom str (pos + 1) (pushPart str start pos result)
  | none => if start < str.length then result ++ [str.drop start] else result
termination_by str.length - start
decreasing_by
  have hpos := findFrom_lt ‹find str start = some pos›
  omega

def split (str : Bytes) : List Bytes := splitFrom str 0 []

theorem splitFrom_of_some {str : Bytes} {start pos : ℕ} (h : find str start = some pos)
    (result : List Bytes) :
    splitFrom str start result = splitFrom str (pos + 1) (pushPart str start pos result) := by
  rw [splitFrom]
  split
  · next pos' h' =>
    cases h.symm.trans h'
    rfl
  · next h' => cases h.symm.trans h'

theorem splitFrom_of_none {str : Bytes} {start : ℕ} (h : find str start = none)
    (result : List Bytes) :
    splitFrom str start result =
      if start < str.length then result ++ [str.drop start] else result := by
  rw [splitFrom]
  split
  · next pos' h' => cases h.symm.trans h'
  · rfl

def inPart (c : UInt8) : Bool := c ≠ slash

/-- From a position behind a slash on the loop passes all runs. -/
theorem splitFrom_eq_runs (str : Bytes) (start : ℕ) (result : List Bytes)
    (hstart : ∀ {k x}, k + 1 = start → str[k]? = some x → ¬ inPart x) :
    ∃ runs, RunsFrom inPart str start runs ∧
      splitFrom str start result = result ++ runs.map fun r => substr str r.1 (r.2 - r.1) := by
  fun_induction splitFrom str start result with
  | case1 start result pos h ih =>
    obtain ⟨hle, ⟨x, hx, hslash⟩, hblock⟩ := findFrom_eq_some h
    have hlt := (findFrom_lt h).2
    have hend : ∀ {y}, str[pos]? = some y → ¬ inPart y := by
      intro y hy
      cases hx.symm.trans hy
      simpa [inPart] using hslash
    have hparts : ∀ {k y}, start ≤ k → k < pos → str[k]? = some y → inPart y := by
      intro k y hk hkpos hy
      simpa [inPart] using hblock hk hkpos hy
    obtain ⟨runs, hruns, hresult⟩ := ih fun hk hy => by
      cases Nat.succ.inj hk
      exact hend hy
    refine ⟨_, hruns.cons hstart hparts hend hle hlt.le, ?_⟩
    rw [hresult, pushPart]
    split_ifs
    · simp
    · simp
  | case2 start result h hlt =>
    have hparts : ∀ {k y}, start ≤ k → k < str.length → str[k]? = some y → inPart y := by
      intro k y hk _ hy
      simpa [inPart] using findFrom_eq_none h hk hy
    have hend : ∀ {y}, str[str.length]? = some y → ¬ inPart y := by simp
    have hnone : RunsFrom inPart str (str.length + 1) [] := runsFrom_of_length_le (Nat.le_succ _)
    refine ⟨_, hnone.cons hstart hparts hend hlt.le le_rfl, ?_⟩
    have hall : str.drop start = substr str start (str.length - start) := by
      rw [substr, List.take_of_length_le (by rw [List.length_drop])]
    simp [hlt, hall]
  | case3 start result h hle =>
    exact ⟨[], runsFrom_of_length_le (by omega), by simp⟩

theorem splitFrom_append (l str : Bytes) (start : ℕ) (result : List Bytes) :
    splitFrom (l ++ str) (l.length + start) result = splitFrom str start result := by
  fun_induction splitFrom str start result with
  | case1 start result pos h ih =>
    have hfind : find (l ++ str) (l.length + start) = some (l.length + pos) := by
      rw [find, findFrom_append, show findFrom (· = slash) str start = some pos from h]
      rfl
    have hpart : pushPart (l ++ str) (l.length + start) (l.length + pos) result =
        pushPart str start pos result := by
      simp only [pushPart, substr, List.drop_length_add_append, Nat.add_sub_add_left,
        Nat.add_lt_add_iff_left]
    rw [splitFrom_of_some hfind, hpart, Nat.add_assoc, ih]
  | case2 start result h hlt =>
    have hfind : find (l ++ str) (l.length + start) = none := by
      rw [find, findFrom_append, show findFrom (· = slash) str start = none from h]
      rfl
    rw [splitFrom_of_none hfind, if_pos (by simpa using hlt), List.drop_length_add_append]
  | case3 start result h hle =>
    have hfind : find (l ++ str) (l.length + start) = none := by
      rw [find, findFrom_append, show findFrom (· = slash) str start = none from h]
      rfl
    rw [splitFrom_of_none hfind, if_neg (by simpa using hle)]

def IsPart (part : Bytes) : Prop := part ≠ [] ∧ slash ∉ part

instance (part : Bytes) : Decidable (IsPart part) := inferInstanceAs (Decidable (_ ∧ _))

theorem splitFrom_part {part : Bytes} (h : IsPart part) (str : Bytes) (result : List Bytes) :
    splitFrom (part ++ slash :: str) 0 result = splitFrom str 0 (result ++ [part]) := by
  have hnone : ∀ c ∈ part, ¬ decide (c = slash) = true := by
    intro c hc
    simpa using ne_of_mem_of_not_mem hc h.2
  have hfind : find (part ++ slash :: str) 0 = some part.length :=
    findFrom_zero_append hnone (by simp)
  have hpush : pushPart (part ++ slash :: str) 0 part.length result = result ++ [part] := by
    rw [pushPart, if_pos (List.length_pos_iff.mpr h.1), substr]
    simp
  have hrest := splitFrom_append (part ++ [slash]) str 0 (result ++ [part])
  rw [List.append_assoc, List.length_append] at hrest
  rw [splitFrom_of_some hfind, hpush]
  exact hrest

theorem splitFrom_last {part : Bytes} (h : IsPart part) (result : List Bytes) :
    splitFrom part 0 result = result ++ [part] := by
  have hfind : find part 0 = none := by
    rw [find, findFrom, List.drop_zero, Option.map_eq_none_iff, List.findIdx?_eq_none_iff]
    intro c hc
    simpa using ne_of_mem_of_not_mem hc h.2
  rw [splitFrom_of_none hfind, if_pos (List.length_pos_iff.mpr h.1), List.drop_zero]

theorem splitFrom_intercalate (parts : List Bytes) (h : ∀ part ∈ parts, IsPart part)
    (result : List Bytes) :
    splitFrom (List.intercalate [slash] parts) 0 result = result ++ parts := by
  induction parts generalizing result with
  | nil =>
    have hfind : find [] 0 = none := rfl
    rw [List.intercalate_nil, splitFrom_of_none hfind, List.append_nil]
    rfl
  | cons part parts ih =>
    obtain ⟨hpart, hparts⟩ := List.forall_mem_cons.mp h
    cases parts with
    | nil =>
      rw [List.intercalate_singleton]
      exact splitFrom_last hpart result
    | cons next parts =>
      rw [List.intercalate_cons_cons, List.append_assoc, List.singleton_append,
        splitFrom_part hpart, ih hparts, List.append_assoc, List.singleton_append]

/-- The parts are the maximal runs of characters other than a slash, in their order. What was
joined with slashes is taken apart again. -/
theorem split_eq_maximal_runs :
    (∀ str : Bytes, ∃ runs : List (ℕ × ℕ), (runs.Pairwise fun r s => r.2 < s.1) ∧
      (∀ i j, (i, j) ∈ runs ↔ MaximalRun inPart str i j) ∧
      split str = runs.map fun r => substr str r.1 (r.2 - r.1)) ∧
    ∀ parts : List Bytes, (∀ part ∈ parts, IsPart part) →
      split (List.intercalate [slash] parts) = parts := by
  constructor
  · intro str
    obtain ⟨runs, hruns, hsplit⟩ := splitFrom_eq_runs str 0 [] fun hk => by omega
    refine ⟨runs, hruns.sorted, fun i j => ?_, hsplit⟩
    rw [hruns.mem_iff]
    exact and_iff_right (Nat.zero_le i)
  · exact fun parts hparts => splitFrom_intercalate parts hparts []

theorem split_joined_parts :
    (∀ part ∈ [ascii "proc", ascii "status"], IsPart part) ∧
      split (List.intercalate [slash] [ascii "proc", ascii "status"]) =
        [ascii "proc", ascii "status"] := by
  have hparts : ∀ part ∈ [ascii "proc", ascii "status"], IsPart part := by decide +kernel
  exact ⟨hparts, split_eq_maximal_runs.2 _ hparts⟩

example : split (ascii "//proc///status/") = [ascii "proc", ascii "status"] := by decide +kernel

end Inspector
end Muduo
