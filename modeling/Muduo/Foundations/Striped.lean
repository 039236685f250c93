import Muduo.Foundations.Machine

/-!
# Stripes with their own locks

An object is split into stripes. An operation works on one stripe, under the lock of that
stripe, and may take a number from a counter that all stripes share. Threads that work on
different stripes run at the same time. Their answers are those of operations that are carried
out one after the other: an operation with a number at the moment it takes the number, any
other one when it finishes.
-/

namespace Foundations

/-- The operations `α` on stripes `σ`. -/
structure Striped (κ σ α ρ : Type) where
  stripe : α → κ
  /-- the operation takes a number, in this state of its stripe -/
  numbered : α → σ → Bool
  act : α → σ → ℕ → σ × ρ

namespace Striped

variable {κ σ α ρ τ : Type} [DecidableEq κ] (O : Striped κ σ α ρ)

@[ext] structure Whole (κ σ : Type) where
  stripes : κ → σ
  counter : ℕ

/-- An operation in one go. -/
def atomic (w : Whole κ σ) (a : α) : Whole κ σ × ρ :=
  let old := w.stripes (O.stripe a)
  let n := if O.numbered a old then w.counter + 1 else w.counter
  (⟨Function.update w.stripes (O.stripe a) (O.act a old n).1, n⟩, (O.act a old n).2)

/-- Operations one after the other, each with its answer. -/
def atomics (w : Whole κ σ) : List (τ × α) → Whole κ σ × List (τ × α × ρ)
  | [] => (w, [])
  | (t, a) :: as =>
    ((atomics (O.atomic w a).1 as).1, (t, a, (O.atomic w a).2) :: (atomics (O.atomic w a).1 as).2)

/-- An operation whose thread holds the lock. -/
structure Held (τ α : Type) where
  thread : τ
  op : α
  number : Option ℕ

structure Locking (τ κ σ α ρ : Type) where
  whole : Whole κ σ
  held : κ → Option (Held τ α)
  answers : List (τ × α × ρ)

inductive Move (τ κ α : Type)
  | lock (t : τ) (a : α)
  | number (k : κ)
  | finish (k : κ)

/-- The steps of the threads, in any order that the locks admit. -/
def Allows (s : Locking τ κ σ α ρ) : Move τ κ α → Prop
  | .lock _ a => s.held (O.stripe a) = none
  | .number k => ∃ h, s.held k = some h ∧ h.number = none ∧
      O.numbered h.op (s.whole.stripes k) = true
  | .finish k => ∃ h, s.held k = some h ∧
      (h.number = none → O.numbered h.op (s.whole.stripes k) = false)

def next (s : Locking τ κ σ α ρ) : Move τ κ α → Locking τ κ σ α ρ
  | .lock t a => { s with held := Function.update s.held (O.stripe a) (some ⟨t, a, none⟩) }
  | .number k =>
    match s.held k with
    | none => s
    | some h =>
      { s with
        whole := { s.whole with counter := s.whole.counter + 1 }
        held := Function.update s.held k (some { h with number := some (s.whole.counter + 1) }) }
  | .finish k =>
    match s.held k with
    | none => s
    | some h =>
      let result := O.act h.op (s.whole.stripes k) (h.number.getD s.whole.counter)
      { whole := { s.whole with stripes := Function.update s.whole.stripes k result.1 }
        held := Function.update s.held k none
        answers := s.answers ++ [(h.thread, h.op, result.2)] }

def threads : Machine (Locking τ κ σ α ρ) (Move τ κ α) Fault where
  Allows := O.Allows
  step s m := .ok (O.next s m)

def takesEffect (s : Locking τ κ σ α ρ) : Move τ κ α → List (τ × α)
  | .lock _ _ => []
  | .number k => (s.held k).toList.map fun h => (h.thread, h.op)
  | .finish k => ((s.held k).toList.filter (·.number.isNone)).map fun h => (h.thread, h.op)

/-- The operations of a run in the order in which they take effect. Each of them is there from
a step between its `lock` and its `finish` on. -/
def order (s : Locking τ κ σ α ρ) : List (Move τ κ α) → List (τ × α)
  | [] => []
  | m :: ms => takesEffect s m ++ order (O.next s m) ms

variable {O}

/-- The answer of an operation that has its number. -/
def promised (O : Striped κ σ α ρ) (s : Locking τ κ σ α ρ) (k : κ) : Option (τ × α × ρ) := do
  let h ← s.held k
  let n ← h.number
  return (h.thread, h.op, (O.act h.op (s.whole.stripes k) n).2)

/-- What a stripe will be when the operation with a number has finished. -/
def settled (O : Striped κ σ α ρ) (s : Locking τ κ σ α ρ) (k : κ) : σ :=
  match (s.held k).bind fun h => h.number.map (h.op, ·) with
  | none => s.whole.stripes k
  | some (a, n) => (O.act a (s.whole.stripes k) n).1

theorem atomics_append (w : Whole κ σ) (as bs : List (τ × α)) :
    O.atomics w (as ++ bs) = ((O.atomics (O.atomics w as).1 bs).1,
      (O.atomics w as).2 ++ (O.atomics (O.atomics w as).1 bs).2) := by
  induction as generalizing w with
  | nil => rfl
  | cons a as ih => simp [atomics, ih]

/-- The object in one go, beside the object of the threads. -/
structure Linear (O : Striped κ σ α ρ) (s : Locking τ κ σ α ρ) (w : Whole κ σ)
    (done : List (τ × α × ρ)) : Prop where
  counter : w.counter = s.whole.counter
  stripes : ∀ k, w.stripes k = settled O s k
  answers : ∃ ks : List κ, ks.Nodup ∧ (∀ k, k ∈ ks ↔ (promised O s k).isSome) ∧
    done.Perm (s.answers ++ ks.filterMap (promised O s))

section Steps

variable {s : Locking τ κ σ α ρ} {w : Whole κ σ} {done : List (τ × α × ρ)} {k : κ} {h : Held τ α}

omit [DecidableEq κ] in
/-- A step at one stripe does not change what the others promise. -/
theorem promised_congr {s' : Locking τ κ σ α ρ} (hheld : s'.held k = s.held k)
    (hstripe : s'.whole.stripes k = s.whole.stripes k) :
    promised O s' k = promised O s k ∧ settled O s' k = settled O s k := by
  simp only [promised, settled, hheld, hstripe, and_self]

theorem Linear.lock (hl : Linear O s w done) {t : τ} {a : α} (hfree : s.held (O.stripe a) = none) :
    Linear O (O.next s (.lock t a)) w done := by
  have hsame : ∀ k, promised O (O.next s (.lock t a)) k = promised O s k ∧
      settled O (O.next s (.lock t a)) k = settled O s k := by
    intro k
    by_cases hk : k = O.stripe a
    · subst hk
      simp [promised, settled, next, hfree]
    · exact promised_congr (Function.update_of_ne hk _ _) rfl
  obtain ⟨ks, hnodup, hmem, hperm⟩ := hl.answers
  refine ⟨hl.counter, fun k => (hl.stripes k).trans (hsame k).2.symm, ks, hnodup, fun k => ?_, ?_⟩
  · rw [hmem, (hsame k).1]
  · have hpromised : promised O (O.next s (.lock t a)) = promised O s :=
      funext fun k => (hsame k).1
    rw [hpromised]
    exact hperm

theorem Linear.number (hl : Linear O s w done) (hheld : s.held k = some h)
    (hnone : h.number = none) (hstripe : O.stripe h.op = k)
    (hnumbered : O.numbered h.op (s.whole.stripes k) = true) :
    Linear O (O.next s (.number k)) (O.atomic w h.op).1
      (done ++ [(h.thread, h.op, (O.atomic w h.op).2)]) := by
  have hold : w.stripes k = s.whole.stripes k := by
    rw [hl.stripes k]
    simp [settled, hheld, hnone]
  have hnext : O.next s (.number k) =
      { s with
        whole := { s.whole with counter := s.whole.counter + 1 }
        held :=
          Function.update s.held k (some { h with number := some (s.whole.counter + 1) }) } := by
    simp only [next, hheld]
  have hatomic : O.atomic w h.op =
      (⟨Function.update w.stripes k
        (O.act h.op (s.whole.stripes k) (s.whole.counter + 1)).1, s.whole.counter + 1⟩,
        (O.act h.op (s.whole.stripes k) (s.whole.counter + 1)).2) := by
    simp only [atomic, hstripe, hold, hnumbered, if_true, hl.counter]
  have hother : ∀ k' ≠ k, promised O (O.next s (.number k)) k' = promised O s k' ∧
      settled O (O.next s (.number k)) k' = settled O s k' := by
    intro k' hk'
    rw [hnext]
    exact promised_congr (Function.update_of_ne hk' _ _) rfl
  have hself : promised O (O.next s (.number k)) k =
      some (h.thread, h.op, (O.act h.op (s.whole.stripes k) (s.whole.counter + 1)).2) := by
    simp [promised, hnext]
  have hbefore : promised O s k = none := by simp [promised, hheld, hnone]
  obtain ⟨ks, hnodup, hmem, hperm⟩ := hl.answers
  have hnot : k ∉ ks := by simp [hmem, hbefore]
  rw [hatomic]
  refine ⟨by rw [hnext], fun k' => ?_, ks ++ [k], ?_, fun k' => ?_, ?_⟩
  · by_cases hk' : k' = k
    · subst hk'
      simp [settled, hnext]
    · rw [(hother k' hk').2, ← hl.stripes k']
      exact Function.update_of_ne hk' _ _
  · rw [List.nodup_append']
    exact ⟨hnodup, List.nodup_singleton k, by simpa using hnot⟩
  · by_cases hk' : k' = k
    · subst hk'
      simp [hself]
    · rw [List.mem_append, hmem, (hother k' hk').1]
      simp [hk']
  · have hrest :
        ks.filterMap (promised O (O.next s (.number k))) = ks.filterMap (promised O s) := by
      refine List.filterMap_congr fun k' hk' => ?_
      have hne : k' ≠ k := fun heq => hnot (heq ▸ hk')
      exact (hother k' hne).1
    have hanswers : (O.next s (.number k)).answers = s.answers := by rw [hnext]
    rw [List.filterMap_append, hrest, hanswers, ← List.append_assoc]
    simp only [List.filterMap_cons, hself, List.filterMap_nil]
    exact hperm.append_right _

theorem Linear.finish_numbered (hl : Linear O s w done) (hheld : s.held k = some h) {n : ℕ}
    (hn : h.number = some n) : Linear O (O.next s (.finish k)) w done := by
  have hnext : O.next s (.finish k) =
      { whole := { s.whole with
          stripes := Function.update s.whole.stripes k (O.act h.op (s.whole.stripes k) n).1 }
        held := Function.update s.held k none
        answers := s.answers ++ [(h.thread, h.op, (O.act h.op (s.whole.stripes k) n).2)] } := by
    simp only [next, hheld, hn, Option.getD_some]
  have hother : ∀ k' ≠ k, promised O (O.next s (.finish k)) k' = promised O s k' ∧
      settled O (O.next s (.finish k)) k' = settled O s k' := by
    intro k' hk'
    rw [hnext]
    exact promised_congr (Function.update_of_ne hk' _ _) (Function.update_of_ne hk' _ _)
  have hself : promised O (O.next s (.finish k)) k = none := by simp [promised, hnext]
  have hbefore : promised O s k =
      some (h.thread, h.op, (O.act h.op (s.whole.stripes k) n).2) := by
    simp [promised, hheld, hn]
  obtain ⟨ks, hnodup, hmem, hperm⟩ := hl.answers
  have hk : k ∈ ks := by simp [hmem, hbefore]
  refine ⟨by rw [hl.counter, hnext], fun k' => ?_, ks.erase k, hnodup.erase k, fun k' => ?_, ?_⟩
  · by_cases hk' : k' = k
    · subst hk'
      rw [hl.stripes]
      simp [settled, hnext, hheld, hn]
    · rw [(hother k' hk').2]
      exact hl.stripes k'
  · by_cases hk' : k' = k
    · subst hk'
      simp [hself, hnodup.not_mem_erase]
    · rw [List.mem_erase_of_ne hk', hmem, (hother k' hk').1]
  · have hrest : (ks.erase k).filterMap (promised O (O.next s (.finish k))) =
        (ks.erase k).filterMap (promised O s) := by
      refine List.filterMap_congr fun k' hk' => ?_
      have hne : k' ≠ k := fun heq => hnodup.not_mem_erase (heq ▸ hk')
      exact (hother k' hne).1
    have hsplit : (ks.filterMap (promised O s)).Perm
        ((h.thread, h.op, (O.act h.op (s.whole.stripes k) n).2) ::
          (ks.erase k).filterMap (promised O s)) := by
      have := (List.perm_cons_erase hk).filterMap (promised O s)
      rwa [List.filterMap_cons_some hbefore] at this
    rw [hrest]
    simp only [hnext, List.append_assoc, List.singleton_append]
    exact hperm.trans (hsplit.append_left _)

theorem Linear.finish_unnumbered (hl : Linear O s w done) (hheld : s.held k = some h)
    (hnone : h.number = none) (hstripe : O.stripe h.op = k)
    (hnumbered : O.numbered h.op (s.whole.stripes k) = false) :
    Linear O (O.next s (.finish k)) (O.atomic w h.op).1
      (done ++ [(h.thread, h.op, (O.atomic w h.op).2)]) := by
  have hold : w.stripes k = s.whole.stripes k := by
    rw [hl.stripes k]
    simp [settled, hheld, hnone]
  have hnext : O.next s (.finish k) =
      { whole := { s.whole with
          stripes := Function.update s.whole.stripes k
            (O.act h.op (s.whole.stripes k) s.whole.counter).1 }
        held := Function.update s.held k none
        answers := s.answers ++
          [(h.thread, h.op, (O.act h.op (s.whole.stripes k) s.whole.counter).2)] } := by
    simp only [next, hheld, hnone, Option.getD_none]
  have hatomic : O.atomic w h.op =
      (⟨Function.update w.stripes k (O.act h.op (s.whole.stripes k) s.whole.counter).1,
        s.whole.counter⟩, (O.act h.op (s.whole.stripes k) s.whole.counter).2) := by
    simp [atomic, hstripe, hold, hnumbered, hl.counter]
  have hother : ∀ k' ≠ k, promised O (O.next s (.finish k)) k' = promised O s k' ∧
      settled O (O.next s (.finish k)) k' = settled O s k' := by
    intro k' hk'
    rw [hnext]
    exact promised_congr (Function.update_of_ne hk' _ _) (Function.update_of_ne hk' _ _)
  have hself : promised O (O.next s (.finish k)) k = promised O s k := by
    simp [promised, hnext, hheld, hnone]
  have hpromised : promised O (O.next s (.finish k)) = promised O s := by
    funext k'
    by_cases hk' : k' = k
    · exact hk' ▸ hself
    · exact (hother k' hk').1
  obtain ⟨ks, hnodup, hmem, hperm⟩ := hl.answers
  rw [hatomic]
  refine ⟨by rw [hnext], fun k' => ?_, ks, hnodup, fun k' => by rw [hmem, hpromised], ?_⟩
  · by_cases hk' : k' = k
    · subst hk'
      simp [settled, hnext]
    · rw [(hother k' hk').2, ← hl.stripes k']
      exact Function.update_of_ne hk' _ _
  · rw [hpromised]
    simp only [hnext, List.append_assoc]
    exact (hperm.append_right _).trans (by
      rw [List.append_assoc]
      exact List.perm_append_comm.append_left _)

end Steps

/-- A lock is taken for an operation on its own stripe. -/
def AtStripe (O : Striped κ σ α ρ) (s : Locking τ κ σ α ρ) : Prop :=
  ∀ k h, s.held k = some h → O.stripe h.op = k

theorem AtStripe.next {s : Locking τ κ σ α ρ} (hs : AtStripe O s) (m : Move τ κ α) :
    AtStripe O (O.next s m) := by
  intro k h hheld
  cases m with
  | lock t a =>
    by_cases hk : k = O.stripe a
    · subst hk
      simp only [Striped.next, Function.update_self, Option.some.injEq] at hheld
      rw [← hheld]
    · simp only [Striped.next, Function.update_of_ne hk] at hheld
      exact hs k h hheld
  | number j =>
    cases hj : s.held j with
    | none =>
      simp only [Striped.next, hj] at hheld
      exact hs k h hheld
    | some g =>
      simp only [Striped.next, hj] at hheld
      by_cases hk : k = j
      · subst hk
        rw [Function.update_self, Option.some.injEq] at hheld
        rw [← hheld]
        exact hs k g hj
      · rw [Function.update_of_ne hk] at hheld
        exact hs k h hheld
  | finish j =>
    cases hj : s.held j with
    | none =>
      simp only [Striped.next, hj] at hheld
      exact hs k h hheld
    | some g =>
      simp only [Striped.next, hj] at hheld
      by_cases hk : k = j
      · subst hk
        simp at hheld
      · rw [Function.update_of_ne hk] at hheld
        exact hs k h hheld

theorem Linear.step {s : Locking τ κ σ α ρ} {w : Whole κ σ} {done : List (τ × α × ρ)}
    (hl : Linear O s w done) (hs : AtStripe O s) {m : Move τ κ α} (hm : O.Allows s m) :
    Linear O (O.next s m) (O.atomics w (takesEffect s m)).1
      (done ++ (O.atomics w (takesEffect s m)).2) := by
  cases m with
  | lock t a => simpa [takesEffect, atomics] using hl.lock hm
  | number k =>
    obtain ⟨h, hheld, hnone, hnumbered⟩ := hm
    simpa [takesEffect, atomics, hheld] using
      hl.number hheld hnone (hs k h hheld) hnumbered
  | finish k =>
    obtain ⟨h, hheld, hready⟩ := hm
    cases hn : h.number with
    | none =>
      simpa [takesEffect, atomics, hheld, hn] using
        hl.finish_unnumbered hheld hn (hs k h hheld) (hready hn)
    | some n => simpa [takesEffect, atomics, hheld, hn] using hl.finish_numbered hheld hn

theorem Linear.run {s t : Locking τ κ σ α ρ} {w : Whole κ σ} {done : List (τ × α × ρ)}
    {ms : List (Move τ κ α)} (hl : Linear O s w done) (hs : AtStripe O s)
    (hp : O.threads.Permits s ms) (hr : O.threads.run s ms = .ok t) :
    Linear O t (O.atomics w (O.order s ms)).1 (done ++ (O.atomics w (O.order s ms)).2) := by
  induction ms generalizing s w done with
  | nil =>
    cases hr
    simpa [order, atomics] using hl
  | cons m ms ih =>
    have hstep : O.threads.step s m = .ok (O.next s m) := rfl
    rw [O.threads.permits_cons_ok hstep] at hp
    rw [O.threads.run_cons_ok ms hstep] at hr
    have hrest := ih (hl.step hs hp.1) (hs.next m) hp.2 hr
    rw [order, atomics_append]
    simpa using hrest

/-- When no lock is held, the threads have got the answers of the operations one after the
other, and left the object that these leave. -/
theorem linearizable {s t : Locking τ κ σ α ρ} {ms : List (Move τ κ α)}
    (hfree : ∀ k, s.held k = none) (hnew : s.answers = []) (hp : O.threads.Permits s ms)
    (hr : O.threads.run s ms = .ok t) (hend : ∀ k, t.held k = none) :
    t.whole = (O.atomics s.whole (O.order s ms)).1 ∧
      t.answers.Perm (O.atomics s.whole (O.order s ms)).2 := by
  have hquiet : ∀ k, promised O s k = none ∧ settled O s k = s.whole.stripes k := fun k => by
    simp [promised, settled, hfree k]
  have hstart : Linear O s s.whole [] :=
    ⟨rfl, fun k => (hquiet k).2.symm, [], List.nodup_nil, fun k => by simp [(hquiet k).1],
      by simp [hnew]⟩
  have hl := hstart.run (fun k h hheld => by simp [hfree k] at hheld) hp hr
  have hquiet' : ∀ k, promised O t k = none ∧ settled O t k = t.whole.stripes k := fun k => by
    simp [promised, settled, hend k]
  refine ⟨Whole.ext (funext fun k => ?_) hl.counter.symm, ?_⟩
  · rw [hl.stripes k, (hquiet' k).2]
  · obtain ⟨ks, -, hmem, hperm⟩ := hl.answers
    have hks : ks.filterMap (promised O t) = [] := by
      refine List.filterMap_eq_nil_iff.mpr fun k _ => (hquiet' k).1
    rw [hks, List.append_nil, List.nil_append] at hperm
    exact hperm.symm

end Striped
end Foundations
