import Muduo.Timers.Lives

/-!
# Cancelled timers

`cancelInLoop` takes a timer out of the sets, or remembers that it was cancelled
for the end of the batch. It does not touch the batch itself: a timer that has
expired together with the one whose callback cancels it still has its callback
run. Every other cancelled timer is silent from then on.
-/

namespace Muduo

open Foundations TimerQueue

namespace Lives

/-- The id is of a timer whose `addTimerInLoop` has run. -/
def Added (L : Lives) (i : TimerId) : Prop :=
  ∃ l, L.life i.sequence = some l ∧ l.id = i ∧ l.place ≠ .waiting

/-- The timer is deleted, or will be behind the batch. -/
def Barred (L : Lives) (i : TimerId) : Prop :=
  ∃ l, L.life i.sequence = some l ∧ l.id = i ∧
    (l.place = .deleted ∨ (l.place = .running ∧ i ∈ L.cancelled))

end Lives

namespace TimerLoop

variable {w w' : TimerLoop} {S : Set TimerPtr} {L : Lives} {i : TimerId}

/-- The timers of the batch whose callbacks have not begun. -/
def pending (w : TimerLoop) : List TimerPtr :=
  match w.batch with
  | none => []
  | some b => b.rest.map Entry.ptr

/-- The timer with this id expired with the batch, and its callback is still to
come. -/
def Due (w : TimerLoop) (i : TimerId) : Prop :=
  i.timer ∈ w.pending ∧ ∃ timer ∈ w.queue.heap i.timer, timer.sequence = i.sequence

instance (w : TimerLoop) (i : TimerId) : Decidable (w.Due i) :=
  inferInstanceAs (Decidable (_ ∧ _))

theorem step_ran {a : TimerStep} (h : w.step a = .ok w') :
    (w'.ran = w.ran ∧ (w'.pending = w.pending ∨ w'.pending = [] ∨
        ∃ now readAt, a = .beginHandleRead now readAt)) ∨
      (a = .runCallback ∧ ∃ p timer, w.pending = p :: w'.pending ∧
        w.queue.heap p = some timer ∧ w'.ran = w.ran ++ [⟨p, timer.sequence⟩]) := by
  cases a with
  | newTimer p timer =>
    cases h
    exact .inl ⟨rfl, .inl rfl⟩
  | addTimerInLoop p clock =>
    obtain ⟨queue, -, h⟩ := bind_eq_ok.mp h
    cases h
    exact .inl ⟨rfl, .inl rfl⟩
  | cancelInLoop i =>
    obtain ⟨queue, -, h⟩ := bind_eq_ok.mp h
    cases h
    exact .inl ⟨rfl, .inl rfl⟩
  | beginHandleRead now readAt =>
    obtain ⟨⟨expired, queue⟩, -, h⟩ := bind_eq_ok.mp h
    cases h
    exact .inl ⟨rfl, .inr (.inr ⟨now, readAt, rfl⟩)⟩
  | runCallback =>
    simp only [step, runCallback] at h
    split at h
    · next now expired e rest hb =>
      obtain ⟨timer, ht, h⟩ := bind_eq_ok.mp h
      cases h
      refine .inr ⟨rfl, e.ptr, timer, by simp [pending, hb], ?_, rfl⟩
      unfold deref at ht
      split at ht <;> cases ht
      assumption
    · cases h
      exact .inl ⟨rfl, .inl rfl⟩
  | endHandleRead clock =>
    simp only [step] at h
    split at h
    · cases h
      exact .inl ⟨rfl, .inl rfl⟩
    · obtain ⟨queue, -, h⟩ := bind_eq_ok.mp h
      cases h
      exact .inl ⟨rfl, .inr (.inl rfl)⟩
  | expire =>
    cases h
    exact .inl ⟨rfl, .inl rfl⟩

theorem Follows.life_of_pending (h : w.Follows S L) {p : TimerPtr} {timer : Timer}
    (hp : p ∈ w.pending) (ht : w.queue.heap p = some timer) :
    L.life timer.sequence = some ⟨.running, p, timer⟩ := by
  refine h.life_of_heap ht ?_ (by simp)
  unfold pending at hp
  cases hb : w.batch with
  | none => simp [hb] at hp
  | some b =>
    rw [hb] at hp
    obtain ⟨e, he, rfl⟩ := List.mem_map.mp hp
    simp only [Houses, batchPtrs, hb]
    exact List.mem_map_of_mem (h.consistent.rest b hb he)

theorem Follows.due_iff (h : w.Follows S L) {l : Life} (hl : L.life i.sequence = some l)
    (hid : l.id = i) : w.Due i ↔ l.place = .running ∧ i.timer ∈ w.pending := by
  constructor
  · rintro ⟨hp, timer, ht, hseq⟩
    have hrun := h.life_of_pending hp ht
    rw [hseq, hl] at hrun
    exact ⟨congrArg Life.place (Option.some.inj hrun), hp⟩
  · rintro ⟨hrun, hp⟩
    have ht := h.heap_of_life hl (by simp [hrun])
    subst hid
    exact ⟨hp, l.timer, ht, rfl⟩

/-- A cancelled timer in its batch is deleted behind it, and stays deleted. -/
theorem Follows.barred_next (h : w.Follows S L) (hbar : L.Barred i) {a : TimerStep}
    (ha : w.Allows a) : (L.next a).Barred i := by
  obtain ⟨l, hl, hid, hdel | ⟨hrun, hc⟩⟩ := hbar
  · exact ⟨l, h.deleted_next ha hl hdel, hid, .inl hdel⟩
  cases a with
  | newTimer p timer =>
    have hne : i.sequence ≠ timer.sequence := by
      intro heq
      rw [heq, h.fresh _ ha.2.2] at hl
      cases hl
    exact ⟨l, (Function.update_of_ne hne _ _).trans hl, hid, .inr ⟨hrun, hc⟩⟩
  | addTimerInLoop p clock =>
    exact ⟨l, by simp [Lives.next, hl, Life.add, hrun], hid, .inr ⟨hrun, hc⟩⟩
  | cancelInLoop j =>
    exact ⟨l, by simp [Lives.next, hl, Life.cancel, hrun], hid,
      .inr ⟨hrun, List.mem_cons_of_mem j hc⟩⟩
  | beginHandleRead now readAt =>
    have hb := h.batch_isSome hl hrun
    rw [Option.isSome_iff_ne_none] at hb
    exact absurd (Option.isNone_iff_eq_none.mp ha) hb
  | endHandleRead clock =>
    exact ⟨{ l with place := .deleted }, by simp [Lives.next, hl, Life.settle, hrun, hid, hc], hid,
      .inl rfl⟩
  | runCallback | expire => exact ⟨l, hl, hid, .inr ⟨hrun, hc⟩⟩

/-- The three places of a timer that was added: the set, where it is deleted; the
batch, where it is remembered; and none. -/
theorem Follows.barred_cancel (h : w.Follows S L) (hadded : L.Added i)
    (ha : w.Allows (.cancelInLoop i)) : (L.next (.cancelInLoop i)).Barred i := by
  obtain ⟨l, hl, hid, hplace⟩ := hadded
  cases hcase : l.place with
  | waiting => exact absurd hcase hplace
  | stored =>
    exact ⟨{ l with place := .deleted }, by simp [Lives.next, hl, Life.cancel, hcase, hid], hid,
      .inl rfl⟩
  | running =>
    exact ⟨l, by simp [Lives.next, hl, Life.cancel, hcase], hid,
      .inr ⟨hcase, by simp [Lives.next]⟩⟩
  | deleted => exact ⟨l, h.deleted_next ha hl hcase, hid, .inl hcase⟩

theorem Follows.due_of_next (h : w.Follows S L) {a : TimerStep} (ha : w.Allows a)
    (hstep : w.step a = .ok w') {S' : Set TimerPtr} (h' : w'.Follows S' (L.next a)) {l : Life}
    (hl : L.life i.sequence = some l) (hid : l.id = i)
    (hbegin : (∃ now readAt, a = .beginHandleRead now readAt) → l.place = .deleted)
    (hdue : w'.Due i) : w.Due i := by
  obtain ⟨l', hl', hmoves⟩ := h.life_next ha hl
  obtain ⟨hrun', hp'⟩ := (h'.due_iff hl' (hmoves.id.trans hid)).mp hdue
  have hnot : ¬ ∃ now readAt, a = .beginHandleRead now readAt := by
    intro hb
    have hdel := hbegin hb
    rw [hmoves.deleted hdel, hdel] at hrun'
    cases hrun'
  refine (h.due_iff hl hid).mpr ⟨(hmoves.running hrun').resolve_right hnot, ?_⟩
  rcases step_ran hstep with ⟨-, heq | heq | hb⟩ | ⟨-, p, timer, heq, -, -⟩
  · exact heq ▸ hp'
  · simp [heq] at hp'
  · exact absurd hb hnot
  · exact heq ▸ List.mem_cons_of_mem p hp'

/-- No continuation runs the callback of a barred timer that is not due. -/
theorem Follows.silent_run (h : w.Follows S L) (hbar : L.Barred i) (hdue : ¬ w.Due i)
    {more : List TimerStep} (hp : machine.Permits w more) :
    ∃ w', machine.run w more = .ok w' ∧ w'.ran.count i = w.ran.count i := by
  induction more generalizing w L S with
  | nil => exact ⟨w, rfl, rfl⟩
  | cons a more ih =>
    obtain ⟨w₁, hstep, S₁, h₁⟩ := step_follows h hp.1
    have hp₁ := ((machine.permits_cons_ok hstep).mp hp).2
    have hdue₁ : ¬ w₁.Due i := by
      obtain ⟨l, hl, hid, hplace⟩ := hbar
      refine fun hd => hdue (h.due_of_next hp.1 hstep h₁ hl hid ?_ hd)
      rintro ⟨now, readAt, rfl⟩
      have hb : w.batch = none := Option.isNone_iff_eq_none.mp hp.1
      refine hplace.resolve_right fun hrun => ?_
      have hsome := h.batch_isSome hl hrun.1
      simp [hb] at hsome
    have hran : w₁.ran.count i = w.ran.count i := by
      rcases step_ran hstep with ⟨heq, -⟩ | ⟨-, p, timer, hpending, ht, heq⟩
      · rw [heq]
      · have hne : (⟨p, timer.sequence⟩ : TimerId) ≠ i := by
          rintro rfl
          exact hdue ⟨by simp [hpending], timer, ht, rfl⟩
        rw [heq, List.count_append, List.count_singleton, if_neg (by simpa using hne), add_zero]
    obtain ⟨w', hrun, hcount⟩ := ih h₁ (h.barred_next hbar hp.1) hdue₁ hp₁
    exact ⟨w', (machine.run_cons_ok more hstep).trans hrun, hcount.trans hran⟩

theorem Follows.due_cancel (h : w.Follows S L) (hdue : w.Due i)
    (hstep : w.step (.cancelInLoop i) = .ok w') : w'.Due i := by
  obtain ⟨hp, timer, ht, hseq⟩ := hdue
  have hlife := h.life_of_pending hp ht
  have hactive : toLex (i.timer, i.sequence) ∉ w.queue.activeTimers := by
    intro hm
    have hstored : w.Houses S .stored i.timer := ((h.consistent.stores.active _ _).mp hm).1
    cases h.consistent.houses_unique hstored (h.housed _ _ hlife) (by simp) (by simp)
  obtain ⟨queue, hq, hw'⟩ := bind_eq_ok.mp hstep
  cases (cancelInLoop_inactive h.consistent.stores hactive).symm.trans hq
  cases hw'
  exact ⟨hp, timer, ht, hseq⟩

theorem Follows.runCallback_pending (h : w.Follows S L) {p : TimerPtr} {ps : List TimerPtr}
    (hp : w.pending = p :: ps) :
    machine.Allows w .runCallback ∧ ∃ w' timer, machine.step w .runCallback = .ok w' ∧
      (∃ S', w'.Follows S' L) ∧ w.queue.heap p = some timer ∧ w'.queue = w.queue ∧
      w'.pending = ps ∧ w'.ran = w.ran ++ [⟨p, timer.sequence⟩] := by
  cases hb : w.batch with
  | none => simp [pending, hb] at hp
  | some b =>
    obtain ⟨now, expired, rest⟩ := b
    simp only [pending, hb] at hp
    cases rest with
    | nil => simp at hp
    | cons e rest =>
      obtain ⟨rfl, rfl⟩ := List.cons.inj hp
      have ha : w.Allows .runCallback := ⟨_, hb, by simp⟩
      obtain ⟨w', hstep, S', hfollows⟩ := step_follows h ha
      obtain ⟨timer, ht⟩ : ∃ timer, w.queue.heap e.ptr = some timer := by
        refine ((h.consistent.batch_outside hb).2 _ ?_).2
        exact List.mem_map_of_mem (h.consistent.rest _ hb (by simp))
      have hrun : w.step .runCallback = .ok { w with
          batch := some ⟨now, expired, rest⟩
          ran := w.ran ++ [⟨e.ptr, timer.sequence⟩] } := by
        simp [step, runCallback, hb, deref_ok ht]
      obtain rfl := Except.ok.inj (hrun.symm.trans hstep)
      exact ⟨ha, _, timer, hrun, ⟨S', hfollows⟩, ht, rfl, rfl, rfl⟩

/-- While a callback is due, callbacks can be run until it is. -/
theorem Follows.due_runs (h : w.Follows S L) (hdue : w.Due i) :
    ∃ w', machine.Leads w w' ∧ w.ran.count i < w'.ran.count i := by
  obtain ⟨hp, timer, ht, hseq⟩ := hdue
  generalize hps : w.pending = ps at hp
  induction ps generalizing w S with
  | nil => simp at hp
  | cons p ps ih =>
    obtain ⟨ha, w₁, first, hstep, ⟨S₁, hfollows⟩, hfirst, hqueue, hrest, hran⟩ :=
      h.runCallback_pending hps
    by_cases heq : i.timer = p
    · subst heq
      cases hfirst.symm.trans ht
      refine ⟨w₁, .head ha hstep (.refl _ _), ?_⟩
      rw [hran, hseq]
      simp
    · have hp₁ : i.timer ∈ ps := (List.mem_cons.mp hp).resolve_left heq
      obtain ⟨w', hleads, hlt⟩ := ih hfollows (hqueue ▸ ht) hrest hp₁
      refine ⟨w', .head ha hstep hleads, lt_of_le_of_lt ?_ hlt⟩
      rw [hran, List.count_append]
      exact Nat.le_add_right _ _

/-- Once `cancelInLoop` has run for a timer that was added, its callback is never
run again, unless the timer was due: it had expired with the batch being run and
its callback had not begun. Then callbacks can go on to it. -/
theorem cancelled_timer_is_silent_iff (clock : Timestamp) (steps : List TimerStep) (i : TimerId)
    (h : machine.Permits (init clock) (steps ++ [.cancelInLoop i]))
    (hadded : (steps.foldl Lives.next Lives.init).Added i) :
    ∃ w w₁, machine.run (init clock) steps = .ok w ∧
      machine.step w (.cancelInLoop i) = .ok w₁ ∧
      ((∀ more, machine.Permits w₁ more →
          ∃ w', machine.run w₁ more = .ok w' ∧ w'.ran.count i = w₁.ran.count i) ↔ ¬ w.Due i) := by
  obtain ⟨hsteps, hcancel⟩ := machine.permits_append.mp h
  obtain ⟨w, hw, S, hS⟩ := run_follows ⟨∅, follows_init clock⟩ hsteps
  have ha : w.Allows (.cancelInLoop i) := (hcancel w hw).1
  obtain ⟨w₁, hstep, S₁, hS₁⟩ := step_follows hS ha
  refine ⟨w, w₁, hw, hstep, ?_, ?_⟩
  · intro hsilent hdue
    have hdue₁ := hS.due_cancel hdue hstep
    obtain ⟨w', ⟨more, hpermits, hrun⟩, hlt⟩ := hS₁.due_runs hdue₁
    obtain ⟨w'', hrun', hcount⟩ := hsilent more hpermits
    obtain rfl : w' = w'' := Except.ok.inj (hrun.symm.trans hrun')
    exact hlt.ne' hcount
  · intro hdue more hmore
    have hbar := hS.barred_cancel hadded ha
    obtain ⟨l, hl, hid, -⟩ := hadded
    have hdue₁ : ¬ w₁.Due i := fun hd => hdue (hS.due_of_next ha hstep hS₁ hl hid (by simp) hd)
    exact hS₁.silent_run hbar hdue₁ hmore

def twins : List TimerStep :=
  [.newTimer 8 (.once 5 1), .newTimer 16 (.every 5 10 2), .addTimerInLoop 8 1,
    .addTimerInLoop 16 1, .beginHandleRead 6 6, .runCallback]

/-- The first of them is being run: it can cancel itself for good. -/
theorem cancelled_timer_is_silent_itself :
    ∃ w w₁, machine.run (init 1) twins = .ok w ∧ machine.step w (.cancelInLoop ⟨8, 1⟩) = .ok w₁ ∧
      ∀ more, machine.Permits w₁ more → ∃ w', machine.run w₁ more = .ok w' ∧
        w'.ran.count ⟨8, 1⟩ = w₁.ran.count ⟨8, 1⟩ := by
  have hadded : (twins.foldl Lives.next Lives.init).Added ⟨8, 1⟩ :=
    ⟨⟨.running, 8, .once 5 1⟩, by decide +kernel, rfl, by simp⟩
  obtain ⟨w, w₁, hw, hstep, hiff⟩ :=
    cancelled_timer_is_silent_iff 1 twins ⟨8, 1⟩ (by decide +kernel) hadded
  refine ⟨w, w₁, hw, hstep, hiff.mpr ?_⟩
  have hdue : (machine.run (init 1) twins).toOption.map (fun w => decide (w.Due ⟨8, 1⟩)) =
      some false := by decide +kernel
  simpa [hw, Except.toOption] using hdue

/-- The callback of the first cancels the second, which is run all the same. -/
theorem cancelled_twin_is_run :
    machine.Permits (init 1) (twins ++ [.cancelInLoop ⟨16, 2⟩, .runCallback]) ∧
      (machine.run (init 1) (twins ++ [.cancelInLoop ⟨16, 2⟩])).toOption.map ran = some [⟨8, 1⟩] ∧
      (machine.run (init 1) (twins ++ [.cancelInLoop ⟨16, 2⟩, .runCallback])).toOption.map ran =
        some [⟨8, 1⟩, ⟨16, 2⟩] := by
  decide +kernel

end TimerLoop
end Muduo
