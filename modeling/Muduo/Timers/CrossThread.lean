import Muduo.Timers.Silence

/-!
# Timers and threads

`addTimer` and `cancel` hand their work to `runInLoop`. On the loop's own thread
it is done at once; from any other thread it is queued, and the queue is worked
off in order. A cancellation from another thread is queued behind the addition it
follows. One from the loop's own thread overtakes whatever is queued, and finds
nothing to cancel when the addition is still to come.
-/

namespace Muduo

open Foundations TimerQueue

/-- A functor that other threads have queued for the timers of a loop. -/
inductive TimerFunctor where
  | addTimerInLoop (p : TimerPtr)
  | cancelInLoop (i : TimerId)
  deriving DecidableEq

/-- A loop with its timers, and the calls that other threads are making. -/
structure TimerThreads where
  loop : TimerLoop
  functors : List TimerFunctor
  /-- `addTimer` of other threads between `new Timer` and `runInLoop` -/
  constructed : List TimerId
  /-- `addTimer` of other threads between `runInLoop` and its return -/
  queued : List TimerId
  /-- what calls of `addTimer` have returned -/
  issued : List TimerId

inductive TimerThreadStep where
  /-- another thread: `new Timer` in `addTimer`, then `runInLoop`, then the
  return, for which `timer->sequence()` is read -/
  | newTimer (p : TimerPtr) (timer : Timer)
  | queueAdd (i : TimerId)
  | returnId (i : TimerId)
  /-- another thread: `cancel` -/
  | queueCancel (i : TimerId)
  /-- the loop's thread: the whole of `addTimer`, and `cancel` -/
  | addTimer (p : TimerPtr) (timer : Timer) (clock : Timestamp)
  | cancel (i : TimerId)
  /-- the loop -/
  | runFunctor (clock : Timestamp)
  | handleRead (a : TimerStep)

namespace TimerFunctor

def timerStep (clock : Timestamp) : TimerFunctor → TimerStep
  | .addTimerInLoop p => .addTimerInLoop p clock
  | .cancelInLoop i => .cancelInLoop i

def added : TimerFunctor → Option TimerPtr
  | .addTimerInLoop p => some p
  | .cancelInLoop _ => none

end TimerFunctor

namespace TimerThreads

def init (clock : Timestamp) : TimerThreads where
  loop := .init clock
  functors := []
  constructed := []
  queued := []
  issued := []

/-- `handleRead` and the descriptor behind it, as opposed to the calls. -/
def ofHandleRead : TimerStep → Bool
  | .beginHandleRead _ _ | .runCallback | .endHandleRead _ | .expire => true
  | .newTimer _ _ | .addTimerInLoop _ _ | .cancelInLoop _ => false

variable (w : TimerThreads)

def timerSteps : TimerThreadStep → List TimerStep
  | .newTimer p timer => [.newTimer p timer]
  | .queueAdd _ | .returnId _ | .queueCancel _ => []
  | .addTimer p timer clock => [.newTimer p timer, .addTimerInLoop p clock]
  | .cancel i => [.cancelInLoop i]
  | .runFunctor clock => (w.functors.head?.map (·.timerStep clock)).toList
  | .handleRead a => [a]

def step (a : TimerThreadStep) : Except Fault TimerThreads := do
  let loop ← TimerLoop.machine.run w.loop (w.timerSteps a)
  match a with
  | .newTimer p timer =>
    return { w with loop := loop, constructed := ⟨p, timer.sequence⟩ :: w.constructed }
  | .queueAdd i =>
    return { w with
      functors := w.functors ++ [.addTimerInLoop i.timer]
      constructed := w.constructed.erase i
      queued := i :: w.queued }
  | .returnId i =>
    let timer ← w.loop.queue.deref i.timer
    return { w with
      queued := w.queued.erase i
      issued := ⟨i.timer, timer.sequence⟩ :: w.issued }
  | .queueCancel i => return { w with functors := w.functors ++ [.cancelInLoop i] }
  | .addTimer p timer _ =>
    return { w with loop := loop, issued := ⟨p, timer.sequence⟩ :: w.issued }
  | .cancel _ | .handleRead _ => return { w with loop := loop }
  | .runFunctor _ => return { w with loop := loop, functors := w.functors.tail }

/-- What can happen next. Ids come from `addTimer` only; functors are run between
two batches; a call of the loop's thread comes from outside `handleRead` or from
a callback. -/
def Allows : TimerThreadStep → Prop
  | .newTimer p timer => w.loop.Allows (.newTimer p timer)
  | .queueAdd i => i ∈ w.constructed
  | .returnId i => i ∈ w.queued
  | .queueCancel i => i ∈ w.issued
  | .addTimer p timer _ => w.loop.Callable ∧ w.loop.Allows (.newTimer p timer)
  | .cancel i => w.loop.Callable ∧ i ∈ w.issued
  | .runFunctor _ => w.loop.batch.isNone ∧ w.functors ≠ []
  | .handleRead a => ofHandleRead a ∧ w.loop.Allows a

/-- `addTimer` reads the sequence number of its own timer, not of one that was
deleted meanwhile. -/
def Prompt : TimerThreadStep → Prop
  | .returnId i => (w.loop.queue.heap i.timer).map Timer.sequence = some i.sequence
  | _ => True

def machine : Machine TimerThreads TimerThreadStep Fault where
  Allows w a := w.Allows a ∧ w.Prompt a
  step w a := w.step a

instance (a : TimerThreadStep) : Decidable (w.Allows a) := by
  cases a <;> unfold Allows <;> infer_instance

instance (a : TimerThreadStep) : Decidable (w.Prompt a) := by
  cases a <;> unfold Prompt <;> infer_instance

instance (a : TimerThreadStep) : Decidable (machine.Allows w a) :=
  inferInstanceAs (Decidable (w.Allows a ∧ w.Prompt a))

end TimerThreads

/-- The id is of a timer, whose addition is among `fs` if it is still to come. -/
def Lives.Known (L : Lives) (i : TimerId) (fs : List TimerFunctor) : Prop :=
  ∃ l, L.life i.sequence = some l ∧ l.id = i ∧
    (l.place = .waiting → .addTimerInLoop i.timer ∈ fs)

theorem Lives.Known.mono {L : Lives} {i : TimerId} {fs gs : List TimerFunctor} (h : L.Known i fs)
    (hsub : fs ⊆ gs) : L.Known i gs := by
  obtain ⟨l, hl, hid, hwait⟩ := h
  exact ⟨l, hl, hid, fun hplace => hsub (hwait hplace)⟩

namespace TimerLoop

variable {w w' : TimerLoop} {S : Set TimerPtr} {L : Lives} {i : TimerId} {fs : List TimerFunctor}

theorem Follows.known_next (h : w.Follows S L) {a : TimerStep} (ha : w.Allows a)
    (hk : L.Known i fs) : (L.next a).Known i fs := by
  obtain ⟨l, hl, hid, hwait⟩ := hk
  obtain ⟨l', hl', hmoves⟩ := h.life_next ha hl
  exact ⟨l', hl', hmoves.id.trans hid, fun hplace => hwait (hmoves.waiting hplace)⟩

theorem known_added {p : TimerPtr} {clock : Timestamp} (hk : L.Known i (.addTimerInLoop p :: fs)) :
    (L.next (.addTimerInLoop p clock)).Known i fs := by
  obtain ⟨l, hl, rfl, hwait⟩ := hk
  refine ⟨l.add p, by simp [Lives.next, hl], ?_, ?_⟩
  · unfold Life.add
    split_ifs <;> rfl
  · unfold Life.add
    split_ifs with hadd
    · simp
    · intro hplace
      rcases List.mem_cons.mp (hwait hplace) with heq | hmem
      · exact absurd ⟨hplace, TimerFunctor.addTimerInLoop.inj heq⟩ hadd
      · exact hmem

theorem Follows.known_run (h : w.Follows S L) {steps : List TimerStep}
    (hp : machine.Permits w steps) (hk : L.Known i fs) : (steps.foldl Lives.next L).Known i fs :=
  h.lives_run (P := fun L => L.Known i fs) (fun _ _ _ _ h ha hk => h.known_next ha hk) hp hk

theorem Follows.barred_run (h : w.Follows S L) {steps : List TimerStep}
    (hp : machine.Permits w steps) (hbar : L.Barred i) : (steps.foldl Lives.next L).Barred i :=
  h.lives_run (P := fun L => L.Barred i) (fun _ _ _ _ h ha hbar => h.barred_next hbar ha) hp hbar

def nextCreated (created : List TimerPtr) : TimerStep → List TimerPtr
  | .newTimer p _ => p :: created
  | .addTimerInLoop p _ => created.erase p
  | .cancelInLoop _ | .beginHandleRead _ _ | .runCallback | .endHandleRead _ | .expire => created

theorem step_created {a : TimerStep} (h : w.step a = .ok w') :
    w'.created = nextCreated w.created a := by
  cases a with
  | newTimer | expire =>
    cases h
    rfl
  | addTimerInLoop | cancelInLoop | beginHandleRead =>
    obtain ⟨_, -, h⟩ := bind_eq_ok.mp h
    cases h
    rfl
  | runCallback =>
    simp only [step, runCallback] at h
    split at h
    · obtain ⟨_, -, h⟩ := bind_eq_ok.mp h
      cases h
      rfl
    · cases h
      rfl
  | endHandleRead =>
    simp only [step] at h
    split at h
    · cases h
      rfl
    · obtain ⟨_, -, h⟩ := bind_eq_ok.mp h
      cases h
      rfl

theorem run_created {steps : List TimerStep} (h : machine.run w steps = .ok w') :
    w'.created = steps.foldl nextCreated w.created := by
  induction steps generalizing w with
  | nil =>
    cases h
    rfl
  | cons a steps ih =>
    cases hstep : machine.step w a with
    | error e => simp [Machine.run, hstep] at h
    | ok w₁ =>
      rw [machine.run_cons_ok steps hstep] at h
      rw [ih h, List.foldl_cons, step_created hstep]

theorem functor_batch {f : TimerFunctor} {clock : Timestamp}
    (h : machine.run w [f.timerStep clock] = .ok w') : w'.batch = w.batch := by
  cases hstep : machine.step w (f.timerStep clock) with
  | error e => simp [Machine.run, hstep] at h
  | ok w₁ =>
    rw [machine.run_cons_ok [] hstep] at h
    cases h
    cases f <;>
    · obtain ⟨queue, -, hw'⟩ := bind_eq_ok.mp hstep
      cases hw'
      rfl

end TimerLoop

namespace TimerThreads

variable {w : TimerThreads} {S : Set TimerPtr} {L : Lives} {i : TimerId}

/-- The timers that wait are those of calls that have constructed them and those
of queued functors; and whoever knows an id was told behind the addition. -/
structure Traces (w : TimerThreads) (S : Set TimerPtr) (L : Lives) : Prop where
  follows : w.loop.Follows S L
  created : w.loop.created.Perm
    (w.constructed.map TimerId.timer ++ w.functors.filterMap TimerFunctor.added)
  constructed : ∀ i ∈ w.constructed, L.Known i [.addTimerInLoop i.timer]
  known : ∀ i ∈ w.queued ++ w.issued, L.Known i w.functors
  ordered : ∀ i fs, fs ++ [.cancelInLoop i] <+: w.functors → L.Known i fs

theorem traces_init (clock : Timestamp) : (init clock).Traces ∅ Lives.init := by
  refine ⟨TimerLoop.follows_init clock, ?_, ?_, ?_, ?_⟩
  · simp [init, TimerLoop.init]
  · simp [init]
  · simp [init]
  · intro i fs h
    simp [init] at h

theorem Traces.permits (h : w.Traces S L) {a : TimerThreadStep} (ha : w.Allows a) :
    TimerLoop.machine.Permits w.loop (w.timerSteps a) := by
  cases a with
  | newTimer p timer => exact TimerLoop.machine.permits_singleton.mpr ha
  | queueAdd | returnId | queueCancel => trivial
  | addTimer p timer clock =>
    refine ⟨ha.2, TimerLoop.machine.permits_singleton.mpr ⟨ha.1, ?_⟩⟩
    exact List.mem_cons_self
  | cancel i => exact TimerLoop.machine.permits_singleton.mpr ha.1
  | runFunctor clock =>
    have hcall : w.loop.Callable := by
      rw [TimerLoop.Callable, Option.isNone_iff_eq_none.mp ha.1]
      trivial
    cases hf : w.functors with
    | nil => exact absurd hf ha.2
    | cons f fs =>
      simp only [timerSteps, hf, List.head?_cons, Option.map_some, Option.toList_some]
      refine TimerLoop.machine.permits_singleton.mpr ?_
      cases f with
      | addTimerInLoop p =>
        refine ⟨hcall, h.created.mem_iff.mpr ?_⟩
        simp [hf, TimerFunctor.added]
      | cancelInLoop i => exact hcall
  | handleRead a => exact TimerLoop.machine.permits_singleton.mpr ha.2

theorem Traces.push (h : w.Traces S L) {f : TimerFunctor}
    (hf : ∀ i, f = .cancelInLoop i → L.Known i w.functors) (i : TimerId) (fs : List TimerFunctor)
    (hp : fs ++ [.cancelInLoop i] <+: w.functors ++ [f]) : L.Known i fs := by
  rcases List.prefix_concat_iff.mp hp with heq | hp
  · obtain ⟨rfl, hlast⟩ := List.append_inj' heq rfl
    exact hf i (List.cons.inj hlast).1.symm
  · exact h.ordered i fs hp

theorem Traces.queueAdd (h : w.Traces S L) (hi : i ∈ w.constructed) :
    Traces { w with
      functors := w.functors ++ [.addTimerInLoop i.timer]
      constructed := w.constructed.erase i
      queued := i :: w.queued } S L := by
  refine ⟨h.follows, ?_, ?_, ?_, h.push (by simp)⟩
  · have hperm := ((List.perm_cons_erase hi).map TimerId.timer).append_right
      (w.functors.filterMap TimerFunctor.added)
    refine (h.created.trans hperm).trans ?_
    simp only [List.map_cons, List.filterMap_append, List.filterMap_cons, TimerFunctor.added,
      List.filterMap_nil, List.cons_append, ← List.append_assoc]
    exact (List.perm_append_singleton _ _).symm
  · exact fun j hj => h.constructed j (List.mem_of_mem_erase hj)
  · intro j hj
    rcases List.mem_cons.mp hj with rfl | hj
    · exact (h.constructed j hi).mono (by simp)
    · exact (h.known j hj).mono (by simp)

theorem Traces.returnId (h : w.Traces S L) (hi : i ∈ w.queued) :
    Traces { w with queued := w.queued.erase i, issued := i :: w.issued } S L := by
  refine ⟨h.follows, h.created, h.constructed, ?_, h.ordered⟩
  intro j hj
  refine h.known j ?_
  rcases List.mem_append.mp hj with hj | hj
  · exact List.mem_append_left _ (List.mem_of_mem_erase hj)
  · rcases List.mem_cons.mp hj with rfl | hj
    · exact List.mem_append_left _ hi
    · exact List.mem_append_right _ hj

theorem Traces.queueCancel (h : w.Traces S L) (hi : i ∈ w.issued) :
    Traces { w with functors := w.functors ++ [.cancelInLoop i] } S L := by
  refine ⟨h.follows, ?_, h.constructed, ?_, h.push ?_⟩
  · simpa [List.filterMap_cons, TimerFunctor.added] using h.created
  · exact fun j hj => (h.known j hj).mono (by simp)
  · rintro j ⟨rfl⟩
    exact h.known i (List.mem_append_right _ hi)

/-- Steps of the loop on its own leave the functors and what is known. -/
theorem Traces.loop (h : w.Traces S L) {steps : List TimerStep} {loop : TimerLoop}
    {S' : Set TimerPtr} (hp : TimerLoop.machine.Permits w.loop steps)
    (hfollows : loop.Follows S' (steps.foldl Lives.next L))
    (hcreated : loop.created = w.loop.created) :
    Traces { w with loop := loop } S' (steps.foldl Lives.next L) := by
  refine ⟨hfollows, ?_, ?_, ?_, ?_⟩
  · rw [hcreated]
    exact h.created
  · exact fun j hj => h.follows.known_run hp (h.constructed j hj)
  · exact fun j hj => h.follows.known_run hp (h.known j hj)
  · exact fun j fs hj => h.follows.known_run hp (h.ordered j fs hj)

/-- The first functor is run, and those behind it have not to wait for it. -/
theorem Traces.popped (h : w.Traces S L) {f : TimerFunctor} {fs : List TimerFunctor}
    (hf : w.functors = f :: fs) {clock : Timestamp} {loop : TimerLoop} {S' : Set TimerPtr}
    (ha : w.loop.Allows (f.timerStep clock))
    (hfollows : loop.Follows S' (L.next (f.timerStep clock)))
    (hcreated : loop.created = TimerLoop.nextCreated w.loop.created (f.timerStep clock)) :
    Traces { w with loop := loop, functors := fs } S' (L.next (f.timerStep clock)) := by
  have hknown : ∀ i gs, L.Known i (f :: gs) → (L.next (f.timerStep clock)).Known i gs := by
    intro i gs hk
    cases f with
    | addTimerInLoop p => exact TimerLoop.known_added hk
    | cancelInLoop j =>
      refine h.follows.known_next ha ?_
      obtain ⟨l, hl, hid, hwait⟩ := hk
      exact ⟨l, hl, hid, fun hplace => (List.mem_cons.mp (hwait hplace)).resolve_left (by simp)⟩
  refine ⟨hfollows, ?_, ?_, ?_, ?_⟩
  · have hperm := h.created
    rw [hf] at hperm
    rw [hcreated]
    cases f with
    | addTimerInLoop p =>
      have hrest := (hperm.trans List.perm_middle).erase p
      rw [List.erase_cons_head] at hrest
      exact hrest
    | cancelInLoop j => exact hperm
  · exact fun j hj => h.follows.known_next ha (h.constructed j hj)
  · intro j hj
    have hk := h.known j hj
    rw [hf] at hk
    exact hknown j fs hk
  · intro j gs hj
    refine hknown j gs (h.ordered j (f :: gs) ?_)
    rw [hf]
    exact List.cons_prefix_cons.mpr ⟨rfl, hj⟩

theorem Traces.newTimer (h : w.Traces S L) {p : TimerPtr} {timer : Timer} {loop : TimerLoop}
    {S' : Set TimerPtr} (ha : w.loop.Allows (.newTimer p timer))
    (hfollows : loop.Follows S' (L.next (.newTimer p timer)))
    (hcreated : loop.created = p :: w.loop.created) :
    Traces { w with loop := loop, constructed := ⟨p, timer.sequence⟩ :: w.constructed } S'
      (L.next (.newTimer p timer)) := by
  refine ⟨hfollows, ?_, ?_, ?_, ?_⟩
  · rw [hcreated]
    exact h.created.cons p
  · intro j hj
    rcases List.mem_cons.mp hj with rfl | hj
    · exact ⟨⟨.waiting, p, timer⟩, Function.update_self _ _ _, rfl, by simp⟩
    · exact h.follows.known_next ha (h.constructed j hj)
  · exact fun j hj => h.follows.known_next ha (h.known j hj)
  · exact fun j fs hj => h.follows.known_next ha (h.ordered j fs hj)

/-- Each step is taken by the lives as well, and keeps what is traced. -/
theorem Traces.step (h : w.Traces S L) {a : TimerThreadStep} (ha : machine.Allows w a) :
    ∃ w', machine.step w a = .ok w' ∧
      ∃ S', w'.Traces S' ((w.timerSteps a).foldl Lives.next L) := by
  obtain ⟨ha, hprompt⟩ := ha
  have hp := h.permits ha
  obtain ⟨loop, hrun, S', hfollows⟩ := TimerLoop.run_follows ⟨S, h.follows⟩ hp
  have hcreated := TimerLoop.run_created hrun
  cases a with
  | newTimer p timer =>
    exact ⟨_, by simp only [machine, TimerThreads.step, hrun, ok_bind]; rfl, S',
      h.newTimer ha hfollows hcreated⟩
  | queueAdd i => exact ⟨_, rfl, S, h.queueAdd ha⟩
  | returnId i =>
    obtain ⟨timer, ht, hseq⟩ := Option.map_eq_some_iff.mp hprompt
    refine ⟨{ w with queued := w.queued.erase i, issued := i :: w.issued }, ?_, S, h.returnId ha⟩
    simp only [machine, TimerThreads.step, hrun, ok_bind, TimerQueue.deref_ok ht, hseq]
    rfl
  | queueCancel i => exact ⟨_, rfl, S, h.queueCancel ha⟩
  | addTimer p timer clock =>
    refine ⟨_, by simp only [machine, TimerThreads.step, hrun, ok_bind]; rfl, S', ?_⟩
    have hsame : loop.created = w.loop.created := by
      rw [hcreated]
      simp [timerSteps, TimerLoop.nextCreated]
    obtain ⟨hf, hc, hcons, hknown, hord⟩ := h.loop hp hfollows hsame
    refine ⟨hf, hc, hcons, ?_, hord⟩
    intro j hj
    rcases List.mem_append.mp hj with hj | hj
    · exact hknown j (List.mem_append_left _ hj)
    · rcases List.mem_cons.mp hj with rfl | hj
      · refine ⟨⟨.stored, p, timer⟩, ?_, rfl, by simp⟩
        simp [timerSteps, Lives.next, Life.add]
      · exact hknown j (List.mem_append_right _ hj)
  | cancel i =>
    exact ⟨_, by simp only [machine, TimerThreads.step, hrun, ok_bind]; rfl, S',
      h.loop hp hfollows hcreated⟩
  | runFunctor clock =>
    cases hf : w.functors with
    | nil => exact absurd hf ha.2
    | cons f fs =>
      have hsteps : w.timerSteps (.runFunctor clock) = [f.timerStep clock] := by
        simp [timerSteps, hf]
      rw [hsteps] at hp hfollows hcreated ⊢
      refine ⟨_, by simp only [machine, TimerThreads.step, hrun, ok_bind, hf]; rfl, S', ?_⟩
      exact h.popped hf (TimerLoop.machine.permits_singleton.mp hp) hfollows hcreated
  | handleRead a =>
    have hsame : loop.created = w.loop.created := by
      rw [hcreated]
      cases a <;> first | rfl | cases ha.1
    exact ⟨_, by simp only [machine, TimerThreads.step, hrun, ok_bind]; rfl, S',
      h.loop hp hfollows hsame⟩

theorem step_of_some_lives (w : TimerThreads) (a : TimerThreadStep) (h : ∃ S L, w.Traces S L)
    (ha : machine.Allows w a) : ∃ w', machine.step w a = .ok w' ∧ ∃ S L, w'.Traces S L := by
  obtain ⟨S, L, h⟩ := h
  obtain ⟨w', hstep, S', h'⟩ := h.step ha
  exact ⟨w', hstep, S', _, h'⟩

/-- The timer with this id is in `timers_`. -/
def Member (w : TimerThreads) (i : TimerId) : Prop :=
  ∃ when timer, toLex (when, i.timer) ∈ w.loop.queue.timers ∧
    w.loop.queue.heap i.timer = some timer ∧ timer.sequence = i.sequence

theorem Traces.member_iff (h : w.Traces S L) :
    w.Member i ↔ ∃ timer, L.At .stored i.timer timer ∧ timer.sequence = i.sequence := by
  have hkeeps := h.follows.keeps
  constructor
  · rintro ⟨when, timer, hm, ht, hseq⟩
    obtain ⟨timer', hat, -⟩ := (hkeeps.timers when i.timer).mp hm
    have ht' := (h.follows.stored_iff.mp hat).2
    cases ht.symm.trans ht'
    exact ⟨timer, hat, hseq⟩
  · rintro ⟨timer, hat, hseq⟩
    exact ⟨timer.expiration, timer, (hkeeps.timers _ _).mpr ⟨timer, hat, rfl⟩,
      (h.follows.stored_iff.mp hat).2, hseq⟩

/-- The request to cancel this timer is processed: by the loop's own thread at
once, or when its turn in the queue has come. -/
def Cancels (w : TimerThreads) (a : TimerThreadStep) (i : TimerId) : Prop :=
  a = .cancel i ∨ ∃ clock, a = .runFunctor clock ∧ w.functors.head? = some (.cancelInLoop i)

/-- The loop's own thread cancels a timer whose addition is still in the queue. -/
def Overtakes (w : TimerThreads) (a : TimerThreadStep) (i : TimerId) : Prop :=
  a = .cancel i ∧ .addTimerInLoop i.timer ∈ w.functors ∧
    (w.loop.queue.heap i.timer).map Timer.sequence = some i.sequence

theorem Cancels.timerSteps_eq {a : TimerThreadStep} (h : w.Cancels a i) :
    w.timerSteps a = [.cancelInLoop i] := by
  rcases h with rfl | ⟨clock, rfl, hf⟩
  · rfl
  · simp [timerSteps, hf, TimerFunctor.timerStep]

/-- A request that does not overtake the addition finds it done. -/
theorem Traces.added (h : w.Traces S L) {a : TimerThreadStep} (ha : w.Allows a) (hc : w.Cancels a i)
    (hover : ¬ w.Overtakes a i) : L.Added i := by
  rcases hc with rfl | ⟨clock, rfl, hf⟩
  · obtain ⟨l, hl, hid, hwait⟩ := h.known i (List.mem_append_right _ ha.2)
    refine ⟨l, hl, hid, fun hplace => hover ⟨rfl, hwait hplace, ?_⟩⟩
    have ht := h.follows.heap_of_life hl (by simp [hplace])
    subst hid
    exact Option.map_eq_some_iff.mpr ⟨l.timer, ht, rfl⟩
  · have hfirst : [] ++ [.cancelInLoop i] <+: w.functors := by
      obtain ⟨fs, hfs⟩ := List.head?_eq_some_iff.mp hf
      exact ⟨fs, hfs.symm⟩
    obtain ⟨l, hl, hid, hwait⟩ := h.ordered i [] hfirst
    exact ⟨l, hl, hid, fun hplace => absurd (hwait hplace) (by simp)⟩

theorem Traces.barred_run (h : w.Traces S L) (hbar : L.Barred i) {more : List TimerThreadStep}
    (hp : machine.Permits w more) : ∃ w', machine.run w more = .ok w' ∧ ¬ w'.Member i := by
  have hstep : ∀ w a, (∃ S L, Traces w S L ∧ L.Barred i) → machine.Allows w a →
      ∃ w', machine.step w a = .ok w' ∧ ∃ S L, w'.Traces S L ∧ L.Barred i := by
    rintro w a ⟨S, L, h, hbar⟩ ha
    obtain ⟨w', hstep, S', h'⟩ := h.step ha
    exact ⟨w', hstep, S', _, h', h.follows.barred_run (h.permits ha.1) hbar⟩
  have hsafe := machine.run_safe hstep ⟨S, L, h, hbar⟩ hp
  obtain ⟨w', hrun, S', L', h', l, hl, hid, hplace⟩ := hsafe
  refine ⟨w', hrun, fun hm => ?_⟩
  obtain ⟨timer, hat, hseq⟩ := h'.member_iff.mp hm
  rw [Lives.At, hseq, hl] at hat
  rw [Option.some.inj hat] at hplace
  simp at hplace

theorem Traces.runFunctor (h : w.Traces S L) (hb : w.loop.batch = none) {f : TimerFunctor}
    {fs : List TimerFunctor} (hf : w.functors = f :: fs) (clock : Timestamp) :
    machine.Allows w (.runFunctor clock) ∧ ∃ w', machine.step w (.runFunctor clock) = .ok w' ∧
      (∃ S', w'.Traces S' (L.next (f.timerStep clock))) ∧ w'.functors = fs ∧
      w'.loop.batch = none := by
  have ha : machine.Allows w (.runFunctor clock) := ⟨⟨by simp [hb], by simp [hf]⟩, trivial⟩
  obtain ⟨w', hstep, S', h'⟩ := h.step ha
  have hsteps : w.timerSteps (.runFunctor clock) = [f.timerStep clock] := by
    simp [timerSteps, hf]
  rw [hsteps] at h'
  refine ⟨ha, w', hstep, ⟨S', h'⟩, ?_⟩
  obtain ⟨loop, hrun, hw'⟩ := bind_eq_ok.mp hstep
  cases hw'
  rw [hsteps] at hrun
  exact ⟨by simp [hf], (TimerLoop.functor_batch hrun).trans hb⟩

theorem life_of_functor {l : Life} (hl : L.life i.sequence = some l) (hid : l.id = i)
    (hplace : l.place = .waiting) (f : TimerFunctor) (clock : Timestamp) :
    (L.next (f.timerStep clock)).life i.sequence =
      some (if f = .addTimerInLoop i.timer then { l with place := .stored } else l) := by
  have hptr : l.ptr = i.timer := hid ▸ rfl
  cases f with
  | addTimerInLoop p =>
    have hmap : (L.next (.addTimerInLoop p clock)).life i.sequence = some (l.add p) := by
      simp [Lives.next, hl]
    rw [TimerFunctor.timerStep, hmap, Life.add]
    simp [hplace, hptr, eq_comm]
  | cancelInLoop j => simp [TimerFunctor.timerStep, Lives.next, hl, Life.cancel, hplace]

/-- Between two batches the queue can be worked off up to the addition. -/
theorem Traces.adds (h : w.Traces S L) (hb : w.loop.batch = none) {l : Life}
    (hl : L.life i.sequence = some l) (hid : l.id = i) (hplace : l.place = .waiting)
    (hadd : .addTimerInLoop i.timer ∈ w.functors) : ∃ w', machine.Leads w w' ∧ w'.Member i := by
  generalize hf : w.functors = fs at hadd
  induction fs generalizing w S L with
  | nil => simp at hadd
  | cons f fs ih =>
    obtain ⟨ha, w₁, hstep, ⟨S₁, h₁⟩, hf₁, hb₁⟩ := h.runFunctor hb hf w.loop.clock
    have hlife := life_of_functor hl hid hplace f w.loop.clock
    by_cases heq : f = .addTimerInLoop i.timer
    · refine ⟨w₁, .head ha hstep (.refl _ _), h₁.member_iff.mpr ⟨l.timer, ?_, ?_⟩⟩
      · rw [Lives.At, show l.timer.sequence = i.sequence from hid ▸ rfl, hlife, if_pos heq, ← hid]
        rfl
      · exact hid ▸ rfl
    · rw [if_neg heq] at hlife
      have hadd₁ := (List.mem_cons.mp hadd).resolve_left (Ne.symm heq)
      obtain ⟨w', hleads, hm⟩ := ih h₁ hb₁ hlife hf₁ hadd₁
      exact ⟨w', .head ha hstep hleads, hm⟩

theorem Traces.handleRead (h : w.Traces S L) {a : TimerStep} (hof : ofHandleRead a = true)
    (ha : w.loop.Allows a) {loop : TimerLoop} (hstep : w.loop.step a = .ok loop) :
    machine.Allows w (.handleRead a) ∧
      machine.step w (.handleRead a) = .ok { w with loop := loop } ∧
      ∃ S', Traces { w with loop := loop } S' (L.next a) := by
  have hallows : machine.Allows w (.handleRead a) := ⟨⟨hof, ha⟩, trivial⟩
  have hrun : TimerLoop.machine.run w.loop [a] = .ok loop :=
    (TimerLoop.machine.run_cons_ok [] hstep).trans rfl
  have heq : machine.step w (.handleRead a) = .ok { w with loop := loop } := by
    simp only [machine, TimerThreads.step, timerSteps, hrun, ok_bind]
    rfl
  obtain ⟨w', hw', S', h'⟩ := h.step hallows
  obtain rfl := Except.ok.inj (heq.symm.trans hw')
  exact ⟨hallows, heq, S', h'⟩

/-- The callbacks of the batch can be run to its end; nothing else happens to a
timer that waits. -/
theorem Traces.finish_batch (h : w.Traces S L) {n : ℤ} {l : Life} (hl : L.life n = some l)
    (hplace : l.place = .waiting) :
    ∃ w' S' L', machine.Leads w w' ∧ w'.Traces S' L' ∧ w'.loop.batch = none ∧
      w'.functors = w.functors ∧ L'.life n = some l := by
  generalize hps : w.loop.pending = ps
  induction ps generalizing w S with
  | nil =>
    cases hb : w.loop.batch with
    | none => exact ⟨w, S, L, .refl _ _, h, hb, rfl, hl⟩
    | some b =>
      have hrest : b.rest = [] := by
        simpa [TimerLoop.pending, hb] using hps
      have ha : w.loop.Allows (.endHandleRead w.loop.clock) := ⟨b, hb, hrest⟩
      obtain ⟨loop, hstep, S₁, hfollows⟩ := TimerLoop.step_follows h.follows ha
      obtain ⟨hallows, hw₁, S₁, h₁⟩ := h.handleRead rfl ha hstep
      refine ⟨_, S₁, _, .head hallows hw₁ (.refl _ _), h₁, ?_, rfl, ?_⟩
      · simp only [TimerLoop.step, hb] at hstep
        obtain ⟨queue, -, hw'⟩ := bind_eq_ok.mp hstep
        cases hw'
        rfl
      · simp [Lives.next, hl, Life.settle, hplace]
  | cons p ps ih =>
    obtain ⟨ha, loop, -, hstep, -, -, -, hpending, -⟩ := h.follows.runCallback_pending hps
    obtain ⟨hallows, hw₁, S₁, h₁⟩ := h.handleRead (a := .runCallback) rfl ha hstep
    obtain ⟨w', S', L', hleads, h', hb, hf, hl'⟩ := ih h₁ hpending
    exact ⟨w', S', L', .head hallows hw₁ hleads, h', hb, hf, hl'⟩

/-- What follows when a cancellation overtakes the addition: the timer is added. -/
theorem Traces.overtaken (h : w.Traces S L) {w₁ : TimerThreads} {S₁ : Set TimerPtr}
    (hadd : .addTimerInLoop i.timer ∈ w.functors)
    (hseq : (w.loop.queue.heap i.timer).map Timer.sequence = some i.sequence)
    (h₁ : w₁.Traces S₁ (L.next (.cancelInLoop i))) (hf : w₁.functors = w.functors) :
    ∃ w', machine.Leads w₁ w' ∧ w'.Member i := by
  have hcreated : w.loop.Houses S .waiting i.timer := by
    refine h.created.mem_iff.mpr (List.mem_append_right _ ?_)
    exact List.mem_filterMap.mpr ⟨_, hadd, rfl⟩
  obtain ⟨timer, ht, hseq⟩ := Option.map_eq_some_iff.mp hseq
  have hl := h.follows.life_of_heap ht hcreated (by simp)
  rw [hseq] at hl
  have hid : (⟨.waiting, i.timer, timer⟩ : Life).id = i := by
    simp [Life.id, hseq]
  have hl₁ : (L.next (.cancelInLoop i)).life i.sequence = some ⟨.waiting, i.timer, timer⟩ := by
    simp [Lives.next, hl, Life.cancel]
  obtain ⟨w₂, S₂, L₂, hleads, h₂, hb, hf₂, hl₂⟩ := h₁.finish_batch hl₁ rfl
  rw [← hf, ← hf₂] at hadd
  obtain ⟨w', hleads', hm⟩ := h₂.adds hb hl₂ hid rfl hadd
  exact ⟨w', hleads.trans hleads', hm⟩

/-- Once the request to cancel a timer has been processed, the timer is not in
`timers_` and never gets there again, unless the loop's own thread has overtaken
the addition, which then leads to it. A request that was queued is never lost. -/
theorem cancellation_is_kept_iff (clock : Timestamp) (steps : List TimerThreadStep)
    (a : TimerThreadStep)
    (i : TimerId) (w : TimerThreads) (h : machine.Permits (init clock) (steps ++ [a]))
    (hw : machine.run (init clock) steps = .ok w) (hc : w.Cancels a i) :
    ∃ w₁, machine.step w a = .ok w₁ ∧
      ((∀ more, machine.Permits w₁ more →
          ∃ w', machine.run w₁ more = .ok w' ∧ ¬ w'.Member i) ↔ ¬ w.Overtakes a i) := by
  obtain ⟨hsteps, hlast⟩ := machine.permits_append.mp h
  obtain ⟨w₀, hw₀, S, L, hS⟩ :=
    machine.run_safe step_of_some_lives ⟨∅, _, traces_init clock⟩ hsteps
  obtain rfl := Except.ok.inj (hw₀.symm.trans hw)
  have ha := machine.permits_singleton.mp (hlast w₀ hw)
  obtain ⟨w₁, hstep, S₁, h₁⟩ := hS.step ha
  rw [hc.timerSteps_eq] at h₁
  refine ⟨w₁, hstep, ?_, ?_⟩
  · rintro hkept ⟨rfl, hadd, hseq⟩
    have hf : w₁.functors = w₀.functors := by
      obtain ⟨loop, -, hw'⟩ := bind_eq_ok.mp hstep
      cases hw'
      rfl
    obtain ⟨w', ⟨more, hp, hrun⟩, hm⟩ := hS.overtaken hadd hseq h₁ hf
    obtain ⟨w'', hrun', hnot⟩ := hkept more hp
    obtain rfl := Except.ok.inj (hrun.symm.trans hrun')
    exact hnot hm
  · intro hover more hp
    have hallows : w₀.loop.Allows (.cancelInLoop i) := by
      have hpermits := hS.permits ha.1
      rw [hc.timerSteps_eq] at hpermits
      exact TimerLoop.machine.permits_singleton.mp hpermits
    exact h₁.barred_run (hS.follows.barred_cancel (hS.added ha.1 hc hover) hallows) hp

/-- A timer that another thread creates, and whose id it hands on. -/
def handedOn : List TimerThreadStep :=
  [.newTimer 8 (.once 100 1), .queueAdd ⟨8, 1⟩, .returnId ⟨8, 1⟩]

/-- Yet another thread cancels it. -/
theorem cancellation_is_kept_queued :
    ∃ w w₁, machine.run (init 1) (handedOn ++ [.queueCancel ⟨8, 1⟩, .runFunctor 2]) = .ok w ∧
      machine.step w (.runFunctor 3) = .ok w₁ ∧
      ∀ more, machine.Permits w₁ more →
        ∃ w', machine.run w₁ more = .ok w' ∧ ¬ w'.Member ⟨8, 1⟩ := by
  have hqueue : (machine.run (init 1)
      (handedOn ++ [.queueCancel ⟨8, 1⟩, .runFunctor 2])).toOption.map functors =
      some [.cancelInLoop ⟨8, 1⟩] := by decide +kernel
  obtain ⟨w, hw, hf⟩ := exists_ok_of_map hqueue
  obtain ⟨w₁, hstep, hiff⟩ := cancellation_is_kept_iff 1
    (handedOn ++ [.queueCancel ⟨8, 1⟩, .runFunctor 2]) (.runFunctor 3) ⟨8, 1⟩ w
    (by decide +kernel) hw (.inr ⟨3, rfl, by simp [hf]⟩)
  exact ⟨w, w₁, hw, hstep, hiff.mpr fun hover => by cases hover.1⟩

/-- The loop's own thread cancels it at once, and the addition comes behind. -/
theorem cancelled_timer_is_added :
    machine.Permits (init 1) (handedOn ++ [.cancel ⟨8, 1⟩, .runFunctor 2]) ∧
      ∃ w, machine.run (init 1) (handedOn ++ [.cancel ⟨8, 1⟩, .runFunctor 2]) = .ok w ∧
        w.Member ⟨8, 1⟩ := by
  refine ⟨by decide +kernel, ?_⟩
  have hend : (machine.run (init 1) (handedOn ++ [.cancel ⟨8, 1⟩, .runFunctor 2])).toOption.map
      (fun w => (decide (toLex (100, 8) ∈ w.loop.queue.timers), w.loop.queue.heap 8)) =
      some (true, some (.once 100 1)) := by decide +kernel
  obtain ⟨w, hw, hmem⟩ := exists_ok_of_map hend
  obtain ⟨htimers, hheap⟩ := Prod.mk.inj hmem
  exact ⟨w, hw, 100, .once 100 1, of_decide_eq_true htimers, hheap, rfl⟩

end TimerThreads
end Muduo
