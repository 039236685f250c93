import Muduo.EventLoop.EventLoop

/-!
# A thread with a loop

`startLoop` starts a thread and waits until that thread has made its loop and put its
address into `loop_`; the destructor tells the loop to quit and joins the thread. The
address is published before `loop()` is entered, and `loop()` begins by resetting
`quit_`. A destructor that is quick enough sets the flag in between: its request is
lost, and `join` does not return.

The thread that owns the object is `creator`; user code on the loop's thread and other
threads may call the loop as they like, and may quit it as well.
-/

namespace Muduo

open Foundations

/-- Where the new thread is in `threadFunc`. -/
inductive ThreadFuncPhase where
  | unstarted
  | started
  /-- behind the construction of the loop, in `callback_` -/
  | constructed
  /-- behind the critical section, in front of `loop()` -/
  | published
  | looping
  /-- behind `loop()` -/
  | returned
  | finished
  deriving DecidableEq, Repr

/-- Where the creator is, in `startLoop` or in the destructor. -/
inductive CreatorPhase where
  | outside
  /-- at `while (loop_ == NULL)`, with the mutex to be taken -/
  | checking
  /-- in `cond_.wait()` -/
  | waiting
  | running
  /-- behind `loop_ != NULL`, in front of the store in `quit()` -/
  | quitting
  /-- behind the store, in front of `wakeup()` -/
  | waking
  | joining
  | done
  deriving DecidableEq, Repr

/-- `T` are the threads other than the loop's and the creator's. Among the loop's callers
`some none` is the creator. -/
structure EventLoopThread (F T : Type) where
  thread : ThreadFuncPhase
  creator : CreatorPhase
  /-- `loop_` is not null -/
  published : Bool
  loop : EventLoop F (Option T)

inductive LoopThreadStep (F T : Type) where
  /-- the creator: `startLoop` -/
  | start
  | check
  | wakeSpuriously
  /-- the creator: the destructor -/
  | destroy
  | quit
  | wakeup
  | join
  /-- the new thread -/
  | construct
  | publish
  | enter
  | advance (active : List ActiveChannel)
  | leave
  /-- calls of user code on the loop's thread and of other threads -/
  | other (a : LoopStep F (Option T))

/-- The caller of the loop, for the calls that have one. -/
def LoopStep.caller {F T : Type} : LoopStep F T → Option (Option T)
  | .advance _ => none
  | .queueInLoop thread _ | .runInLoop thread _ | .quit thread | .wakeup thread => some thread

namespace EventLoopThread

variable {F T : Type} [DecidableEq T] (w : EventLoopThread F T)

def init : EventLoopThread F T where
  thread := .unstarted
  creator := .outside
  published := false
  loop := .init

/-- The address in `loop_` is that of a local variable of `threadFunc`. -/
def loopExists : Bool :=
  match w.thread with
  | .constructed | .published | .looping | .returned => true
  | .unstarted | .started | .finished => false

def step : LoopThreadStep F T → Except Fault (EventLoopThread F T)
  | .start => do
    assertThat (w.thread = .unstarted)
    return { w with thread := .started, creator := .checking }
  | .check => return { w with creator := if w.published then .running else .waiting }
  | .wakeSpuriously => return { w with creator := .checking }
  | .destroy => return { w with creator := if w.published then .quitting else .done }
  | .quit =>
    -- a dangling pointer is followed when the thread was faster
    if w.loopExists then
      return { w with creator := .waking, loop := w.loop.quitLoop (some none) }
    else .error .outOfBounds
  | .wakeup =>
    if w.loopExists then
      return { w with creator := .joining, loop := w.loop.wakeup (some none) }
    else .error .outOfBounds
  | .join => return { w with creator := .done }
  | .construct => return { w with thread := .constructed }
  | .publish => return { w with
      thread := .published
      published := true
      creator := if w.creator = .waiting then .checking else w.creator }
  | .enter => do
    let loop ← w.loop.advance []
    return { w with thread := .looping, loop := loop }
  | .advance active => do
    let loop ← w.loop.advance active
    match loop.phase with
    | .outside => return { w with thread := .returned, loop := loop }
    | _ => return { w with loop := loop }
  | .leave => return { w with thread := .finished, published := false }
  | .other a => do
    let loop ← w.loop.step a
    return { w with loop := loop }

def Allows : LoopThreadStep F T → Prop
  | .start => w.creator = .outside
  | .check => w.creator = .checking
  | .wakeSpuriously => w.creator = .waiting
  | .destroy => w.creator = .running
  | .quit => w.creator = .quitting
  | .wakeup => w.creator = .waking
  | .join => w.creator = .joining ∧ w.thread = .finished
  | .construct => w.thread = .started
  | .publish => w.thread = .constructed
  | .enter => w.thread = .published ∧ w.loop.Allows (.advance [])
  | .advance active => w.thread = .looping ∧ w.loop.Allows (.advance active)
  | .leave => w.thread = .returned
  | .other a => w.loopExists = true ∧ a.caller ≠ none ∧ a.caller ≠ some (some none) ∧
      w.loop.Allows a

instance (a : LoopThreadStep F T) : Decidable (w.Allows a) := by
  cases a <;> unfold Allows <;> infer_instance

def machine : Machine (EventLoopThread F T) (LoopThreadStep F T) Fault where
  Allows := Allows
  step := step

instance (a : LoopThreadStep F T) : Decidable (machine.Allows w a) :=
  inferInstanceAs (Decidable (w.Allows a))

/-- The creator waits for a thread that goes on looping, and nobody is left who would
tell the loop to quit. -/
def Stuck : Prop := w.creator = .joining ∧ w.thread = .looping ∧ w.loop.quit = false

/-- The destructor stores its request behind the reset in `loop()`. -/
def Late : LoopThreadStep F T → Prop
  | .quit => w.thread ≠ .published
  | _ => True

instance : (a : LoopThreadStep F T) → Decidable (w.Late a)
  | .quit => inferInstanceAs (Decidable (w.thread ≠ .published))
  | .start | .check | .wakeSpuriously | .destroy | .wakeup | .join | .construct | .publish | .enter
  | .advance _ | .leave | .other _ => .isTrue trivial

instance (a : LoopThreadStep F T) : Decidable ((machine.restrict Late).Allows w a) :=
  inferInstanceAs (Decidable (w.Allows a ∧ w.Late a))

end EventLoopThread

namespace EventLoop

variable {F T : Type} {s s' : EventLoop F T}

/-- `loop()` has not been entered. -/
structure Unentered (s : EventLoop F T) : Prop where
  phase : s.phase = .outside
  looping : s.looping = false
  calling : s.callingPendingFunctors = false
  caller : s.caller none = .idle

theorem advance_outside (h : s.phase = .outside) {active : List ActiveChannel}
    (hs' : s.advance active = .ok s') : s'.phase = .atWhile ∧ s'.quit = false := by
  simp only [advance, h] at hs'
  obtain ⟨_, -, hreturn⟩ := bind_eq_ok.mp hs'
  cases hreturn
  exact ⟨rfl, rfl⟩

theorem advance_quit (h : s.phase ≠ .outside) {active : List ActiveChannel}
    (hs' : s.advance active = .ok s') : s'.quit = s.quit := by
  unfold advance at hs'
  split at hs'
  · next hphase => exact absurd hphase h
  · split_ifs at hs' <;> cases hs' <;> rfl
  all_goals
    cases hs'
    rfl

variable [DecidableEq T]

/-- A call leaves the loop's thread where it is, and can only ask it to quit. -/
theorem call_frame {a : LoopStep F T} (ha : a.caller ≠ none) (hs' : s.step a = .ok s') :
    s'.phase = s.phase ∧ (s.Unentered → s'.Unentered) ∧ (s.quit = true → s'.quit = true) := by
  have hpush : ∀ thread f, (s.queueInLoop thread f).phase = s.phase ∧
      (s.Unentered → (s.queueInLoop thread f).Unentered) ∧
      (s.quit = true → (s.queueInLoop thread f).quit = true) := by
    intro thread f
    refine ⟨rfl, fun h => ⟨h.phase, h.looping, h.calling, ?_⟩, id⟩
    cases thread <;> simp [queueInLoop, h.calling, h.caller]
  cases a with
  | advance active => exact absurd rfl ha
  | queueInLoop thread f =>
    cases hs'
    exact hpush thread f
  | runInLoop thread f =>
    cases hs'
    unfold runInLoop
    split_ifs
    · exact ⟨rfl, id, id⟩
    · exact hpush thread f
  | quit thread =>
    cases hs'
    refine ⟨rfl, fun h => ⟨h.phase, h.looping, h.calling, ?_⟩, fun _ => rfl⟩
    cases thread <;> simp [quitLoop, h.caller]
  | wakeup thread =>
    cases hs'
    refine ⟨rfl, fun h => ⟨h.phase, h.looping, h.calling, ?_⟩, id⟩
    cases thread <;> simp [wakeup, h.caller]

end EventLoop

/-- The phases before the thread enters `loop()`. -/
def ThreadFuncPhase.isEarly : ThreadFuncPhase → Bool
  | .unstarted | .started | .constructed | .published => true
  | .looping | .returned | .finished => false

namespace EventLoopThread

variable {F T : Type} {w w' : EventLoopThread F T}

/-- What holds in every run: where the two threads are says something about the loop
and about each other. -/
structure Sane (w : EventLoopThread F T) : Prop where
  early : w.thread.isEarly = true → w.loop.Unentered
  looping : w.thread = .looping → w.loop.phase ≠ .outside
  published : w.published = true →
    w.thread = .published ∨ w.thread = .looping ∨ w.thread = .returned
  quitting : w.creator = .quitting → w.thread ≠ .unstarted ∧ w.thread ≠ .started ∧
    w.thread ≠ .constructed

/-- Once the destructor has asked it, the thread is leaving its loop or has left it. -/
def Told (w : EventLoopThread F T) : Prop :=
  w.creator = .waking ∨ w.creator = .joining →
    w.thread.isEarly = false ∧ (w.thread = .looping → w.loop.quit = true)

theorem sane_init : (init : EventLoopThread F T).Sane where
  early _ := ⟨rfl, rfl, rfl, rfl⟩
  looping h := by cases h
  published h := by cases h
  quitting h := by cases h

/-- A step of the creator, or a call: the thread stays where it is. -/
theorem Sane.stay (h : w.Sane) {creator : CreatorPhase} {loop : EventLoop F (Option T)}
    (hphase : loop.phase = w.loop.phase) (hearly : w.loop.Unentered → loop.Unentered)
    (hquitting : creator = .quitting → w.creator = .quitting ∨ w.published = true) :
    Sane { w with creator := creator, loop := loop } where
  early he := hearly (h.early he)
  looping ht := by
    show loop.phase ≠ .outside
    rw [hphase]
    exact h.looping ht
  published := h.published
  quitting hc := by
    rcases hquitting hc with hq | hp
    · exact h.quitting hq
    · rcases h.published hp with ht | ht | ht
      all_goals simp [ht]

theorem Sane.approach (h : w.Sane) {thread : ThreadFuncPhase} {creator : CreatorPhase}
    {published : Bool} (hfrom : w.thread.isEarly = true) (hto : thread.isEarly = true)
    (hpublished : published = true → thread = .published)
    (hquitting : creator = .quitting → thread = .published) :
    Sane { w with thread := thread, creator := creator, published := published } where
  early _ := h.early hfrom
  looping ht := by
    cases ht
    cases hto
  published hp := .inl (hpublished hp)
  quitting hc := by
    cases hquitting hc
    simp

theorem sane_entered {thread : ThreadFuncPhase} {creator : CreatorPhase} {published : Bool}
    {loop : EventLoop F (Option T)} (hentered : thread.isEarly = false)
    (hlooping : thread = .looping → loop.phase ≠ .outside)
    (hpublished : published = true → thread ≠ .finished) :
    Sane ⟨thread, creator, published, loop⟩ where
  early he := by
    have he : thread.isEarly = true := he
    rw [hentered] at he
    cases he
  looping := hlooping
  published hp := by
    have hthread := hpublished hp
    cases thread <;> simp_all [ThreadFuncPhase.isEarly]
  quitting _ := by
    cases thread <;> simp_all [ThreadFuncPhase.isEarly]

theorem Sane.unpublished (h : w.Sane) (hearly : w.thread.isEarly = true)
    (hthread : w.thread ≠ .published) : w.published = false := by
  by_contra hp
  rcases h.published (Bool.eq_true_of_not_eq_false hp) with ht | ht | ht
  · exact hthread ht
  · simp [ht, ThreadFuncPhase.isEarly] at hearly
  · simp [ht, ThreadFuncPhase.isEarly] at hearly

variable [DecidableEq T]

theorem Sane.step (h : w.Sane) {a : LoopThreadStep F T} (ha : w.Allows a)
    (hw' : w.step a = .ok w') : w'.Sane := by
  cases a with
  | start =>
    obtain ⟨_, hassert, hreturn⟩ := bind_eq_ok.mp hw'
    cases hreturn
    have hthread := of_assertThat hassert
    have hearly : w.thread.isEarly = true := by rw [hthread]; rfl
    have hnone := h.unpublished hearly (by simp [hthread])
    exact h.approach hearly rfl (by simp [hnone]) (by simp)
  | check =>
    cases hw'
    refine h.stay rfl id fun hc => ?_
    split_ifs at hc
  | wakeSpuriously =>
    cases hw'
    exact h.stay rfl id fun hc => by cases hc
  | destroy =>
    cases hw'
    refine h.stay rfl id fun hc => ?_
    split_ifs at hc with hp
    exact .inr hp
  | quit =>
    simp only [EventLoopThread.step] at hw'
    split_ifs at hw'
    cases hw'
    have hcall : (LoopStep.quit (some none) : LoopStep F (Option T)).caller ≠ none := by
      simp [LoopStep.caller]
    exact h.stay rfl (EventLoop.call_frame hcall rfl).2.1 fun hc => by cases hc
  | wakeup =>
    simp only [EventLoopThread.step] at hw'
    split_ifs at hw'
    cases hw'
    have hcall : (LoopStep.wakeup (some none) : LoopStep F (Option T)).caller ≠ none := by
      simp [LoopStep.caller]
    exact h.stay rfl (EventLoop.call_frame hcall rfl).2.1 fun hc => by cases hc
  | join =>
    cases hw'
    exact h.stay rfl id fun hc => by cases hc
  | construct =>
    cases hw'
    have hthread : w.thread = .started := ha
    have hearly : w.thread.isEarly = true := by rw [hthread]; rfl
    have hnone := h.unpublished hearly (by simp [hthread])
    exact h.approach hearly rfl (by simp [hnone]) fun hc => absurd hthread (h.quitting hc).2.1
  | publish =>
    cases hw'
    have hthread : w.thread = .constructed := ha
    have hearly : w.thread.isEarly = true := by rw [hthread]; rfl
    exact h.approach hearly rfl (fun _ => rfl) (fun _ => rfl)
  | enter =>
    obtain ⟨loop, hloop, hreturn⟩ := bind_eq_ok.mp hw'
    cases hreturn
    have hphase := (h.early (by simp [ha.1, ThreadFuncPhase.isEarly])).phase
    exact sane_entered rfl (by simp [EventLoop.advance_outside hphase hloop]) (by simp)
  | advance active =>
    obtain ⟨loop, hloop, hreturn⟩ := bind_eq_ok.mp hw'
    have hthread : w.thread = .looping := ha.1
    split at hreturn
    · cases hreturn
      exact sane_entered rfl (by simp) (by simp)
    · next hphase =>
      cases hreturn
      exact sane_entered (by rw [hthread]; rfl) (fun _ => hphase) (by simp [hthread])
  | leave =>
    cases hw'
    exact sane_entered rfl (by simp) (by simp)
  | other a =>
    obtain ⟨loop, hloop, hreturn⟩ := bind_eq_ok.mp hw'
    cases hreturn
    obtain ⟨hphase, hearly, -⟩ := EventLoop.call_frame ha.2.1 hloop
    exact h.stay hphase hearly .inl

/-- A request that is stored behind the entry into `loop()` is not lost. -/
theorem Told.step (h : w.Told) (hs : w.Sane) {a : LoopThreadStep F T} (ha : w.Allows a)
    (hlate : w.Late a) (hw' : w.step a = .ok w') : w'.Told := by
  cases a with
  | start =>
    obtain ⟨_, -, hreturn⟩ := bind_eq_ok.mp hw'
    cases hreturn
    simp [Told]
  | check =>
    cases hw'
    cases hp : w.published <;> simp [Told]
  | wakeSpuriously =>
    cases hw'
    simp [Told]
  | destroy =>
    cases hw'
    cases hp : w.published <;> simp [Told]
  | quit =>
    simp only [EventLoopThread.step] at hw'
    split_ifs at hw'
    cases hw'
    intro _
    have hpublished : w.thread ≠ .published := hlate
    obtain ⟨hunstarted, hstarted, hconstructed⟩ := hs.quitting ha
    refine ⟨?_, fun _ => rfl⟩
    cases hthread : w.thread <;> simp_all [ThreadFuncPhase.isEarly]
  | wakeup =>
    simp only [EventLoopThread.step] at hw'
    split_ifs at hw'
    cases hw'
    exact fun _ => h (.inl ha)
  | join =>
    cases hw'
    simp [Told]
  | construct =>
    cases hw'
    intro hc
    have hthread : w.thread = .started := ha
    have := (h hc).1
    simp [hthread, ThreadFuncPhase.isEarly] at this
  | publish =>
    cases hw'
    have hthread : w.thread = .constructed := ha
    intro hc
    have hasked : w.creator = .waking ∨ w.creator = .joining := by
      by_cases hwaiting : w.creator = .waiting
      · simp [hwaiting] at hc
      · simpa [hwaiting] using hc
    have := (h hasked).1
    simp [hthread, ThreadFuncPhase.isEarly] at this
  | enter =>
    obtain ⟨loop, hloop, hreturn⟩ := bind_eq_ok.mp hw'
    cases hreturn
    intro hc
    have := (h hc).1
    simp [ha.1, ThreadFuncPhase.isEarly] at this
  | advance active =>
    obtain ⟨loop, hloop, hreturn⟩ := bind_eq_ok.mp hw'
    have hquit := EventLoop.advance_quit (hs.looping ha.1) hloop
    split at hreturn
    · cases hreturn
      exact fun _ => ⟨rfl, fun ht => by cases ht⟩
    · cases hreturn
      intro hc
      obtain ⟨hearly, hq⟩ := h hc
      exact ⟨hearly, fun ht => hquit.trans (hq ht)⟩
  | leave =>
    cases hw'
    exact fun _ => ⟨rfl, fun ht => by cases ht⟩
  | other a =>
    obtain ⟨loop, hloop, hreturn⟩ := bind_eq_ok.mp hw'
    cases hreturn
    obtain ⟨-, -, hquit⟩ := EventLoop.call_frame ha.2.1 hloop
    intro hc
    obtain ⟨hearly, hq⟩ := h hc
    exact ⟨hearly, fun ht => hquit (hq ht)⟩

omit [DecidableEq T] in
theorem Told.not_stuck (h : w.Told) : ¬ w.Stuck := by
  rintro ⟨hjoining, hlooping, hquit⟩
  have := (h (.inr hjoining)).2 hlooping
  rw [hquit] at this
  cases this

theorem sane_of_leads (h : machine.Leads init w) : w.Sane := by
  obtain ⟨steps, hp, hrun⟩ := h
  have hkeeps : ∀ (w : EventLoopThread F T) a w', w.Sane → machine.Allows w a →
      machine.step w a = .ok w' → w'.Sane := fun _ _ _ hs ha hw' => hs.step ha hw'
  exact machine.run_keeps hkeeps sane_init hp hrun

/-- The two threads between the store of the destructor and the reset in `loop()`. -/
theorem stuck_of_early (h : w.Sane) (hthread : w.thread = .published) :
    ∃ w₂, machine.Leads { w with creator := .waking, loop := w.loop.quitLoop (some none) } w₂ ∧
      w₂.Stuck := by
  have hun := h.early (by simp [hthread, ThreadFuncPhase.isEarly])
  let asked := w.loop.quitLoop (some none)
  let woken := asked.wakeup (some none)
  let entered : EventLoop F (Option T) :=
    { woken with looping := true, quit := false, phase := .atWhile }
  have hphase : woken.phase = .outside := hun.phase
  have hlooping : woken.looping = false := hun.looping
  have henter : woken.advance [] = .ok entered := by
    simp [EventLoop.advance, hphase, hlooping, entered]
  have hidle : woken.caller none = .idle := by
    simp [woken, asked, EventLoop.wakeup, EventLoop.quitLoop, hun.caller]
  have hwakeup : machine.step { w with creator := .waking, loop := asked } .wakeup =
      .ok { w with creator := .joining, loop := woken } := by
    simp [machine, step, loopExists, hthread, woken]
  have hloop : machine.step { w with creator := .joining, loop := woken } .enter =
      .ok { w with creator := .joining, thread := .looping, loop := entered } := by
    simp [machine, step, henter]
  have hallows₁ : machine.Allows { w with creator := .waking, loop := asked } .wakeup := rfl
  have hallows₂ : machine.Allows { w with creator := .joining, loop := woken } .enter := by
    refine ⟨hthread, hidle, fun hpolling => ?_⟩
    rw [hphase] at hpolling
    cases hpolling
  refine ⟨{ w with creator := .joining, thread := .looping, loop := entered }, ?_, rfl, rfl, rfl⟩
  exact .head hallows₁ hwakeup (.head hallows₂ hloop (.refl _ _))

/-- In every run in which the destructor stores its request behind the reset in `loop()`,
the creator never waits for a thread that goes on looping. When it stores the request
between the publication of the loop and the reset, such a state can follow. -/
theorem destruction_completes_when_late :
    (∀ w : EventLoopThread F T, (machine.restrict Late).Leads init w → ¬ w.Stuck) ∧
      ∀ w w₁ : EventLoopThread F T, machine.Leads init w → machine.Allows w .quit →
        machine.step w .quit = .ok w₁ → ¬ w.Late .quit → ∃ w₂, machine.Leads w₁ w₂ ∧ w₂.Stuck := by
  constructor
  · rintro w ⟨steps, hp, hrun⟩
    have hkeeps : ∀ (w : EventLoopThread F T) a w', w.Sane ∧ w.Told →
        (machine.restrict Late).Allows w a → (machine.restrict Late).step w a = .ok w' →
        w'.Sane ∧ w'.Told :=
      fun _ _ _ hs ha hw' => ⟨hs.1.step ha.1 hw', hs.2.step hs.1 ha.1 ha.2 hw'⟩
    have hinit : (init : EventLoopThread F T).Told := by simp [Told, init]
    exact ((machine.restrict Late).run_keeps hkeeps ⟨sane_init, hinit⟩ hp hrun).2.not_stuck
  · intro w w₁ hleads _ hw₁ hearly
    have hthread : w.thread = .published := not_not.mp hearly
    have hquit : machine.step w .quit =
        .ok { w with creator := .waking, loop := w.loop.quitLoop (some none) } := by
      simp [machine, step, loopExists, hthread]
    cases hquit.symm.trans hw₁
    exact stuck_of_early (sane_of_leads hleads) hthread

/-- The destructor comes when the thread is about to poll. -/
def patientSteps : List (LoopThreadStep Unit Unit) :=
  [.start, .check, .construct, .publish, .check, .enter, .advance [], .destroy, .quit, .wakeup,
    .advance []]

theorem destruction_completes_patient :
    ∃ w, (machine.restrict Late).run init patientSteps = .ok w ∧ w.creator = .joining ∧
      w.thread = .looping ∧ ¬ w.Stuck := by
  have hend : ((machine.restrict Late).run init patientSteps).toOption.map
      (fun w => (w.creator, w.thread)) = some (.joining, .looping) := by
    decide +kernel
  obtain ⟨w, hw, h⟩ := exists_ok_of_map hend
  simp only [Prod.mk.injEq] at h
  exact ⟨w, hw, h.1, h.2,
    destruction_completes_when_late.1 w ⟨patientSteps, by decide +kernel, hw⟩⟩

/-- The creator destroys the object as soon as `startLoop` returns. -/
def hastySteps : List (LoopThreadStep Unit Unit) :=
  [.start, .check, .construct, .publish, .check, .destroy, .quit, .wakeup, .enter, .advance [],
    .advance []]

theorem join_waits_for_ever :
    machine.Permits init hastySteps ∧
      ∃ w, machine.run init hastySteps = .ok w ∧ w.Stuck ∧ w.loop.phase.isPolling = true := by
  have hend : (machine.run init hastySteps).toOption.map
      (fun w => (w.creator, w.thread, w.loop.quit, w.loop.phase.isPolling)) =
      some (.joining, .looping, false, true) := by
    decide +kernel
  obtain ⟨w, hw, h⟩ := exists_ok_of_map hend
  simp only [Prod.mk.injEq] at h
  exact ⟨by decide +kernel, w, hw, ⟨h.1, h.2.1, h.2.2.1⟩, h.2.2.2⟩

end EventLoopThread
end Muduo
