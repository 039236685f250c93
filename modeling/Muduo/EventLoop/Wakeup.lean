import Muduo.EventLoop.EventLoop

/-!
# No functor is stranded

A loop that waits in `poll` while functors are queued must have been woken up, or
be about to be. Whoever pushes from another thread writes to `wakeupFd_` behind
the push. The loop's thread does so only while it runs functors: what a handler
pushes is taken by the swap behind the handlers, and so is what was pushed before
a wakeup that `handleRead` has taken. From the swap on, every push is followed by a
write that nothing takes before the next `poll`.
-/

namespace Muduo

open Foundations

namespace LoopPhase

variable {F : Type}

/-- Every functor in the queue is going to be taken before the next `poll`. -/
def precedesSwap : LoopPhase F → Bool
  | handling _ | inHandler _ | swapping => true
  | _ => false

def callsFunctors : LoopPhase F → Bool
  | swapping | calling _ | inFunctor _ => true
  | _ => false

def isInFunctor : LoopPhase F → Bool
  | inFunctor _ => true
  | _ => false

def isOutside : LoopPhase F → Bool
  | outside => true
  | _ => false

end LoopPhase

/-- `queueInLoop` on the loop's own thread. -/
def LoopStep.isOwnPush {F T : Type} : LoopStep F T → Bool
  | queueInLoop none _ => true
  | _ => false

namespace EventLoop

variable {F T : Type} (s : EventLoop F T)

/-- Queued functors do not wait for the poll to time out. -/
def Noticed : Prop :=
  s.pendingFunctors ≠ [] → 0 < s.wakeupCounter ∨ ∃ t : T, s.caller (some t) = .pushed

/-- The invariant of a loop whose own thread queues only from inside `loop()`. -/
structure Watchful : Prop where
  marked : s.Marked
  flag : s.callingPendingFunctors = s.phase.callsFunctors
  own : s.caller none ≠ .idle → s.phase.isInFunctor = true
  noticed : s.phase.precedesSwap = false → s.caller none = .idle → s.Noticed

section Steps

variable {s}

theorem watchful_init : (init : EventLoop F T).Watchful where
  marked _ := rfl
  flag := rfl
  own h := absurd rfl h
  noticed _ _ h := absurd rfl h

theorem Watchful.of_idle (hmarked : s.Marked)
    (hflag : s.callingPendingFunctors = s.phase.callsFunctors) (hidle : s.caller none = .idle)
    (hnoticed : s.phase.precedesSwap = false → s.Noticed) : s.Watchful where
  marked := hmarked
  flag := hflag
  own hne := absurd hidle hne
  noticed hphase _ := hnoticed hphase

theorem advance_watchful (h : s.Watchful) (hidle : s.caller none = .idle)
    (active : List ActiveChannel) : ∃ s', s.advance active = .ok s' ∧ s'.Watchful := by
  have hflag := h.flag
  have hnoticed := fun hphase => h.noticed hphase hidle
  cases hphase : s.phase with
  | outside =>
    rw [hphase] at hflag hnoticed
    simp only [advance, hphase, assertThat_pos (h.marked hphase), ok_bind, pure_eq_ok]
    exact ⟨_, rfl, .of_idle (by simp [Marked]) hflag hidle hnoticed⟩
  | atWhile =>
    rw [hphase] at hflag hnoticed
    simp only [advance, hphase]
    split_ifs
    · exact ⟨_, rfl, .of_idle (fun _ => rfl) hflag hidle hnoticed⟩
    · exact ⟨_, rfl, .of_idle (by simp [Marked]) hflag hidle hnoticed⟩
  | aboutToPoll =>
    rw [hphase] at hflag hnoticed
    simp only [advance, hphase]
    exact ⟨_, rfl, .of_idle (by simp [Marked]) hflag hidle hnoticed⟩
  | polling =>
    rw [hphase] at hflag
    simp only [advance, hphase]
    exact ⟨_, rfl, .of_idle (by simp [Marked]) hflag hidle (by simp [LoopPhase.precedesSwap])⟩
  | handling rest =>
    rw [hphase] at hflag
    rcases rest with - | ⟨_ | _, rest⟩ <;> simp only [advance, hphase]
    · exact ⟨_, rfl, .of_idle (by simp [Marked]) rfl hidle (by simp [LoopPhase.precedesSwap])⟩
    · exact ⟨_, rfl, .of_idle (by simp [Marked]) hflag hidle (by simp [LoopPhase.precedesSwap])⟩
    · exact ⟨_, rfl, .of_idle (by simp [Marked]) hflag hidle (by simp [LoopPhase.precedesSwap])⟩
  | inHandler rest =>
    rw [hphase] at hflag
    simp only [advance, hphase]
    exact ⟨_, rfl, .of_idle (by simp [Marked]) hflag hidle (by simp [LoopPhase.precedesSwap])⟩
  | swapping =>
    rw [hphase] at hflag
    simp only [advance, hphase]
    exact ⟨_, rfl, .of_idle (by simp [Marked]) hflag hidle (fun _ hne => absurd rfl hne)⟩
  | calling rest =>
    rw [hphase] at hflag hnoticed
    cases rest <;> simp only [advance, hphase]
    · exact ⟨_, rfl, .of_idle (by simp [Marked]) rfl hidle hnoticed⟩
    · exact ⟨_, rfl, .of_idle (by simp [Marked]) hflag hidle hnoticed⟩
  | inFunctor rest =>
    rw [hphase] at hflag hnoticed
    simp only [advance, hphase]
    exact ⟨_, rfl, .of_idle (by simp [Marked]) hflag hidle hnoticed⟩

variable [DecidableEq T]

/-- A push from another thread is followed by that thread's write. -/
theorem queueInLoop_foreign_watchful (h : s.Watchful) (t : T) (f : F) :
    (s.queueInLoop (some t) f).Watchful where
  marked := h.marked
  flag := h.flag
  own hne := h.own (by simpa [queueInLoop] using hne)
  noticed _ _ _ := .inr ⟨t, by simp [queueInLoop]⟩

/-- A handler's push is taken by the coming swap, and a functor's push is followed
by a write of the loop's thread. -/
theorem queueInLoop_own_watchful (h : s.Watchful) (hcode : s.phase.inUserCode = true)
    (hinside : s.phase.isOutside = false) (f : F) : (s.queueInLoop none f).Watchful := by
  have hflag := h.flag
  cases hphase : s.phase with
  | inHandler rest =>
    rw [hphase] at hflag
    constructor
    case marked => exact h.marked
    case flag => exact h.flag
    case own =>
      intro hne
      apply h.own
      simpa [queueInLoop, hflag, LoopPhase.callsFunctors] using hne
    case noticed =>
      intro hswap
      simp [queueInLoop, hphase, LoopPhase.precedesSwap] at hswap
  | inFunctor rest =>
    rw [hphase] at hflag
    constructor
    case marked => exact h.marked
    case flag => exact h.flag
    case own => simp [queueInLoop, hphase, LoopPhase.isInFunctor]
    case noticed =>
      intro _ hidle
      simp [queueInLoop, hflag, LoopPhase.callsFunctors] at hidle
  | outside => simp [hphase, LoopPhase.isOutside] at hinside
  | _ => simp [hphase, LoopPhase.inUserCode] at hcode

theorem queueInLoop_watchful (h : s.Watchful) {thread : Option T} (hcall : s.MayCall thread)
    (hinside : thread = none → s.phase.isOutside = false) (f : F) :
    (s.queueInLoop thread f).Watchful := by
  cases thread with
  | none => exact queueInLoop_own_watchful h (hcall.2 rfl) (hinside rfl) f
  | some t => exact queueInLoop_foreign_watchful h t f

theorem quitLoop_watchful (h : s.Watchful) {thread : Option T} (hcall : s.MayCall thread) :
    (s.quitLoop thread).Watchful := by
  cases thread with
  | none => exact ⟨h.marked, h.flag, h.own, h.noticed⟩
  | some t =>
    constructor
    case marked => exact h.marked
    case flag => exact h.flag
    case own =>
      intro hne
      exact h.own (by simpa [quitLoop] using hne)
    case noticed =>
      intro hphase hidle hpending
      have hidle : s.caller none = .idle := by simpa [quitLoop] using hidle
      rcases h.noticed hphase hidle hpending with hcounter | ⟨t', ht'⟩
      · exact .inl hcounter
      · right
        have hne : t' ≠ t := by
          rintro rfl
          cases hcall.1.symm.trans ht'
        exact ⟨t', by simpa [quitLoop, hne] using ht'⟩

theorem wakeup_counter_pos (thread : Option T) : 0 < (s.wakeup thread).wakeupCounter := by
  by_cases h : s.wakeupCounter < maxCounter
  · simp [wakeup, h]
  · have hmax : 0 < maxCounter := by decide
    simp only [wakeup, if_neg h]
    omega

theorem wakeup_watchful (h : s.Watchful) (thread : Option T) : (s.wakeup thread).Watchful where
  marked := h.marked
  flag := h.flag
  own hne := by
    apply h.own
    rintro hidle
    apply hne
    cases thread <;> simp [wakeup, hidle]
  noticed _ _ _ := .inl (wakeup_counter_pos thread)

end Steps

variable [DecidableEq T]

/-- As `machine`, but the loop's thread queues from handlers and functors only, not
before it enters `loop()` or behind it. -/
def insideMachine : Machine (EventLoop F T) (LoopStep F T) Fault where
  Allows s a := s.Allows a ∧ (a.isOwnPush = true → s.phase.isOutside = false)
  step s a := s.step a

instance (a : LoopStep F T) : Decidable (insideMachine.Allows s a) :=
  inferInstanceAs (Decidable (s.Allows a ∧ _))

theorem step_watchful (h : s.Watchful) {a : LoopStep F T} (ha : insideMachine.Allows s a) :
    ∃ s', s.step a = .ok s' ∧ s'.Watchful := by
  obtain ⟨hallows, hinside⟩ := ha
  cases a with
  | advance active => exact advance_watchful h hallows.1 active
  | queueInLoop thread f =>
    refine ⟨_, rfl, queueInLoop_watchful h hallows ?_ f⟩
    rintro rfl
    exact hinside rfl
  | runInLoop thread f =>
    cases thread with
    | none => exact ⟨s, rfl, h⟩
    | some t => exact ⟨_, rfl, queueInLoop_foreign_watchful h t f⟩
  | quit thread => exact ⟨_, rfl, quitLoop_watchful h hallows⟩
  | wakeup thread => exact ⟨_, rfl, wakeup_watchful h thread⟩

/-- Whenever the loop is about to poll or polls, a functor in the queue has made the
counter positive, or the thread that pushed one has yet to write. -/
theorem no_functor_is_stranded (steps : List (LoopStep F T))
    (hp : insideMachine.Permits init steps) :
    ∃ s, insideMachine.run init steps = .ok s ∧
      (s.phase = .aboutToPoll ∨ s.phase = .polling → s.pendingFunctors ≠ [] →
        0 < s.wakeupCounter ∨ ∃ t : T, s.caller (some t) = .pushed) := by
  obtain ⟨s, hs, hwatchful⟩ := insideMachine.run_safe
    (fun s a h ha => step_watchful s h ha) watchful_init hp
  refine ⟨s, hs, ?_⟩
  intro hwaits
  have hidle : s.caller none = .idle := by
    by_contra hne
    have := hwatchful.own hne
    rcases hwaits with hphase | hphase <;> simp [hphase, LoopPhase.isInFunctor] at this
  have hphase : s.phase.precedesSwap = false := by
    rcases hwaits with hphase | hphase <;> rw [hphase] <;> rfl
  exact hwatchful.noticed hphase hidle

/-- Functor 1 is queued before `loop()`, and woken for; the loop takes the wakeup and
runs it, while functor 2 is queued by it and functor 3 by another thread. -/
def restlessSteps : List (LoopStep ℕ Bool) :=
  [.queueInLoop (some true) 1, .wakeup (some true), .advance [], .advance [], .advance [],
    .advance [.wakeup], .advance [], .advance [], .advance [], .advance [],
    .queueInLoop none 2, .queueInLoop (some false) 3, .wakeup none, .advance [], .advance [],
    .advance [], .advance []]

theorem no_functor_is_stranded_restless :
    insideMachine.Permits init restlessSteps ∧
      ∃ s, insideMachine.run init restlessSteps = .ok s ∧
        (s.phase = .aboutToPoll ∨ s.phase = .polling → s.pendingFunctors ≠ [] →
          0 < s.wakeupCounter ∨ ∃ t : Bool, s.caller (some t) = .pushed) :=
  have hp : insideMachine.Permits init restlessSteps := by decide +kernel
  ⟨hp, no_functor_is_stranded restlessSteps hp⟩

end EventLoop
end Muduo
