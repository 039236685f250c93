import Muduo.Timers.Reentrancy

/-!
# No timer is forgotten

The descriptor is set when a timer becomes the earliest and at the end of
`handleRead`, and never when a timer is cancelled. While no batch is being run it
must wake the loop for every stored timer. Inside `handleRead` this may fail,
since the descriptor was read; `reset` makes up for it, except for a first timer
with an invalid expiration. All such timers were added by the callbacks, and
those have set the descriptor.

All this asks that the two computations with an expiration do not overflow: the time that
is left until it, and the next one of a timer that repeats.
-/

namespace Muduo

open Foundations TimerQueue

/-- The descriptor wakes the loop in time for a timer that is due at `when`. -/
def Timerfd.Guards (timerfd : Timerfd) (when : Timestamp) : Prop :=
  timerfd = .expired ∨
    ∃ deadline armedAt, timerfd = .armed deadline armedAt ∧ deadline ≤ max when (armedAt + 100)

theorem Timerfd.Guards.mono {timerfd : Timerfd} {when when' : Timestamp}
    (h : timerfd.Guards when) (hle : when ≤ when') : timerfd.Guards when' := by
  rcases h with he | ⟨deadline, armedAt, he, hd⟩
  · exact .inl he
  · exact .inr ⟨deadline, armedAt, he, hd.trans (max_le_max_right _ hle)⟩

theorem guards_resetTimerfd {when when' clock : Timestamp} (hle : when ≤ when')
    (hfits : FitsInt64 (when - clock)) : (resetTimerfd when clock).Guards when' := by
  rw [resetTimerfd_eq hfits]
  exact .inr ⟨_, _, rfl, max_le_max_right _ hle⟩

namespace TimerQueue

variable {q : TimerQueue} {p : TimerPtr} {timer : Timer}

/-- A property of expirations that is passed on to later ones holds for every
entry as soon as it holds for the first. -/
theorem of_first {P : Timestamp → Prop} (hmono : ∀ s t, s ≤ t → P s → P t)
    (h : ∀ f, q.timers.first = some f → P (ofLex f).1) : ∀ e ∈ q.timers, P (ofLex e).1 := by
  intro e he
  cases hf : q.timers.first with
  | none => exact absurd he (OrderedSet.first_eq_none.mp hf e)
  | some f => exact hmono _ _ (Prod.Lex.monotone_fst _ _ (OrderedSet.first_le hf he)) (h f hf)

theorem le_of_isEarliest {when : Timestamp} (h : q.isEarliest when = true) :
    ∀ e ∈ q.timers, when ≤ (ofLex e).1 := by
  apply of_first (P := fun t => when ≤ t)
  · exact fun s t hle hs => le_trans hs hle
  · intro f hf
    rw [isEarliest, hf] at h
    exact (of_decide_eq_true h).le

theorem exists_earlier {when : Timestamp} (h : q.isEarliest when = false) :
    ∃ f ∈ q.timers, (ofLex f).1 ≤ when := by
  rw [isEarliest] at h
  cases hf : q.timers.first with
  | none => simp [hf] at h
  | some f =>
    rw [hf] at h
    exact ⟨f, OrderedSet.mem_of_first hf, not_lt.mp (of_decide_eq_false h)⟩

/-- Every stored timer for which `P` holds is guarded. -/
def Guarded (q : TimerQueue) (P : Timestamp → Prop) : Prop :=
  ∀ e ∈ q.timers, P (ofLex e).1 → q.timerfd.Guards (ofLex e).1

theorem Guarded.added {P : Timestamp → Prop} (hP : ∀ s t, s ≤ t → P t → P s)
    (h : q.Guarded P) {clock : Timestamp} (hfits : FitsInt64 (timer.expiration - clock)) :
    (q.added p timer clock).Guarded P := by
  intro e he hPe
  have he : e ∈ (q.timers.insert (toLex (timer.expiration, p))).1 := he
  rw [OrderedSet.mem_insert] at he
  show Timerfd.Guards (if _ then _ else _) _
  split_ifs with hfirst
  · refine guards_resetTimerfd ?_ hfits
    rcases he with rfl | he
    · exact le_rfl
    · exact le_of_isEarliest hfirst e he
  · rcases he with rfl | he
    · obtain ⟨f, hf, hle⟩ := exists_earlier (by simpa using hfirst)
      exact (h f hf (hP _ _ hle hPe)).mono hle
    · exact h e he hPe

theorem Guarded.erased {P : Timestamp → Prop} (h : q.Guarded P) : (q.erased p timer).Guarded P := by
  intro e he
  exact h e (OrderedSet.mem_erase.mp he).2

theorem guarded_opened {S : Set TimerPtr} {now readAt : Timestamp}
    {active : OrderedSet ActiveTimer} (hnow : 0 < now)
    (h : (q.opened now readAt active).Stores (q.after S now)) :
    (q.opened now readAt active).Guarded (· ≤ 0) := by
  rintro ⟨when, p⟩ he hle
  obtain ⟨⟨-, hlt⟩, timer, ht, rfl⟩ := (h.timers when p).mp he
  have := (hnow.trans (hlt timer ht)).not_ge hle
  contradiction

theorem guarded_closed {q' : TimerQueue} {ps : List TimerPtr} {now next clock : Timestamp}
    (hnow : 0 < now) (hclock : 0 < clock) (hclock' : FitsInt64 clock) (h : q.Guarded (· ≤ 0))
    (hret : Returned { q with callingExpiredTimers := false } q' ps now)
    (hrest : ∀ p ∈ ps, ∀ timer, q.heap p = some timer → timer.repeats = true →
      FitsInt64 (now + timer.interval))
    (hall : ∀ e ∈ q'.timers, FitsInt64 (ofLex e).1)
    (hnext : ∀ e, q'.timers.first = some e → next = (ofLex e).1) :
    (q'.closed next clock).Guarded fun _ => True := by
  have hguards : ∀ e ∈ q'.timers, (q'.closed next clock).timerfd.Guards (ofLex e).1 := by
    apply of_first (P := (q'.closed next clock).timerfd.Guards) fun s t hle hs => hs.mono hle
    intro f hf
    cases hnext f hf
    show Timerfd.Guards (if _ then _ else _) _
    split_ifs with hv
    · have hvalid : 0 < (ofLex f).1 := by simpa [Timestamp.valid] using hv
      have hfits := hall f (OrderedSet.mem_of_first hf)
      exact guards_resetTimerfd le_rfl (fits_sub hvalid hfits hclock hclock')
    · have hle : (ofLex f).1 ≤ 0 := not_lt.mp (by simpa [Timestamp.valid] using hv)
      rw [hret.timerfd]
      rcases hret.entries f (OrderedSet.mem_of_first hf) with hold | ⟨p, hp, timer, ht, hr, heq⟩
      · exact h f hold hle
      · rw [heq] at hle
        have hafter := timer.now_le_restart hr (hrest p hp timer ht hr)
        exact absurd (hnow.trans_le hafter) hle.not_gt
  exact fun e he _ => hguards e he

end TimerQueue

namespace TimerLoop

variable {w : TimerLoop} {S : Set TimerPtr}

/-- What is asked of the clock: it is read again and again and never goes back. Times and
intervals are values of an `int64_t`. -/
def ClockAllows (w : TimerLoop) : TimerStep → Prop
  | .newTimer _ timer => FitsInt64 timer.expiration ∧ FitsInt64 timer.interval
  | .addTimerInLoop _ clock => w.clock ≤ clock ∧ FitsInt64 clock
  | .beginHandleRead now readAt => w.clock ≤ now ∧ now ≤ readAt ∧ FitsInt64 readAt
  | .endHandleRead clock => w.clock ≤ clock ∧ FitsInt64 clock
  | _ => True

instance (w : TimerLoop) : (a : TimerStep) → Decidable (w.ClockAllows a)
  | .newTimer _ _ => inferInstanceAs (Decidable (_ ∧ _))
  | .addTimerInLoop _ _ => inferInstanceAs (Decidable (_ ∧ _))
  | .cancelInLoop _ => .isTrue trivial
  | .beginHandleRead _ _ => inferInstanceAs (Decidable (_ ∧ _))
  | .runCallback => .isTrue trivial
  | .endHandleRead _ => inferInstanceAs (Decidable (_ ∧ _))
  | .expire => .isTrue trivial

def clockedMachine : Machine TimerLoop TimerStep Fault where
  Allows w a := w.Allows a ∧ w.ClockAllows a
  step := step

instance (w : TimerLoop) (a : TimerStep) : Decidable (clockedMachine.Allows w a) :=
  inferInstanceAs (Decidable (_ ∧ _))

/-- The two computations with expirations do not overflow: what is left until the expiration of
a timer that is added, and the next expiration of one that repeats. -/
def NoOverflow (w : TimerLoop) : TimerStep → Prop
  | .addTimerInLoop p clock =>
    ∀ timer ∈ w.queue.heap p, FitsInt64 (timer.expiration - clock)
  | .endHandleRead _ => ∀ b ∈ w.batch, ∀ e ∈ b.expired, ∀ timer ∈ w.queue.heap e.ptr,
    timer.repeats = true → FitsInt64 (b.now + timer.interval)
  | _ => True

instance (w : TimerLoop) : (a : TimerStep) → Decidable (w.NoOverflow a)
  | .newTimer _ _ => .isTrue trivial
  | .addTimerInLoop _ _ => inferInstanceAs (Decidable (∀ _ ∈ _, _))
  | .cancelInLoop _ => .isTrue trivial
  | .beginHandleRead _ _ => .isTrue trivial
  | .runCallback => .isTrue trivial
  | .endHandleRead _ => inferInstanceAs (Decidable (∀ _ ∈ _, ∀ _ ∈ _, ∀ _ ∈ _, _ → _))
  | .expire => .isTrue trivial

instance (w : TimerLoop) (a : TimerStep) :
    Decidable ((clockedMachine.restrict NoOverflow).Allows w a) :=
  inferInstanceAs (Decidable (_ ∧ _))

/-- The timers that have to be guarded in the present phase. -/
structure Armed (w : TimerLoop) : Prop where
  clock : 0 < w.clock
  fits : ∀ p timer, w.queue.heap p = some timer → FitsInt64 timer.expiration
  idle : w.batch = none → w.queue.Guarded fun _ => True
  busy : ∀ b ∈ w.batch, 0 < b.now ∧ w.queue.Guarded (· ≤ 0)

theorem Armed.congr {w' : TimerLoop} (h : w.Armed) (hclock : w.clock ≤ w'.clock)
    (hfits : ∀ p timer, w'.queue.heap p = some timer → FitsInt64 timer.expiration)
    (hbatch : w'.batch = w.batch)
    (hqueue : ∀ P, (∀ s t : Timestamp, s ≤ t → P t → P s) → w.queue.Guarded P →
      w'.queue.Guarded P) : w'.Armed := by
  constructor
  · exact h.clock.trans_le hclock
  · exact hfits
  · intro hb
    exact hqueue _ (fun _ _ _ _ => trivial) (h.idle (hbatch ▸ hb))
  · intro b hb
    obtain ⟨hnow, hg⟩ := h.busy b (hbatch ▸ hb)
    exact ⟨hnow, hqueue _ (fun s t hle ht => le_trans hle ht) hg⟩

theorem armed_init {clock : Timestamp} (h : 0 < clock) : (init clock).Armed := by
  constructor
  · exact h
  · intro p timer ht
    cases ht
  · intro _ e he
    exact absurd he OrderedSet.not_mem_empty
  · simp [init]

theorem store_fits {q : TimerQueue} {p : TimerPtr} {stored : Option Timer}
    (h : ∀ p timer, q.heap p = some timer → FitsInt64 timer.expiration)
    (hnew : ∀ timer ∈ stored, FitsInt64 timer.expiration) :
    ∀ p' timer, (q.store p stored).heap p' = some timer → FitsInt64 timer.expiration := by
  intro p' timer ht
  by_cases heq : p' = p
  · subst heq
    have hself : (q.store p' stored).heap p' = stored := Function.update_self _ _ _
    exact hnew timer (hself.symm.trans ht)
  · exact h p' timer ((Function.update_of_ne heq _ _).symm.trans ht)

theorem step_armed (h : w.Consistent S) (harmed : w.Armed) {a : TimerStep} {w' : TimerLoop}
    (ha : w.Allows a) (hc : w.ClockAllows a) (hn : w.NoOverflow a) (hw' : w.step a = .ok w') :
    w'.Armed := by
  cases a with
  | newTimer p timer =>
    cases hw'
    refine harmed.congr le_rfl (store_fits harmed.fits ?_) rfl fun _ _ hg => hg
    rintro _ ⟨rfl⟩
    exact hc.1
  | addTimerInLoop p clock =>
    obtain ⟨hS, timer, ht⟩ := h.outside p (List.mem_append_left _ ha.2)
    simp only [step, addTimerInLoop_ok h.stores ht hS clock, ok_bind] at hw'
    cases hw'
    exact harmed.congr hc.1 harmed.fits rfl fun _ hP hg => hg.added hP (hn timer ht)
  | cancelInLoop id =>
    rcases cancelInLoop_ok h.stores id with ⟨timer, -, -, -, hok⟩ | ⟨canceling, hok⟩
    · simp only [step, hok, ok_bind] at hw'
      cases hw'
      exact harmed.congr le_rfl (store_fits harmed.fits (by simp)) rfl fun _ _ hg => hg.erased
    · simp only [step, hok, ok_bind] at hw'
      cases hw'
      exact harmed.congr le_rfl harmed.fits rfl fun _ _ hg => hg
  | beginHandleRead now readAt =>
    obtain ⟨active, hok, hstores⟩ := beginHandleRead_ok h.stores h.bound_stored now readAt
    simp only [step, hok, ok_bind] at hw'
    cases hw'
    have hnow : 0 < now := harmed.clock.trans_le hc.1
    refine ⟨hnow.trans_le hc.2.1, harmed.fits, by simp, ?_⟩
    rintro b ⟨rfl⟩
    exact ⟨hnow, guarded_opened hnow hstores⟩
  | runCallback =>
    obtain ⟨b, hmem, hrest⟩ := ha
    obtain ⟨-, rest, ran, -, hok, -⟩ := runCallback_consistent h hmem hrest
    rw [step, hok] at hw'
    cases hw'
    refine ⟨harmed.clock, harmed.fits, by simp, ?_⟩
    rintro b' ⟨rfl⟩
    exact harmed.busy b hmem
  | endHandleRead clock =>
    obtain ⟨b, hmem, -⟩ := ha
    have hb : w.batch = some b := hmem
    obtain ⟨hnodup, hout⟩ := h.batch_outside hb
    obtain ⟨q, next, hok, hstores, hret, -, hnext⟩ :=
      endHandleRead_ok h.stores hout hnodup b.now clock
    simp only [step, hb, hok, ok_bind] at hw'
    cases hw'
    obtain ⟨hnow, hg⟩ := harmed.busy b hmem
    have hclock : 0 < clock := harmed.clock.trans_le hc.1
    have hfits : ∀ p timer, q.heap p = some timer → FitsInt64 timer.expiration := by
      intro p timer' ht'
      obtain ⟨timer, ht, rfl | rfl⟩ := hret.timers p timer' ht'
      · exact harmed.fits p timer' ht
      · exact timer.restart_fits b.now
    refine ⟨hclock, hfits, fun _ => guarded_closed hnow hclock hc.2 hg hret ?_ ?_ hnext, by simp⟩
    · intro p hp timer ht hr
      obtain ⟨e, he, rfl⟩ := List.mem_map.mp hp
      exact hn b hmem e he timer ht hr
    · rintro ⟨when, p⟩ he
      obtain ⟨-, timer, ht, rfl⟩ := (hstores.timers when p).mp he
      exact hfits p timer ht
  | expire =>
    cases hw'
    exact harmed.congr le_rfl harmed.fits rfl fun _ _ _ _ _ _ => .inl rfl

theorem clockedMachine_step (w : TimerLoop) (a : TimerStep)
    (h : (∃ S, w.Consistent S) ∧ w.Armed)
    (ha : (clockedMachine.restrict NoOverflow).Allows w a) :
    ∃ w', (clockedMachine.restrict NoOverflow).step w a = .ok w' ∧
      (∃ S, w'.Consistent S) ∧ w'.Armed := by
  obtain ⟨⟨S, hS⟩, harmed⟩ := h
  obtain ⟨⟨hallows, hclock⟩, hfits⟩ := ha
  obtain ⟨w', hw', hS'⟩ := step_consistent hS hallows
  exact ⟨w', hw', hS', step_armed hS harmed hallows hclock hfits hw'⟩

/-- The first of two timers is cancelled, the descriptor expires early, and the
callback of the other adds a timer that has no valid time. -/
def earlyAndInvalid : List TimerStep :=
  [.newTimer 8 (.once 5000 1), .newTimer 16 (.every 7000 20 2),
    .addTimerInLoop 16 1000, .addTimerInLoop 8 1000, .cancelInLoop ⟨8, 1⟩, .expire,
    .beginHandleRead 5000 5000, .endHandleRead 5001, .beginHandleRead 7000 7003, .runCallback,
    .newTimer 8 (.once (-1) 3), .addTimerInLoop 8 7005, .endHandleRead 7006]

/-- A timer for the least value of an `int64_t`, and one for a moment later. -/
def earliestEver : List TimerStep :=
  [.newTimer 8 (.once (-2 ^ 63) 1), .addTimerInLoop 8 1000, .newTimer 16 (.once 5000 2),
    .addTimerInLoop 16 2000]

/-- A timer that repeats after the greatest value of an `int64_t`. -/
def longestInterval : List TimerStep :=
  [.newTimer 8 (.every 5000 (2 ^ 63 - 1) 1), .addTimerInLoop 8 1000, .beginHandleRead 5000 5000,
    .runCallback, .endHandleRead 5001]

end TimerLoop
end Muduo
