import Muduo.Timers.TimerQueue

/-!
# The two sets of a timer queue agree

Seen from outside a timer queue stores a set of timers. `Stores q S` says that
both ordered sets are the set `S`, indexed by what the timers are at present:
`timers_` by expiration, `activeTimers_` by sequence number. Each operation is
described by what it does to `S`; that nothing asserted fails follows, because
two indexes of one set have the same size and find the same timers.
-/

namespace Muduo

open Foundations

namespace TimerQueue

/-- `timers_` indexes the timers of `S`. -/
def TimersAre (q : TimerQueue) (S : Set TimerPtr) : Prop :=
  ∀ when p, toLex (when, p) ∈ q.timers ↔
    p ∈ S ∧ ∃ timer, q.heap p = some timer ∧ timer.expiration = when

/-- `activeTimers_` indexes the timers of `S`. -/
def ActiveAre (q : TimerQueue) (S : Set TimerPtr) : Prop :=
  ∀ p n, toLex (p, n) ∈ q.activeTimers ↔
    p ∈ S ∧ ∃ timer, q.heap p = some timer ∧ timer.sequence = n

structure Stores (q : TimerQueue) (S : Set TimerPtr) : Prop where
  live : ∀ p ∈ S, ∃ timer, q.heap p = some timer
  timers : q.TimersAre S
  active : q.ActiveAre S

variable {q : TimerQueue} {S : Set TimerPtr} {p : TimerPtr} {timer : Timer}

theorem deref_ok (h : q.heap p = some timer) : q.deref p = .ok timer := by
  rw [deref, h]

theorem free_ok (h : q.heap p = some timer) : q.free p = .ok (q.store p none) := by
  rw [free, deref_ok h]
  rfl

theorem Stores.ptr_injective (h : q.Stores S) {e f : Entry} (he : e ∈ q.timers)
    (hf : f ∈ q.timers) (hp : e.ptr = f.ptr) : e = f := by
  obtain ⟨when, p⟩ := e
  obtain ⟨when', p'⟩ := f
  obtain ⟨-, timer, ht, rfl⟩ := (h.timers when p).mp he
  obtain ⟨-, timer', ht', rfl⟩ := (h.timers when' p').mp hf
  cases (hp : p = p')
  cases ht.symm.trans ht'
  rfl

theorem Stores.sizes (h : q.Stores S) : q.timers.size = q.activeTimers.size := by
  apply OrderedSet.size_eq_of_same_image Entry.ptr (fun a => (ofLex a).1)
  · intro e he f hf hp
    exact h.ptr_injective he hf hp
  · rintro ⟨p, n⟩ hx ⟨p', n'⟩ hy hp
    obtain ⟨-, timer, ht, rfl⟩ := (h.active p n).mp hx
    obtain ⟨-, timer', ht', rfl⟩ := (h.active p' n').mp hy
    cases (hp : p = p')
    cases ht.symm.trans ht'
    rfl
  · intro p
    constructor
    · rintro ⟨⟨when, p⟩, hx, rfl⟩
      obtain ⟨hp, timer, ht, -⟩ := (h.timers when p).mp hx
      exact ⟨_, (h.active p timer.sequence).mpr ⟨hp, timer, ht, rfl⟩, rfl⟩
    · rintro ⟨⟨p, n⟩, hx, rfl⟩
      obtain ⟨hp, timer, ht, -⟩ := (h.active p n).mp hx
      exact ⟨_, (h.timers timer.expiration p).mpr ⟨hp, timer, ht, rfl⟩, rfl⟩

theorem Stores.assertSizes_ok (h : q.Stores S) : q.assertSizes = .ok () :=
  assertThat_pos h.sizes

theorem Stores.store_other (h : q.Stores S) (hp : p ∉ S) (t : Option Timer) :
    (q.store p t).Stores S := by
  have hheap : ∀ p' ∈ S, (q.store p t).heap p' = q.heap p' := by
    intro p' hp'
    have hne : p' ≠ p := by
      rintro rfl
      exact hp hp'
    exact Function.update_of_ne hne _ _
  constructor
  · intro p' hp'
    rw [hheap p' hp']
    exact h.live p' hp'
  · intro when p'
    refine (h.timers when p').trans (and_congr_right fun hp' => ?_)
    rw [hheap p' hp']
  · intro p' n
    refine (h.active p' n).trans (and_congr_right fun hp' => ?_)
    rw [hheap p' hp']

def inserted (q : TimerQueue) (p : TimerPtr) (timer : Timer) : TimerQueue :=
  { q with
    timers := (q.timers.insert (toLex (timer.expiration, p))).1
    activeTimers := (q.activeTimers.insert (toLex (p, timer.sequence))).1 }

theorem Stores.inserted (h : q.Stores S) (hp : q.heap p = some timer) :
    (q.inserted p timer).Stores (Insert.insert p S) := by
  constructor
  · rintro p' (rfl | hp')
    · exact ⟨timer, hp⟩
    · exact h.live p' hp'
  · intro when p'
    simp only [TimerQueue.inserted, OrderedSet.mem_insert, h.timers when p', toLex_inj,
      Prod.mk.injEq, Set.mem_insert_iff]
    grind
  · intro p' n
    simp only [TimerQueue.inserted, OrderedSet.mem_insert, h.active p' n, toLex_inj,
      Prod.mk.injEq, Set.mem_insert_iff]
    grind

theorem insert_ok (h : q.Stores S) (hp : q.heap p = some timer) (hnew : p ∉ S) :
    q.insert p = .ok (q.isEarliest timer.expiration, q.inserted p timer) := by
  have ht : toLex (timer.expiration, p) ∉ q.timers := fun hm => hnew ((h.timers _ p).mp hm).1
  have ha : toLex (p, timer.sequence) ∉ q.activeTimers := fun hm => hnew ((h.active p _).mp hm).1
  have hsizes := (h.inserted hp).assertSizes_ok
  rw [TimerQueue.inserted] at hsizes
  simp [insert, h.assertSizes_ok, deref_ok hp, OrderedSet.insert_new ht, OrderedSet.insert_new ha,
    hsizes, TimerQueue.inserted]

/-- The queue behind `addTimerInLoop`. -/
def added (q : TimerQueue) (p : TimerPtr) (timer : Timer) (clock : Timestamp) : TimerQueue :=
  { q.inserted p timer with
    timerfd :=
      if q.isEarliest timer.expiration then resetTimerfd timer.expiration clock else q.timerfd }

theorem Stores.added (h : q.Stores S) (hp : q.heap p = some timer) (clock : Timestamp) :
    (q.added p timer clock).Stores (Insert.insert p S) := by
  obtain ⟨hlive, htimers, hactive⟩ := h.inserted hp
  exact ⟨hlive, htimers, hactive⟩

theorem addTimerInLoop_ok (h : q.Stores S) (hp : q.heap p = some timer) (hnew : p ∉ S)
    (clock : Timestamp) : q.addTimerInLoop p clock = .ok (q.added p timer clock) := by
  have hderef : (q.inserted p timer).deref p = .ok timer := deref_ok hp
  by_cases he : q.isEarliest timer.expiration = true
  · simp [addTimerInLoop, insert_ok h hp hnew, he, hderef, TimerQueue.added]
  · simp [addTimerInLoop, insert_ok h hp hnew, he, TimerQueue.added]
    rfl

/-- The queue without a timer that it stored, whose object is gone. -/
def erased (q : TimerQueue) (p : TimerPtr) (timer : Timer) : TimerQueue :=
  { q.store p none with
    timers := (q.timers.erase (toLex (timer.expiration, p))).1
    activeTimers := (q.activeTimers.erase (toLex (p, timer.sequence))).1 }

theorem Stores.erased (h : q.Stores S) (hp : q.heap p = some timer) :
    (q.erased p timer).Stores (S \ {p}) := by
  have hheap : ∀ p' ≠ p, (q.erased p timer).heap p' = q.heap p' := by
    intro p' hne
    exact Function.update_of_ne hne _ _
  constructor
  · rintro p' ⟨hp', hne⟩
    rw [hheap p' hne]
    exact h.live p' hp'
  · intro when p'
    by_cases hne : p' = p
    · subst hne
      simp only [TimerQueue.erased, OrderedSet.mem_erase, h.timers when p', ne_eq, toLex_inj,
        Prod.mk.injEq]
      grind
    · rw [hheap p' hne]
      simp [TimerQueue.erased, OrderedSet.mem_erase, h.timers when p', hne]
  · intro p' n
    by_cases hne : p' = p
    · subst hne
      simp only [TimerQueue.erased, OrderedSet.mem_erase, h.active p' n, ne_eq, toLex_inj,
        Prod.mk.injEq]
      grind
    · rw [hheap p' hne]
      simp [TimerQueue.erased, OrderedSet.mem_erase, h.active p' n, hne]

theorem eraseTimer_ok (h : q.Stores S) (hp : p ∈ S) (ht : q.heap p = some timer) :
    q.eraseTimer ⟨p, timer.sequence⟩ = .ok (q.erased p timer) := by
  have hmem : toLex (timer.expiration, p) ∈ q.timers :=
    (h.timers _ p).mpr ⟨hp, timer, ht, rfl⟩
  have hfree : ∀ timers, { q with timers := timers }.free p =
      .ok ({ q with timers := timers }.store p none) := fun _ => free_ok ht
  simp [eraseTimer, deref_ok ht, OrderedSet.erase_one hmem, hfree]
  rfl

theorem cancelInLoop_active (h : q.Stores S) {id : TimerId}
    (hm : toLex (id.timer, id.sequence) ∈ q.activeTimers) :
    ∃ timer, id.timer ∈ S ∧ q.heap id.timer = some timer ∧ timer.sequence = id.sequence ∧
      q.cancelInLoop id = .ok (q.erased id.timer timer) := by
  obtain ⟨hp, timer, ht, hseq⟩ := (h.active _ _).mp hm
  refine ⟨timer, hp, ht, hseq, ?_⟩
  have hid : id = ⟨id.timer, timer.sequence⟩ := by
    rw [hseq]
  rw [hid] at hm ⊢
  simp [cancelInLoop, h.assertSizes_ok, hm, eraseTimer_ok h hp ht, (h.erased ht).assertSizes_ok]

/-- The queue behind a cancellation of a timer that is not in it. -/
def remembered (q : TimerQueue) (id : TimerId) : TimerQueue :=
  { q with
    cancelingTimers :=
      if q.callingExpiredTimers then (q.cancelingTimers.insert (toLex (id.timer, id.sequence))).1
      else q.cancelingTimers }

theorem cancelInLoop_inactive (h : q.Stores S) {id : TimerId}
    (hm : toLex (id.timer, id.sequence) ∉ q.activeTimers) :
    q.cancelInLoop id = .ok (q.remembered id) := by
  have hsizes : ∀ canceling, { q with cancelingTimers := canceling }.assertSizes = .ok () :=
    fun _ => h.assertSizes_ok
  by_cases hc : q.callingExpiredTimers = true
  · simp only [cancelInLoop, h.assertSizes_ok, if_neg hm, if_pos hc, ok_bind, hsizes, remembered]
    rfl
  · simp only [cancelInLoop, h.assertSizes_ok, if_neg hm, if_neg hc, ok_bind, remembered]
    rfl

/-- A cancelled timer leaves the set when it is in it; otherwise the call is at
most remembered. -/
theorem cancelInLoop_ok (h : q.Stores S) (id : TimerId) :
    (∃ timer, id.timer ∈ S ∧ q.heap id.timer = some timer ∧ timer.sequence = id.sequence ∧
        q.cancelInLoop id = .ok (q.erased id.timer timer)) ∨
      (∃ canceling, q.cancelInLoop id = .ok { q with cancelingTimers := canceling }) := by
  by_cases hm : toLex (id.timer, id.sequence) ∈ q.activeTimers
  · exact .inl (cancelInLoop_active h hm)
  · exact .inr ⟨_, cancelInLoop_inactive h hm⟩

theorem eraseActive_ok {es : List Entry} (ha : q.ActiveAre S)
    (hlive : ∀ p ∈ S, ∃ timer, q.heap p = some timer)
    (hes : ∀ e ∈ es, e.ptr ∈ S) (hnodup : (es.map Entry.ptr).Nodup) :
    ∃ active, q.eraseActive es = .ok { q with activeTimers := active } ∧
      ActiveAre { q with activeTimers := active } (S \ {p | p ∈ es.map Entry.ptr}) := by
  induction es generalizing q S with
  | nil => exact ⟨q.activeTimers, rfl, by simpa using ha⟩
  | cons e es ih =>
    obtain ⟨hnew, hnodup⟩ := List.nodup_cons.mp hnodup
    have hp : e.ptr ∈ S := hes e (by simp)
    obtain ⟨timer, ht⟩ := hlive e.ptr hp
    have hmem : toLex (e.ptr, timer.sequence) ∈ q.activeTimers :=
      (ha _ _).mpr ⟨hp, timer, ht, rfl⟩
    have hne : ∀ f ∈ es, f.ptr ≠ e.ptr := by
      intro f hf heq
      exact hnew (heq ▸ List.mem_map_of_mem hf)
    have ha' : ActiveAre { q with
        activeTimers := (q.activeTimers.erase (toLex (e.ptr, timer.sequence))).1 }
      (S \ {e.ptr}) := by
      intro p n
      simp only [OrderedSet.mem_erase, ha p n, ne_eq, toLex_inj, Prod.mk.injEq, Set.mem_sdiff,
        Set.mem_singleton_iff]
      grind
    obtain ⟨active, hactive, hare⟩ := ih ha' (fun p hp => hlive p hp.1)
      (fun f hf => ⟨hes f (by simp [hf]), hne f hf⟩) hnodup
    refine ⟨active, ?_, ?_⟩
    · simp only [eraseActive, deref_ok ht, ok_bind, OrderedSet.erase_one hmem]
      exact hactive
    · convert hare using 1
      ext p
      simp only [Set.mem_sdiff, Set.mem_ofPred_eq, List.map_cons, List.mem_cons,
        Set.mem_singleton_iff]
      tauto

/-- The timers that have not expired at `now`. -/
def after (q : TimerQueue) (S : Set TimerPtr) (now : Timestamp) : Set TimerPtr :=
  {p ∈ S | ∀ timer, q.heap p = some timer → now < timer.expiration}

theorem lt_sentry_iff {when now : Timestamp} (hp : p < uintptrMax) :
    (toLex (when, p) : Entry) < toLex (now, uintptrMax) ↔ when ≤ now := by
  rw [Prod.Lex.toLex_lt_toLex]
  constructor
  · rintro (hlt | ⟨heq, -⟩)
    · exact hlt.le
    · exact heq.le
  · intro hle
    rcases lt_or_eq_of_le hle with hlt | heq
    · exact .inl hlt
    · exact .inr ⟨heq, hp⟩

/-- The entries that `getExpired` moves out are those of the expired timers. -/
theorem Stores.mem_below (h : q.Stores S) (hbound : ∀ p ∈ S, p < uintptrMax)
    {now when : Timestamp} :
    toLex (when, p) ∈ q.timers.below (toLex (now, uintptrMax)) ↔
      p ∈ S ∧ ∃ timer, q.heap p = some timer ∧ timer.expiration = when ∧ when ≤ now := by
  rw [OrderedSet.mem_below, h.timers when p]
  constructor
  · rintro ⟨⟨hp, timer, ht, rfl⟩, hlt⟩
    exact ⟨hp, timer, ht, rfl, (lt_sentry_iff (hbound p hp)).mp hlt⟩
  · rintro ⟨hp, timer, ht, rfl, hle⟩
    exact ⟨⟨hp, timer, ht, rfl⟩, (lt_sentry_iff (hbound p hp)).mpr hle⟩

theorem Stores.expired_ptr_iff (h : q.Stores S) (hbound : ∀ p ∈ S, p < uintptrMax)
    (now : Timestamp) (p : TimerPtr) :
    p ∈ (q.timers.below (toLex (now, uintptrMax))).map Entry.ptr ↔
      p ∈ S ∧ ∃ timer, q.heap p = some timer ∧ timer.expiration ≤ now := by
  rw [List.mem_map]
  constructor
  · rintro ⟨⟨when, p⟩, he, rfl⟩
    obtain ⟨hp, timer, ht, rfl, hle⟩ := (h.mem_below hbound).mp he
    exact ⟨hp, timer, ht, hle⟩
  · rintro ⟨hp, timer, ht, hle⟩
    exact ⟨toLex (timer.expiration, p), (h.mem_below hbound).mpr ⟨hp, timer, ht, rfl, hle⟩, rfl⟩

theorem Stores.expired_nodup (h : q.Stores S) (now : Timestamp) :
    ((q.timers.below (toLex (now, uintptrMax))).map Entry.ptr).Nodup := by
  apply OrderedSet.below_nodup.map_on
  intro e he f hf hp
  exact h.ptr_injective (OrderedSet.mem_below.mp he).1 (OrderedSet.mem_below.mp hf).1 hp

theorem Stores.not_expired (h : q.Stores S) (hbound : ∀ p ∈ S, p < uintptrMax) (now : Timestamp) :
    S \ {p | p ∈ (q.timers.below (toLex (now, uintptrMax))).map Entry.ptr} = q.after S now := by
  ext p
  simp only [Set.mem_sdiff, Set.mem_ofPred_eq, h.expired_ptr_iff hbound, after]
  constructor
  · rintro ⟨hp, hn⟩
    exact ⟨hp, fun timer ht => not_le.mp fun hle => hn ⟨hp, timer, ht, hle⟩⟩
  · rintro ⟨hp, hlt⟩
    exact ⟨hp, fun ⟨_, timer, ht, hle⟩ => absurd (hlt timer ht) (not_lt.mpr hle)⟩

theorem Stores.onwards (h : q.Stores S) (hbound : ∀ p ∈ S, p < uintptrMax) (now : Timestamp) :
    TimersAre { q with timers := q.timers.onwards (toLex (now, uintptrMax)) } (q.after S now) := by
  intro when p
  simp only [OrderedSet.mem_onwards, h.timers when p, after, Set.mem_ofPred_eq]
  constructor
  · rintro ⟨⟨hp, timer, ht, rfl⟩, hle⟩
    refine ⟨⟨hp, ?_⟩, timer, ht, rfl⟩
    intro timer' ht'
    cases ht.symm.trans ht'
    by_contra hlt
    exact absurd ((lt_sentry_iff (hbound p hp)).mpr (not_lt.mp hlt)) (not_lt.mpr hle)
  · rintro ⟨⟨hp, hlt⟩, timer, ht, rfl⟩
    refine ⟨⟨hp, timer, ht, rfl⟩, ?_⟩
    by_contra hle
    exact absurd (hlt timer ht) (not_lt.mpr ((lt_sentry_iff (hbound p hp)).mp (not_le.mp hle)))

theorem isEarliest_onwards (h : q.TimersAre (q.after S now)) : q.isEarliest now = true := by
  unfold isEarliest
  cases hf : q.timers.first with
  | none => rfl
  | some e =>
    obtain ⟨when, p⟩ := e
    obtain ⟨⟨-, hlt⟩, timer, ht, rfl⟩ := (h when p).mp (OrderedSet.mem_of_first hf)
    exact decide_eq_true (hlt timer ht)

theorem getExpired_ok (h : q.Stores S) (hbound : ∀ p ∈ S, p < uintptrMax) (now : Timestamp) :
    ∃ active, q.getExpired now = .ok (q.timers.below (toLex (now, uintptrMax)),
        { q with
          timers := q.timers.onwards (toLex (now, uintptrMax))
          activeTimers := active }) ∧
      Stores { q with
        timers := q.timers.onwards (toLex (now, uintptrMax))
        activeTimers := active } (q.after S now) := by
  have hfirst : isEarliest { q with timers := q.timers.onwards (toLex (now, uintptrMax)) } now
      = true := isEarliest_onwards (h.onwards hbound now)
  obtain ⟨active, hactive, hare⟩ := eraseActive_ok
    (q := { q with timers := q.timers.onwards (toLex (now, uintptrMax)) }) h.active h.live
    (fun e he => ((h.expired_ptr_iff hbound now _).mp (List.mem_map_of_mem he)).1)
    (h.expired_nodup now)
  rw [h.not_expired hbound now] at hare
  have hstores : Stores { q with
      timers := q.timers.onwards (toLex (now, uintptrMax))
      activeTimers := active } (q.after S now) :=
    ⟨fun p hp => h.live p hp.1, h.onwards hbound now, hare⟩
  refine ⟨active, ?_, hstores⟩
  simp [getExpired, h.assertSizes_ok, hfirst, hactive, hstores.assertSizes_ok]

/-- The queue while the callbacks of the timers expired at `now` are run. -/
def opened (q : TimerQueue) (now readAt : Timestamp) (active : OrderedSet ActiveTimer) :
    TimerQueue :=
  { q with
    timers := q.timers.onwards (toLex (now, uintptrMax))
    activeTimers := active
    callingExpiredTimers := true
    cancelingTimers := .empty
    timerfd := readTimerfd q.timerfd readAt }

theorem beginHandleRead_ok (h : q.Stores S) (hbound : ∀ p ∈ S, p < uintptrMax)
    (now readAt : Timestamp) :
    ∃ active, q.beginHandleRead now readAt =
        .ok (q.timers.below (toLex (now, uintptrMax)), q.opened now readAt active) ∧
      (q.opened now readAt active).Stores (q.after S now) := by
  have hread : Stores { q with timerfd := readTimerfd q.timerfd readAt } S :=
    ⟨h.live, h.timers, h.active⟩
  obtain ⟨active, hget, hlive, htimers, hactive⟩ := getExpired_ok hread hbound now
  refine ⟨active, ?_, hlive, htimers, hactive⟩
  simp [beginHandleRead, hget, opened]

/-- The timers of a batch that `reset` starts again. -/
def restarted (q : TimerQueue) (es : List Entry) : Set TimerPtr :=
  {p | p ∈ es.map Entry.ptr ∧ ∃ timer, q.heap p = some timer ∧ timer.repeats = true ∧
    toLex (p, timer.sequence) ∉ q.cancelingTimers}

/-- What the loop of `reset` leaves alone, and what it makes of its timers. -/
structure Returned (q q' : TimerQueue) (ps : List TimerPtr) (now : Timestamp) : Prop where
  timerfd : q'.timerfd = q.timerfd
  canceling : q'.cancelingTimers = q.cancelingTimers
  heap : ∀ p ∉ ps, q'.heap p = q.heap p
  none : ∀ p, q.heap p = none → q'.heap p = none
  timers : ∀ p timer', q'.heap p = some timer' →
    ∃ timer, q.heap p = some timer ∧ (timer' = timer ∨ timer' = timer.restart now)
  entries : ∀ e ∈ q'.timers, e ∈ q.timers ∨ ∃ p ∈ ps, ∃ timer, q.heap p = some timer ∧
    timer.repeats = true ∧ (ofLex e).1 = (timer.restart now).expiration

theorem Returned.cons {q₁ q₂ : TimerQueue} {ps : List TimerPtr} {now : Timestamp}
    (h : Returned q q₁ [p] now) (h' : Returned q₁ q₂ ps now) (hp : p ∉ ps) :
    Returned q q₂ (p :: ps) now := by
  have hother : ∀ p' ∈ ps, q₁.heap p' = q.heap p' := by
    intro p' hp'
    refine h.heap p' fun hm => hp ?_
    rwa [← List.mem_singleton.mp hm]
  constructor
  · exact h'.timerfd.trans h.timerfd
  · exact h'.canceling.trans h.canceling
  · intro p' hp'
    rw [List.mem_cons, not_or] at hp'
    rw [h'.heap p' hp'.2, h.heap p' (by simpa using hp'.1)]
  · exact fun p hp => h'.none p (h.none p hp)
  · intro p' timer' ht'
    by_cases hm : p' ∈ ps
    · rw [← hother p' hm]
      exact h'.timers p' timer' ht'
    · rw [h'.heap p' hm] at ht'
      exact h.timers p' timer' ht'
  · intro e he
    rcases h'.entries e he with he | ⟨p', hp', timer, ht, hlate⟩
    · rcases h.entries e he with he | ⟨p', hp', hlate⟩
      · exact .inl he
      · exact .inr ⟨p', by simp [List.mem_singleton.mp hp'], hlate⟩
    · rw [hother p' hp'] at ht
      exact .inr ⟨p', List.mem_cons_of_mem p hp', timer, ht, hlate⟩

theorem returned_restart (now : Timestamp) (hp : q.heap p = some timer)
    (hr : timer.repeats = true) :
    Returned q ((q.store p (timer.restart now)).inserted p (timer.restart now)) [p] now := by
  have hother : ∀ p' ≠ p, (q.store p (timer.restart now)).heap p' = q.heap p' :=
    fun p' hne => Function.update_of_ne hne _ _
  refine ⟨rfl, rfl, ?_, ?_, ?_, ?_⟩
  · intro p' hp'
    exact hother p' (by simpa using hp')
  · intro p' hnone
    have hne : p' ≠ p := by
      rintro rfl
      simp [hp] at hnone
    exact (hother p' hne).trans hnone
  · intro p' timer' ht'
    by_cases heq : p' = p
    · subst heq
      have hself : some (timer.restart now) = some timer' :=
        (Function.update_self p' _ q.heap).symm.trans ht'
      exact ⟨timer, hp, .inr (Option.some.inj hself).symm⟩
    · exact ⟨timer', (hother p' heq).symm.trans ht', .inl rfl⟩
  · intro e he
    rcases OrderedSet.mem_insert.mp he with rfl | he
    · exact .inr ⟨p, List.mem_singleton_self p, timer, hp, hr, rfl⟩
    · exact .inl he

theorem returned_free (q : TimerQueue) (p : TimerPtr) (now : Timestamp) :
    Returned q (q.store p none) [p] now := by
  refine ⟨rfl, rfl, ?_, ?_, ?_, fun e he => .inl he⟩
  · intro p' hp'
    exact Function.update_of_ne (by simpa using hp') _ _
  · intro p' hnone
    by_cases heq : p' = p
    · subst heq
      exact Function.update_self _ _ _
    · exact (Function.update_of_ne heq _ _).trans hnone
  · intro p' timer' ht'
    by_cases heq : p' = p
    · subst heq
      have hgone : (q.store p' none).heap p' = none := Function.update_self _ _ _
      cases hgone.symm.trans ht'
    · exact ⟨timer', (Function.update_of_ne heq _ _).symm.trans ht', .inl rfl⟩

theorem restarted_congr {q₁ : TimerQueue} {es : List Entry} {now : Timestamp}
    (h : Returned q q₁ [p] now) (hnew : p ∉ es.map Entry.ptr) :
    q₁.restarted es = q.restarted es := by
  ext p'
  simp only [restarted, Set.mem_ofPred_eq, h.canceling]
  apply and_congr_right
  intro hp'
  have hne : p' ≠ p := by
    rintro rfl
    exact hnew hp'
  rw [h.heap p' (by simpa using hne)]

theorem restarted_cons_pos {e : Entry} {es : List Entry} (ht : q.heap e.ptr = some timer)
    (hr : timer.repeats = true ∧ toLex (e.ptr, timer.sequence) ∉ q.cancelingTimers) :
    q.restarted (e :: es) = Insert.insert e.ptr (q.restarted es) := by
  ext p
  simp only [restarted, List.map_cons, List.mem_cons, Set.mem_ofPred_eq, Set.mem_insert_iff]
  grind

theorem restarted_cons_neg {e : Entry} {es : List Entry} (ht : q.heap e.ptr = some timer)
    (hr : ¬ (timer.repeats = true ∧ toLex (e.ptr, timer.sequence) ∉ q.cancelingTimers)) :
    q.restarted (e :: es) = q.restarted es := by
  ext p
  simp only [restarted, List.map_cons, List.mem_cons, Set.mem_ofPred_eq]
  grind

theorem resetEntries_ok (now : Timestamp) {es : List Entry} (h : q.Stores S)
    (hout : ∀ p ∈ es.map Entry.ptr, p ∉ S ∧ ∃ timer, q.heap p = some timer)
    (hnodup : (es.map Entry.ptr).Nodup) :
    ∃ q', q.resetEntries now es = .ok q' ∧ q'.Stores (S ∪ q.restarted es) ∧
      Returned q q' (es.map Entry.ptr) now := by
  induction es generalizing q S with
  | nil =>
    refine ⟨q, rfl, ?_, rfl, rfl, fun _ _ => rfl, fun _ => id,
      fun _ timer ht => ⟨timer, ht, .inl rfl⟩, fun e he => .inl he⟩
    simpa [restarted] using h
  | cons e es ih =>
    obtain ⟨hnew, hnodup⟩ := List.nodup_cons.mp hnodup
    obtain ⟨hp, timer, ht⟩ := hout e.ptr (by simp)
    have hout' : ∀ (q₁ : TimerQueue) (S₁ : Set TimerPtr), Returned q q₁ [e.ptr] now →
        S₁ ⊆ Insert.insert e.ptr S →
        ∀ p ∈ es.map Entry.ptr, p ∉ S₁ ∧ ∃ timer, q₁.heap p = some timer := by
      intro q₁ S₁ hret hsub p hm
      obtain ⟨hpS, timer', ht'⟩ := hout p (by simp [hm])
      have hne : p ≠ e.ptr := by
        rintro rfl
        exact hnew hm
      refine ⟨fun hp₁ => ?_, timer', ?_⟩
      · rcases hsub hp₁ with heq | hp₁
        · exact hne heq
        · exact hpS hp₁
      · rw [hret.heap p (by simpa using hne), ht']
    by_cases hr : timer.repeats = true ∧ toLex (e.ptr, timer.sequence) ∉ q.cancelingTimers
    · have hstored := h.store_other hp (some (timer.restart now))
      have hheap : (q.store e.ptr (timer.restart now)).heap e.ptr = some (timer.restart now) :=
        Function.update_self _ _ _
      have hret := returned_restart now ht hr.1
      obtain ⟨q', hq', hstores, hret'⟩ := ih (hstored.inserted hheap)
        (hout' _ _ hret subset_rfl) hnodup
      refine ⟨q', ?_, ?_, hret.cons hret' hnew⟩
      · simp only [resetEntries, deref_ok ht, ok_bind, if_pos hr, insert_ok hstored hheap hp]
        exact hq'
      · rw [restarted_congr hret hnew] at hstores
        rwa [restarted_cons_pos ht hr, Set.union_insert, ← Set.insert_union]
    · have hret := returned_free q e.ptr now
      obtain ⟨q', hq', hstores, hret'⟩ := ih (h.store_other hp none)
        (hout' _ _ hret (Set.subset_insert _ _)) hnodup
      refine ⟨q', ?_, ?_, hret.cons hret' hnew⟩
      · simp only [resetEntries, deref_ok ht, ok_bind, if_neg hr, free_ok ht]
        exact hq'
      · rw [restarted_congr hret hnew] at hstores
        rwa [restarted_cons_neg ht hr]

theorem nextExpire_ok (h : q.Stores S) :
    ∃ next, q.nextExpire = .ok next ∧
      (q.timers.first = none → next = Timestamp.invalid) ∧
      ∀ e, q.timers.first = some e → next = (ofLex e).1 := by
  unfold nextExpire
  cases hf : q.timers.first with
  | none => exact ⟨_, rfl, fun _ => rfl, by simp⟩
  | some e =>
    obtain ⟨when, p⟩ := e
    obtain ⟨-, timer, ht, rfl⟩ := (h.timers when p).mp (OrderedSet.mem_of_first hf)
    refine ⟨timer.expiration, ?_, by simp, ?_⟩
    · have hderef : q.deref (Entry.ptr (timer.expiration, p)) = .ok timer := deref_ok ht
      simp [hderef]
    · rintro e ⟨rfl⟩
      rfl

/-- The queue behind `reset`, when `q` is behind its loop. -/
def closed (q : TimerQueue) (next clock : Timestamp) : TimerQueue :=
  { q with timerfd := if Timestamp.valid next then resetTimerfd next clock else q.timerfd }

theorem endHandleRead_ok (h : q.Stores S) {es : List Entry}
    (hout : ∀ p ∈ es.map Entry.ptr, p ∉ S ∧ ∃ timer, q.heap p = some timer)
    (hnodup : (es.map Entry.ptr).Nodup) (now clock : Timestamp) :
    ∃ q' next, q.endHandleRead es now clock = .ok (q'.closed next clock) ∧
      q'.Stores (S ∪ q.restarted es) ∧
      Returned { q with callingExpiredTimers := false } q' (es.map Entry.ptr) now ∧
      (q'.timers.first = none → next = Timestamp.invalid) ∧
      ∀ e, q'.timers.first = some e → next = (ofLex e).1 := by
  have hstart : Stores { q with callingExpiredTimers := false } S := ⟨h.live, h.timers, h.active⟩
  obtain ⟨q', hq', hstores, hret⟩ := resetEntries_ok now hstart hout hnodup
  obtain ⟨next, hnext, hnone, hsome⟩ := nextExpire_ok hstores
  refine ⟨q', next, ?_, hstores, hret, hnone, hsome⟩
  by_cases hv : Timestamp.valid next = true
  · simp [endHandleRead, reset, hq', hnext, closed, hv]
  · simp [endHandleRead, reset, hq', hnext, closed, hv]

end TimerQueue
end Muduo
