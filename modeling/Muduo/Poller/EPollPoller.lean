import Muduo.Poller.Poller

/-!
# The poller over `epoll(4)`

The kernel's set is changed by `epoll_ctl`, one descriptor at a time. Which of
its operations is needed follows from the channel's `index_`: a channel is new,
added, or deleted, the last when it lost its interest but is still known to the
poller. A deleted channel whose interest is updated is added again whatever its
interest is, so a second call that takes interest away puts the descriptor back
into the kernel's set, with no events asked for.
-/

namespace Muduo

open Foundations

inductive EPollOp where
  | add
  | mod
  | del
  deriving DecidableEq, Repr

/-- `epoll_ctl(2)`. It fails with `EEXIST` or `ENOENT`. -/
def epollCtl {δ : Type} (kernel : ℤ → Option δ) (fd : ℤ) (event : δ) :
    EPollOp → Option (ℤ → Option δ)
  | .add => if (kernel fd).isSome then none else some (Function.update kernel fd (some event))
  | .mod => if (kernel fd).isSome then some (Function.update kernel fd (some event)) else none
  | .del => if (kernel fd).isSome then some (Function.update kernel fd none) else none

structure EPollPoller (ι : Type) where
  channels : ℤ → Option ι
  index : ι → ℤ
  /-- what the kernel holds for `epollfd_`: the events and the pointer in `data` -/
  kernel : ℤ → Option (PollEvents × ι)

namespace EPollPoller

def kNew : ℤ := -1

def kAdded : ℤ := 1

def kDeleted : ℤ := 2

variable {ι : Type} [DecidableEq ι]

def init : EPollPoller ι where
  channels _ := none
  index _ := kNew
  kernel _ := none

/-- The descriptors in the kernel's set and the events asked for. -/
def watched (p : EPollPoller ι) : Set (ℤ × PollEvents) :=
  {w | ∃ i, p.kernel w.1 = some (w.2, i)}

variable (D : Descriptors ι) (p : EPollPoller ι)

def setIndex (i : ι) (index : ℤ) : EPollPoller ι :=
  { p with index := Function.update p.index i index }

def update (op : EPollOp) (i : ι) (c : Channel) : Except Fault (EPollPoller ι) :=
  match epollCtl p.kernel (D.fd i) (c.events, i) op with
  | some kernel => .ok { p with kernel := kernel }
  | none =>
    match op with
    -- `LOG_SYSERR`
    | .del => .ok p
    -- `LOG_SYSFATAL` aborts, as a failed assertion does
    | .add | .mod => .error .assertion

def updateChannel (i : ι) (c : Channel) : Except Fault (EPollPoller ι) :=
  let index := p.index i
  let fd := D.fd i
  if index = kNew ∨ index = kDeleted then do
    let p ←
      if index = kNew then do
        assertThat (p.channels fd = none)
        pure { p with channels := Function.update p.channels fd (some i) }
      else do
        assertThat (p.channels fd ≠ none)
        assertThat (p.channels fd = some i)
        pure p
    (p.setIndex i kAdded).update D .add i c
  else do
    assertThat (p.channels fd ≠ none)
    assertThat (p.channels fd = some i)
    assertThat (index = kAdded)
    if c.isNoneEvent then do
      let p ← p.update D .del i c
      return p.setIndex i kDeleted
    else
      p.update D .mod i c

def removeChannel (i : ι) (c : Channel) : Except Fault (EPollPoller ι) := do
  let fd := D.fd i
  assertThat (p.channels fd ≠ none)
  assertThat (p.channels fd = some i)
  assertThat (c.isNoneEvent = true)
  let index := p.index i
  assertThat (index = kAdded ∨ index = kDeleted)
  -- `erase` returns 1: the descriptor has just been found
  let p := { p with channels := Function.update p.channels fd none }
  let p ← if index = kAdded then p.update D .del i c else .ok p
  return p.setIndex i kNew

def poller : Poller ι (EPollPoller ι) where
  updateChannel p := p.updateChannel D
  removeChannel p := p.removeChannel D

/-- The poller with everything it holds about channel `i` replaced. -/
def put (i : ι) (index : ℤ) (entry : Option ι) (watch : Option (PollEvents × ι)) :
    EPollPoller ι where
  channels := Function.update p.channels (D.fd i) entry
  index := Function.update p.index i index
  kernel := Function.update p.kernel (D.fd i) watch

/-- What the poller holds about channel `i`, whose members are `c`. -/
inductive Slot (i : ι) (c : Channel) : Prop
  | unregistered (added : c.addedToLoop = false) (index : p.index i = kNew)
      (entry : p.channels (D.fd i) = none) (watch : p.kernel (D.fd i) = none)
  | added (added : c.addedToLoop = true) (index : p.index i = kAdded)
      (entry : p.channels (D.fd i) = some i) (watch : p.kernel (D.fd i) = some (c.events, i))
  | deleted (added : c.addedToLoop = true) (idle : c.isNoneEvent = true)
      (index : p.index i = kDeleted) (entry : p.channels (D.fd i) = some i)
      (watch : p.kernel (D.fd i) = none)

section Spec

variable {D p} {i : ι} {c : Channel}

theorem updateChannel_new (hindex : p.index i = kNew) (hentry : p.channels (D.fd i) = none)
    (hwatch : p.kernel (D.fd i) = none) :
    p.updateChannel D i c = .ok (p.put D i kAdded (some i) (some (c.events, i))) := by
  simp [updateChannel, hindex, hentry, setIndex, update, epollCtl, hwatch, put]

theorem updateChannel_deleted (hindex : p.index i = kDeleted)
    (hentry : p.channels (D.fd i) = some i) (hwatch : p.kernel (D.fd i) = none) :
    p.updateChannel D i c = .ok (p.put D i kAdded (some i) (some (c.events, i))) := by
  have hnew : kDeleted ≠ kNew := by decide
  have hchannels : Function.update p.channels (D.fd i) (some i) = p.channels :=
    Function.update_eq_self_iff.mpr hentry.symm
  simp [updateChannel, hindex, hnew, hentry, setIndex, update, epollCtl, hwatch, put, hchannels]

theorem updateChannel_added {e : PollEvents} (hindex : p.index i = kAdded)
    (hentry : p.channels (D.fd i) = some i) (hwatch : p.kernel (D.fd i) = some (e, i)) :
    p.updateChannel D i c = .ok (if c.isNoneEvent then p.put D i kDeleted (some i) none
      else p.put D i kAdded (some i) (some (c.events, i))) := by
  have hnew : kAdded ≠ kNew := by decide
  have hdeleted : kAdded ≠ kDeleted := by decide
  have hchannels : Function.update p.channels (D.fd i) (some i) = p.channels :=
    Function.update_eq_self_iff.mpr hentry.symm
  have hkept : Function.update p.index i kAdded = p.index :=
    Function.update_eq_self_iff.mpr hindex.symm
  cases hc : c.isNoneEvent with
  | true =>
    simp [updateChannel, hindex, hnew, hdeleted, hentry, setIndex, update, epollCtl, hwatch, put,
      hc, hchannels]
  | false =>
    simp [updateChannel, hindex, hnew, hdeleted, hentry, update, epollCtl, hwatch, put, hc,
      hchannels, hkept]

theorem removeChannel_added {e : PollEvents} (hindex : p.index i = kAdded)
    (hentry : p.channels (D.fd i) = some i) (hwatch : p.kernel (D.fd i) = some (e, i))
    (hidle : c.isNoneEvent = true) :
    p.removeChannel D i c = .ok (p.put D i kNew none none) := by
  simp [removeChannel, hindex, hentry, hidle, setIndex, update, epollCtl, hwatch, put]

theorem removeChannel_deleted (hindex : p.index i = kDeleted)
    (hentry : p.channels (D.fd i) = some i) (hwatch : p.kernel (D.fd i) = none)
    (hidle : c.isNoneEvent = true) :
    p.removeChannel D i c = .ok (p.put D i kNew none none) := by
  have hadded : kDeleted ≠ kAdded := by decide
  have hkernel : Function.update p.kernel (D.fd i) none = p.kernel :=
    Function.update_eq_self_iff.mpr hwatch.symm
  simp [removeChannel, hindex, hentry, hidle, hadded, setIndex, put, hkernel]

theorem Slot.put_of_ne {j : ι} (hj : j ≠ i) (h : p.Slot D j c) (index : ℤ) (entry : Option ι)
    (watch : Option (PollEvents × ι)) : (p.put D i index entry watch).Slot D j c := by
  have hfd : D.fd j ≠ D.fd i := D.distinct.ne hj
  cases h with
  | unregistered hadded hindex hentry hwatch =>
    exact .unregistered hadded (by simpa [put, hj]) (by simpa [put, hfd]) (by simpa [put, hfd])
  | added hadded hindex hentry hwatch =>
    exact .added hadded (by simpa [put, hj]) (by simpa [put, hfd]) (by simpa [put, hfd])
  | deleted hadded hidle hindex hentry hwatch =>
    exact .deleted hadded hidle (by simpa [put, hj]) (by simpa [put, hfd]) (by simpa [put, hfd])

end Spec

/-- The poller's members fit the members of the channels. -/
structure Tracks (channel : ι → Channel) : Prop where
  slot : ∀ i, p.Slot D i (channel i)
  own : ∀ n e i, p.kernel n = some (e, i) → n = D.fd i

/-- The kernel watches no channel without interest. -/
def Tight (channel : ι → Channel) : Prop :=
  ∀ i, (channel i).isNoneEvent = true → p.kernel (D.fd i) = none

section Invariant

variable {D p} {channel : ι → Channel} {i : ι} {c : Channel}

omit [DecidableEq ι] in
theorem tracks_init : (init : EPollPoller ι).Tracks D (fun _ => .init) where
  slot _ := .unregistered rfl rfl rfl rfl
  own _ _ _ h := by cases h

omit [DecidableEq ι] in
theorem tight_init : (init : EPollPoller ι).Tight D (fun _ => .init) := fun _ _ => rfl

theorem Tracks.put (h : p.Tracks D channel) {index : ℤ} {entry : Option ι}
    {watch : Option (PollEvents × ι)} (hslot : (p.put D i index entry watch).Slot D i c)
    (hown : ∀ w ∈ watch, w.2 = i) :
    (p.put D i index entry watch).Tracks D (Function.update channel i c) where
  slot j := by
    by_cases hj : j = i
    · subst hj
      simpa using hslot
    · simpa [hj] using (h.slot j).put_of_ne hj index entry watch
  own n e j hn := by
    by_cases hfd : n = D.fd i
    · have hw : watch = some (e, j) := by simpa [EPollPoller.put, hfd] using hn
      obtain rfl : j = i := hown (e, j) hw
      exact hfd
    · exact h.own n e j (by simpa [EPollPoller.put, hfd] using hn)

/-- The descriptor of a registered channel is left unwatched exactly by the call
that takes away its last interest while it is watched. -/
theorem updateChannel_spec (h : p.Tracks D channel) (i : ι) (hadded : c.addedToLoop = true) :
    ∃ q, p.updateChannel D i c = .ok q ∧ q.Tracks D (Function.update channel i c) ∧
      (∀ j, j ≠ i → q.kernel (D.fd j) = p.kernel (D.fd j)) ∧
      (q.kernel (D.fd i) = none ↔ c.isNoneEvent = true ∧ p.kernel (D.fd i) ≠ none) := by
  have hframe : ∀ index entry watch j, j ≠ i →
      (p.put D i index entry watch).kernel (D.fd j) = p.kernel (D.fd j) := by
    intro index entry watch j hj
    simp [EPollPoller.put, D.distinct.ne hj]
  have hnow : (p.put D i kAdded (some i) (some (c.events, i))).Slot D i c :=
    .added hadded (by simp [EPollPoller.put]) (by simp [EPollPoller.put])
      (by simp [EPollPoller.put])
  have hput := h.put hnow (by simp)
  cases h.slot i with
  | unregistered _ hindex hentry hwatch =>
    refine ⟨_, updateChannel_new hindex hentry hwatch, hput, hframe _ _ _, ?_⟩
    simp [EPollPoller.put, hwatch]
  | deleted _ _ hindex hentry hwatch =>
    refine ⟨_, updateChannel_deleted hindex hentry hwatch, hput, hframe _ _ _, ?_⟩
    simp [EPollPoller.put, hwatch]
  | added _ hindex hentry hwatch =>
    refine ⟨_, updateChannel_added hindex hentry hwatch, ?_⟩
    cases hc : c.isNoneEvent with
    | false =>
      refine ⟨hput, hframe _ _ _, ?_⟩
      simp [EPollPoller.put]
    | true =>
      have hgone : (p.put D i kDeleted (some i) none).Slot D i c :=
        .deleted hadded hc (by simp [EPollPoller.put]) (by simp [EPollPoller.put])
          (by simp [EPollPoller.put])
      refine ⟨h.put hgone (by simp), hframe _ _ _, ?_⟩
      simp [EPollPoller.put, hwatch]

theorem removeChannel_spec (h : p.Tracks D channel) (i : ι)
    (hregistered : (channel i).addedToLoop = true) (hidle : c.isNoneEvent = true)
    (hadded : c.addedToLoop = false) :
    ∃ q, p.removeChannel D i c = .ok q ∧ q.Tracks D (Function.update channel i c) ∧
      (∀ j, j ≠ i → q.kernel (D.fd j) = p.kernel (D.fd j)) ∧ q.kernel (D.fd i) = none := by
  have hgone : (p.put D i kNew none none).Slot D i c :=
    .unregistered hadded (by simp [EPollPoller.put]) (by simp [EPollPoller.put])
      (by simp [EPollPoller.put])
  refine ⟨p.put D i kNew none none, ?_, h.put hgone (by simp), ?_, by simp [EPollPoller.put]⟩
  · cases h.slot i with
    | unregistered hnot _ _ _ => simp [hnot] at hregistered
    | added _ hindex hentry hwatch => exact removeChannel_added hindex hentry hwatch hidle
    | deleted _ _ hindex hentry hwatch => exact removeChannel_deleted hindex hentry hwatch hidle
  · intro j hj
    simp [EPollPoller.put, D.distinct.ne hj]

omit [DecidableEq ι] in
/-- The kernel's set is the wanted one exactly when it holds no channel without
interest. -/
theorem watched_eq_wanted_iff {t : Roster ι} (h : p.Tracks D t.channel) :
    p.watched = t.wanted D ↔ p.Tight D t.channel := by
  constructor
  · intro heq i hidle
    cases h.slot i with
    | unregistered _ _ _ hwatch => exact hwatch
    | deleted _ _ _ _ hwatch => exact hwatch
    | added _ _ _ hwatch =>
      have hmem : (D.fd i, (t.channel i).events) ∈ t.wanted D := by
        rw [← heq]
        exact ⟨i, hwatch⟩
      obtain ⟨j, -, hbusy, hj⟩ := hmem
      rw [← D.distinct (Prod.mk.inj hj).1, hidle] at hbusy
      cases hbusy
  · intro htight
    ext ⟨n, e⟩
    constructor
    · rintro ⟨i, hi⟩
      obtain rfl := h.own n e i hi
      cases h.slot i with
      | unregistered _ _ _ hwatch => simp [hwatch] at hi
      | deleted _ _ _ _ hwatch => simp [hwatch] at hi
      | added hadded _ _ hwatch =>
        rw [hwatch] at hi
        cases hi
        refine ⟨i, hadded, ?_, rfl⟩
        by_contra hidle
        have := htight i (by simpa using hidle)
        simp [hwatch] at this
    · rintro ⟨i, hadded, hbusy, hw⟩
      cases hw
      cases h.slot i with
      | unregistered hnot _ _ _ => simp [hnot] at hadded
      | deleted _ hidle _ _ _ => simp [hidle] at hbusy
      | added _ _ _ hwatch => exact ⟨i, hwatch⟩

end Invariant

/-- The channels are as asked for, and the poller's members fit them. -/
structure Follows (s : PolledChannels ι (EPollPoller ι)) (t : Roster ι) : Prop where
  channel : s.channel = t.channel
  tracks : s.poller.Tracks D t.channel

section Call

variable {D} {s : PolledChannels ι (EPollPoller ι)} {t : Roster ι} {a : ι × ChannelCall}

theorem call_remove_spec (h : Follows D s t) {i : ι} (ha : t.Orderly (i, .remove)) :
    ∃ s', s.call (poller D) (i, .remove) = .ok s' ∧ Follows D s' (t.next (i, .remove)) ∧
      (∀ j, j ≠ i → s'.poller.kernel (D.fd j) = s.poller.kernel (D.fd j)) ∧
      s'.poller.kernel (D.fd i) = none := by
  obtain ⟨hregistered, hidle⟩ := ha
  obtain ⟨q, hq, htracks, hframe, hgone⟩ := removeChannel_spec h.tracks i hregistered
    (show (ChannelCall.remove.apply (t.channel i)).isNoneEvent = true from hidle) rfl
  exact ⟨_, PolledChannels.call_remove_ok h.channel hidle hq, ⟨rfl, htracks⟩, hframe, hgone⟩

theorem call_update_spec (h : Follows D s t) (ha : a.2 ≠ .remove) :
    ∃ s', s.call (poller D) a = .ok s' ∧ Follows D s' (t.next a) ∧
      (∀ j, j ≠ a.1 → s'.poller.kernel (D.fd j) = s.poller.kernel (D.fd j)) ∧
      (s'.poller.kernel (D.fd a.1) = none ↔
        (a.2.apply (t.channel a.1)).isNoneEvent = true ∧ s.poller.kernel (D.fd a.1) ≠ none) := by
  obtain ⟨q, hq, htracks, hframe, hwatch⟩ := updateChannel_spec h.tracks a.1
    (ChannelCall.addedToLoop_apply ha (t.channel a.1))
  exact ⟨_, PolledChannels.call_update_ok h.channel ha hq, ⟨rfl, htracks⟩, hframe, hwatch⟩

theorem call_follows (h : Follows D s t) (ha : t.Orderly a) :
    ∃ s', s.call (poller D) a = .ok s' ∧ Follows D s' (t.next a) := by
  obtain ⟨i, c⟩ := a
  by_cases hc : c = .remove
  · subst hc
    obtain ⟨s', hs', hfollows, -⟩ := call_remove_spec h ha
    exact ⟨s', hs', hfollows⟩
  · obtain ⟨s', hs', hfollows, -⟩ := call_update_spec (a := (i, c)) h hc
    exact ⟨s', hs', hfollows⟩

theorem call_tight (h : Follows D s t) (htight : s.poller.Tight D t.channel) (ha : t.Orderly a)
    (heffective : t.Effective a) {s' : PolledChannels ι (EPollPoller ι)}
    (hs' : s.call (poller D) a = .ok s') : s'.poller.Tight D (t.next a).channel := by
  obtain ⟨i, c⟩ := a
  intro j hj
  by_cases hc : c = .remove
  · subst hc
    obtain ⟨s₁, hs₁, -, hframe, hgone⟩ := call_remove_spec h ha
    obtain rfl : s₁ = s' := Except.ok.inj (hs₁.symm.trans hs')
    by_cases hji : j = i
    · rw [hji, hgone]
    · rw [hframe j hji]
      exact htight j (by simpa [Roster.next, hji] using hj)
  · obtain ⟨s₁, hs₁, -, hframe, hwatch⟩ := call_update_spec (a := (i, c)) h hc
    obtain rfl : s₁ = s' := Except.ok.inj (hs₁.symm.trans hs')
    by_cases hji : j = i
    · subst hji
      have hidle : (c.apply (t.channel j)).isNoneEvent = true := by simpa [Roster.next] using hj
      have hdisabling : c.isDisabling = true := by
        cases c with
        | enableReading | enableWriting =>
          rw [ChannelCall.isNoneEvent_apply_enabling rfl] at hidle
          cases hidle
        | remove => exact absurd rfl hc
        | _ => rfl
      have hbusy := heffective hdisabling
      rw [hwatch]
      refine ⟨hidle, ?_⟩
      cases h.tracks.slot j with
      | unregistered hnot =>
        rcases ha.of_ne_remove hc with henabling | hadded
        · cases c <;> simp_all [ChannelCall.isEnabling, ChannelCall.isDisabling]
        · simp [hnot] at hadded
      | deleted _ hnone => simp [hnone] at hbusy
      | added _ _ _ hkernel => simp [hkernel]
    · rw [hframe j hji]
      exact htight j (by simpa [Roster.next, hji] using hj)

/-- A call that takes away what is not there puts the descriptor back. -/
theorem call_not_tight (h : Follows D s t) (htight : s.poller.Tight D t.channel)
    (hidle : ¬ t.Effective a) {s' : PolledChannels ι (EPollPoller ι)}
    (hs' : s.call (poller D) a = .ok s') : ¬ s'.poller.Tight D (t.next a).channel := by
  obtain ⟨i, c⟩ := a
  obtain ⟨hdisabling, hnone⟩ : c.isDisabling = true ∧ (t.channel i).isNoneEvent = true := by
    simpa [Roster.Effective] using hidle
  have hc : c ≠ .remove := by
    rintro rfl
    cases hdisabling
  obtain ⟨s₁, hs₁, -, -, hwatch⟩ := call_update_spec (a := (i, c)) h hc
  obtain rfl : s₁ = s' := Except.ok.inj (hs₁.symm.trans hs')
  intro htight'
  have hback := htight' i (by
    simpa [Roster.next] using ChannelCall.isNoneEvent_apply_disabling hdisabling hnone)
  exact (hwatch.mp hback).2 (htight i hnone)

end Call

def machine : Machine (PolledChannels ι (EPollPoller ι)) (ι × ChannelCall) Fault :=
  PolledChannels.machine (poller D)

def start : PolledChannels ι (EPollPoller ι) where
  channel _ := .init
  poller := init

/-- The kernel watches what is wanted behind every call exactly if no call takes
interest away from a channel that has none. -/
theorem watched_at_prefixes_iff (calls : List (ι × ChannelCall))
    (horderly : Roster.machine.Permits (Roster.init : Roster ι) calls) :
    (∀ done, done <+: calls → ∃ s, (machine D).run start done = .ok s ∧
        s.poller.watched = (done.foldl Roster.next Roster.init).wanted D) ↔
      (Machine.ofNext Roster.Effective Roster.next : Machine (Roster ι) _ Fault).Permits
        Roster.init calls := by
  have hgood : ∀ (s : PolledChannels ι (EPollPoller ι)) (t : Roster ι),
      Follows D s t ∧ s.poller.Tight D t.channel → s.poller.watched = t.wanted D := by
    rintro s t ⟨hfollows, htight⟩
    exact (watched_eq_wanted_iff hfollows.tracks).mpr htight
  have hcalm : ∀ (s : PolledChannels ι (EPollPoller ι)) (t : Roster ι) (a : ι × ChannelCall),
      Follows D s t ∧ s.poller.Tight D t.channel → t.Orderly a → t.Effective a →
        ∃ s', (machine D).step s a = .ok s' ∧
          Follows D s' (t.next a) ∧ s'.poller.Tight D (t.next a).channel := by
    rintro s t a ⟨hfollows, htight⟩ ha heffective
    obtain ⟨s', hs', hfollows'⟩ := call_follows hfollows ha
    exact ⟨s', hs', hfollows', call_tight hfollows htight ha heffective hs'⟩
  have hrash : ∀ (s : PolledChannels ι (EPollPoller ι)) (t : Roster ι) (a : ι × ChannelCall)
      (s' : PolledChannels ι (EPollPoller ι)),
      Follows D s t ∧ s.poller.Tight D t.channel → t.Orderly a → ¬ t.Effective a →
        (machine D).step s a = .ok s' → ¬ s'.poller.watched = (t.next a).wanted D := by
    rintro s t a s' ⟨hfollows, htight⟩ ha hidle hs' hwatched
    obtain ⟨s₁, hs₁, hfollows'⟩ := call_follows hfollows ha
    obtain rfl : s₁ = s' := Except.ok.inj (hs₁.symm.trans hs')
    exact call_not_tight hfollows htight hidle hs₁
      ((watched_eq_wanted_iff hfollows'.tracks).mp hwatched)
  exact (machine D).holds_at_prefixes_iff hgood hcalm hrash calls start Roster.init
    ⟨⟨rfl, tracks_init⟩, tight_init⟩ horderly

end EPollPoller
end Muduo
