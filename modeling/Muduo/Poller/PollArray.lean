import Mathlib.Data.Set.Card
import Muduo.Poller.PollPoller

/-!
# The array handed to `poll(2)`

Each registered channel has one entry of the array, at the position in its
`index_`. Any interest may be changed at any time here, also by a first call that
takes interest away, and a channel is removed once it has no interest. Two things
break the array's assertions: a channel that comes back behind its removal, since
its index was not reset; and the removal of a channel that was registered without
interest and not called since, whose entry is not marked as ignored. As long as
neither happens, `fillActiveChannels` finds exactly the channels that `poll`
reported.
-/

namespace Muduo

open Foundations

/-- A roster that also tells the channels that were registered without interest,
and whose interest was not changed since. -/
structure PollRoster (ι : Type) extends Roster ι where
  quiet : ι → Bool

namespace PollRoster

variable {ι : Type}

def init : PollRoster ι := ⟨Roster.init, fun _ => false⟩

def next [DecidableEq ι] (t : PollRoster ι) (a : ι × ChannelCall) : PollRoster ι where
  toRoster := t.toRoster.next a
  quiet :=
    if a.2 = .remove then t.quiet
    else Function.update t.quiet a.1 (!(t.channel a.1).addedToLoop && !a.2.isEnabling)

variable (t : PollRoster ι)

/-- Any change of interest, and the removal of a registered channel without any. -/
def Proper (a : ι × ChannelCall) : Prop :=
  a.2 = .remove → (t.channel a.1).addedToLoop = true ∧ (t.channel a.1).isNoneEvent = true

/-- A channel does not come back, and is not removed straight behind a
registration without interest. -/
def Careful (a : ι × ChannelCall) : Prop :=
  t.removed a.1 = false ∧ (a.2 = .remove → t.quiet a.1 = false)

instance (a : ι × ChannelCall) : Decidable (t.Proper a) :=
  inferInstanceAs (Decidable (_ → _))

instance (a : ι × ChannelCall) : Decidable (t.Careful a) :=
  inferInstanceAs (Decidable (_ ∧ _))

variable [DecidableEq ι]

def machine : Machine (PollRoster ι) (ι × ChannelCall) Fault := Machine.ofNext Proper next

def carefulMachine : Machine (PollRoster ι) (ι × ChannelCall) Fault := Machine.ofNext Careful next

instance (a : ι × ChannelCall) : Decidable (machine.Allows t a) :=
  inferInstanceAs (Decidable (t.Proper a))

instance (a : ι × ChannelCall) : Decidable (carefulMachine.Allows t a) :=
  inferInstanceAs (Decidable (t.Careful a))

end PollRoster

namespace PollPoller

variable {ι : Type} (D : Descriptors ι)

/-- The channels with events, in the order of the array. The masks that `poll` sets
have no sign bit, so that `revents > 0` is `revents != 0`. -/
def fillActiveChannels (channels : ℤ → Option ι) :
    ℤ → List PollFd → Except Fault (List (ι × PollEvents))
  | _, [] => .ok []
  | numEvents, pfd :: pollfds =>
    if 0 < numEvents then
      if pfd.revents ≠ .kNoneEvent then
        match channels pfd.fd with
        | none => .error .assertion
        | some channel => do
          assertThat (D.fd channel = pfd.fd)
          let activeChannels ← fillActiveChannels channels (numEvents - 1) pollfds
          return (channel, pfd.revents) :: activeChannels
      else fillActiveChannels channels numEvents pollfds
    else .ok []

/-- The array behind `poll`. -/
def polled (pollfds : List PollFd) (revents : List PollEvents) : List PollFd :=
  List.zipWith (fun pfd r => { pfd with revents := r }) pollfds revents

/-- What `poll` may set: nothing where the descriptor is negative. -/
structure MaySet (pollfds : List PollFd) (revents : List PollEvents) : Prop where
  length_eq : revents.length = pollfds.length
  ignored : ∀ (k : ℕ) pfd r, pollfds[k]? = some pfd → revents[k]? = some r → pfd.fd < 0 →
    r = .kNoneEvent

/-- Each registered channel has its entry, and nobody else has one. -/
structure Indexed (s : PolledChannels ι (PollPoller ι)) : Prop where
  size : {n | s.poller.channels n ≠ none}.ncard = s.poller.pollfds.length
  registered : ∀ i, (s.channel i).addedToLoop = true ↔ s.poller.channels (D.fd i) = some i
  entry : ∀ i, (s.channel i).addedToLoop = true → ∃ (k : ℕ) (pfd : PollFd),
    s.poller.index i = k ∧ s.poller.pollfds[k]? = some pfd ∧
      (pfd.fd = D.fd i ∨ pfd.fd = -D.fd i - 1) ∧ pfd.events = (s.channel i).events
  unregistered : ∀ i, (s.channel i).addedToLoop = false → ∀ pfd ∈ s.poller.pollfds,
    pfd.fd ≠ D.fd i ∧ pfd.fd ≠ -D.fd i - 1

/-- Exactly the channels that `poll` reports are active, each once and with its own
events. -/
def Fills (s : PolledChannels ι (PollPoller ι)) : Prop :=
  ∀ revents, MaySet s.poller.pollfds revents →
    ∃ active, fillActiveChannels D s.poller.channels (revents.countP (· ≠ .kNoneEvent))
        (polled s.poller.pollfds revents) = .ok active ∧
      (active.map Prod.fst).Nodup ∧
      ∀ i r, (i, r) ∈ active ↔ (s.channel i).addedToLoop = true ∧ r ≠ .kNoneEvent ∧
        ∃ k : ℕ, s.poller.index i = k ∧ revents[k]? = some r

/-- What the search finds, if there are as many events as it counts. -/
theorem fillActiveChannels_eq {channels : ℤ → Option ι} (pollfds : List PollFd)
    (h : ∀ pfd ∈ pollfds, pfd.revents ≠ .kNoneEvent → ∃ i, channels pfd.fd = some i ∧
      D.fd i = pfd.fd) :
    fillActiveChannels D channels (pollfds.countP (·.revents ≠ .kNoneEvent)) pollfds =
      .ok (pollfds.filterMap fun pfd =>
        if pfd.revents ≠ .kNoneEvent then (channels pfd.fd).map (·, pfd.revents) else none) := by
  induction pollfds with
  | nil => rfl
  | cons pfd pollfds ih =>
    rw [List.forall_mem_cons] at h
    have ih := ih h.2
    rw [fillActiveChannels]
    by_cases hevents : pfd.revents ≠ .kNoneEvent
    · obtain ⟨i, hi, hfd⟩ := h.1 hevents
      have hcount : (pfd :: pollfds).countP (·.revents ≠ .kNoneEvent) =
          pollfds.countP (·.revents ≠ .kNoneEvent) + 1 :=
        List.countP_cons_of_pos (by simpa using hevents)
      have hpos : (0 : ℤ) < (pollfds.countP (·.revents ≠ .kNoneEvent) + 1 : ℕ) := by omega
      rw [hcount, if_pos hpos, if_pos hevents, hi]
      simp only [Nat.cast_add, Nat.cast_one, add_sub_cancel_right, assertThat_pos hfd, ok_bind, ih,
        pure_eq_ok, List.filterMap_cons, if_pos hevents, hi, Option.map_some]
    · have hcount : (pfd :: pollfds).countP (·.revents ≠ .kNoneEvent) =
          pollfds.countP (·.revents ≠ .kNoneEvent) :=
        List.countP_cons_of_neg (by simpa using hevents)
      rw [hcount, if_neg hevents, List.filterMap_cons, if_neg hevents, ← ih]
      split_ifs with hpos
      · rfl
      · have hzero : (pollfds.countP (·.revents ≠ .kNoneEvent) : ℤ) = 0 := by omega
        rw [hzero]
        cases pollfds <;> rfl

theorem polled_eq_some {pollfds : List PollFd} {revents : List PollEvents} {k : ℕ} {e : PollFd} :
    (polled pollfds revents)[k]? = some e ↔ ∃ pfd r, pollfds[k]? = some pfd ∧
      revents[k]? = some r ∧ { pfd with revents := r } = e :=
  List.getElem?_zipWith_eq_some

theorem map_fd_polled {pollfds : List PollFd} {revents : List PollEvents}
    (h : revents.length = pollfds.length) :
    (polled pollfds revents).map PollFd.fd = pollfds.map PollFd.fd := by
  rw [polled, List.map_zipWith]
  induction pollfds generalizing revents with
  | nil => simp
  | cons pfd pollfds ih =>
    cases revents with
    | nil => simp at h
    | cons r revents => simpa using ih (by simpa using h)

theorem countP_polled {pollfds : List PollFd} {revents : List PollEvents}
    (h : revents.length = pollfds.length) :
    (polled pollfds revents).countP (·.revents ≠ .kNoneEvent) =
      revents.countP (· ≠ .kNoneEvent) := by
  have hmap : (polled pollfds revents).map PollFd.revents = revents := by
    rw [polled, List.map_zipWith]
    induction pollfds generalizing revents with
    | nil => simpa using (List.length_eq_zero_iff.mp h).symm
    | cons pfd pollfds ih =>
      cases revents with
      | nil => simp at h
      | cons r revents => simpa using ih (by simpa using h)
  conv_rhs => rw [← hmap, List.countP_map]
  rfl

section Invariant

variable {D} {ent : ι → PollFd} {t : Roster ι} {s : PolledChannels ι (PollPoller ι)}

theorem Keeps.fd_nodup {p : PollPoller ι} (h : p.Keeps D ent t) :
    (p.pollfds.map PollFd.fd).Nodup := by
  rw [List.Nodup, List.pairwise_map, List.pairwise_iff_getElem]
  intro k k' hk hk' hlt heq
  obtain ⟨i, -, hindex, hi⟩ := h.owner (List.getElem?_eq_getElem hk)
  obtain ⟨j, -, hindex', hj⟩ := h.owner (List.getElem?_eq_getElem hk')
  rw [hi, hj] at heq
  rw [h.ent_fd_inj heq, hindex'] at hindex
  omega

theorem Keeps.size {p : PollPoller ι} (h : p.Keeps D ent t)
    (hmapped : ∀ n i, p.channels n = some i → D.fd i = n) :
    {n | p.channels n ≠ none}.ncard = p.pollfds.length := by
  let fdAt (k : ℕ) (hk : k < p.pollfds.length) : ℤ :=
    if (p.pollfds[k]).fd < 0 then -(p.pollfds[k]).fd - 1 else (p.pollfds[k]).fd
  have hfdAt : ∀ (k : ℕ) hk, ∃ i, (t.channel i).addedToLoop = true ∧ p.index i = k ∧
      fdAt k hk = D.fd i := by
    intro k hk
    obtain ⟨i, hadded, hindex, hi⟩ := h.owner (List.getElem?_eq_getElem hk)
    refine ⟨i, hadded, hindex, ?_⟩
    rw [← h.ent_owner i, ← hi]
  refine Set.ncard_eq_of_bijective fdAt ?_ ?_ ?_
  · intro n hn
    obtain ⟨i, hi⟩ := Option.ne_none_iff_exists'.mp hn
    obtain rfl := hmapped n i hi
    have hadded : (t.channel i).addedToLoop = true := by
      by_contra hnot
      rw [h.unregistered i (by simpa using hnot)] at hi
      cases hi
    obtain ⟨-, k, hk, hentry⟩ := h.registered i hadded
    have hlt := (List.getElem?_eq_some_iff.mp hentry).1
    obtain ⟨j, hj, hindex, hfd⟩ := hfdAt k hlt
    refine ⟨k, hlt, ?_⟩
    rw [hfd, h.index_inj hj hadded (hindex.trans hk.symm)]
  · intro k hk
    obtain ⟨i, hadded, -, hfd⟩ := hfdAt k hk
    show p.channels (fdAt k hk) ≠ none
    rw [hfd, (h.registered i hadded).1]
    simp
  · intro k k' hk hk' heq
    obtain ⟨i, -, hindex, hfd⟩ := hfdAt k hk
    obtain ⟨j, -, hindex', hfd'⟩ := hfdAt k' hk'
    rw [hfd, hfd'] at heq
    rw [D.distinct heq, hindex'] at hindex
    exact_mod_cast hindex.symm

/-- An entry with events belongs to a registered channel and is not ignored. -/
theorem owner_of_polled {p : PollPoller ι} (h : p.Keeps D ent t) {revents : List PollEvents}
    (hset : MaySet p.pollfds revents) {k : ℕ} {e : PollFd}
    (he : (polled p.pollfds revents)[k]? = some e) (hevents : e.revents ≠ .kNoneEvent) :
    ∃ i, (t.channel i).addedToLoop = true ∧ p.index i = k ∧ p.channels e.fd = some i ∧
      D.fd i = e.fd ∧ revents[k]? = some e.revents := by
  obtain ⟨pfd, r, hpfd, hr, rfl⟩ := polled_eq_some.mp he
  obtain ⟨i, hadded, hindex, rfl⟩ := h.owner hpfd
  have hfd : (ent i).fd = D.fd i := by
    have hpos : ¬ (ent i).fd < 0 := fun hneg => hevents (hset.ignored k _ r hpfd hr hneg)
    have := h.belongs i
    have := D.nonneg i
    omega
  exact ⟨i, hadded, hindex, by rw [hfd]; exact (h.registered i hadded).1, hfd.symm, hr⟩

/-- No channel is found twice if no descriptor is there twice. -/
theorem nodup_found {channels : ℤ → Option ι} (hmapped : ∀ n i, channels n = some i → D.fd i = n)
    {pollfds : List PollFd} (hnodup : (pollfds.map PollFd.fd).Nodup) :
    ((pollfds.filterMap fun pfd => if pfd.revents ≠ .kNoneEvent then
      (channels pfd.fd).map (·, pfd.revents) else none).map Prod.fst).Nodup := by
  have hfst : (pollfds.filterMap fun pfd => if pfd.revents ≠ .kNoneEvent then
      (channels pfd.fd).map (·, pfd.revents) else none).map Prod.fst =
      ((pollfds.filter (·.revents ≠ .kNoneEvent)).map PollFd.fd).filterMap channels := by
    rw [List.map_filterMap, List.filterMap_map, List.filterMap_filter]
    refine List.filterMap_congr fun pfd _ => ?_
    by_cases hevents : pfd.revents = .kNoneEvent
    · simp [hevents]
    · cases hchannel : channels pfd.fd <;> simp [hevents, hchannel]
  rw [hfst]
  refine List.Nodup.filterMap ?_ (hnodup.sublist (List.filter_sublist.map _))
  intro n n' i hn hn'
  rw [← hmapped n i hn, hmapped n' i hn']

theorem fills_of_keeps (hchannel : s.channel = t.channel) (h : s.poller.Keeps D ent t)
    (hmapped : ∀ n i, s.poller.channels n = some i → D.fd i = n) : Fills D s := by
  intro revents hset
  have hfound : ∀ e ∈ polled s.poller.pollfds revents, e.revents ≠ .kNoneEvent →
      ∃ i, s.poller.channels e.fd = some i ∧ D.fd i = e.fd := by
    intro e he hevents
    obtain ⟨k, hk⟩ := List.mem_iff_getElem?.mp he
    obtain ⟨i, -, -, hi, hfd, -⟩ := owner_of_polled h hset hk hevents
    exact ⟨i, hi, hfd⟩
  have hfill := fillActiveChannels_eq D (polled s.poller.pollfds revents) hfound
  rw [countP_polled hset.length_eq] at hfill
  have hnodup : ((polled s.poller.pollfds revents).map PollFd.fd).Nodup := by
    rw [map_fd_polled hset.length_eq]
    exact h.fd_nodup
  refine ⟨_, hfill, nodup_found hmapped hnodup, fun i r => ?_⟩
  rw [List.mem_filterMap, hchannel]
  constructor
  · rintro ⟨e, he, hfound⟩
    obtain ⟨k, hk⟩ := List.mem_iff_getElem?.mp he
    split_ifs at hfound with hevents
    obtain ⟨j, hadded, hindex, hj, -, hr⟩ := owner_of_polled h hset hk hevents
    rw [hj] at hfound
    cases hfound
    exact ⟨hadded, hevents, k, hindex, hr⟩
  · rintro ⟨hadded, hevents, k, hindex, hr⟩
    obtain ⟨hchannels, k', hk', hentry⟩ := h.registered i hadded
    obtain rfl : k = k' := by
      rw [hindex] at hk'
      exact_mod_cast hk'
    have he := polled_eq_some.mpr ⟨_, r, hentry, hr, rfl⟩
    obtain ⟨j, hj, hindexj, hfound, -, -⟩ := owner_of_polled h hset he hevents
    obtain rfl : j = i := h.index_inj hj hadded (hindexj.trans hindex.symm)
    refine ⟨_, List.mem_of_getElem? he, ?_⟩
    rw [if_pos hevents, hfound]
    rfl

theorem indexed_of_keeps (hchannel : s.channel = t.channel) (h : s.poller.Keeps D ent t)
    (hevents : ∀ i, (ent i).events = (t.channel i).events)
    (hmapped : ∀ n i, s.poller.channels n = some i → D.fd i = n) : Indexed D s := by
  have hregistered : ∀ i, (t.channel i).addedToLoop = true ↔
      s.poller.channels (D.fd i) = some i := by
    intro i
    cases hadded : (t.channel i).addedToLoop with
    | true => simpa using (h.registered i hadded).1
    | false => simp [h.unregistered i hadded]
  rw [← hchannel] at hevents
  refine ⟨h.size hmapped, by simpa [hchannel] using hregistered, fun i hadded => ?_,
    fun i hadded => ?_⟩
  · rw [hchannel] at hadded
    obtain ⟨-, k, hk, hentry⟩ := h.registered i hadded
    exact ⟨k, ent i, hk, hentry, h.belongs i, hevents i⟩
  · rw [hchannel] at hadded
    intro pfd hmem
    obtain ⟨k, hk⟩ := List.mem_iff_getElem?.mp hmem
    obtain ⟨j, hj, -, rfl⟩ := h.owner hk
    have hne : D.fd j ≠ D.fd i := by
      intro heq
      rw [D.distinct heq, hadded] at hj
      cases hj
    have := h.belongs j
    have := D.nonneg i
    have := D.nonneg j
    omega

end Invariant

def shown (t : PollRoster ι) (i : ι) : PollFd where
  fd := if (t.channel i).isNoneEvent && !t.quiet i then -D.fd i - 1 else D.fd i
  events := (t.channel i).events

/-- The channels and the array are as asked for. -/
structure Arranges (s : PolledChannels ι (PollPoller ι)) (t : PollRoster ι) : Prop where
  channel : s.channel = t.channel
  keeps : s.poller.Keeps D (shown D t) t.toRoster
  mapped : ∀ n i, s.poller.channels n = some i → D.fd i = n

section Call

variable [DecidableEq ι] {D} {p q : PollPoller ι} {s : PolledChannels ι (PollPoller ι)}
  {t : PollRoster ι} {i j : ι} {c : Channel} {a : ι × ChannelCall}

omit [DecidableEq ι] in
theorem shown_belongs (t : PollRoster ι) (i : ι) :
    (shown D t i).fd = D.fd i ∨ (shown D t i).fd = -D.fd i - 1 := by
  simp only [shown]
  split_ifs <;> simp

theorem shown_next_of_ne (c : ChannelCall) (hj : j ≠ i) :
    shown D (t.next (i, c)) j = shown D t j := by
  have hchannel : (t.next (i, c)).channel j = t.channel j :=
    Roster.next_channel_of_ne t.toRoster hj c
  have hquiet : (t.next (i, c)).quiet j = t.quiet j := by
    simp only [PollRoster.next]
    split_ifs <;> simp [hj]
  simp only [shown, hchannel, hquiet]

omit [DecidableEq ι] in
theorem mapped_update {channels : ℤ → Option ι} {o : Option ι}
    (hmapped : ∀ n i, channels n = some i → D.fd i = n) (ho : ∀ j, o = some j → j = i) :
    ∀ n j, Function.update channels (D.fd i) o n = some j → D.fd j = n := by
  intro n j hj
  by_cases hn : n = D.fd i
  · subst hn
    rw [Function.update_self] at hj
    rw [ho j hj]
  · rw [Function.update_of_ne hn] at hj
    exact hmapped n j hj

theorem updateChannel_mapped (hmapped : ∀ n i, p.channels n = some i → D.fd i = n)
    (h : p.updateChannel D i c = .ok q) : ∀ n i, q.channels n = some i → D.fd i = n := by
  unfold updateChannel at h
  dsimp only at h
  by_cases hnew : p.index i < 0
  · rw [if_pos hnew] at h
    obtain ⟨-, -, h⟩ := bind_eq_ok.mp h
    cases h
    exact mapped_update hmapped fun j hj => (Option.some.inj hj).symm
  · rw [if_neg hnew] at h
    obtain ⟨-, -, h⟩ := bind_eq_ok.mp h
    obtain ⟨-, -, h⟩ := bind_eq_ok.mp h
    obtain ⟨-, -, h⟩ := bind_eq_ok.mp h
    split at h
    · cases h
    · obtain ⟨-, -, h⟩ := bind_eq_ok.mp h
      cases h
      exact hmapped

theorem removeChannel_mapped (hmapped : ∀ n i, p.channels n = some i → D.fd i = n)
    (h : p.removeChannel D i c = .ok q) : ∀ n i, q.channels n = some i → D.fd i = n := by
  have hgone : ∀ n j, Function.update p.channels (D.fd i) none n = some j → D.fd j = n :=
    mapped_update hmapped fun j hj => by cases hj
  unfold removeChannel at h
  dsimp only at h
  obtain ⟨-, -, h⟩ := bind_eq_ok.mp h
  obtain ⟨-, -, h⟩ := bind_eq_ok.mp h
  obtain ⟨-, -, h⟩ := bind_eq_ok.mp h
  obtain ⟨-, -, h⟩ := bind_eq_ok.mp h
  split at h
  · obtain ⟨-, -, h⟩ := bind_eq_ok.mp h
    by_cases hlast : p.index i = p.pollfds.length - 1
    · rw [if_pos hlast] at h
      cases h
      exact hgone
    · rw [if_neg hlast] at h
      split at h
      · cases h
      · cases h
        exact hgone
  · cases h

theorem updateChannel_arranges (h : Arranges D s t) {c : ChannelCall} (hc : c ≠ .remove)
    (hfresh : t.removed i = false) :
    ∃ q, s.poller.updateChannel D i (c.apply (t.channel i)) = .ok q ∧
      q.Keeps D (shown D (t.next (i, c))) (t.toRoster.next (i, c)) := by
  have hself : (t.next (i, c)).channel i = c.apply (t.channel i) :=
    Roster.next_channel_self t.toRoster i c
  have hquiet : (t.next (i, c)).quiet i = (!(t.channel i).addedToLoop && !c.isEnabling) := by
    simp [PollRoster.next, hc]
  have hent : ∀ j, j ≠ i → shown D (t.next (i, c)) j = shown D t j :=
    fun j hj => shown_next_of_ne c hj
  cases hadded : (t.channel i).addedToLoop with
  | true =>
    apply h.keeps.updateChannel_registered hc hadded hent
    simp [shown, entry, hself, hquiet, hadded]
  | false =>
    apply h.keeps.updateChannel_new hc hadded hfresh hent
    cases henabling : c.isEnabling with
    | true =>
      have hbusy := ChannelCall.isNoneEvent_apply_enabling henabling (t.channel i)
      simp [shown, hself, hbusy]
    | false => simp [shown, hself, hquiet, hadded, henabling]

theorem call_arranges (h : Arranges D s t) (ha : t.Proper a) (hcareful : t.Careful a) :
    ∃ s', s.call (poller D) a = .ok s' ∧ Arranges D s' (t.next a) := by
  obtain ⟨i, c⟩ := a
  by_cases hc : c = .remove
  · subst hc
    obtain ⟨hregistered, hidle⟩ := ha rfl
    have hquiet : t.quiet i = false := hcareful.2 rfl
    obtain ⟨q, hq, hkeeps⟩ := h.keeps.removeChannel_spec
      (fun j hj => shown_next_of_ne .remove hj) (shown_belongs _ _) hregistered hidle
      (by simp [shown, hidle, hquiet]) rfl
    exact ⟨_, PolledChannels.call_remove_ok h.channel hidle hq, rfl, hkeeps,
      removeChannel_mapped h.mapped hq⟩
  · obtain ⟨q, hq, hkeeps⟩ := updateChannel_arranges h hc hcareful.1
    exact ⟨_, PolledChannels.call_update_ok h.channel hc hq, rfl, hkeeps,
      updateChannel_mapped h.mapped hq⟩

theorem call_careless (h : Arranges D s t) (ha : t.Proper a) (hcareless : ¬ t.Careful a) :
    s.call (poller D) a = .error .assertion := by
  obtain ⟨i, c⟩ := a
  by_cases hc : c = .remove
  · subst hc
    obtain ⟨hregistered, hidle⟩ := ha rfl
    have hremoved : t.removed i = false := by
      by_contra hnot
      have := h.keeps.removed i (by simpa using hnot)
      simp [hregistered] at this
    have hquiet : t.quiet i = true := by
      by_contra hnot
      exact hcareless ⟨hremoved, fun _ => by simpa using hnot⟩
    obtain ⟨hchannels, k, hk, hentry⟩ := h.keeps.registered i hregistered
    have hlt := (List.getElem?_eq_some_iff.mp hentry).1
    have hidx : (0 : ℤ) ≤ k ∧ (k : ℤ) < s.poller.pollfds.length := ⟨by omega, by omega⟩
    have hshown : (shown D t i).fd = D.fd i := by simp [shown, hquiet]
    have hmarked : ¬ ((shown D t i).fd = -D.fd i - 1 ∧
        (shown D t i).events = (ChannelCall.remove.apply (t.channel i)).events) := by
      have := D.nonneg i
      rw [hshown]
      omega
    obtain ⟨back, hback⟩ : ∃ back, s.poller.pollfds.getLast? = some back := by
      rw [List.getLast?_eq_getElem?]
      exact ⟨_, List.getElem?_eq_getElem (by omega)⟩
    have hnone : (ChannelCall.remove.apply (t.channel i)).isNoneEvent = true := hidle
    simp only [PolledChannels.call, PolledChannels.remove, h.channel, assertThat_pos hidle, ok_bind,
      poller, removeChannel, hchannels, ne_eq, reduceCtorEq, not_false_eq_true, assertThat_pos,
      assertThat_pos hnone, hk, assertThat_pos hidx, Int.toNat_natCast, hentry, hback,
      assertThat_neg hmarked, error_bind]
  · have hremoved : t.removed i = true := by
      by_contra hnot
      exact hcareless ⟨by simpa using hnot, fun h => absurd h hc⟩
    exact PolledChannels.call_update_error h.channel hc (h.keeps.updateChannel_removed hremoved _)

omit [DecidableEq ι] in
theorem arranges_start : Arranges D (start : PolledChannels ι (PollPoller ι)) PollRoster.init where
  channel := rfl
  keeps := keeps_init (shown_belongs _)
  mapped _ _ h := by cases h

end Call

/-- Behind every call the array is in order, and `fillActiveChannels` finds what
`poll` reports, exactly if no channel comes back behind its removal, and none is
removed that was registered without interest and not called since. -/
theorem array_stays_indexed_iff [DecidableEq ι] (calls : List (ι × ChannelCall))
    (hproper : PollRoster.machine.Permits (PollRoster.init : PollRoster ι) calls) :
    (∀ done, done <+: calls → ∃ s, (machine D).run start done = .ok s ∧ Indexed D s ∧ Fills D s) ↔
      PollRoster.carefulMachine.Permits PollRoster.init calls := by
  have hgood : ∀ (s : PolledChannels ι (PollPoller ι)) (t : PollRoster ι), Arranges D s t →
      Indexed D s ∧ Fills D s := by
    intro s t h
    exact ⟨indexed_of_keeps h.channel h.keeps (fun _ => rfl) h.mapped,
      fills_of_keeps h.channel h.keeps h.mapped⟩
  have hcalm : ∀ (s : PolledChannels ι (PollPoller ι)) (t : PollRoster ι) (a : ι × ChannelCall),
      Arranges D s t → t.Proper a → t.Careful a →
        ∃ s', (machine D).step s a = .ok s' ∧ Arranges D s' (t.next a) := by
    intro s t a h ha hcareful
    exact call_arranges h ha hcareful
  have hrash : ∀ (s : PolledChannels ι (PollPoller ι)) (t : PollRoster ι) (a : ι × ChannelCall)
      (s' : PolledChannels ι (PollPoller ι)), Arranges D s t → t.Proper a → ¬ t.Careful a →
        (machine D).step s a = .ok s' → ¬ (Indexed D s' ∧ Fills D s') := by
    intro s t a s' h ha hcareless hs'
    cases (call_careless h ha hcareless).symm.trans hs'
  exact (machine D).holds_at_prefixes_iff hgood hcalm hrash calls start PollRoster.init
    arranges_start hproper

def threeDescriptors : Descriptors (Fin 3) where
  fd i := 3 + i.val
  nonneg i := by omega
  distinct i j h := by
    apply Fin.ext
    have h : (3 : ℤ) + i.val = 3 + j.val := h
    omega

/-- The first entry is removed while the last one is ignored, then the last one, and
then the only one. -/
def sweptCalls : List (Fin 3 × ChannelCall) :=
  [(0, .disableAll), (1, .enableReading), (2, .enableWriting), (2, .disableAll),
    (0, .disableReading),
    (0, .remove), (1, .disableReading), (1, .remove), (2, .enableReading), (2, .disableAll),
    (2, .remove)]

theorem array_stays_indexed_swept :
    PollRoster.machine.Permits PollRoster.init sweptCalls ∧
      PollRoster.carefulMachine.Permits PollRoster.init sweptCalls ∧
      ∀ done, done <+: sweptCalls → ∃ s, (machine threeDescriptors).run start done = .ok s ∧
        Indexed threeDescriptors s ∧ Fills threeDescriptors s := by
  have hproper : PollRoster.machine.Permits PollRoster.init sweptCalls := by decide +kernel
  have hcareful : PollRoster.carefulMachine.Permits PollRoster.init sweptCalls := by decide +kernel
  exact ⟨hproper, hcareful,
    (array_stays_indexed_iff threeDescriptors sweptCalls hproper).mpr hcareful⟩

/-- A channel that comes back behind its removal, and one that was registered
without interest and is removed. -/
theorem array_assertions_fail :
    (PollRoster.machine.Permits PollRoster.init
        [(0, .enableReading), (0, .disableAll), (0, .remove), (0, .enableReading)] ∧
      (machine threeDescriptors).run start
        [(0, .enableReading), (0, .disableAll), (0, .remove), (0, .enableReading)] =
          .error .assertion) ∧
    PollRoster.machine.Permits PollRoster.init [((0 : Fin 3), .disableAll), (0, .remove)] ∧
      (machine threeDescriptors).run start [(0, .disableAll), (0, .remove)] = .error .assertion :=
  ⟨⟨by decide +kernel, rfl⟩, by decide +kernel, rfl⟩

end PollPoller
end Muduo
