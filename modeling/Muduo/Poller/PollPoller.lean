import Muduo.Poller.Poller

/-!
# The poller over `poll(2)`

The array handed to `poll` has one entry for each registered channel, and the
channel's `index_` is the position of its entry. The entry of a channel without
interest stays where it is, with its descriptor replaced by `-fd-1`, which `poll`
ignores. A channel is removed by moving the last entry into its place. Its
`index_` is left as it was, so the poller takes the channel for a registered one
when it is enabled again, and the first assertion of `updateChannel` fails.
-/

namespace Muduo

open Foundations

structure PollFd where
  fd : ℤ
  events : PollEvents
  revents : PollEvents := {}
  deriving DecidableEq, Repr

/-- `iter_swap`. -/
def iterSwap {α : Type} (l : List α) (m n : ℕ) : List α :=
  match l[m]?, l[n]? with
  | some a, some b => (l.set m b).set n a
  | _, _ => l

theorem getElem?_dropLast_iterSwap {α : Type} {l : List α} {m : ℕ} (hm : m + 1 < l.length)
    (k : ℕ) : (iterSwap l m (l.length - 1)).dropLast[k]? =
      if k = m then l[l.length - 1]? else if k + 1 < l.length then l[k]? else none := by
  have hlast : l.length - 1 < l.length := by omega
  have hfirst : m < l.length := by omega
  rw [iterSwap, List.getElem?_eq_getElem hfirst, List.getElem?_eq_getElem hlast,
    List.getElem?_dropLast]
  simp only [List.length_set]
  by_cases hk : k + 1 < l.length
  · have hend : l.length - 1 ≠ k := by omega
    rw [if_pos (by omega), List.getElem?_set_ne hend, if_pos hk]
    by_cases hkm : k = m
    · subst hkm
      rw [List.getElem?_set_self hfirst, if_pos rfl]
    · rw [List.getElem?_set_ne (Ne.symm hkm), if_neg hkm]
  · rw [if_neg (by omega), if_neg (by omega), if_neg hk]

structure PollPoller (ι : Type) where
  channels : ℤ → Option ι
  index : ι → ℤ
  pollfds : List PollFd

namespace PollPoller

variable {ι : Type}

def init : PollPoller ι where
  channels _ := none
  index _ := -1
  pollfds := []

/-- What the entries that `poll` does not ignore ask for. -/
def watched (p : PollPoller ι) : Set (ℤ × PollEvents) :=
  {w | ∃ pfd ∈ p.pollfds, 0 ≤ pfd.fd ∧ w = (pfd.fd, pfd.events)}

variable [DecidableEq ι] (D : Descriptors ι) (p : PollPoller ι)

def updateChannel (i : ι) (c : Channel) : Except Fault (PollPoller ι) :=
  let fd := D.fd i
  if p.index i < 0 then do
    assertThat (p.channels fd = none)
    let pfd : PollFd := { fd := fd, events := c.events }
    let pollfds := p.pollfds ++ [pfd]
    let idx : ℤ := pollfds.length - 1
    return { channels := Function.update p.channels fd (some i)
             index := Function.update p.index i idx
             pollfds := pollfds }
  else do
    assertThat (p.channels fd ≠ none)
    assertThat (p.channels fd = some i)
    let idx := p.index i
    assertThat (0 ≤ idx ∧ idx < p.pollfds.length)
    match p.pollfds[idx.toNat]? with
    | none => .error .outOfBounds
    | some pfd => do
      assertThat (pfd.fd = fd ∨ pfd.fd = -fd - 1)
      let pfd : PollFd := { fd := fd, events := c.events }
      let pfd := if c.isNoneEvent then { pfd with fd := -fd - 1 } else pfd
      return { p with pollfds := p.pollfds.set idx.toNat pfd }

def removeChannel (i : ι) (c : Channel) : Except Fault (PollPoller ι) := do
  let fd := D.fd i
  assertThat (p.channels fd ≠ none)
  assertThat (p.channels fd = some i)
  assertThat (c.isNoneEvent = true)
  let idx := p.index i
  assertThat (0 ≤ idx ∧ idx < p.pollfds.length)
  match p.pollfds[idx.toNat]?, p.pollfds.getLast? with
  | some pfd, some back => do
    assertThat (pfd.fd = -fd - 1 ∧ pfd.events = c.events)
    let channels := Function.update p.channels fd none
    if idx = p.pollfds.length - 1 then
      return { p with channels := channels, pollfds := p.pollfds.dropLast }
    else
      let channelAtEnd := if back.fd < 0 then -back.fd - 1 else back.fd
      match channels channelAtEnd with
      -- `operator[]` makes a null pointer for a missing key
      | none => .error .outOfBounds
      | some j =>
        return { channels := channels
                 index := Function.update p.index j idx
                 pollfds := (iterSwap p.pollfds idx.toNat (p.pollfds.length - 1)).dropLast }
  | _, _ => .error .outOfBounds

def poller : Poller ι (PollPoller ι) where
  updateChannel p := p.updateChannel D
  removeChannel p := p.removeChannel D

def entry (D : Descriptors ι) (i : ι) (c : Channel) : PollFd where
  fd := if c.isNoneEvent then -D.fd i - 1 else D.fd i
  events := c.events

/-- The poller's members fit the members of the channels, none of which came
back behind its removal. -/
structure Tracks (t : Roster ι) : Prop where
  registered : ∀ i, (t.channel i).addedToLoop = true → p.channels (D.fd i) = some i ∧
    ∃ k : ℕ, p.index i = k ∧ p.pollfds[k]? = some (entry D i (t.channel i))
  unregistered : ∀ i, (t.channel i).addedToLoop = false → p.channels (D.fd i) = none
  index : ∀ i, p.index i < 0 ↔ (t.channel i).addedToLoop = false ∧ t.removed i = false
  removed : ∀ i, t.removed i = true → (t.channel i).addedToLoop = false
  owned : ∀ (k : ℕ) pfd, p.pollfds[k]? = some pfd →
    ∃ i, (t.channel i).addedToLoop = true ∧ p.index i = k

/-- The same with any entry for a channel, as long as it belongs to it. -/
structure Keeps (ent : ι → PollFd) (t : Roster ι) : Prop where
  registered : ∀ i, (t.channel i).addedToLoop = true → p.channels (D.fd i) = some i ∧
    ∃ k : ℕ, p.index i = k ∧ p.pollfds[k]? = some (ent i)
  unregistered : ∀ i, (t.channel i).addedToLoop = false → p.channels (D.fd i) = none
  index : ∀ i, p.index i < 0 ↔ (t.channel i).addedToLoop = false ∧ t.removed i = false
  removed : ∀ i, t.removed i = true → (t.channel i).addedToLoop = false
  owned : ∀ (k : ℕ) pfd, p.pollfds[k]? = some pfd →
    ∃ i, (t.channel i).addedToLoop = true ∧ p.index i = k
  belongs : ∀ i, (ent i).fd = D.fd i ∨ (ent i).fd = -D.fd i - 1

section Invariant

variable {D p} {ent ent' : ι → PollFd} {t : Roster ι} {i j : ι} {c : Channel}

omit [DecidableEq ι] in
theorem keeps_init (h : ∀ i, (ent i).fd = D.fd i ∨ (ent i).fd = -D.fd i - 1) :
    (init : PollPoller ι).Keeps D ent Roster.init where
  registered _ h := by cases h
  unregistered _ _ := rfl
  index _ := by simp [init, Roster.init, Channel.init]
  removed _ h := by cases h
  owned _ _ h := by simp [init] at h
  belongs := h

omit [DecidableEq ι] in
theorem entry_belongs (i : ι) (c : Channel) :
    (entry D i c).fd = D.fd i ∨ (entry D i c).fd = -D.fd i - 1 := by
  simp only [entry]
  split_ifs <;> simp

omit [DecidableEq ι] in
theorem tracks_iff : p.Tracks D t ↔ p.Keeps D (fun i => entry D i (t.channel i)) t :=
  ⟨fun h => ⟨h.registered, h.unregistered, h.index, h.removed, h.owned, fun _ => entry_belongs _ _⟩,
    fun h => ⟨h.registered, h.unregistered, h.index, h.removed, h.owned⟩⟩

omit [DecidableEq ι] in
theorem tracks_init : (init : PollPoller ι).Tracks D Roster.init :=
  tracks_iff.mpr (keeps_init fun _ => entry_belongs _ _)

namespace Keeps

omit [DecidableEq ι] in
theorem ent_fd_inj (h : p.Keeps D ent t) (heq : (ent i).fd = (ent j).fd) : i = j := by
  have hi := D.nonneg i
  have hj := D.nonneg j
  have hbi := h.belongs i
  have hbj := h.belongs j
  apply D.distinct
  omega

omit [DecidableEq ι] in
/-- The descriptor can be read off the entry, also while it is ignored. -/
theorem ent_owner (h : p.Keeps D ent t) (i : ι) :
    (if (ent i).fd < 0 then -(ent i).fd - 1 else (ent i).fd) = D.fd i := by
  have hi := D.nonneg i
  have hbi := h.belongs i
  split_ifs <;> omega

omit [DecidableEq ι] in
theorem index_inj (h : p.Keeps D ent t) (hi : (t.channel i).addedToLoop = true)
    (hj : (t.channel j).addedToLoop = true) (heq : p.index i = p.index j) : i = j := by
  obtain ⟨-, k, hk, hentry⟩ := h.registered i hi
  obtain ⟨-, k', hk', hentry'⟩ := h.registered j hj
  obtain rfl : k = k' := by
    rw [hk, hk'] at heq
    exact_mod_cast heq
  rw [hentry] at hentry'
  exact h.ent_fd_inj (congrArg PollFd.fd (Option.some.inj hentry'))

omit [DecidableEq ι] in
theorem owner (h : p.Keeps D ent t) {k : ℕ} {pfd : PollFd} (hk : p.pollfds[k]? = some pfd) :
    ∃ i, (t.channel i).addedToLoop = true ∧ p.index i = k ∧ pfd = ent i := by
  obtain ⟨i, hadded, hindex⟩ := h.owned k pfd hk
  obtain ⟨-, k', hk', hentry⟩ := h.registered i hadded
  obtain rfl : k = k' := by
    rw [hindex] at hk'
    exact_mod_cast hk'
  exact ⟨i, hadded, hindex, by simpa [hk] using hentry⟩

/-- What a call that keeps or makes channel `i` registered has to do. -/
theorem next {q : PollPoller ι} (h : p.Keeps D ent t) {a : ChannelCall} (ha : a ≠ .remove)
    (hremoved : t.removed i = false) (hent : ∀ j, j ≠ i → ent' j = ent j)
    (hbelongs : (ent' i).fd = D.fd i ∨ (ent' i).fd = -D.fd i - 1)
    (hchannels : q.channels = Function.update p.channels (D.fd i) (some i))
    (hindex : ∀ j, j ≠ i → q.index j = p.index j)
    (hentry : ∃ k : ℕ, q.index i = k ∧ q.pollfds[k]? = some (ent' i))
    (hframe : ∀ j (k : ℕ), j ≠ i → (t.channel j).addedToLoop = true → p.index j = k →
      q.pollfds[k]? = p.pollfds[k]?)
    (howned : ∀ k : ℕ, k < q.pollfds.length → q.index i = k ∨
      ∃ j, j ≠ i ∧ (t.channel j).addedToLoop = true ∧ p.index j = k) :
    q.Keeps D ent' (t.next (i, a)) := by
  have hadded := ChannelCall.addedToLoop_apply ha (t.channel i)
  constructor
  case registered =>
    intro j hj
    by_cases hji : j = i
    · subst hji
      exact ⟨by simp [hchannels], hentry⟩
    · rw [Roster.next_channel_of_ne t hji] at hj
      obtain ⟨hchannelsj, k, hk, hentryj⟩ := h.registered j hj
      refine ⟨?_, k, ?_, ?_⟩
      · simpa [hchannels, D.distinct.ne hji] using hchannelsj
      · rw [hindex j hji, hk]
      · rw [hframe j k hji hj hk, hentryj, hent j hji]
  case unregistered =>
    intro j hj
    by_cases hji : j = i
    · subst hji
      simp [hadded] at hj
    · rw [Roster.next_channel_of_ne t hji] at hj
      simpa [hchannels, D.distinct.ne hji] using h.unregistered j hj
  case index =>
    intro j
    rw [Roster.next_removed t ha]
    by_cases hji : j = i
    · subst hji
      obtain ⟨k, hk, -⟩ := hentry
      simp [hadded, hk]
    · rw [Roster.next_channel_of_ne t hji, hindex j hji]
      exact h.index j
  case removed =>
    intro j hj
    rw [Roster.next_removed t ha] at hj
    by_cases hji : j = i
    · subst hji
      simp [hremoved] at hj
    · rw [Roster.next_channel_of_ne t hji]
      exact h.removed j hj
  case owned =>
    intro k pfd hk
    rcases howned k (List.getElem?_eq_some_iff.mp hk).1 with hi | ⟨j, hji, hj, hkj⟩
    · exact ⟨i, by simpa using hadded, hi⟩
    · refine ⟨j, ?_, ?_⟩
      · rwa [Roster.next_channel_of_ne t hji]
      · rw [hindex j hji, hkj]
  case belongs =>
    intro j
    by_cases hji : j = i
    · exact hji ▸ hbelongs
    · rw [hent j hji]
      exact h.belongs j

theorem updateChannel_new (h : p.Keeps D ent t) {a : ChannelCall} (ha : a ≠ .remove)
    (hunregistered : (t.channel i).addedToLoop = false) (hfresh : t.removed i = false)
    (hent : ∀ j, j ≠ i → ent' j = ent j)
    (hnew : ent' i = { fd := D.fd i, events := (a.apply (t.channel i)).events }) :
    ∃ q, p.updateChannel D i (a.apply (t.channel i)) = .ok q ∧ q.Keeps D ent' (t.next (i, a)) := by
  have hindex : p.index i < 0 := (h.index i).mpr ⟨hunregistered, hfresh⟩
  have hstep : p.updateChannel D i (a.apply (t.channel i)) =
      .ok { channels := Function.update p.channels (D.fd i) (some i)
            index := Function.update p.index i p.pollfds.length
            pollfds := p.pollfds ++ [ent' i] } := by
    simp [updateChannel, hindex, h.unregistered i hunregistered, hnew]
  refine ⟨_, hstep, h.next ha hfresh hent (.inl (by rw [hnew])) rfl ?_ ?_ ?_ ?_⟩
  · intro j hj
    simp [hj]
  · exact ⟨p.pollfds.length, by simp, by simp⟩
  · intro j k _ hj hk
    obtain ⟨-, k', hk', hentry⟩ := h.registered j hj
    obtain rfl : k = k' := by
      rw [hk] at hk'
      exact_mod_cast hk'
    exact List.getElem?_append_left (List.getElem?_eq_some_iff.mp hentry).1
  · intro k hk
    by_cases hlast : k < p.pollfds.length
    · obtain ⟨j, hj, hindex⟩ := h.owned k _ (List.getElem?_eq_getElem hlast)
      refine .inr ⟨j, ?_, hj, hindex⟩
      rintro rfl
      simp [hunregistered] at hj
    · left
      simp only [List.length_append, List.length_singleton] at hk
      simp
      omega

/-- The entry of a registered channel is rewritten where it is. -/
theorem updateChannel_registered (h : p.Keeps D ent t) {a : ChannelCall} (ha : a ≠ .remove)
    (hregistered : (t.channel i).addedToLoop = true) (hent : ∀ j, j ≠ i → ent' j = ent j)
    (hnew : ent' i = entry D i (a.apply (t.channel i))) :
    ∃ q, p.updateChannel D i (a.apply (t.channel i)) = .ok q ∧ q.Keeps D ent' (t.next (i, a)) := by
  obtain ⟨hchannels, k, hk, hentry⟩ := h.registered i hregistered
  have hlt : k < p.pollfds.length := (List.getElem?_eq_some_iff.mp hentry).1
  have hremoved : t.removed i = false := by
    by_contra hne
    have := h.removed i (by simpa using hne)
    simp [hregistered] at this
  have hstep : p.updateChannel D i (a.apply (t.channel i)) =
      .ok { p with pollfds := p.pollfds.set k (entry D i (a.apply (t.channel i))) } := by
    have hidx : (0 : ℤ) ≤ k ∧ (k : ℤ) < p.pollfds.length := ⟨by omega, by omega⟩
    have hneg : ¬ (k : ℤ) < 0 := by omega
    simp only [updateChannel, hk, if_neg hneg, hchannels, ne_eq, reduceCtorEq, not_false_eq_true,
      assertThat_pos, ok_bind, assertThat_pos hidx, Int.toNat_natCast, hentry,
      assertThat_pos (h.belongs i), pure_eq_ok]
    simp only [entry]
    cases (a.apply (t.channel i)).isNoneEvent <;> rfl
  rw [← hnew] at hstep
  refine ⟨_, hstep, h.next ha hremoved hent (hnew ▸ entry_belongs _ _) ?_ ?_ ?_ ?_ ?_⟩
  · exact (Function.update_eq_self_iff.mpr hchannels.symm).symm
  · intro j _
    rfl
  · exact ⟨k, hk, List.getElem?_set_self hlt⟩
  · intro j k' hji hj hk'
    apply List.getElem?_set_ne
    rintro rfl
    exact hji (h.index_inj hj hregistered (by rw [hk, hk']))
  · intro k' hk'
    rw [List.length_set] at hk'
    obtain ⟨j, hj, hindex⟩ := h.owned k' _ (List.getElem?_eq_getElem hk')
    by_cases hji : j = i
    · exact .inl (hji ▸ hindex)
    · exact .inr ⟨j, hji, hj, hindex⟩

theorem next_remove {q : PollPoller ι} (h : p.Keeps D ent t) (hent : ∀ j, j ≠ i → ent' j = ent j)
    (hbelongs : (ent' i).fd = D.fd i ∨ (ent' i).fd = -D.fd i - 1)
    (hchannels : q.channels = Function.update p.channels (D.fd i) none)
    (hindex : ∀ j, (t.channel j).addedToLoop = false ∨ j = i → q.index j = p.index j)
    (hregistered : (t.channel i).addedToLoop = true)
    (hentry : ∀ j, j ≠ i → (t.channel j).addedToLoop = true →
      ∃ k : ℕ, q.index j = k ∧ q.pollfds[k]? = some (ent j))
    (howned : ∀ k : ℕ, k < q.pollfds.length →
      ∃ j, j ≠ i ∧ (t.channel j).addedToLoop = true ∧ q.index j = k) :
    q.Keeps D ent' (t.next (i, .remove)) := by
  constructor
  case registered =>
    intro j hj
    by_cases hji : j = i
    · subst hji
      rw [Roster.next_channel_self] at hj
      cases hj
    · rw [Roster.next_channel_of_ne t hji] at hj
      rw [hent j hji]
      refine ⟨?_, hentry j hji hj⟩
      simpa [hchannels, D.distinct.ne hji] using (h.registered j hj).1
  case unregistered =>
    intro j hj
    by_cases hji : j = i
    · simp [hchannels, hji]
    · rw [Roster.next_channel_of_ne t hji] at hj
      simpa [hchannels, D.distinct.ne hji] using h.unregistered j hj
  case index =>
    intro j
    by_cases hji : j = i
    · subst hji
      have hkept := h.index j
      rw [hregistered] at hkept
      rw [hindex j (.inr rfl), hkept]
      simp [Roster.next]
    · rw [Roster.next_channel_of_ne t hji]
      have hremoved : (t.next (i, .remove)).removed j = t.removed j := by simp [Roster.next, hji]
      rw [hremoved]
      cases hj : (t.channel j).addedToLoop with
      | false =>
        rw [hindex j (.inl hj), h.index j, hj]
      | true =>
        obtain ⟨k, hk, -⟩ := hentry j hji hj
        simp [hk]
  case removed =>
    intro j hj
    by_cases hji : j = i
    · subst hji
      rw [Roster.next_channel_self]
      rfl
    · rw [Roster.next_channel_of_ne t hji]
      exact h.removed j (by simpa [Roster.next, hji] using hj)
  case owned =>
    intro k pfd hk
    obtain ⟨j, hji, hj, hkj⟩ := howned k (List.getElem?_eq_some_iff.mp hk).1
    exact ⟨j, by rwa [Roster.next_channel_of_ne t hji], hkj⟩
  case belongs =>
    intro j
    by_cases hji : j = i
    · exact hji ▸ hbelongs
    · rw [hent j hji]
      exact h.belongs j

theorem removeChannel_last (h : p.Keeps D ent t) (hent : ∀ j, j ≠ i → ent' j = ent j)
    (hbelongs : (ent' i).fd = D.fd i ∨ (ent' i).fd = -D.fd i - 1)
    (hregistered : (t.channel i).addedToLoop = true)
    {k : ℕ} (hk : p.index i = k) (hlast : k + 1 = p.pollfds.length) :
    ({ p with channels := Function.update p.channels (D.fd i) none,
              pollfds := p.pollfds.dropLast } : PollPoller ι).Keeps D ent'
      (t.next (i, .remove)) := by
  apply h.next_remove hent hbelongs rfl ?_ hregistered
  · intro j hji hj
    obtain ⟨-, k', hk', hentry⟩ := h.registered j hj
    have hlt : k' < p.pollfds.length := (List.getElem?_eq_some_iff.mp hentry).1
    have hne : k' ≠ k := by
      rintro rfl
      exact hji (h.index_inj hj hregistered (by rw [hk, hk']))
    refine ⟨k', hk', ?_⟩
    rw [List.getElem?_dropLast, if_pos (by omega), hentry]
  · intro k' hk'
    rw [List.length_dropLast] at hk'
    have hlt : k' < p.pollfds.length := by omega
    obtain ⟨j, hj, hkj⟩ := h.owned k' _ (List.getElem?_eq_getElem hlt)
    refine ⟨j, ?_, hj, hkj⟩
    rintro rfl
    rw [hk] at hkj
    omega
  · intro j _
    rfl

/-- The last entry, which belongs to channel `m`, takes the place of the removed
one. -/
theorem removeChannel_inner {m : ι} (h : p.Keeps D ent t) (hent : ∀ j, j ≠ i → ent' j = ent j)
    (hbelongs : (ent' i).fd = D.fd i ∨ (ent' i).fd = -D.fd i - 1)
    (hregistered : (t.channel i).addedToLoop = true) {k : ℕ} (hk : p.index i = k)
    (hinner : k + 1 < p.pollfds.length) (hm : (t.channel m).addedToLoop = true)
    (hmlast : p.index m = (p.pollfds.length - 1 : ℕ)) :
    ({ channels := Function.update p.channels (D.fd i) none
       index := Function.update p.index m k
       pollfds := (iterSwap p.pollfds k (p.pollfds.length - 1)).dropLast } :
      PollPoller ι).Keeps D ent' (t.next (i, .remove)) := by
  have hmi : m ≠ i := by
    rintro rfl
    rw [hk] at hmlast
    omega
  apply h.next_remove hent hbelongs rfl ?_ hregistered
  · intro j hji hj
    obtain ⟨-, k', hk', hentry⟩ := h.registered j hj
    have hlt : k' < p.pollfds.length := (List.getElem?_eq_some_iff.mp hentry).1
    by_cases hjm : j = m
    · subst hjm
      refine ⟨k, by simp, ?_⟩
      have hend : k' = p.pollfds.length - 1 := by
        rw [hmlast] at hk'
        exact_mod_cast hk'.symm
      rw [getElem?_dropLast_iterSwap hinner, if_pos rfl, ← hend, hentry]
    · have hnek : k' ≠ k := by
        rintro rfl
        exact hji (h.index_inj hj hregistered (by rw [hk, hk']))
      have hnelast : k' ≠ p.pollfds.length - 1 := by
        rintro rfl
        exact hjm (h.index_inj hj hm (by rw [hk', hmlast]))
      refine ⟨k', by simpa [hjm] using hk', ?_⟩
      rw [getElem?_dropLast_iterSwap hinner, if_neg hnek, if_pos (by omega), hentry]
  · intro k' hk'
    obtain ⟨pfd, hpfd⟩ : ∃ pfd, (iterSwap p.pollfds k (p.pollfds.length - 1)).dropLast[k']? =
        some pfd := ⟨_, List.getElem?_eq_getElem hk'⟩
    rw [getElem?_dropLast_iterSwap hinner] at hpfd
    by_cases hkk : k' = k
    · exact ⟨m, hmi, hm, by simp [hkk]⟩
    · rw [if_neg hkk] at hpfd
      split_ifs at hpfd with hlt
      obtain ⟨j, hj, hkj⟩ := h.owned k' pfd hpfd
      have hjm : j ≠ m := by
        rintro rfl
        rw [hmlast] at hkj
        omega
      refine ⟨j, ?_, hj, by simpa [hjm] using hkj⟩
      rintro rfl
      rw [hk] at hkj
      omega
  · intro j hj
    have hjm : j ≠ m := by
      rintro rfl
      rcases hj with hj | hj
      · simp [hm] at hj
      · exact hmi hj
    simp [hjm]

/-- A registered channel without interest, whose entry is ignored, can be removed. -/
theorem removeChannel_spec (h : p.Keeps D ent t) (hent : ∀ j, j ≠ i → ent' j = ent j)
    (hbelongs : (ent' i).fd = D.fd i ∨ (ent' i).fd = -D.fd i - 1)
    (hregistered : (t.channel i).addedToLoop = true)
    (hidle : (t.channel i).isNoneEvent = true) (hignored : (ent i).fd = -D.fd i - 1)
    (hevents : (ent i).events = (t.channel i).events) :
    ∃ q, p.removeChannel D i (ChannelCall.remove.apply (t.channel i)) = .ok q ∧
      q.Keeps D ent' (t.next (i, .remove)) := by
  obtain ⟨hchannels, k, hk, hentry⟩ := h.registered i hregistered
  have hlt : k < p.pollfds.length := (List.getElem?_eq_some_iff.mp hentry).1
  have hend : p.pollfds.length - 1 < p.pollfds.length := by omega
  obtain ⟨m, hm, hmlast, hback⟩ := h.owner (List.getElem?_eq_getElem hend)
  have hchannelsm := (h.registered m hm).1
  have hback : p.pollfds.getLast? = some (ent m) := by
    rw [List.getLast?_eq_getElem?, List.getElem?_eq_getElem hend, hback]
  have hidx : (0 : ℤ) ≤ k ∧ (k : ℤ) < p.pollfds.length := ⟨by omega, by omega⟩
  have hpfd : (ent i).fd = -D.fd i - 1 ∧
      (ent i).events = (ChannelCall.remove.apply (t.channel i)).events := ⟨hignored, hevents⟩
  have hnone : (ChannelCall.remove.apply (t.channel i)).isNoneEvent = true := hidle
  have hreduce : p.removeChannel D i (ChannelCall.remove.apply (t.channel i)) =
      if (k : ℤ) = p.pollfds.length - 1 then
        .ok { p with channels := Function.update p.channels (D.fd i) none,
                     pollfds := p.pollfds.dropLast }
      else match Function.update p.channels (D.fd i) none (D.fd m) with
        | none => .error .outOfBounds
        | some j => .ok
          { channels := Function.update p.channels (D.fd i) none
            index := Function.update p.index j k
            pollfds := (iterSwap p.pollfds k (p.pollfds.length - 1)).dropLast } := by
    simp only [removeChannel, hchannels, ne_eq, reduceCtorEq, not_false_eq_true, assertThat_pos,
      ok_bind, assertThat_pos hnone, hk, assertThat_pos hidx, Int.toNat_natCast, hentry, hback,
      assertThat_pos hpfd, h.ent_owner, pure_eq_ok]
  by_cases hlast : k + 1 = p.pollfds.length
  · rw [hreduce, if_pos (by omega)]
    exact ⟨_, rfl, h.removeChannel_last hent hbelongs hregistered hk hlast⟩
  · have hmi : m ≠ i := by
      rintro rfl
      rw [hk] at hmlast
      omega
    rw [hreduce, if_neg (by omega), Function.update_of_ne (D.distinct.ne hmi), hchannelsm]
    exact ⟨_, rfl, h.removeChannel_inner hent hbelongs hregistered hk (by omega) hm hmlast⟩

/-- A channel that was removed still has its index, but is not in the map. -/
theorem updateChannel_removed (h : p.Keeps D ent t) (hremoved : t.removed i = true) (c : Channel) :
    p.updateChannel D i c = .error .assertion := by
  have hindex : ¬ p.index i < 0 := by simp [h.index i, hremoved]
  have hchannels := h.unregistered i (h.removed i hremoved)
  simp [updateChannel, hindex, hchannels]

end Keeps

omit [DecidableEq ι] in
theorem watched_eq_wanted (h : p.Tracks D t) : p.watched = t.wanted D := by
  ext ⟨n, e⟩
  constructor
  · rintro ⟨pfd, hmem, hpos, hw⟩
    obtain ⟨k, hk⟩ := List.mem_iff_getElem?.mp hmem
    obtain ⟨i, hadded, -, rfl⟩ := (tracks_iff.mp h).owner hk
    have hnonneg := D.nonneg i
    cases hidle : (t.channel i).isNoneEvent with
    | true =>
      simp only [entry, hidle, if_true] at hpos
      omega
    | false => exact ⟨i, hadded, hidle, by simpa [entry, hidle] using hw⟩
  · rintro ⟨i, hadded, hbusy, hw⟩
    obtain ⟨-, k, -, hentry⟩ := h.registered i hadded
    refine ⟨_, List.mem_of_getElem? hentry, ?_, ?_⟩
    · simpa [entry, hbusy] using D.nonneg i
    · simpa [entry, hbusy] using hw

theorem entry_next_of_ne (a : ChannelCall) (hj : j ≠ i) :
    entry D j ((t.next (i, a)).channel j) = entry D j (t.channel j) := by
  rw [Roster.next_channel_of_ne t hj]

theorem updateChannel_tracks (h : p.Tracks D t) {a : ChannelCall} (ha : a ≠ .remove)
    (horderly : a.isEnabling = true ∨ (t.channel i).addedToLoop = true)
    (hfresh : t.removed i = false) :
    ∃ q, p.updateChannel D i (a.apply (t.channel i)) = .ok q ∧ q.Tracks D (t.next (i, a)) := by
  simp only [tracks_iff] at h ⊢
  have hent : ∀ j, j ≠ i → entry D j ((t.next (i, a)).channel j) = entry D j (t.channel j) :=
    fun j hj => entry_next_of_ne a hj
  cases hadded : (t.channel i).addedToLoop with
  | true => exact h.updateChannel_registered ha hadded hent (by simp)
  | false =>
    have henabling : a.isEnabling = true := horderly.resolve_right (by simp [hadded])
    have hbusy := ChannelCall.isNoneEvent_apply_enabling henabling (t.channel i)
    exact h.updateChannel_new ha hadded hfresh hent (by simp [entry, hbusy])

theorem removeChannel_tracks (h : p.Tracks D t) (hregistered : (t.channel i).addedToLoop = true)
    (hidle : (t.channel i).isNoneEvent = true) :
    ∃ q, p.removeChannel D i (ChannelCall.remove.apply (t.channel i)) = .ok q ∧
      q.Tracks D (t.next (i, .remove)) := by
  simp only [tracks_iff] at h ⊢
  exact h.removeChannel_spec (fun j hj => entry_next_of_ne _ hj) (entry_belongs _ _) hregistered
    hidle (by simp [entry, hidle]) rfl

end Invariant

/-- The channels are as asked for, and the poller's members fit them. -/
structure Follows (s : PolledChannels ι (PollPoller ι)) (t : Roster ι) : Prop where
  channel : s.channel = t.channel
  tracks : s.poller.Tracks D t

section Call

variable {D} {s : PolledChannels ι (PollPoller ι)} {t : Roster ι} {a : ι × ChannelCall}

theorem call_follows (h : Follows D s t) (ha : t.Orderly a) (hfresh : t.Fresh a) :
    ∃ s', s.call (poller D) a = .ok s' ∧ Follows D s' (t.next a) := by
  obtain ⟨i, c⟩ := a
  by_cases hc : c = .remove
  · subst hc
    obtain ⟨hregistered, hidle⟩ := ha
    obtain ⟨q, hq, htracks⟩ := removeChannel_tracks h.tracks hregistered hidle
    exact ⟨_, PolledChannels.call_remove_ok h.channel hidle hq, rfl, htracks⟩
  · obtain ⟨q, hq, htracks⟩ := updateChannel_tracks h.tracks hc (ha.of_ne_remove hc) hfresh
    exact ⟨_, PolledChannels.call_update_ok h.channel hc hq, rfl, htracks⟩

/-- A channel that comes back behind its removal is not taken. -/
theorem call_not_fresh (h : Follows D s t) (ha : t.Orderly a) (hback : ¬ t.Fresh a) :
    s.call (poller D) a = .error .assertion := by
  obtain ⟨i, c⟩ := a
  have hremoved : t.removed i = true := by simpa [Roster.Fresh] using hback
  have hc : c ≠ .remove := by
    rintro rfl
    have := h.tracks.removed i hremoved
    simp [ha.1] at this
  exact PolledChannels.call_update_error h.channel hc
    ((tracks_iff.mp h.tracks).updateChannel_removed hremoved _)

end Call

def machine : Machine (PolledChannels ι (PollPoller ι)) (ι × ChannelCall) Fault :=
  PolledChannels.machine (poller D)

def start : PolledChannels ι (PollPoller ι) where
  channel _ := .init
  poller := init

/-- The array asks for what is wanted behind every call exactly if no channel
comes back behind its removal. -/
theorem watched_at_prefixes_iff (calls : List (ι × ChannelCall))
    (horderly : Roster.machine.Permits (Roster.init : Roster ι) calls) :
    (∀ done, done <+: calls → ∃ s, (machine D).run start done = .ok s ∧
        s.poller.watched = (done.foldl Roster.next Roster.init).wanted D) ↔
      (Machine.ofNext Roster.Fresh Roster.next : Machine (Roster ι) _ Fault).Permits
        Roster.init calls := by
  have hgood : ∀ (s : PolledChannels ι (PollPoller ι)) (t : Roster ι), Follows D s t →
      s.poller.watched = t.wanted D := by
    intro s t hfollows
    exact watched_eq_wanted hfollows.tracks
  have hcalm : ∀ (s : PolledChannels ι (PollPoller ι)) (t : Roster ι) (a : ι × ChannelCall),
      Follows D s t → t.Orderly a → t.Fresh a →
        ∃ s', (machine D).step s a = .ok s' ∧ Follows D s' (t.next a) := by
    intro s t a hfollows ha hfresh
    exact call_follows hfollows ha hfresh
  have hrash : ∀ (s : PolledChannels ι (PollPoller ι)) (t : Roster ι) (a : ι × ChannelCall)
      (s' : PolledChannels ι (PollPoller ι)), Follows D s t → t.Orderly a → ¬ t.Fresh a →
        (machine D).step s a = .ok s' → ¬ s'.poller.watched = (t.next a).wanted D := by
    intro s t a s' hfollows ha hback hs'
    cases (call_not_fresh hfollows ha hback).symm.trans hs'
  exact (machine D).holds_at_prefixes_iff hgood hcalm hrash calls start Roster.init
    ⟨rfl, tracks_init⟩ horderly

end PollPoller
end Muduo
