import Muduo.Connection.Channel

/-!
# The channels of one poll

The poller fills `activeChannels_`, and `loop()` then calls `handleEvent` of one
channel after the other. The masks are fixed before the first handler runs: what
a handler does to the interest of another channel, or to that channel itself, finds
the other one's report already in the list. A batch says how far the loop has come.
-/

namespace Muduo

inductive EventBatch (ι : Type) where
  /-- `eventHandling_` is not set -/
  | idle
  /-- `activeChannels_`, then `currentActiveChannel_` with the callbacks that its
  `handleEventWithGuard` has not run yet, then the channels that are still to come -/
  | handling (activeChannels : List ι) (current : Option (ι × List ChannelCallback))
      (rest : List (ι × PollEvents))
  deriving DecidableEq

namespace EventBatch

variable {ι : Type}

def eventHandling : EventBatch ι → Bool
  | idle => false
  | handling _ _ _ => true

def activeChannels : EventBatch ι → List ι
  | idle => []
  | handling channels _ _ => channels

def currentActiveChannel : EventBatch ι → Option ι
  | idle => none
  | handling _ current _ => current.map Prod.fst

def poll (reports : List (ι × PollEvents)) : EventBatch ι :=
  handling (reports.map Prod.fst) none reports

/-- The next round of the loop over `activeChannels_`, or its end. -/
def advance : EventBatch ι → EventBatch ι
  | handling channels _ ((i, revents) :: rest) =>
    handling channels (some (i, Channel.handleEventWithGuard revents)) rest
  | handling _ _ [] | idle => idle

/-- The callback that the current channel runs next, and the batch behind it. -/
def next : EventBatch ι → Option ((ι × ChannelCallback) × EventBatch ι)
  | handling channels (some (i, k :: ks)) rest =>
    some ((i, k), handling channels (some (i, ks)) rest)
  | _ => none

def Awaits (i : ι) (k : ChannelCallback) : EventBatch ι → Prop
  | idle => False
  | handling _ current rest =>
    (∃ ks, current = some (i, ks) ∧ k ∈ ks) ∨
      ∃ revents, (i, revents) ∈ rest ∧ k ∈ Channel.handleEventWithGuard revents

def upcoming : EventBatch ι → List ι
  | idle => []
  | handling _ _ rest => rest.map Prod.fst

/-- The current channel and those to come are different channels of the list. -/
def Orderly (b : EventBatch ι) : Prop :=
  (b.currentActiveChannel.toList ++ b.upcoming).Nodup ∧ b.upcoming ⊆ b.activeChannels

variable {b b' : EventBatch ι} {i j : ι} {k l : ChannelCallback}

theorem not_awaits_of_idle (h : b.eventHandling = false) : ¬ b.Awaits i k := by
  cases b with
  | idle => exact id
  | handling channels current rest => cases h

theorem awaits_poll {reports : List (ι × PollEvents)} :
    (poll reports).Awaits i k ↔
      ∃ revents, (i, revents) ∈ reports ∧ k ∈ Channel.handleEventWithGuard revents := by
  simp [poll, Awaits]

theorem awaits_of_advance (h : b.advance.Awaits i k) : b.Awaits i k := by
  cases b with
  | idle => exact h
  | handling channels current rest =>
    cases rest with
    | nil => exact absurd h id
    | cons report rest =>
      obtain ⟨j, revents⟩ := report
      right
      rcases h with ⟨ks, hcurrent, hk⟩ | ⟨revents', hmem, hk⟩
      · cases hcurrent
        exact ⟨revents, by simp, hk⟩
      · exact ⟨revents', by simp [hmem], hk⟩

theorem next_eq_some (h : b.next = some ((j, l), b')) :
    ∃ channels ks rest, b = handling channels (some (j, l :: ks)) rest ∧
      b' = handling channels (some (j, ks)) rest := by
  unfold next at h
  split at h
  · next channels i k ks rest =>
    cases h
    exact ⟨channels, ks, rest, rfl, rfl⟩
  · cases h

theorem awaits_next (h : b.next = some ((j, l), b')) : b.Awaits j l := by
  obtain ⟨channels, ks, rest, rfl, -⟩ := next_eq_some h
  exact .inl ⟨l :: ks, rfl, by simp⟩

theorem awaits_of_next (h : b.next = some ((j, l), b')) (h' : b'.Awaits i k) : b.Awaits i k := by
  obtain ⟨channels, ks, rest, rfl, rfl⟩ := next_eq_some h
  rcases h' with ⟨ks', hcurrent, hk⟩ | hrest
  · cases hcurrent
    exact .inl ⟨l :: ks, rfl, by simp [hk]⟩
  · exact .inr hrest

theorem current_of_next (h : b.next = some ((j, l), b')) : b.currentActiveChannel = some j := by
  obtain ⟨channels, ks, rest, rfl, -⟩ := next_eq_some h
  rfl

theorem upcoming_of_idle (h : b.eventHandling = false) : b.upcoming = [] := by
  cases b with
  | idle => rfl
  | handling channels current rest => cases h

theorem orderly_poll {reports : List (ι × PollEvents)} (h : (reports.map Prod.fst).Nodup) :
    (poll reports).Orderly :=
  ⟨h, List.Subset.refl _⟩

theorem Orderly.advance (h : b.Orderly) : b.advance.Orderly ∧ b.advance.upcoming ⊆ b.upcoming := by
  cases b with
  | idle => exact ⟨h, List.Subset.refl _⟩
  | handling channels current rest =>
    cases rest with
    | nil => exact ⟨⟨List.nodup_nil, List.Subset.refl _⟩, List.Subset.refl _⟩
    | cons report rest =>
      obtain ⟨hnodup, hsubset⟩ := h
      have hrest := (List.nodup_append.mp hnodup).2.1
      exact ⟨⟨hrest, fun x hx => hsubset (List.mem_cons_of_mem _ hx)⟩, List.subset_cons_self _ _⟩

theorem Orderly.next (h : b.Orderly) (hnext : b.next = some ((j, l), b')) :
    b'.Orderly ∧ b'.upcoming = b.upcoming := by
  obtain ⟨channels, ks, rest, rfl, rfl⟩ := next_eq_some hnext
  exact ⟨h, rfl⟩

end EventBatch
end Muduo
