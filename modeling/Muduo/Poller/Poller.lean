import Muduo.Foundations.Guards
import Muduo.Connection.Channel

/-!
# Channels behind a poller

A loop watches its channels through a poller, which is either the one over
`epoll(4)` or the one over `poll(2)`. Every change of a channel's interest is
passed on to `updateChannel`, and `Channel::remove` to `removeChannel`. What the
channels themselves ask for does not depend on the poller: `Roster` follows it
alone, and says what is to be watched.
-/

namespace Muduo

open Foundations

/-- The descriptors of the channels of one loop. -/
structure Descriptors (ι : Type) where
  fd : ι → ℤ
  nonneg : ∀ i, 0 ≤ fd i
  distinct : Function.Injective fd

/-- The calls that reach the poller. -/
inductive ChannelCall where
  | enableReading
  | disableReading
  | enableWriting
  | disableWriting
  | disableAll
  | remove
  deriving DecidableEq, Repr

namespace ChannelCall

def isEnabling : ChannelCall → Bool
  | enableReading | enableWriting => true
  | _ => false

def isDisabling : ChannelCall → Bool
  | disableReading | disableWriting | disableAll => true
  | _ => false

/-- What the call does to the members of its channel. -/
def apply : ChannelCall → Channel → Channel
  | enableReading, c => c.enableReading
  | disableReading, c => c.disableReading
  | enableWriting, c => c.enableWriting
  | disableWriting, c => c.disableWriting
  | disableAll, c => c.disableAll
  | remove, c => { c with addedToLoop := false }

theorem addedToLoop_apply {a : ChannelCall} (h : a ≠ remove) (c : Channel) :
    (a.apply c).addedToLoop = true := by
  cases a with
  | remove => exact absurd rfl h
  | _ => rfl

theorem isNoneEvent_apply_enabling {a : ChannelCall} (h : a.isEnabling = true) (c : Channel) :
    (a.apply c).isNoneEvent = false := by
  cases a with
  | enableReading =>
    simp [apply, Channel.isNoneEvent, Channel.enableReading, Channel.update, PollEvents.or,
      PollEvents.kReadEvent, PollEvents.kNoneEvent]
  | enableWriting =>
    simp [apply, Channel.isNoneEvent, Channel.enableWriting, Channel.update, PollEvents.or,
      PollEvents.kWriteEvent, PollEvents.kNoneEvent]
  | _ => cases h

theorem isNoneEvent_apply_disabling {a : ChannelCall} (h : a.isDisabling = true) {c : Channel}
    (hc : c.isNoneEvent = true) : (a.apply c).isNoneEvent = true := by
  cases a with
  | disableReading => exact c.isNoneEvent_disableReading hc
  | disableWriting =>
    rw [Channel.isNoneEvent, decide_eq_true_iff] at hc
    simp [apply, Channel.isNoneEvent, Channel.disableWriting, Channel.update, hc]
    rfl
  | disableAll => rfl
  | _ => cases h

end ChannelCall

/-- The virtual functions of a poller. `σ` holds its members, together with the
`index_` that it keeps in each of the channels `ι`. -/
structure Poller (ι σ : Type) where
  updateChannel : σ → ι → Channel → Except Fault σ
  removeChannel : σ → ι → Channel → Except Fault σ

/-- The channels of a loop and the members of its poller. -/
structure PolledChannels (ι σ : Type) where
  channel : ι → Channel
  poller : σ

namespace PolledChannels

variable {ι σ : Type} [DecidableEq ι] (P : Poller ι σ) (s : PolledChannels ι σ)

/-- `Channel::update`, behind the change of the interest. -/
def update (i : ι) (c : Channel) : Except Fault (PolledChannels ι σ) := do
  let poller ← P.updateChannel s.poller i c
  return { channel := Function.update s.channel i c, poller := poller }

/-- `Channel::remove`. -/
def remove (i : ι) : Except Fault (PolledChannels ι σ) := do
  assertThat ((s.channel i).isNoneEvent = true)
  let c := ChannelCall.remove.apply (s.channel i)
  let poller ← P.removeChannel s.poller i c
  return { channel := Function.update s.channel i c, poller := poller }

def call (a : ι × ChannelCall) : Except Fault (PolledChannels ι σ) :=
  match a.2 with
  | .remove => s.remove P a.1
  | c => s.update P a.1 (c.apply (s.channel a.1))

theorem call_update {a : ι × ChannelCall} (h : a.2 ≠ .remove) :
    s.call P a = s.update P a.1 (a.2.apply (s.channel a.1)) := by
  obtain ⟨i, c⟩ := a
  cases c with
  | remove => exact absurd rfl h
  | _ => rfl

def machine : Machine (PolledChannels ι σ) (ι × ChannelCall) Fault where
  Allows _ _ := True
  step := call P

end PolledChannels

/-- What the calls have asked for so far. -/
structure Roster (ι : Type) where
  channel : ι → Channel
  /-- channels that have been removed at least once -/
  removed : ι → Bool

namespace Roster

variable {ι : Type}

def init : Roster ι where
  channel _ := .init
  removed _ := false

def next [DecidableEq ι] (t : Roster ι) (a : ι × ChannelCall) : Roster ι where
  channel := Function.update t.channel a.1 (a.2.apply (t.channel a.1))
  removed := if a.2 = .remove then Function.update t.removed a.1 true else t.removed

variable (t : Roster ι)

/-- A channel is removed without interest, and its first call, also the first
behind a removal, is an enabling one. -/
def Orderly (a : ι × ChannelCall) : Prop :=
  match a.2 with
  | .remove => (t.channel a.1).addedToLoop = true ∧ (t.channel a.1).isNoneEvent = true
  | c => c.isEnabling = true ∨ (t.channel a.1).addedToLoop = true

theorem Orderly.of_ne_remove {t : Roster ι} {a : ι × ChannelCall} (h : t.Orderly a)
    (ha : a.2 ≠ .remove) :
    a.2.isEnabling = true ∨ (t.channel a.1).addedToLoop = true := by
  obtain ⟨i, c⟩ := a
  cases c with
  | remove => exact absurd rfl ha
  | _ => exact h

def Effective (a : ι × ChannelCall) : Prop :=
  a.2.isDisabling = true → (t.channel a.1).isNoneEvent = false

/-- No channel is registered again behind its removal. -/
def Fresh (a : ι × ChannelCall) : Prop :=
  t.removed a.1 = false

instance (a : ι × ChannelCall) : Decidable (t.Orderly a) :=
  match a with
  | (_, .remove) => inferInstanceAs (Decidable (_ ∧ _))
  | (_, .enableReading) | (_, .disableReading) | (_, .enableWriting) | (_, .disableWriting)
  | (_, .disableAll) => inferInstanceAs (Decidable (_ ∨ _))

instance (a : ι × ChannelCall) : Decidable (t.Effective a) :=
  inferInstanceAs (Decidable (_ → _))

instance (a : ι × ChannelCall) : Decidable (t.Fresh a) :=
  inferInstanceAs (Decidable (_ = _))

/-- The registered channels with interest, by descriptor and interest. -/
def wanted (D : Descriptors ι) : Set (ℤ × PollEvents) :=
  {w | ∃ i, (t.channel i).addedToLoop = true ∧ (t.channel i).isNoneEvent = false ∧
    w = (D.fd i, (t.channel i).events)}

variable [DecidableEq ι]

@[simp] theorem next_channel_self (i : ι) (c : ChannelCall) :
    (t.next (i, c)).channel i = c.apply (t.channel i) := by
  simp [next]

theorem next_channel_of_ne {i j : ι} (h : j ≠ i) (c : ChannelCall) :
    (t.next (i, c)).channel j = t.channel j := by
  simp [next, h]

theorem next_removed {c : ChannelCall} (h : c ≠ .remove) (i : ι) :
    (t.next (i, c)).removed = t.removed := by
  simp [next, h]

def machine : Machine (Roster ι) (ι × ChannelCall) Fault := Machine.ofNext Orderly next

/-- Calls that take interest away only where there is some, and never come back
to a removed channel. -/
def carefulMachine : Machine (Roster ι) (ι × ChannelCall) Fault :=
  Machine.ofNext (fun t a => t.Effective a ∧ t.Fresh a) next

instance (a : ι × ChannelCall) : Decidable (machine.Allows t a) :=
  inferInstanceAs (Decidable (t.Orderly a))

instance (a : ι × ChannelCall) : Decidable (carefulMachine.Allows t a) :=
  inferInstanceAs (Decidable (t.Effective a ∧ t.Fresh a))

end Roster

namespace PolledChannels

variable {ι σ : Type} [DecidableEq ι] {P : Poller ι σ} {s : PolledChannels ι σ} {t : Roster ι}

/-- What the poller makes of a removal is all that is left to show of it. -/
theorem call_remove_ok (h : s.channel = t.channel) {i : ι} {q : σ}
    (hidle : (t.channel i).isNoneEvent = true)
    (hq : P.removeChannel s.poller i (ChannelCall.remove.apply (t.channel i)) = .ok q) :
    s.call P (i, .remove) = .ok ⟨(t.next (i, .remove)).channel, q⟩ := by
  simp only [call, remove, h, assertThat_pos hidle, hq, ok_bind, pure_eq_ok, Roster.next]

theorem call_update_ok (h : s.channel = t.channel) {a : ι × ChannelCall} {q : σ}
    (ha : a.2 ≠ .remove)
    (hq : P.updateChannel s.poller a.1 (a.2.apply (t.channel a.1)) = .ok q) :
    s.call P a = .ok ⟨(t.next a).channel, q⟩ := by
  rw [call_update _ _ ha, update, h, hq, ok_bind, pure_eq_ok, Roster.next]

theorem call_update_error (h : s.channel = t.channel) {a : ι × ChannelCall} {e : Fault}
    (ha : a.2 ≠ .remove)
    (hq : P.updateChannel s.poller a.1 (a.2.apply (t.channel a.1)) = .error e) :
    s.call P a = .error e := by
  rw [call_update _ _ ha, update, h, hq, error_bind]

end PolledChannels
end Muduo
