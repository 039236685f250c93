import Muduo.Poller.EPollPoller
import Muduo.Poller.PollPoller

/-!
# Do the two pollers watch the same?

The same calls are made on channels behind either poller. Each of them has calls
after which it no longer watches what is wanted, and they are not the same calls.
-/

namespace Muduo

open Foundations

section Agreement

variable {ι : Type} [DecidableEq ι] (D : Descriptors ι)

/-- Behind the calls `done`, both pollers have returned, and watch exactly the
registered channels with interest. -/
def PollersAgree (done : List (ι × ChannelCall)) : Prop :=
  ∃ e p, (EPollPoller.machine D).run EPollPoller.start done = .ok e ∧
    (PollPoller.machine D).run PollPoller.start done = .ok p ∧
    e.poller.watched = (done.foldl Roster.next Roster.init).wanted D ∧
    p.poller.watched = (done.foldl Roster.next Roster.init).wanted D

theorem pollers_agree_iff_careful (calls : List (ι × ChannelCall))
    (horderly : Roster.machine.Permits Roster.init calls) :
    (∀ done, done <+: calls → PollersAgree D done) ↔
      Roster.carefulMachine.Permits Roster.init calls := by
  rw [Roster.carefulMachine, Machine.permits_ofNext_and,
    ← EPollPoller.watched_at_prefixes_iff D calls horderly,
    ← PollPoller.watched_at_prefixes_iff D calls horderly]
  constructor
  · intro h
    constructor
    · intro done hdone
      obtain ⟨e, -, he, -, hwatched, -⟩ := h done hdone
      exact ⟨e, he, hwatched⟩
    · intro done hdone
      obtain ⟨-, p, -, hp, -, hwatched⟩ := h done hdone
      exact ⟨p, hp, hwatched⟩
  · rintro ⟨hepoll, hpoll⟩ done hdone
    obtain ⟨e, he, hewatched⟩ := hepoll done hdone
    obtain ⟨p, hp, hpwatched⟩ := hpoll done hdone
    exact ⟨e, p, he, hp, hewatched, hpwatched⟩

end Agreement

def twoDescriptors : Descriptors Bool where
  fd b := if b then 3 else 5
  nonneg b := by cases b <;> decide
  distinct := by decide

def carefulCalls : List (Bool × ChannelCall) :=
  [(true, .enableReading), (false, .enableWriting), (true, .disableAll), (true, .enableWriting),
    (true, .disableWriting), (true, .remove), (false, .disableWriting)]

theorem pollers_agree_on_careful_calls :
    Roster.machine.Permits Roster.init carefulCalls ∧
      Roster.carefulMachine.Permits Roster.init carefulCalls ∧
      ∀ done, done <+: carefulCalls → PollersAgree twoDescriptors done := by
  have hcareful : Roster.carefulMachine.Permits Roster.init carefulCalls := by decide +kernel
  have horderly : Roster.machine.Permits Roster.init carefulCalls := by decide +kernel
  exact ⟨horderly, hcareful,
    (pollers_agree_iff_careful twoDescriptors carefulCalls horderly).mpr hcareful⟩

def idleCalls : List (Bool × ChannelCall) :=
  [(true, .enableReading), (true, .disableAll), (true, .disableAll)]

def returningCalls : List (Bool × ChannelCall) :=
  [(true, .enableReading), (true, .disableAll), (true, .remove), (true, .enableReading)]

/-- Behind the second `disableAll` the kernel watches the descriptor again, with
no events asked for, and `poll` does not; and the poller over `poll` stops at a
channel that comes back. -/
theorem pollers_disagree :
    (Roster.machine.Permits Roster.init idleCalls ∧
      (∃ e, (EPollPoller.machine twoDescriptors).run EPollPoller.start idleCalls = .ok e ∧
        (3, PollEvents.kNoneEvent) ∈ e.poller.watched) ∧
      ∃ p, (PollPoller.machine twoDescriptors).run PollPoller.start idleCalls = .ok p ∧
        p.poller.watched = ∅) ∧
    Roster.machine.Permits Roster.init returningCalls ∧
      (PollPoller.machine twoDescriptors).run PollPoller.start returningCalls =
        .error .assertion := by
  have hepoll : ((EPollPoller.machine twoDescriptors).run EPollPoller.start
      idleCalls).toOption.map (fun e => e.poller.kernel 3) =
        some (some (PollEvents.kNoneEvent, true)) := by decide +kernel
  have hpoll : ((PollPoller.machine twoDescriptors).run PollPoller.start
      idleCalls).toOption.map (fun p => p.poller.pollfds) =
        some [{ fd := -4, events := PollEvents.kNoneEvent }] := by decide +kernel
  obtain ⟨e, he, hkernel⟩ := exists_ok_of_map hepoll
  obtain ⟨p, hp, hpollfds⟩ := exists_ok_of_map hpoll
  refine ⟨⟨by decide +kernel, ⟨e, he, true, hkernel⟩, p, hp, ?_⟩, by decide +kernel, rfl⟩
  rw [PollPoller.watched, hpollfds]
  simp

end Muduo
