import Muduo.Connection.TcpConnection

/-!
# The bytes that leave a connection

A message passed to `sendInLoop` goes to the kernel directly, to the output
buffer, or in part to each; `handleWrite` later moves bytes from the buffer to
the kernel. Whatever the kernel answers, the bytes it has accepted followed by
the buffered ones are the messages in the order of the calls, until a write
fails with `EPIPE` or `ECONNRESET` or the connection is down.
-/

namespace Muduo

open Foundations

namespace Event

def accepted : Event → List UInt8
  | write data _ => data
  | _ => []

def passed : Event → List UInt8
  | sendInLoop message => message
  | _ => []

def isWrite : Event → Bool
  | write _ _ => true
  | _ => false

/-- The two errors on which `sendInLoop` gives a message up. -/
def breaksPipe : Event → Bool
  | write _ (some .EPIPE) => true
  | write _ (some .ECONNRESET) => true
  | _ => false

theorem passed_of_isWrite {e : Event} (h : e.isWrite = true) : e.passed = [] := by
  cases e with
  | write _ _ => rfl
  | _ => cases h

end Event

def WriteAnswer.errno : WriteAnswer → Option Errno
  | .failed errno => some errno
  | .took _ => none

def Functor.isNotification : Functor → Bool
  | writeCompleteCallback => true
  | highWaterMarkCallback _ => true
  | _ => false

namespace TcpConnection

variable (c : TcpConnection)

def acceptedBytes : List UInt8 := c.history.flatMap Event.accepted

/-- All messages passed to `sendInLoop`, one after the other. -/
def passedBytes : List UInt8 := c.history.flatMap Event.passed

def pipeBroken : Bool := c.history.any Event.breaksPipe

/-- From `c` to `c'` nothing but notifications of the user was queued. -/
def OnlyNotifies (c c' : TcpConnection) : Prop :=
  ∃ ns, c'.pendingFunctors = c.pendingFunctors ++ ns ∧ ∀ f ∈ ns, f.isNotification = true

/-- Write interest stands exactly for buffered output. -/
def WritesWhatIsLeft : Prop := c.channel.isWriting = true ↔ c.outputBuffer.contents ≠ []

variable {c}

theorem OnlyNotifies.refl (c : TcpConnection) : OnlyNotifies c c := ⟨[], by simp, by simp⟩

theorem OnlyNotifies.trans {c₁ c₂ c₃ : TcpConnection} (h₁ : OnlyNotifies c₁ c₂)
    (h₂ : OnlyNotifies c₂ c₃) : OnlyNotifies c₁ c₃ := by
  obtain ⟨ns, hns, hn⟩ := h₁
  obtain ⟨ms, hms, hm⟩ := h₂
  refine ⟨ns ++ ms, by rw [hms, hns, List.append_assoc], ?_⟩
  intro f hf
  rcases List.mem_append.mp hf with hf | hf
  · exact hn f hf
  · exact hm f hf

theorem onlyNotifies_queueInLoop {f : Functor} (hf : f.isNotification = true) :
    OnlyNotifies c (c.queueInLoop f) :=
  ⟨[f], rfl, by simp [hf]⟩

/-- Queueing a notification changes nothing else. -/
structure SameBut (c c' : TcpConnection) : Prop where
  state : c'.state = c.state
  channel : c'.channel = c.channel
  output : c'.outputBuffer = c.outputBuffer
  history : c'.history = c.history
  notifies : OnlyNotifies c c'

theorem noteWriteComplete_spec : SameBut c c.noteWriteComplete := by
  unfold noteWriteComplete
  split_ifs
  · exact ⟨rfl, rfl, rfl, rfl, onlyNotifies_queueInLoop rfl⟩
  · exact ⟨rfl, rfl, rfl, rfl, .refl c⟩

theorem noteHighWaterMark_spec (remaining : ℕ) : SameBut c (c.noteHighWaterMark remaining) := by
  unfold noteHighWaterMark
  dsimp only
  split_ifs
  · exact ⟨rfl, rfl, rfl, rfl, onlyNotifies_queueInLoop rfl⟩
  · exact ⟨rfl, rfl, rfl, rfl, .refl c⟩

/-- What the direct write leaves to be done: `nwrote` bytes are with the kernel,
and only a broken pipe is a fault. -/
structure DirectWrite (c c' : TcpConnection) (message : List UInt8) (answer : WriteAnswer)
    (nwrote : ℕ) (faultError : Bool) : Prop where
  state : c'.state = c.state
  channel : c'.channel = c.channel
  output : c'.outputBuffer = c.outputBuffer
  notifies : OnlyNotifies c c'
  le_length : nwrote ≤ message.length
  history : c'.history = c.history ++ [.write (message.take nwrote) answer.errno]
  fault : (Event.write (message.take nwrote) answer.errno).breaksPipe = faultError

theorem writeDirectly_spec (message : List UInt8) (answer : WriteAnswer) :
    DirectWrite c (c.writeDirectly message answer).1 message answer
      (c.writeDirectly message answer).2.1 (c.writeDirectly message answer).2.2 := by
  cases answer with
  | took n =>
    simp only [writeDirectly]
    split_ifs with hdone
    · obtain ⟨hs, hch, ho, hh, hn⟩ := noteWriteComplete_spec
        (c := c.observe (.write (message.take (min n message.length)) none))
      exact ⟨hs, hch, ho, hn, min_le_right _ _, hh, rfl⟩
    · exact ⟨rfl, rfl, rfl, .refl c, min_le_right _ _, rfl, rfl⟩
  | failed errno =>
    refine ⟨rfl, rfl, rfl, .refl c, Nat.zero_le _, rfl, ?_⟩
    cases errno <;> rfl

theorem ensureWriting_spec :
    c.ensureWriting.channel.isWriting = true ∧
      c.ensureWriting = { c with channel := c.ensureWriting.channel } := by
  unfold ensureWriting
  split_ifs with h
  · exact ⟨h, rfl⟩
  · exact ⟨c.channel.isWriting_enableWriting, rfl⟩

theorem bufferRest_spec (rest : List UInt8) :
    ∃ c', c.bufferRest rest = .ok c' ∧ c'.state = c.state ∧ c'.history = c.history ∧
      c'.channel.isWriting = true ∧ OnlyNotifies c c' ∧
      c'.outputBuffer.contents = c.outputBuffer.contents ++ rest := by
  obtain ⟨hs, -, ho, hh, hn⟩ := c.noteHighWaterMark_spec rest.length
  obtain ⟨out, hout, hc, -⟩ := (c.noteHighWaterMark rest.length).outputBuffer.append_spec rest
  obtain ⟨hw, he⟩ := ensureWriting_spec
    (c := { c.noteHighWaterMark rest.length with outputBuffer := out })
  refine ⟨_, by simp only [bufferRest, hout, ok_bind, pure_eq_ok], ?_, ?_, hw, ?_, ?_⟩
  · rw [he]
    exact hs
  · rw [he]
    exact hh
  · rw [he]
    exact hn
  · rw [he, ← ho]
    exact hc

theorem sendInLoop_disconnected (message : List UInt8) (answer : WriteAnswer)
    (h : c.state = .kDisconnected) :
    c.sendInLoop message answer = .ok (c.observe (.sendInLoop message)) := by
  simp [sendInLoop, observe, h]

/-- The effect of an output step: it takes the bytes `added`, adds `events` to
the history and may queue notifications, but leaves the state alone. -/
structure OutputStep (c c' : TcpConnection) (added : List UInt8) (events : List Event) : Prop where
  state : c'.state = c.state
  notifies : OnlyNotifies c c'
  history : c'.history = c.history ++ events
  bytes : events.any Event.breaksPipe = false →
    events.flatMap Event.accepted ++ c'.outputBuffer.contents = c.outputBuffer.contents ++ added
  interest : events.any Event.breaksPipe = false → c.WritesWhatIsLeft → c'.WritesWhatIsLeft

/-- Behind the direct write: the rest is buffered, unless the pipe is broken. -/
theorem sendRest_spec (message : List UInt8) (nwrote : ℕ) (faultError : Bool) :
    ∃ c', c.sendRest message nwrote faultError = .ok c' ∧
      c'.state = c.state ∧ c'.history = c.history ∧ OnlyNotifies c c' ∧
      (faultError = false →
        c'.outputBuffer.contents = c.outputBuffer.contents ++ message.drop nwrote ∧
        (c'.channel.isWriting = true ↔
          message.drop nwrote ≠ [] ∨ c.channel.isWriting = true)) := by
  unfold sendRest
  dsimp only
  rw [assertThat_pos (Nat.sub_le _ _), ok_bind]
  by_cases hrest : faultError = false ∧ 0 < message.length - nwrote
  · obtain ⟨c', hb, hs, hh, hw, hn, hc⟩ := c.bufferRest_spec (message.drop nwrote)
    have hne : message.drop nwrote ≠ [] := by
      rw [Ne, List.drop_eq_nil_iff]
      omega
    refine ⟨c', by simp [hrest, hb], hs, hh, hn, fun _ => ⟨hc, ?_⟩⟩
    simp [hw, hne]
  · refine ⟨c, by simp_all, rfl, rfl, .refl c, fun hf => ?_⟩
    have hnil : message.drop nwrote = [] := by
      rw [List.drop_eq_nil_iff]
      by_contra h
      exact hrest ⟨hf, by omega⟩
    simp [hnil]

/-- Nothing is buffered, and nothing will be written before the next message. -/
def Idle (c : TcpConnection) : Prop :=
  c.channel.isWriting = false ∧ c.outputBuffer.contents = []

/-- `sendInLoop` tries one write if the connection is idle. -/
def SendWrites (c : TcpConnection) (answer : WriteAnswer) (writes : List Event) : Prop :=
  (c.Idle → ∃ data, writes = [.write data answer.errno]) ∧ (¬ c.Idle → writes = [])

theorem SendWrites.isWrite {answer : WriteAnswer} {writes : List Event}
    (h : c.SendWrites answer writes) : ∀ e ∈ writes, e.isWrite = true := by
  intro e he
  by_cases hidle : c.Idle
  · obtain ⟨data, rfl⟩ := h.1 hidle
    rw [List.mem_singleton.mp he]
    rfl
  · simp [h.2 hidle] at he

theorem sendInLoop_spec (message : List UInt8) (answer : WriteAnswer)
    (h : c.state ≠ .kDisconnected) :
    ∃ c' writes, c.sendInLoop message answer = .ok c' ∧
      OutputStep c c' message (.sendInLoop message :: writes) ∧ c.SendWrites answer writes := by
  have hstate : (c.observe (.sendInLoop message)).state ≠ .kDisconnected := h
  unfold sendInLoop
  dsimp only
  rw [if_neg hstate]
  split_ifs with hdirect
  · have hempty : c.outputBuffer.contents = [] :=
      c.outputBuffer.contents_eq_nil_iff.mpr hdirect.2
    have hquiet : c.channel.isWriting = false := by simpa using hdirect.1
    obtain ⟨hs, hch, ho, hn, -, hh, hfault⟩ :=
      (c.observe (.sendInLoop message)).writeDirectly_spec message answer
    generalize (c.observe (.sendInLoop message)).writeDirectly message answer = direct at *
    obtain ⟨c', hc', hs', hh', hn', hrest⟩ := direct.1.sendRest_spec message direct.2.1 direct.2.2
    refine ⟨c', [.write (message.take direct.2.1) answer.errno], hc', ⟨?_, ?_, ?_, ?_, ?_⟩,
      fun _ => ⟨_, rfl⟩, fun hbusy => absurd ⟨hquiet, hempty⟩ hbusy⟩
    · exact hs'.trans hs
    · exact hn.trans hn'
    · rw [hh', hh]
      simp [observe]
    · intro hok
      have hf : direct.2.2 = false := by simpa [← hfault, Event.breaksPipe] using hok
      simp [Event.accepted, (hrest hf).1, ho, observe, hempty]
    · intro hok _
      have hf : direct.2.2 = false := by simpa [← hfault, Event.breaksPipe] using hok
      rw [WritesWhatIsLeft, (hrest hf).2, (hrest hf).1, ho, hch]
      simp [observe, hempty, hquiet]
  · have hbusy : ¬ c.Idle := by
      rintro ⟨hquiet, hempty⟩
      apply hdirect
      exact ⟨by simp [observe, hquiet], c.outputBuffer.contents_eq_nil_iff.mp hempty⟩
    obtain ⟨c', hc', hs', hh', hn', hrest⟩ :=
      (c.observe (.sendInLoop message)).sendRest_spec message 0 false
    obtain ⟨hbytes, hwrites⟩ := hrest rfl
    refine ⟨c', [], hc', ⟨hs', hn', hh', ?_, ?_⟩, fun hidle => absurd hidle hbusy, fun _ => rfl⟩
    · intro _
      simpa [Event.accepted] using hbytes
    · intro _ hinv
      rw [WritesWhatIsLeft, hwrites, hbytes]
      rw [WritesWhatIsLeft] at hinv
      simp only [observe, List.drop_zero, hinv]
      cases message <;> simp

theorem shutdownInLoop_of_not_writing (h : c.channel.isWriting = false) :
    c.shutdownInLoop = c.observe .shutdownWrite := by
  simp [shutdownInLoop, h]

/-- The write that `handleWrite` makes with this answer empties the buffer. -/
def Drains (c : TcpConnection) : WriteAnswer → Prop
  | .took k => 0 < c.outputBuffer.readableBytes ∧ c.outputBuffer.readableBytes ≤ k
  | .failed _ => False

/-- `handleWrite` empties the buffer of a connection that is being shut down. -/
def DrainsClosing (c : TcpConnection) (answer : WriteAnswer) : Prop :=
  c.state = .kDisconnecting ∧ c.Drains answer

/-- Behind a write of `n` bytes the rest stays, and only when nothing is left
does the write interest go, and the socket is shut down if that was asked for. -/
theorem retrieveWritten_spec {n : ℕ} (hn : n ≤ c.outputBuffer.readableBytes) :
    ∃ c' events, c.retrieveWritten n = .ok c' ∧ c'.state = c.state ∧ OnlyNotifies c c' ∧
      c'.history = c.history ++ events ∧
      c'.outputBuffer.contents = c.outputBuffer.contents.drop n ∧
      (c'.channel.isWriting = true ↔
        c'.outputBuffer.contents ≠ [] ∧ c.channel.isWriting = true) ∧
      (c.state = .kDisconnecting ∧ c'.outputBuffer.contents = [] → events = [.shutdownWrite]) ∧
      (¬ (c.state = .kDisconnecting ∧ c'.outputBuffer.contents = []) → events = []) := by
  obtain ⟨out, hout, hc⟩ := Buffer.retrieve_spec hn
  simp only [retrieveWritten, hout, ok_bind]
  split_ifs with hempty hdown
  · have hnil := out.contents_eq_nil_iff.mpr hempty
    have hnote := noteWriteComplete_spec (c := { c with
      outputBuffer := out, channel := c.channel.disableWriting })
    generalize noteWriteComplete _ = c₁ at *
    have hw : c₁.channel.isWriting = false := by rw [hnote.channel]; simp
    have ho : c₁.outputBuffer.contents = [] := by rw [hnote.output]; exact hnil
    have hstate : c.state = .kDisconnecting := hnote.state ▸ hdown
    refine ⟨c₁.observe .shutdownWrite, [.shutdownWrite], ?_, hnote.state, hnote.notifies, ?_, ?_,
      ?_, fun _ => rfl, fun h => absurd ⟨hstate, ho⟩ h⟩
    · rw [shutdownInLoop_of_not_writing hw]
      rfl
    · simp [hnote.history]
    · simp [ho, ← hc, hnil]
    · simp [hw, ho]
  · have hnil := out.contents_eq_nil_iff.mpr hempty
    have hnote := noteWriteComplete_spec (c := { c with
      outputBuffer := out, channel := c.channel.disableWriting })
    generalize noteWriteComplete _ = c₁ at *
    have hw : c₁.channel.isWriting = false := by rw [hnote.channel]; simp
    have ho : c₁.outputBuffer.contents = [] := by rw [hnote.output]; exact hnil
    have hstate : c.state ≠ .kDisconnecting := hnote.state ▸ hdown
    refine ⟨c₁, [], rfl, hnote.state, hnote.notifies, by simp [hnote.history], ?_, ?_,
      fun h => absurd h.1 hstate, fun _ => rfl⟩
    · rw [ho, ← hc, hnil]
    · simp [hw, ho]
  · have hne : out.contents ≠ [] := fun h => hempty (out.contents_eq_nil_iff.mp h)
    exact ⟨_, [], rfl, rfl, .refl c, by simp, hc, by simp [hne], fun h => absurd h.2 hne,
      fun _ => rfl⟩

/-- What `handleWrite` adds to the history, and that the buffer is empty when it
shuts the socket down. -/
structure HandleWrites (c c' : TcpConnection) (answer : WriteAnswer) (events : List Event) :
    Prop where
  quiet : c.channel.isWriting = false → events = []
  write : c.channel.isWriting = true → ¬ c.DrainsClosing answer →
    ∃ data, events = [.write data answer.errno]
  drain : c.channel.isWriting = true → c.DrainsClosing answer →
    c'.outputBuffer.contents = [] ∧ ∃ data, events = [.write data none, .shutdownWrite]

theorem HandleWrites.mem {c' : TcpConnection} {answer : WriteAnswer} {events : List Event}
    (h : HandleWrites c c' answer events) :
    ∀ e ∈ events, e.isWrite = true ∨ e = .shutdownWrite := by
  intro e he
  cases hw : c.channel.isWriting with
  | false => simp [h.quiet hw] at he
  | true =>
    by_cases hdrain : c.DrainsClosing answer
    · obtain ⟨-, data, rfl⟩ := h.drain hw hdrain
      rcases List.mem_pair.mp he with rfl | rfl
      · exact .inl rfl
      · exact .inr rfl
    · obtain ⟨data, rfl⟩ := h.write hw hdrain
      rw [List.mem_singleton.mp he]
      exact .inl rfl

theorem handleWrite_spec (answer : WriteAnswer) :
    ∃ c' events, c.handleWrite answer = .ok c' ∧ OutputStep c c' [] events ∧
      HandleWrites c c' answer events := by
  unfold handleWrite
  by_cases hw : c.channel.isWriting = true
  · rw [if_pos hw]
    have hnot : c.channel.isWriting ≠ false := by simp [hw]
    cases answer with
    | failed errno =>
      refine ⟨_, [.write [] (some errno)], rfl, ⟨rfl, .refl c, rfl, ?_, ?_⟩,
        fun h => absurd h hnot, fun _ _ => ⟨[], rfl⟩, fun _ h => h.2.elim⟩
      · simp [Event.accepted]
      · intro _ h
        exact h
    | took k =>
      dsimp only
      split_ifs with hpos
      · have hle : min k c.outputBuffer.readableBytes ≤ c.outputBuffer.readableBytes :=
          min_le_right _ _
        obtain ⟨c', events, hc', hs, hn, hh, ho, hi, hshut, hopen⟩ := retrieveWritten_spec
          (c := c.observe (.write (c.outputBuffer.contents.take
            (min k c.outputBuffer.readableBytes)) none)) hle
        simp only [observe_state, observe_history, observe_outputBuffer, observe_channel] at *
        have hdrains : c.DrainsClosing (.took k) ↔
            c.state = .kDisconnecting ∧ c'.outputBuffer.contents = [] := by
          rw [ho, List.drop_eq_nil_iff, Buffer.length_contents]
          refine and_congr_right fun _ => ?_
          rw [Drains, le_min_iff]
          omega
        have haccepted : events.flatMap Event.accepted = [] := by
          by_cases hd : c.state = .kDisconnecting ∧ c'.outputBuffer.contents = []
          · simp [hshut hd, Event.accepted]
          · simp [hopen hd]
        refine ⟨c',
          .write (c.outputBuffer.contents.take (min k c.outputBuffer.readableBytes)) none ::
          events, hc', ⟨hs, hn, by simp [hh], ?_, ?_⟩, fun h => absurd h hnot, ?_, ?_⟩
        · intro _
          simp [haccepted, Event.accepted, ho]
        · intro _ _
          simp [WritesWhatIsLeft, hi, hw]
        · intro _ hd
          exact ⟨_, by rw [hopen (hdrains.not.mp hd)]; rfl⟩
        · intro _ hd
          exact ⟨(hdrains.mp hd).2, _, by rw [hshut (hdrains.mp hd)]⟩
      · have hzero : min k c.outputBuffer.readableBytes = 0 := by omega
        have hnone : ¬ c.DrainsClosing (.took k) := by
          rintro ⟨-, hsome, hall⟩
          omega
        refine ⟨_, [.write [] none], rfl, ⟨rfl, .refl c, ?_, ?_, ?_⟩, fun h => absurd h hnot,
          fun _ _ => ⟨[], rfl⟩, fun _ h => absurd h hnone⟩
        · simp [hzero]
        · simp [Event.accepted]
        · intro _ h
          exact h
  · rw [if_neg hw]
    refine ⟨c, [], rfl, ⟨rfl, .refl c, by simp, by simp, fun _ h => h⟩, fun _ => rfl,
      fun h => absurd h hw, fun h => absurd h hw⟩

/-- Nothing is lost, repeated or reordered while the connection can be used. -/
def StreamKept (c : TcpConnection) : Prop :=
  c.state ≠ .kDisconnected → c.pipeBroken = false →
    c.acceptedBytes ++ c.outputBuffer.contents = c.passedBytes

/-- A step that may leave the stream of bytes as it should be: a connection that
is down stays down. -/
def KeepsStream (c c' : TcpConnection) : Prop :=
  (c.state = .kDisconnected → c'.state = .kDisconnected) ∧ (c.StreamKept → c'.StreamKept)

theorem KeepsStream.refl (c : TcpConnection) : KeepsStream c c := ⟨id, id⟩

theorem KeepsStream.trans {c₁ c₂ c₃ : TcpConnection} (h₁ : KeepsStream c₁ c₂)
    (h₂ : KeepsStream c₂ c₃) : KeepsStream c₁ c₃ :=
  ⟨h₂.1 ∘ h₁.1, h₂.2 ∘ h₁.2⟩

theorem keepsStream_of_disconnected {c' : TcpConnection} (h : c'.state = .kDisconnected) :
    KeepsStream c c' :=
  ⟨fun _ => h, fun _ hne => absurd h hne⟩

theorem OutputStep.keepsStream {c' : TcpConnection} {added : List UInt8} {events : List Event}
    (h : OutputStep c c' added events) (hadded : events.flatMap Event.passed = added) :
    KeepsStream c c' := by
  refine ⟨fun hd => h.state.trans hd, ?_⟩
  intro hk hstate hpipe
  rw [h.state] at hstate
  rw [pipeBroken, h.history, List.any_append, Bool.or_eq_false_iff] at hpipe
  have hbefore := hk hstate hpipe.1
  have hbytes := h.bytes hpipe.2
  calc c'.acceptedBytes ++ c'.outputBuffer.contents
      = c.acceptedBytes ++ (events.flatMap Event.accepted ++ c'.outputBuffer.contents) := by
        simp [acceptedBytes, h.history]
    _ = c.passedBytes ++ added := by rw [hbytes, ← List.append_assoc, hbefore]
    _ = c'.passedBytes := by simp [passedBytes, h.history, hadded]

/-- Steps that neither send nor write: the output and the bytes of the history
are untouched. -/
theorem keepsStream_of_same {c' : TcpConnection} (events : List Event)
    (hs : c.state = .kDisconnected → c'.state = .kDisconnected)
    (ho : c'.outputBuffer = c.outputBuffer) (hh : c'.history = c.history ++ events)
    (hevents : ∀ e ∈ events, e = .shutdownWrite) : KeepsStream c c' := by
  refine ⟨hs, ?_⟩
  intro hk hstate hpipe
  rw [pipeBroken, hh, List.any_append, Bool.or_eq_false_iff] at hpipe
  have hbefore := hk (fun hd => hstate (hs hd)) hpipe.1
  have hzero : events.flatMap Event.accepted = [] ∧ events.flatMap Event.passed = [] := by
    constructor <;> rw [List.flatMap_eq_nil_iff] <;> intro e he <;> rw [hevents e he] <;> rfl
  rw [acceptedBytes, passedBytes, hh, ho, List.flatMap_append, List.flatMap_append, hzero.1,
    hzero.2, List.append_nil, List.append_nil]
  exact hbefore

theorem shutdownInLoop_keepsStream : KeepsStream c c.shutdownInLoop := by
  unfold shutdownInLoop
  split_ifs
  · exact .refl c
  · exact keepsStream_of_same [.shutdownWrite] id rfl rfl (by simp)

theorem sendInLoop_keepsStream (message : List UInt8) (answer : WriteAnswer) :
    ∃ c', c.sendInLoop message answer = .ok c' ∧ KeepsStream c c' := by
  by_cases h : c.state = .kDisconnected
  · exact ⟨_, sendInLoop_disconnected message answer h, keepsStream_of_disconnected h⟩
  · obtain ⟨c', writes, hc', hstep, hwrites⟩ := sendInLoop_spec message answer h
    refine ⟨c', hc', hstep.keepsStream ?_⟩
    have hnone : writes.flatMap Event.passed = [] := by
      rw [List.flatMap_eq_nil_iff]
      exact fun e he => Event.passed_of_isWrite (hwrites.isWrite e he)
    simp [hnone, Event.passed]

theorem handleWrite_keepsStream (answer : WriteAnswer) :
    ∃ c', c.handleWrite answer = .ok c' ∧ KeepsStream c c' := by
  obtain ⟨c', events, hc', hstep, hevents⟩ := c.handleWrite_spec answer
  refine ⟨c', hc', hstep.keepsStream ?_⟩
  rw [List.flatMap_eq_nil_iff]
  intro e he
  rcases hevents.mem e he with hw | rfl
  · exact Event.passed_of_isWrite hw
  · rfl

theorem startReadInLoop_keepsStream : KeepsStream c c.startReadInLoop := by
  unfold startReadInLoop
  split_ifs
  · exact keepsStream_of_same [] id rfl (by simp) (by simp)
  · exact .refl c

theorem stopReadInLoop_keepsStream : KeepsStream c c.stopReadInLoop := by
  unfold stopReadInLoop
  split_ifs
  · exact keepsStream_of_same [] id rfl (by simp) (by simp)
  · exact .refl c

theorem forceClose_keepsStream : KeepsStream c c.forceClose := by
  unfold forceClose
  split_ifs with h
  · exact keepsStream_of_same [] (by rcases h with h | h <;> simp [h]) rfl (by simp) (by simp)
  · exact .refl c

theorem forceCloseWithDelay_keepsStream : KeepsStream c c.forceCloseWithDelay := by
  unfold forceCloseWithDelay
  split_ifs with h
  · exact keepsStream_of_same [] (by rcases h with h | h <;> simp [h]) rfl (by simp) (by simp)
  · exact .refl c

theorem call_keepsStream (a : Call WriteAnswer) : ∃ c', c.call a = .ok c' ∧ KeepsStream c c' := by
  cases a with
  | send message answer =>
    simp only [call]
    split_ifs
    · exact sendInLoop_keepsStream message answer
    · exact ⟨c, rfl, .refl c⟩
  | shutdown =>
    simp only [call]
    split_ifs with h
    · refine ⟨_, rfl, KeepsStream.trans ?_ shutdownInLoop_keepsStream⟩
      exact keepsStream_of_same [] (by simp [h]) rfl (by simp) (by simp)
    · exact ⟨c, rfl, .refl c⟩
  | forceClose => exact ⟨_, rfl, forceClose_keepsStream⟩
  | forceCloseWithDelay => exact ⟨_, rfl, forceCloseWithDelay_keepsStream⟩
  | startRead => exact ⟨_, rfl, startReadInLoop_keepsStream⟩
  | stopRead => exact ⟨_, rfl, stopReadInLoop_keepsStream⟩

theorem calls_keepsStream (as : List (Call WriteAnswer)) :
    ∃ c', c.calls as = .ok c' ∧ KeepsStream c c' := by
  induction as generalizing c with
  | nil => exact ⟨c, rfl, .refl c⟩
  | cons a as ih =>
    obtain ⟨c₁, h₁, hk₁⟩ := c.call_keepsStream a
    obtain ⟨c₂, h₂, hk₂⟩ := ih (c := c₁)
    exact ⟨c₂, by simp [calls, h₁, h₂], hk₁.trans hk₂⟩

theorem foreignCall_keepsStream (a : Call Unit) : KeepsStream c (c.foreignCall a) := by
  cases a with
  | send message _ =>
    simp only [foreignCall]
    split_ifs
    · exact keepsStream_of_same [] id rfl (by simp) (by simp)
    · exact .refl c
  | shutdown =>
    simp only [foreignCall]
    split_ifs with h
    · exact keepsStream_of_same [] (by simp [h]) rfl (by simp) (by simp)
    · exact .refl c
  | forceClose => exact forceClose_keepsStream
  | forceCloseWithDelay => exact forceCloseWithDelay_keepsStream
  | startRead => exact keepsStream_of_same [] id rfl (by simp [foreignCall]) (by simp)
  | stopRead => exact keepsStream_of_same [] id rfl (by simp [foreignCall]) (by simp)

/-- A connection that is closed owes nothing more to its messages. -/
theorem forceCloseInLoop_keepsStream (onDown : List (Call WriteAnswer)) :
    ∃ c', c.forceCloseInLoop onDown = .ok c' ∧ KeepsStream c c' := by
  unfold forceCloseInLoop handleClose
  split_ifs with h
  · rw [assertThat_pos h, ok_bind]
    dsimp only
    generalize hdown : observe _ (.connectionCallback _) = down
    have hd : down.state = .kDisconnected := by rw [← hdown]; rfl
    obtain ⟨c', hc', hk⟩ := down.calls_keepsStream onDown
    refine ⟨c'.observe .closeCallback, by simp [hc'], keepsStream_of_disconnected ?_⟩
    exact hk.1 hd
  · exact ⟨c, rfl, .refl c⟩

/-- The steps by which output is made and a connection changes, in any order. -/
inductive LoopStep where
  | sendInLoop (message : List UInt8) (answer : WriteAnswer)
  | handleWrite (answer : WriteAnswer)
  | shutdownInLoop
  | startReadInLoop
  | stopReadInLoop
  | call (a : Call WriteAnswer)
  | foreignCall (a : Call Unit)
  | forceCloseInLoop (onDown : List (Call WriteAnswer))

def outputMachine : Machine TcpConnection LoopStep Fault where
  Allows _ _ := True
  step c
    | .sendInLoop message answer => c.sendInLoop message answer
    | .handleWrite answer => c.handleWrite answer
    | .shutdownInLoop => .ok c.shutdownInLoop
    | .startReadInLoop => .ok c.startReadInLoop
    | .stopReadInLoop => .ok c.stopReadInLoop
    | .call a => c.call a
    | .foreignCall a => .ok (c.foreignCall a)
    | .forceCloseInLoop onDown => c.forceCloseInLoop onDown

theorem outputMachine_permits (steps : List LoopStep) : outputMachine.Permits c steps :=
  outputMachine.permits_of_allows (fun _ _ => trivial) c steps

theorem outputMachine_step (c : TcpConnection) (a : LoopStep) :
    ∃ c', outputMachine.step c a = .ok c' ∧ KeepsStream c c' := by
  cases a with
  | sendInLoop message answer => exact sendInLoop_keepsStream message answer
  | handleWrite answer => exact handleWrite_keepsStream answer
  | shutdownInLoop => exact ⟨_, rfl, shutdownInLoop_keepsStream⟩
  | startReadInLoop => exact ⟨_, rfl, startReadInLoop_keepsStream⟩
  | stopReadInLoop => exact ⟨_, rfl, stopReadInLoop_keepsStream⟩
  | call a => exact call_keepsStream a
  | foreignCall a => exact ⟨_, rfl, foreignCall_keepsStream a⟩
  | forceCloseInLoop onDown => exact forceCloseInLoop_keepsStream onDown

/-- What the steps have passed to `sendInLoop`, and whether the connection is connected:
`send` passes a message on only then. -/
structure Sent where
  connected : Bool
  bytes : List UInt8

def Sent.after (sent : Sent) : LoopStep → Sent
  | .sendInLoop message _ => { sent with bytes := sent.bytes ++ message }
  | .call (.send message _) =>
    if sent.connected then { sent with bytes := sent.bytes ++ message } else sent
  | .call .shutdown | .call .forceClose | .call .forceCloseWithDelay
  | .foreignCall .shutdown | .foreignCall .forceClose | .foreignCall .forceCloseWithDelay
  | .forceCloseInLoop _ => { sent with connected := false }
  | _ => sent

/-- A connection that is not down knows what was sent. -/
structure Knows (c : TcpConnection) (sent : Sent) : Prop where
  bytes : c.passedBytes = sent.bytes
  connected : c.state = .kConnected ↔ sent.connected = true

theorem Knows.congr {c' : TcpConnection} {sent : Sent} (h : c.Knows sent)
    (hh : c'.passedBytes = c.passedBytes) (hs : c'.state = c.state) : c'.Knows sent :=
  ⟨hh.trans h.bytes, by rw [hs, h.connected]⟩

theorem Knows.leave {c' : TcpConnection} {sent : Sent} (h : c.Knows sent)
    (hh : c'.passedBytes = c.passedBytes) (hs : c'.state ≠ .kConnected) :
    c'.Knows { sent with connected := false } :=
  ⟨hh.trans h.bytes, by simp [hs]⟩

theorem Knows.sendInLoop {c' : TcpConnection} {sent : Sent} (h : c.Knows sent)
    (hup : c.state ≠ .kDisconnected) {message : List UInt8} {answer : WriteAnswer}
    (hc' : c.sendInLoop message answer = .ok c') :
    c'.Knows { sent with bytes := sent.bytes ++ message } := by
  obtain ⟨c₁, writes, hc₁, hstep, hwrites⟩ := sendInLoop_spec message answer hup
  cases hc₁.symm.trans hc'
  have hnone : writes.flatMap Event.passed = [] := by
    rw [List.flatMap_eq_nil_iff]
    exact fun e he => Event.passed_of_isWrite (hwrites.isWrite e he)
  refine ⟨?_, by rw [hstep.state, h.connected]⟩
  rw [passedBytes, hstep.history, List.flatMap_append, List.flatMap_cons, hnone, ← h.bytes]
  simp [passedBytes, Event.passed]

theorem Knows.handleWrite {c' : TcpConnection} {sent : Sent} (h : c.Knows sent)
    {answer : WriteAnswer} (hc' : c.handleWrite answer = .ok c') : c'.Knows sent := by
  obtain ⟨c₁, events, hc₁, hstep, hevents⟩ := c.handleWrite_spec answer
  cases hc₁.symm.trans hc'
  refine h.congr ?_ hstep.state
  have hnone : events.flatMap Event.passed = [] := by
    rw [List.flatMap_eq_nil_iff]
    intro e he
    rcases hevents.mem e he with hw | rfl
    · exact Event.passed_of_isWrite hw
    · rfl
  rw [passedBytes, hstep.history, List.flatMap_append, hnone, List.append_nil, passedBytes]

theorem passedBytes_shutdownInLoop : c.shutdownInLoop.passedBytes = c.passedBytes := by
  unfold shutdownInLoop
  split_ifs <;> simp [passedBytes, Event.passed, observe]

theorem state_shutdownInLoop : c.shutdownInLoop.state = c.state := by
  unfold shutdownInLoop
  split_ifs <;> rfl

theorem Knows.startReadInLoop {sent : Sent} (h : c.Knows sent) : c.startReadInLoop.Knows sent := by
  unfold TcpConnection.startReadInLoop
  split_ifs
  · exact h.congr rfl rfl
  · exact h

theorem Knows.stopReadInLoop {sent : Sent} (h : c.Knows sent) : c.stopReadInLoop.Knows sent := by
  unfold TcpConnection.stopReadInLoop
  split_ifs
  · exact h.congr rfl rfl
  · exact h

theorem Knows.forceClose {sent : Sent} (h : c.Knows sent) :
    c.forceClose.Knows { sent with connected := false } := by
  unfold TcpConnection.forceClose
  split_ifs with hs
  · exact h.leave rfl (by simp [TcpConnection.queueInLoop, setState])
  · exact h.leave rfl fun hc => hs (.inl hc)

theorem Knows.forceCloseWithDelay {sent : Sent} (h : c.Knows sent) :
    c.forceCloseWithDelay.Knows { sent with connected := false } := by
  unfold TcpConnection.forceCloseWithDelay
  split_ifs with hs
  · exact h.leave rfl (by simp [setState])
  · exact h.leave rfl fun hc => hs (.inl hc)

theorem Knows.call {c' : TcpConnection} {sent : Sent} (h : c.Knows sent)
    (hup : c.state ≠ .kDisconnected) {a : Call WriteAnswer} (hc' : c.call a = .ok c') :
    c'.Knows (sent.after (.call a)) := by
  cases a with
  | send message answer =>
    simp only [TcpConnection.call] at hc'
    simp only [Sent.after, ← h.connected]
    split_ifs at hc' ⊢
    · exact h.sendInLoop hup hc'
    · cases hc'
      exact h
  | shutdown =>
    simp only [TcpConnection.call] at hc'
    split_ifs at hc' with hs <;> cases hc'
    · refine h.leave ?_ ?_
      · rw [passedBytes_shutdownInLoop]
        rfl
      · simp [state_shutdownInLoop, setState]
    · exact h.leave rfl hs
  | forceClose =>
    cases hc'
    exact h.forceClose
  | forceCloseWithDelay =>
    cases hc'
    exact h.forceCloseWithDelay
  | startRead =>
    cases hc'
    exact h.startReadInLoop
  | stopRead =>
    cases hc'
    exact h.stopReadInLoop

theorem Knows.foreignCall {sent : Sent} (h : c.Knows sent) (a : Call Unit) :
    (c.foreignCall a).Knows (sent.after (.foreignCall a)) := by
  cases a with
  | send message _ =>
    simp only [TcpConnection.foreignCall]
    split_ifs
    · exact h.congr rfl rfl
    · exact h
  | shutdown =>
    simp only [TcpConnection.foreignCall]
    split_ifs with hs
    · exact h.leave rfl (by simp [TcpConnection.queueInLoop, setState])
    · exact h.leave rfl hs
  | forceClose => exact h.forceClose
  | forceCloseWithDelay => exact h.forceCloseWithDelay
  | startRead => exact h.congr rfl rfl
  | stopRead => exact h.congr rfl rfl

theorem forceCloseInLoop_down {c' : TcpConnection} {onDown : List (Call WriteAnswer)}
    (hs : c.state = .kConnected ∨ c.state = .kDisconnecting)
    (hc' : c.forceCloseInLoop onDown = .ok c') : c'.state = .kDisconnected := by
  rw [forceCloseInLoop, if_pos hs, handleClose, assertThat_pos hs, ok_bind] at hc'
  obtain ⟨c₁, hc₁, hreturn⟩ := bind_eq_ok.mp hc'
  cases hreturn
  obtain ⟨c₂, hc₂, hkeeps⟩ := calls_keepsStream (c := _) onDown
  cases hc₂.symm.trans hc₁
  exact hkeeps.1 rfl

theorem Knows.step {c' : TcpConnection} {sent : Sent} (h : c.Knows sent) {a : LoopStep}
    (hc' : outputMachine.step c a = .ok c') (hup : c.state ≠ .kDisconnected)
    (hup' : c'.state ≠ .kDisconnected) : c'.Knows (sent.after a) := by
  cases a with
  | sendInLoop message answer => exact h.sendInLoop hup hc'
  | handleWrite answer => exact h.handleWrite hc'
  | shutdownInLoop =>
    cases hc'
    exact h.congr passedBytes_shutdownInLoop state_shutdownInLoop
  | startReadInLoop =>
    cases hc'
    exact h.startReadInLoop
  | stopReadInLoop =>
    cases hc'
    exact h.stopReadInLoop
  | call a => exact h.call hup hc'
  | foreignCall a =>
    cases hc'
    exact h.foreignCall a
  | forceCloseInLoop onDown =>
    by_cases hs : c.state = .kConnected ∨ c.state = .kDisconnecting
    · exact absurd (forceCloseInLoop_down hs hc') hup'
    · have hsame : c.forceCloseInLoop onDown = .ok c := if_neg hs
      cases hsame.symm.trans hc'
      exact h.leave rfl fun hc => hs (.inl hc)

/-- What the steps pass to `sendInLoop`, in the order of the calls. -/
def passedBy (c : TcpConnection) (steps : List LoopStep) : List UInt8 :=
  (steps.foldl Sent.after ⟨c.state = .kConnected, []⟩).bytes

/-- Whatever steps a connection takes and whatever the kernel answers, none of
them fails, and while the connection is not down and its pipe not broken the
accepted bytes and the buffered ones are the messages that the steps passed, in the
order of the calls. -/
theorem output_is_what_was_sent (c : TcpConnection) (hhist : c.history = [])
    (hempty : c.outputBuffer.contents = []) (steps : List LoopStep) :
    ∃ c', outputMachine.run c steps = .ok c' ∧
      (c'.state ≠ .kDisconnected → c'.pipeBroken = false →
        c'.acceptedBytes ++ c'.outputBuffer.contents = c.passedBy steps) := by
  have hkept : c.StreamKept := by
    intro _ _
    simp [acceptedBytes, passedBytes, hhist, hempty]
  have hknows : c.Knows ⟨c.state = .kConnected, []⟩ := ⟨by simp [passedBytes, hhist], by simp⟩
  obtain ⟨c', hc', hkept', hknows'⟩ := outputMachine.run_refines
    (fun c sent => c.StreamKept ∧ (c.state ≠ .kDisconnected → c.Knows sent)) Sent.after
    (fun c sent a ⟨hk, hs⟩ _ => by
      obtain ⟨c₁, hc₁, hkeeps⟩ := outputMachine_step c a
      refine ⟨c₁, hc₁, hkeeps.2 hk, fun hup₁ => ?_⟩
      have hup : c.state ≠ .kDisconnected := fun hd => hup₁ (hkeeps.1 hd)
      exact (hs hup).step hc₁ hup hup₁)
    steps c _ ⟨hkept, fun _ => hknows⟩ (outputMachine_permits steps)
  refine ⟨c', hc', fun hup hpipe => ?_⟩
  rw [hkept' hup hpipe, (hknows' hup).bytes]
  rfl

/-- Three messages, of which the kernel takes a part, nothing, and the rest. -/
theorem output_is_what_was_sent_in_parts :
    ∃ c', outputMachine.run ((init true true 4).setState .kConnected)
        [.sendInLoop [1, 2, 3] (.took 1), .call (.send [] (.took 0)), .call .shutdown,
          .handleWrite (.failed .EWOULDBLOCK), .sendInLoop [4] (.took 9),
          .handleWrite (.took 2)] = .ok c' ∧
      (c'.state ≠ .kDisconnected → c'.pipeBroken = false →
        c'.acceptedBytes ++ c'.outputBuffer.contents = [1, 2, 3, 4]) :=
  output_is_what_was_sent _ rfl (Buffer.contents_ofSize _) _

end TcpConnection
end Muduo
