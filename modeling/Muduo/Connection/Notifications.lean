import Muduo.Connection.Output

/-!
# The notifications of the output

`sendInLoop` and `handleWrite` queue the two callbacks that tell a user how far the
output has come. While the connection can be used, a step queues the first when
it leaves nothing unwritten, and the second when it lifts the length of the output
over the mark. A step of `sendInLoop` with an empty message is the one that tells of
a write without bytes, and only if the kernel did not refuse it.
-/

namespace Muduo

open Foundations

/-- The steps of the output. In between other members set the state. -/
inductive OutputAction where
  | sendInLoop (message : List UInt8) (answer : WriteAnswer)
  | handleWrite (answer : WriteAnswer)
  | setState (s : StateE)
  deriving DecidableEq, Repr

namespace OutputAction

def sendsNothing : OutputAction → Bool
  | sendInLoop [] (.took _) => true
  | _ => false

def isSend : OutputAction → Bool
  | sendInLoop _ _ => true
  | _ => false

end OutputAction

namespace WriteAnswer

/-- How many of `len` bytes the kernel takes. -/
def taken (len : ℕ) : WriteAnswer → ℕ
  | took n => min n len
  | failed _ => 0

def takesAll (len : ℕ) : WriteAnswer → Bool
  | took n => len ≤ n
  | failed _ => false

end WriteAnswer

namespace TcpConnection

section Definitions

variable (c : TcpConnection)

def outputStep : OutputAction → Except Fault TcpConnection
  | .sendInLoop message answer => c.sendInLoop message answer
  | .handleWrite answer => c.handleWrite answer
  | .setState s => .ok (c.setState s)

/-- The connection is not down, and no write has met a broken pipe. -/
def Usable : Prop :=
  (c.state = .kConnected ∨ c.state = .kDisconnecting) ∧ c.pipeBroken = false

instance : Decidable c.Usable := inferInstanceAs (Decidable (_ ∧ _))

/-- The steps behind which the connection is still usable. -/
def StaysUsable (a : OutputAction) : Prop :=
  match c.outputStep a with
  | .ok c' => c'.Usable
  | .error _ => True

instance (a : OutputAction) : Decidable (c.StaysUsable a) :=
  match h : c.outputStep a with
  | .ok c' => decidable_of_iff c'.Usable (by rw [StaysUsable, h])
  | .error _ => .isTrue (by rw [StaysUsable, h]; trivial)

def notifyingMachine : Machine TcpConnection OutputAction Fault where
  Allows := StaysUsable
  step := outputStep

instance (a : OutputAction) : Decidable (notifyingMachine.Allows c a) :=
  inferInstanceAs (Decidable (c.StaysUsable a))

variable (a : OutputAction) (c' : TcpConnection)

/-- The step leaves all bytes written that were ever sent, and has written some of
them itself, or it has sent an empty message and nothing was waiting. -/
def Completes : Prop :=
  (c'.acceptedBytes = c'.passedBytes ∧ c'.acceptedBytes ≠ c.acceptedBytes) ∨
    (a.sendsNothing = true ∧ c.outputBuffer.contents = [])

/-- The step takes the output from below the mark to the mark or above. -/
def Crosses : Prop :=
  a.isSend = true ∧ c.outputBuffer.readableBytes < c.highWaterMark ∧
    c.highWaterMark ≤ c'.outputBuffer.readableBytes

instance : Decidable (c.Completes a c') := inferInstanceAs (Decidable (_ ∨ _))

instance : Decidable (c.Crosses a c') := inferInstanceAs (Decidable (_ ∧ _))

def notifications : List Functor :=
  (if c.Completes a c' then [.writeCompleteCallback] else []) ++
    (if c.Crosses a c' then [.highWaterMarkCallback c'.outputBuffer.readableBytes] else [])

/-- The notification of `remaining` bytes that are about to be buffered. -/
def raised (remaining : ℕ) : List Functor :=
  if c.outputBuffer.readableBytes < c.highWaterMark ∧
      c.highWaterMark ≤ c.outputBuffer.readableBytes + remaining then
    [.highWaterMarkCallback (c.outputBuffer.readableBytes + remaining)]
  else []

end Definitions

variable {c c' : TcpConnection}

/-- From `c` to `c'` exactly `fs` was queued, and the callbacks are the same. -/
structure Queues (c c' : TcpConnection) (fs : List Functor) : Prop where
  pending : c'.pendingFunctors = c.pendingFunctors ++ fs
  mark : c'.highWaterMark = c.highWaterMark
  complete : c'.writeCompleteCallback = c.writeCompleteCallback
  highWater : c'.highWaterMarkCallback = c.highWaterMarkCallback

theorem Queues.trans {c₁ c₂ c₃ : TcpConnection} {fs gs : List Functor} (h₁ : Queues c₁ c₂ fs)
    (h₂ : Queues c₂ c₃ gs) : Queues c₁ c₃ (fs ++ gs) :=
  ⟨by rw [h₂.pending, h₁.pending, List.append_assoc], h₂.mark.trans h₁.mark,
    h₂.complete.trans h₁.complete, h₂.highWater.trans h₁.highWater⟩

theorem queues_nil (hp : c'.pendingFunctors = c.pendingFunctors)
    (hm : c'.highWaterMark = c.highWaterMark)
    (hc : c'.writeCompleteCallback = c.writeCompleteCallback)
    (hh : c'.highWaterMarkCallback = c.highWaterMarkCallback) : Queues c c' [] :=
  ⟨by rw [hp, List.append_nil], hm, hc, hh⟩

theorem noteWriteComplete_queues (h : c.writeCompleteCallback = true) :
    Queues c c.noteWriteComplete [.writeCompleteCallback] := by
  rw [noteWriteComplete, if_pos h]
  exact ⟨rfl, rfl, rfl, rfl⟩

theorem noteHighWaterMark_queues (remaining : ℕ) (h : c.highWaterMarkCallback = true) :
    Queues c (c.noteHighWaterMark remaining) (c.raised remaining) := by
  unfold noteHighWaterMark raised
  dsimp only
  by_cases hcross : c.outputBuffer.readableBytes < c.highWaterMark ∧
      c.highWaterMark ≤ c.outputBuffer.readableBytes + remaining
  · rw [if_pos ⟨hcross.2, hcross.1, h⟩, if_pos hcross]
    exact ⟨rfl, rfl, rfl, rfl⟩
  · rw [if_neg fun hall => hcross ⟨hall.2.1, hall.1⟩, if_neg hcross]
    exact queues_nil rfl rfl rfl rfl

theorem bufferRest_queues {rest : List UInt8} (hhigh : c.highWaterMarkCallback = true)
    (h : c.bufferRest rest = .ok c') : Queues c c' (c.raised rest.length) := by
  obtain ⟨out, -, hreturn⟩ := bind_eq_ok.mp h
  cases hreturn
  have hnote := noteHighWaterMark_queues rest.length hhigh
  generalize c.noteHighWaterMark rest.length = c₁ at *
  unfold ensureWriting
  split_ifs
  · exact ⟨hnote.pending, hnote.mark, hnote.complete, hnote.highWater⟩
  · exact ⟨hnote.pending, hnote.mark, hnote.complete, hnote.highWater⟩

/-- Nothing left to buffer raises nothing, as the output does not grow. -/
theorem raised_zero : c.raised 0 = [] := by
  rw [raised, if_neg]
  omega

theorem sendRest_queues {message : List UInt8} {nwrote : ℕ}
    (hhigh : c.highWaterMarkCallback = true) (h : c.sendRest message nwrote false = .ok c') :
    Queues c c' (c.raised (message.length - nwrote)) ∧
      c'.outputBuffer.readableBytes =
        c.outputBuffer.readableBytes + (message.length - nwrote) := by
  obtain ⟨d, hd, -, -, -, hrest⟩ := c.sendRest_spec message nwrote false
  cases h.symm.trans hd
  have hlength := congrArg List.length (hrest rfl).1
  rw [List.length_append, Buffer.length_contents, Buffer.length_contents,
    List.length_drop] at hlength
  refine ⟨?_, hlength⟩
  unfold sendRest at h
  dsimp only at h
  rw [assertThat_pos (Nat.sub_le _ _), ok_bind] at h
  by_cases hsome : 0 < message.length - nwrote
  · rw [if_pos ⟨rfl, hsome⟩] at h
    rw [← List.length_drop]
    exact bufferRest_queues hhigh h
  · rw [if_neg fun hall => hsome hall.2] at h
    cases h
    rw [Nat.eq_zero_of_not_pos hsome, raised_zero]
    exact queues_nil rfl rfl rfl rfl

theorem writeDirectly_queues (message : List UInt8) (answer : WriteAnswer)
    (hcomplete : c.writeCompleteCallback = true) :
    Queues c (c.writeDirectly message answer).1
      (if answer.takesAll message.length then [.writeCompleteCallback] else []) := by
  cases answer with
  | failed errno => exact queues_nil rfl rfl rfl rfl
  | took n =>
    simp only [writeDirectly, WriteAnswer.takesAll, decide_eq_true_eq]
    by_cases hall : message.length ≤ n
    · rw [if_pos (by omega), if_pos hall]
      have hnote := noteWriteComplete_queues
        (c := c.observe (.write (message.take (min n message.length)) none)) hcomplete
      exact ⟨hnote.pending, hnote.mark, hnote.complete, hnote.highWater⟩
    · rw [if_neg (by omega), if_neg hall]
      exact queues_nil rfl rfl rfl rfl

theorem writeDirectly_nwrote (message : List UInt8) (answer : WriteAnswer) :
    (c.writeDirectly message answer).2.1 = answer.taken message.length := by
  cases answer <;> rfl

theorem sendInLoop_busy {message : List UInt8} {answer : WriteAnswer}
    (hstate : c.state ≠ .kDisconnected) (hbusy : ¬ c.Idle)
    (hhigh : c.highWaterMarkCallback = true) (h : c.sendInLoop message answer = .ok c') :
    Queues c c' (c.raised message.length) ∧
      c'.outputBuffer.readableBytes = c.outputBuffer.readableBytes + message.length := by
  have hup : (c.observe (.sendInLoop message)).state ≠ .kDisconnected := hstate
  have hnot : ¬ (!(c.observe (.sendInLoop message)).channel.isWriting ∧
      (c.observe (.sendInLoop message)).outputBuffer.readableBytes = 0) := by
    intro hidle
    exact hbusy ⟨by simpa using hidle.1, c.outputBuffer.contents_eq_nil_iff.mpr hidle.2⟩
  unfold sendInLoop at h
  dsimp only at h
  rw [if_neg hup, if_neg hnot] at h
  obtain ⟨hq, hlength⟩ := sendRest_queues (c := c.observe (.sendInLoop message)) hhigh h
  exact ⟨⟨hq.pending, hq.mark, hq.complete, hq.highWater⟩, hlength⟩

/-- With nothing waiting, the kernel may take a part of the message at once. -/
theorem sendInLoop_idle {message : List UInt8} {answer : WriteAnswer}
    (hstate : c.state ≠ .kDisconnected) (hidle : c.Idle)
    (hcomplete : c.writeCompleteCallback = true) (hhigh : c.highWaterMarkCallback = true)
    (h : c.sendInLoop message answer = .ok c') (hpipe : c'.pipeBroken = false) :
    Queues c c' ((if answer.takesAll message.length then [.writeCompleteCallback] else []) ++
        c.raised (message.length - answer.taken message.length)) ∧
      c'.outputBuffer.readableBytes = message.length - answer.taken message.length := by
  have hzero : c.outputBuffer.readableBytes = 0 := c.outputBuffer.contents_eq_nil_iff.mp hidle.2
  have hup : (c.observe (.sendInLoop message)).state ≠ .kDisconnected := hstate
  have hfree : !(c.observe (.sendInLoop message)).channel.isWriting ∧
      (c.observe (.sendInLoop message)).outputBuffer.readableBytes = 0 :=
    ⟨by simp [hidle.1], hzero⟩
  unfold sendInLoop at h
  dsimp only at h
  rw [if_neg hup, if_pos hfree] at h
  have hwrote := writeDirectly_queues (c := c.observe (.sendInLoop message)) message answer
    hcomplete
  have hnwrote := writeDirectly_nwrote (c := c.observe (.sendInLoop message)) message answer
  have hdirect := (c.observe (.sendInLoop message)).writeDirectly_spec message answer
  generalize (c.observe (.sendInLoop message)).writeDirectly message answer = direct at *
  have hfault : direct.2.2 = false := by
    obtain ⟨d, hd, -, hhistory, -⟩ := direct.1.sendRest_spec message direct.2.1 direct.2.2
    cases h.symm.trans hd
    rw [← hdirect.fault]
    rw [pipeBroken, hhistory, hdirect.history, List.any_append, Bool.or_eq_false_iff] at hpipe
    simpa using hpipe.2
  rw [hfault, hnwrote] at h
  have hhigh' : direct.1.highWaterMarkCallback = true := hwrote.highWater.trans hhigh
  obtain ⟨hq, hlength⟩ := sendRest_queues hhigh' h
  have hraised : direct.1.raised (message.length - answer.taken message.length) =
      c.raised (message.length - answer.taken message.length) := by
    rw [raised, raised, hdirect.output, hwrote.mark]
    rfl
  have hall := hwrote.trans hq
  rw [hraised] at hall
  refine ⟨⟨hall.pending, hall.mark, hall.complete, hall.highWater⟩, ?_⟩
  rw [hlength, hdirect.output, observe_outputBuffer, hzero, Nat.zero_add]

theorem retrieveWritten_queues {n : ℕ} (hn : n ≤ c.outputBuffer.readableBytes)
    (hcomplete : c.writeCompleteCallback = true) (h : c.retrieveWritten n = .ok c') :
    Queues c c' (if c'.outputBuffer.readableBytes = 0 then [.writeCompleteCallback] else []) ∧
      c'.outputBuffer.readableBytes = c.outputBuffer.readableBytes - n := by
  obtain ⟨out, hout, hcontents⟩ := Buffer.retrieve_spec hn
  have hlength := congrArg List.length hcontents
  rw [List.length_drop, Buffer.length_contents, Buffer.length_contents] at hlength
  simp only [retrieveWritten, hout, ok_bind] at h
  by_cases hempty : out.readableBytes = 0
  · rw [if_pos hempty] at h
    have hnote := noteWriteComplete_queues
      (c := { c with outputBuffer := out, channel := c.channel.disableWriting }) hcomplete
    have hsame := noteWriteComplete_spec
      (c := { c with outputBuffer := out, channel := c.channel.disableWriting })
    generalize noteWriteComplete _ = c₁ at *
    have hout₁ : c₁.outputBuffer = out := hsame.output
    have hshut : Queues c₁ c' [] ∧ c'.outputBuffer = c₁.outputBuffer := by
      have hquiet : c₁.channel.isWriting = false := by rw [hsame.channel]; simp
      rw [shutdownInLoop_of_not_writing hquiet] at h
      cases h
      split_ifs
      · exact ⟨queues_nil rfl rfl rfl rfl, rfl⟩
      · exact ⟨queues_nil rfl rfl rfl rfl, rfl⟩
    have hall := hnote.trans hshut.1
    rw [hshut.2, hout₁, if_pos hempty]
    exact ⟨⟨hall.pending, hall.mark, hall.complete, hall.highWater⟩, hlength⟩
  · rw [if_neg hempty] at h
    cases h
    rw [if_neg hempty]
    exact ⟨queues_nil rfl rfl rfl rfl, hlength⟩

theorem handleWrite_queues {answer : WriteAnswer} (hcomplete : c.writeCompleteCallback = true)
    (hleft : c.WritesWhatIsLeft) (h : c.handleWrite answer = .ok c') :
    Queues c c' (if c'.outputBuffer.readableBytes = 0 ∧ 0 < c.outputBuffer.readableBytes then
        [.writeCompleteCallback] else []) ∧
      c'.outputBuffer.readableBytes ≤ c.outputBuffer.readableBytes := by
  unfold handleWrite at h
  by_cases hw : c.channel.isWriting = true
  · have hsome : 0 < c.outputBuffer.readableBytes :=
      Nat.pos_of_ne_zero fun hzero => hleft.mp hw (c.outputBuffer.contents_eq_nil_iff.mpr hzero)
    rw [if_pos hw] at h
    cases answer with
    | failed errno =>
      cases h
      rw [if_neg fun hall => hsome.ne' hall.1]
      exact ⟨queues_nil rfl rfl rfl rfl, le_refl _⟩
    | took k =>
      dsimp only at h
      by_cases hpos : 0 < min k c.outputBuffer.readableBytes
      · rw [if_pos hpos] at h
        have hle : min k c.outputBuffer.readableBytes ≤ c.outputBuffer.readableBytes :=
          min_le_right _ _
        obtain ⟨hq, hlength⟩ := retrieveWritten_queues (c := c.observe (.write
          (c.outputBuffer.contents.take (min k c.outputBuffer.readableBytes)) none)) hle hcomplete h
        simp only [hsome, and_true]
        refine ⟨⟨hq.pending, hq.mark, hq.complete, hq.highWater⟩, ?_⟩
        rw [hlength]
        exact Nat.sub_le _ _
      · rw [if_neg hpos] at h
        cases h
        rw [if_neg fun hall => hsome.ne' hall.1]
        exact ⟨queues_nil rfl rfl rfl rfl, le_refl _⟩
  · have hnone : c.outputBuffer.readableBytes = 0 := by
      rw [← c.outputBuffer.contents_eq_nil_iff]
      by_contra hne
      exact hw (hleft.mpr hne)
    rw [if_neg hw] at h
    cases h
    rw [if_neg (by omega)]
    exact ⟨queues_nil rfl rfl rfl rfl, le_refl _⟩

/-- A usable connection with both callbacks: interest and buffer agree, and nothing
that was sent is lost. -/
structure Tidy (mark : ℕ) (c : TcpConnection) : Prop where
  usable : c.Usable
  interest : c.WritesWhatIsLeft
  bytes : c.acceptedBytes ++ c.outputBuffer.contents = c.passedBytes
  mark_eq : c.highWaterMark = mark
  complete : c.writeCompleteCallback = true
  highWater : c.highWaterMarkCallback = true

variable {mark : ℕ} {a : OutputAction}

theorem Usable.state_ne (h : c.Usable) : c.state ≠ .kDisconnected := by
  rcases h.1 with hs | hs <;> simp [hs]

theorem established_tidy (mark : ℕ) : Tidy mark (established true true mark) where
  usable := ⟨.inl rfl, rfl⟩
  interest := by
    have hquiet : (established true true mark).channel.isWriting = false := rfl
    have hempty : (established true true mark).outputBuffer.contents = [] :=
      Buffer.contents_ofSize _
    simp [WritesWhatIsLeft, hquiet, hempty]
  bytes := Buffer.contents_ofSize _
  mark_eq := rfl
  complete := rfl
  highWater := rfl

theorem OutputStep.not_breaks {added : List UInt8} {events : List Event}
    (h : OutputStep c c' added events) (husable : c'.Usable) :
    events.any Event.breaksPipe = false := by
  have hpipe := husable.2
  rw [pipeBroken, h.history, List.any_append, Bool.or_eq_false_iff] at hpipe
  exact hpipe.2

theorem OutputStep.tidy {added : List UInt8} {events : List Event} {fs : List Functor}
    (h : OutputStep c c' added events) (hk : KeepsStream c c') (hq : Queues c c' fs)
    (ht : Tidy mark c) (husable : c'.Usable) : Tidy mark c' where
  usable := husable
  interest := h.interest (h.not_breaks husable) ht.interest
  bytes := hk.2 (fun _ _ => ht.bytes) husable.state_ne husable.2
  mark_eq := hq.mark.trans ht.mark_eq
  complete := hq.complete.trans ht.complete
  highWater := hq.highWater.trans ht.highWater

/-- In a tidy connection, completion can be read off the lengths of the output. -/
theorem OutputStep.completes_iff {added : List UInt8} {events : List Event}
    (h : OutputStep c c' added events) (ht' : Tidy mark c') :
    c.Completes a c' ↔
      (c'.outputBuffer.readableBytes = 0 ∧ 0 < c.outputBuffer.readableBytes + added.length) ∨
        (a.sendsNothing = true ∧ c.outputBuffer.readableBytes = 0) := by
  have haccepted : c'.acceptedBytes = c.acceptedBytes ++ events.flatMap Event.accepted := by
    rw [acceptedBytes, h.history, List.flatMap_append, acceptedBytes]
  have hall : c'.acceptedBytes = c'.passedBytes ↔ c'.outputBuffer.readableBytes = 0 := by
    rw [← ht'.bytes, List.self_eq_append_right, Buffer.contents_eq_nil_iff]
  have hsome : c'.acceptedBytes ≠ c.acceptedBytes ↔ 0 < (events.flatMap Event.accepted).length := by
    rw [haccepted, Ne, List.append_right_eq_self, List.length_pos_iff]
  have hlength := congrArg List.length (h.bytes (h.not_breaks ht'.usable))
  rw [List.length_append, List.length_append, Buffer.length_contents,
    Buffer.length_contents] at hlength
  rw [Completes, hall, hsome, Buffer.contents_eq_nil_iff]
  refine or_congr_left (and_congr_right fun hzero => ?_)
  omega

theorem takesAll_iff (message : List UInt8) (answer : WriteAnswer) :
    answer.takesAll message.length = true ↔
      (message.length - answer.taken message.length = 0 ∧ 0 < message.length) ∨
        (OutputAction.sendInLoop message answer).sendsNothing = true := by
  cases answer with
  | failed errno => cases message <;> simp [WriteAnswer.takesAll, WriteAnswer.taken,
      OutputAction.sendsNothing]
  | took n =>
    cases message with
    | nil => simp [WriteAnswer.takesAll, OutputAction.sendsNothing]
    | cons b bs =>
      simp only [WriteAnswer.takesAll, WriteAnswer.taken, OutputAction.sendsNothing,
        decide_eq_true_eq, List.length_cons]
      simp
      omega

theorem sendInLoop_notifies {message : List UInt8} {answer : WriteAnswer} (ht : Tidy mark c)
    (ha : c.StaysUsable (.sendInLoop message answer)) :
    ∃ c', c.sendInLoop message answer = .ok c' ∧ Tidy mark c' ∧
      c'.pendingFunctors =
        c.pendingFunctors ++ c.notifications (.sendInLoop message answer) c' := by
  obtain ⟨c', writes, hc', hstep, -⟩ := sendInLoop_spec message answer ht.usable.state_ne
  obtain ⟨d, hd, hk⟩ := c.sendInLoop_keepsStream message answer
  cases hc'.symm.trans hd
  have husable : c'.Usable := by
    simpa only [StaysUsable, outputStep, hc'] using ha
  by_cases hidle : c.Idle
  · obtain ⟨hq, hlength⟩ := sendInLoop_idle ht.usable.state_ne hidle ht.complete ht.highWater hc'
      husable.2
    have ht' := hstep.tidy hk hq ht husable
    refine ⟨c', hc', ht', ?_⟩
    have hzero := c.outputBuffer.contents_eq_nil_iff.mp hidle.2
    have hcompletes : c.Completes (.sendInLoop message answer) c' ↔
        answer.takesAll message.length = true := by
      rw [hstep.completes_iff ht', takesAll_iff, hzero, hlength, Nat.zero_add]
      simp
    have hcrosses : c.Crosses (.sendInLoop message answer) c' ↔
        c.outputBuffer.readableBytes < c.highWaterMark ∧ c.highWaterMark ≤
          c.outputBuffer.readableBytes + (message.length - answer.taken message.length) := by
      rw [Crosses, hlength, hzero, Nat.zero_add]
      simp [OutputAction.isSend]
    rw [hq.pending, notifications, raised]
    simp only [hcompletes, hcrosses, hlength, hzero, Nat.zero_add]
  · obtain ⟨hq, hlength⟩ := sendInLoop_busy ht.usable.state_ne hidle ht.highWater hc'
    have ht' := hstep.tidy hk hq ht husable
    refine ⟨c', hc', ht', ?_⟩
    have hsome : 0 < c.outputBuffer.readableBytes := by
      refine Nat.pos_of_ne_zero fun hzero => hidle ?_
      have hnil := c.outputBuffer.contents_eq_nil_iff.mpr hzero
      exact ⟨by simpa [WritesWhatIsLeft, hnil] using ht.interest, hnil⟩
    have hcompletes : ¬ c.Completes (.sendInLoop message answer) c' := by
      rw [hstep.completes_iff ht']
      omega
    rw [hq.pending, notifications, raised, if_neg hcompletes]
    simp [Crosses, OutputAction.isSend, hlength]

theorem handleWrite_notifies {answer : WriteAnswer} (ht : Tidy mark c)
    (ha : c.StaysUsable (.handleWrite answer)) :
    ∃ c', c.handleWrite answer = .ok c' ∧ Tidy mark c' ∧
      c'.pendingFunctors = c.pendingFunctors ++ c.notifications (.handleWrite answer) c' := by
  obtain ⟨c', events, hc', hstep, -⟩ := c.handleWrite_spec answer
  obtain ⟨d, hd, hk⟩ := c.handleWrite_keepsStream answer
  cases hc'.symm.trans hd
  have husable : c'.Usable := by
    simpa only [StaysUsable, outputStep, hc'] using ha
  obtain ⟨hq, -⟩ := handleWrite_queues ht.complete ht.interest hc'
  have ht' := hstep.tidy hk hq ht husable
  refine ⟨c', hc', ht', ?_⟩
  rw [hq.pending, notifications]
  simp [hstep.completes_iff ht', Crosses, OutputAction.isSend, OutputAction.sendsNothing]

theorem setState_notifies {s : StateE} (ht : Tidy mark c) (ha : c.StaysUsable (.setState s)) :
    Tidy mark (c.setState s) ∧ c.pendingFunctors =
      c.pendingFunctors ++ c.notifications (.setState s) (c.setState s) := by
  refine ⟨⟨ha, ht.interest, ht.bytes, ht.mark_eq, ht.complete, ht.highWater⟩, ?_⟩
  simp [notifications, Completes, Crosses, OutputAction.sendsNothing, OutputAction.isSend,
    acceptedBytes]

theorem outputStep_notifies (ht : Tidy mark c) (ha : c.StaysUsable a) :
    ∃ c', c.outputStep a = .ok c' ∧ Tidy mark c' ∧
      c'.pendingFunctors = c.pendingFunctors ++ c.notifications a c' := by
  cases a with
  | sendInLoop message answer => exact sendInLoop_notifies ht ha
  | handleWrite answer => exact handleWrite_notifies ht ha
  | setState s => exact ⟨_, rfl, (setState_notifies ht ha).1, (setState_notifies ht ha).2⟩

/-- Every moment of a run is tidy, and the step behind it queues its notifications. -/
theorem run_tidy {before after : List OutputAction}
    (h : notifyingMachine.Permits (established true true mark) (before ++ after)) :
    ∃ c, notifyingMachine.run (established true true mark) before = .ok c ∧ Tidy mark c ∧
      notifyingMachine.Permits c after := by
  obtain ⟨hbefore, hafter⟩ := notifyingMachine.permits_append.mp h
  have hstep : ∀ c a, Tidy mark c → notifyingMachine.Allows c a →
      ∃ c', notifyingMachine.step c a = .ok c' ∧ Tidy mark c' := by
    intro c a ht ha
    obtain ⟨c', hc', ht', -⟩ := outputStep_notifies ht ha
    exact ⟨c', hc', ht'⟩
  obtain ⟨c, hc, ht⟩ := notifyingMachine.run_safe hstep (established_tidy mark) hbefore
  exact ⟨c, hc, ht, hafter c hc⟩

/-- The action `a` behind `before` queues `f`. -/
def QueuesAt (mark : ℕ) (before : List OutputAction) (a : OutputAction) (f : Functor) : Prop :=
  ∃ c c' fs, notifyingMachine.run (established true true mark) before = .ok c ∧
    c.outputStep a = .ok c' ∧ c'.pendingFunctors = c.pendingFunctors ++ fs ∧ f ∈ fs

theorem QueuesAt.crosses {before after : List OutputAction} {size : ℕ}
    (hq : QueuesAt mark before a (.highWaterMarkCallback size))
    (h : notifyingMachine.Permits (established true true mark) (before ++ a :: after)) :
    ∃ c c', notifyingMachine.run (established true true mark) before = .ok c ∧
      c.outputStep a = .ok c' ∧
      c.outputBuffer.readableBytes < mark ∧ mark ≤ c'.outputBuffer.readableBytes := by
  obtain ⟨c, c', fs, hc, hc', hfs, hmem⟩ := hq
  obtain ⟨d, hd, ht, hrest⟩ := run_tidy h
  cases hc.symm.trans hd
  obtain ⟨d', hd', -, hnotified⟩ := outputStep_notifies ht hrest.1
  cases hc'.symm.trans hd'
  rw [hfs, List.append_cancel_left_eq] at hnotified
  rw [hnotified, notifications] at hmem
  have hcrosses : c.Crosses a c' := by
    by_contra hnot
    rw [if_neg hnot, List.append_nil] at hmem
    split_ifs at hmem <;> simp at hmem
  rw [Crosses, ht.mark_eq] at hcrosses
  exact ⟨c, c', hc, hc', hcrosses.2⟩

/-- While a connection is usable, its output is watched exactly as long as there is
some, each step queues the notifications that its effect calls for, once and nothing
else, and the output falls below the mark between two notifications of the mark. -/
theorem output_notifications_are_exact {acts : List OutputAction}
    (h : notifyingMachine.Permits (established true true mark) acts) :
    (∀ done rest, acts = done ++ rest →
      ∃ c, notifyingMachine.run (established true true mark) done = .ok c ∧
        (c.channel.isWriting = true ↔ c.outputBuffer.contents ≠ [])) ∧
    (∀ before a after, acts = before ++ a :: after →
      ∃ c c', notifyingMachine.run (established true true mark) before = .ok c ∧
        c.outputStep a = .ok c' ∧ c.highWaterMark = mark ∧
        c'.pendingFunctors = c.pendingFunctors ++ c.notifications a c') ∧
    (∀ before a between b after first second, acts = before ++ a :: (between ++ b :: after) →
      QueuesAt mark before a (.highWaterMarkCallback first) →
      QueuesAt mark (before ++ a :: between) b (.highWaterMarkCallback second) →
      ∃ c c', notifyingMachine.run (established true true mark) (before ++ [a]) = .ok c ∧
        notifyingMachine.run (established true true mark) (before ++ a :: between) = .ok c' ∧
        mark ≤ c.outputBuffer.readableBytes ∧ c'.outputBuffer.readableBytes < mark) := by
  refine ⟨?_, ?_, ?_⟩
  · rintro done rest rfl
    obtain ⟨c, hc, ht, -⟩ := run_tidy h
    exact ⟨c, hc, ht.interest⟩
  · rintro before a after rfl
    obtain ⟨c, hc, ht, hrest⟩ := run_tidy h
    obtain ⟨c', hc', -, hnotified⟩ := outputStep_notifies ht hrest.1
    exact ⟨c, c', hc, hc', ht.mark_eq, hnotified⟩
  · rintro before a between b after first second rfl hfirst hsecond
    obtain ⟨c, c₁, hc, hc₁, -, hhigh⟩ := hfirst.crosses h
    rw [← List.cons_append, ← List.append_assoc] at h
    obtain ⟨c', -, hc', -, hlow, -⟩ := hsecond.crosses h
    refine ⟨c₁, c', ?_, hc', hhigh, hlow⟩
    rw [notifyingMachine.run_append [a] hc]
    exact notifyingMachine.run_cons_ok [] hc₁

/-- The output crosses its mark twice, and is written in between and at the end. -/
theorem output_notifications_are_exact_twice :
    let acts : List OutputAction := [.sendInLoop [1, 2, 3] (.took 1), .setState .kDisconnecting,
      .handleWrite (.took 1), .sendInLoop [4] (.took 0), .handleWrite (.failed .EWOULDBLOCK),
      .handleWrite (.took 5)]
    notifyingMachine.Permits (established true true 2) acts ∧
      (∃ c, notifyingMachine.run (established true true 2) acts = .ok c ∧
        (c.channel.isWriting = true ↔ c.outputBuffer.contents ≠ [])) ∧
      ∃ c c', notifyingMachine.run (established true true 2) (acts.take 3) = .ok c ∧
        c.outputStep (.sendInLoop [4] (.took 0)) = .ok c' ∧ c.highWaterMark = 2 ∧
        c'.pendingFunctors =
          c.pendingFunctors ++ c.notifications (.sendInLoop [4] (.took 0)) c' := by
  have hp : notifyingMachine.Permits (established true true 2) [.sendInLoop [1, 2, 3] (.took 1),
      .setState .kDisconnecting, .handleWrite (.took 1), .sendInLoop [4] (.took 0),
      .handleWrite (.failed .EWOULDBLOCK), .handleWrite (.took 5)] := by decide +kernel
  obtain ⟨hinterest, hnotified, -⟩ := output_notifications_are_exact hp
  exact ⟨hp, hinterest _ [] rfl, hnotified [_, _, _] _ [_, _] rfl⟩

/-- An empty message sent while nothing is waiting, to a socket on which `ETIMEDOUT`
is pending: the write fails, and nobody is told of its completion. -/
theorem refused_empty_message_is_not_notified :
    ∃ c', (established true true 1).outputBuffer.contents = [] ∧
      notifyingMachine.Permits (established true true 1) [.sendInLoop [] (.failed (.other 110))] ∧
      notifyingMachine.run (established true true 1) [.sendInLoop [] (.failed (.other 110))] =
        .ok c' ∧
      c'.Usable ∧ c'.acceptedBytes = c'.passedBytes ∧ c'.pendingFunctors = [] :=
  ⟨_, by decide +kernel, by decide +kernel, rfl, by decide +kernel, rfl, rfl⟩

end TcpConnection
end Muduo
