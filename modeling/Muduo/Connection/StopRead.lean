import Muduo.EventLoop.Batch
import Muduo.Connection.Closing

/-!
# When reading stops

`stopReadInLoop` takes the interest in input away. A poll that comes later does
not report input, but a report that is already in `activeChannels_` is handled
nevertheless: `handleRead` asks neither `reading_` nor the channel. The loop here
has any number of connections. The callbacks of the user make their calls on any of
them; such a call touches one connection only and is a step of its own behind the
callback, so each callback is run here without calls.
-/

namespace Muduo

open Foundations

namespace TcpConnection

def messages (c : TcpConnection) : ℕ := c.history.count .messageCallback

/-- From `c` to `c'` no message callback was run, and nobody began to ask for input. -/
structure Deaf (c c' : TcpConnection) : Prop where
  messages : c'.messages = c.messages
  reading : c.channel.isReading = false → c'.channel.isReading = false
  begun : c.state ≠ .kConnecting → c'.state ≠ .kConnecting

variable {c c' : TcpConnection}

theorem Deaf.refl (c : TcpConnection) : Deaf c c := ⟨rfl, id, id⟩

theorem Deaf.trans {c₁ c₂ c₃ : TcpConnection} (h₁ : Deaf c₁ c₂) (h₂ : Deaf c₂ c₃) : Deaf c₁ c₃ :=
  ⟨h₂.messages.trans h₁.messages, h₂.reading ∘ h₁.reading, h₂.begun ∘ h₁.begun⟩

theorem observe_deaf {e : Event} (he : e ≠ .messageCallback) : Deaf c (c.observe e) :=
  ⟨by simp [TcpConnection.messages, List.count_append, he], id, id⟩

theorem SameBut.deaf (h : SameBut c c') : Deaf c c' :=
  ⟨by simp [TcpConnection.messages, h.history], fun hr => by rwa [h.channel],
    fun hs => by rwa [h.state]⟩

theorem setDisconnecting_deaf (fs : List Functor) :
    Deaf c { c with state := .kDisconnecting, pendingFunctors := c.pendingFunctors ++ fs } :=
  ⟨rfl, id, fun _ => by simp⟩

theorem ensureWriting_deaf : Deaf c c.ensureWriting := by
  unfold ensureWriting
  split_ifs
  · exact .refl c
  · exact ⟨rfl, fun hr => by simpa using hr, id⟩

theorem bufferRest_deaf {rest : List UInt8} (h : c.bufferRest rest = .ok c') : Deaf c c' := by
  obtain ⟨outputBuffer, -, hreturn⟩ := bind_eq_ok.mp h
  cases hreturn
  have hnote := (noteHighWaterMark_spec (c := c) rest.length).deaf
  have hfill : Deaf (c.noteHighWaterMark rest.length)
      { c.noteHighWaterMark rest.length with outputBuffer := outputBuffer } := ⟨rfl, id, id⟩
  exact hnote.trans (hfill.trans ensureWriting_deaf)

theorem sendRest_deaf {message : List UInt8} {nwrote : ℕ} {faultError : Bool}
    (h : c.sendRest message nwrote faultError = .ok c') : Deaf c c' := by
  obtain ⟨_, -, hrest⟩ := bind_eq_ok.mp h
  split_ifs at hrest
  · exact bufferRest_deaf hrest
  · cases hrest
    exact .refl c

theorem writeDirectly_deaf (message : List UInt8) (answer : WriteAnswer) :
    Deaf c (c.writeDirectly message answer).1 := by
  have h := writeDirectly_spec (c := c) message answer
  exact ⟨by simp [TcpConnection.messages, h.history, List.count_append],
    fun hr => by rwa [h.channel],
    fun hs => by rwa [h.state]⟩

theorem sendInLoop_deaf {message : List UInt8} {answer : WriteAnswer}
    (h : c.sendInLoop message answer = .ok c') : Deaf c c' := by
  have hsee : Deaf c (c.observe (.sendInLoop message)) := observe_deaf (by simp)
  unfold sendInLoop at h
  dsimp only at h
  split_ifs at h
  · cases h
    exact hsee
  · exact hsee.trans ((writeDirectly_deaf message answer).trans (sendRest_deaf h))
  · exact hsee.trans (sendRest_deaf h)

theorem shutdownInLoop_deaf : Deaf c c.shutdownInLoop := by
  unfold shutdownInLoop
  split_ifs
  · exact .refl c
  · exact observe_deaf (by simp)

theorem retrieveWritten_deaf {n : ℕ} (h : c.retrieveWritten n = .ok c') : Deaf c c' := by
  obtain ⟨outputBuffer, -, hrest⟩ := bind_eq_ok.mp h
  dsimp only at hrest
  have hstop : Deaf c { c with
      outputBuffer := outputBuffer, channel := c.channel.disableWriting } :=
    ⟨rfl, fun hr => by simpa using hr, id⟩
  have hnote := hstop.trans noteWriteComplete_spec.deaf
  split_ifs at hrest
  · cases hrest
    exact hnote.trans shutdownInLoop_deaf
  · cases hrest
    exact hnote
  · cases hrest
    exact ⟨rfl, id, id⟩

theorem handleWrite_deaf {answer : WriteAnswer} (h : c.handleWrite answer = .ok c') :
    Deaf c c' := by
  unfold handleWrite at h
  split_ifs at h
  · cases answer with
    | took k =>
      dsimp only at h
      split_ifs at h
      · exact (observe_deaf (by simp)).trans (retrieveWritten_deaf h)
      · cases h
        exact observe_deaf (by simp)
    | failed errno =>
      cases h
      exact observe_deaf (by simp)
  · cases h
    exact .refl c

theorem stopReadInLoop_deaf : Deaf c c.stopReadInLoop := by
  unfold stopReadInLoop
  split_ifs
  · exact ⟨rfl, fun _ => by simp, id⟩
  · exact .refl c

theorem isReading_stopReadInLoop : c.stopReadInLoop.channel.isReading = false := by
  unfold stopReadInLoop
  split_ifs with h
  · simp
  · simpa using (not_or.mp h).2

theorem forceClose_deaf : Deaf c c.forceClose := by
  unfold forceClose
  split_ifs
  · exact setDisconnecting_deaf [.forceCloseInLoop]
  · exact .refl c

theorem forceCloseWithDelay_deaf : Deaf c c.forceCloseWithDelay := by
  unfold forceCloseWithDelay
  split_ifs
  · simpa [setState] using setDisconnecting_deaf (c := c) []
  · exact .refl c

theorem call_deaf {a : Call WriteAnswer} (ha : a ≠ .startRead) (h : c.call a = .ok c') :
    Deaf c c' := by
  cases a with
  | send message answer =>
    simp only [call] at h
    split_ifs at h
    · exact sendInLoop_deaf h
    · cases h
      exact .refl c
  | shutdown =>
    simp only [call] at h
    split_ifs at h
    · cases h
      refine Deaf.trans ?_ shutdownInLoop_deaf
      simpa [setState] using setDisconnecting_deaf (c := c) []
    · cases h
      exact .refl c
  | forceClose =>
    cases h
    exact forceClose_deaf
  | forceCloseWithDelay =>
    cases h
    exact forceCloseWithDelay_deaf
  | startRead => exact absurd rfl ha
  | stopRead =>
    cases h
    exact stopReadInLoop_deaf

theorem foreignCall_deaf (a : Call Unit) : Deaf c (c.foreignCall a) := by
  cases a with
  | send message _ =>
    simp only [foreignCall]
    split_ifs
    · exact ⟨rfl, id, id⟩
    · exact .refl c
  | shutdown =>
    simp only [foreignCall]
    split_ifs
    · exact setDisconnecting_deaf [.shutdownInLoop]
    · exact .refl c
  | forceClose => exact forceClose_deaf
  | forceCloseWithDelay => exact forceCloseWithDelay_deaf
  | startRead => exact ⟨rfl, id, id⟩
  | stopRead => exact ⟨rfl, id, id⟩

theorem closing_deaf : Deaf c c.closing :=
  ⟨by simp [TcpConnection.messages, closing, List.count_append], fun _ => rfl,
    fun _ => by simp [closing]⟩

theorem handleClose_deaf (h : c.handleClose [] = .ok c') : Deaf c c' := by
  obtain ⟨_, -, hrest⟩ := bind_eq_ok.mp h
  cases hrest
  exact closing_deaf.trans (observe_deaf (by simp))

theorem removeChannel_deaf (h : c.removeChannel = .ok c') : Deaf c c' := by
  obtain ⟨_, -, hrest⟩ := bind_eq_ok.mp h
  cases hrest
  exact ⟨rfl, id, id⟩

theorem connectDestroyed_deaf (h : c.connectDestroyed [] = .ok c') : Deaf c c' := by
  by_cases hs : c.state = .kConnected
  · have hremove : c.closing.removeChannel = .ok c' := by
      simpa [connectDestroyed, hs, calls, closing, observe, setState, connected] using h
    exact closing_deaf.trans (removeChannel_deaf hremove)
  · have hremove : c.removeChannel = .ok c' := by simpa [connectDestroyed, hs] using h
    exact removeChannel_deaf hremove

theorem runFunctor_deaf {f : Functor} (hf : f ≠ .startReadInLoop) {answer : WriteAnswer}
    (h : c.runFunctor answer [] f = .ok c') : Deaf c c' := by
  cases f with
  | sendInLoop message => exact sendInLoop_deaf h
  | shutdownInLoop =>
    cases h
    exact shutdownInLoop_deaf
  | forceCloseInLoop =>
    simp only [runFunctor, forceCloseInLoop] at h
    split_ifs at h
    · exact handleClose_deaf h
    · cases h
      exact .refl c
  | startReadInLoop => exact absurd rfl hf
  | stopReadInLoop =>
    cases h
    exact stopReadInLoop_deaf
  | connectDestroyed => exact connectDestroyed_deaf h
  | writeCompleteCallback =>
    cases h
    exact .refl c
  | highWaterMarkCallback size =>
    cases h
    exact .refl c

theorem runCallback_deaf {k : ChannelCallback} (hk : k ≠ .read) {script : Script}
    (hscript : script.onDown = []) (h : c.runCallback script k = .ok c') : Deaf c c' := by
  cases k with
  | close =>
    simp only [runCallback, hscript] at h
    exact handleClose_deaf h
  | error =>
    cases h
    exact .refl c
  | read => exact absurd rfl hk
  | write => exact handleWrite_deaf h

/-- Input is not reported to a channel that does not ask for it. -/
theorem Reportable.not_read {revents : PollEvents} (h : Reportable c.channel.events revents)
    (hr : c.channel.isReading = false) : .read ∉ Channel.handleEventWithGuard revents := by
  obtain ⟨-, hwithin, -⟩ := h
  rw [Channel.isReading_eq] at hr
  have hshape := c.channel.shape
  have hin := congrArg PollEvents.pollIn hwithin
  have hpri := congrArg PollEvents.pollPri hwithin
  have hrd := congrArg PollEvents.pollRdHup hwithin
  simp only [PollEvents.without, PollEvents.or, PollEvents.kNoneEvent, hr, hshape.1,
    hshape.2.2.2.2, Bool.or_self, Bool.not_false, Bool.and_true] at hin hpri hrd
  simp [Channel.handleEventWithGuard, hin, hpri, hrd]

end TcpConnection

structure ConnectionLoop (ι : Type) where
  conn : ι → TcpConnection
  batch : EventBatch ι

inductive ConnectionStep (ι : Type) where
  | connectEstablished (i : ι)
  | poll (reports : List (ι × PollEvents))
  /-- the loop goes on to the next channel -/
  | advance
  /-- the current channel runs its next callback; `input` is what the message
  callback leaves of the input -/
  | callback (read : ReadAnswer) (write : WriteAnswer) (input : Buffer)
  /-- a call on the loop's thread, in whichever handler or functor is running -/
  | call (i : ι) (a : Call WriteAnswer)
  | foreignCall (i : ι) (a : Call Unit)
  | queueInLoop (i : ι) (f : Functor)
  | runFunctor (i : ι) (answer : WriteAnswer)

namespace ConnectionLoop

variable {ι : Type} [DecidableEq ι] (w : ConnectionLoop ι)

def init (conn : ι → TcpConnection) : ConnectionLoop ι := ⟨conn, .idle⟩

@[simps] def set (i : ι) (c : TcpConnection) : ConnectionLoop ι :=
  { w with conn := Function.update w.conn i c }

def step : ConnectionStep ι → Except Fault (ConnectionLoop ι)
  | .connectEstablished i => do
    let c ← (w.conn i).connectEstablished []
    return w.set i c
  | .poll reports => return { w with batch := .poll reports }
  | .advance => return { w with batch := w.batch.advance }
  | .callback read write input =>
    match w.batch.next with
    | some ((i, k), batch) => do
      let c ← (w.conn i).runCallback ⟨read, write, [], input, []⟩ k
      return { w.set i c with batch := batch }
    | none => return w
  | .call i a => do
    let c ← (w.conn i).call a
    return w.set i c
  | .foreignCall i a => return w.set i ((w.conn i).foreignCall a)
  | .queueInLoop i f => return w.set i ((w.conn i).queueInLoop f)
  | .runFunctor i answer =>
    match (w.conn i).pendingFunctors with
    | f :: fs => do
      let c ← { w.conn i with pendingFunctors := fs }.runFunctor answer [] f
      return w.set i c
    | [] => return w

/-- A connection is seen by its users from its first connection callback on. The
poller reports what the platform can report, functors run when no event is left,
and the loop goes on when a handler has returned. -/
def Allows : ConnectionStep ι → Prop
  | .connectEstablished i => (w.conn i).state = .kConnecting
  | .poll reports => w.batch.eventHandling = false ∧ (reports.map Prod.fst).Nodup ∧
      ∀ r ∈ reports, TcpConnection.Reportable (w.conn r.1).channel.events r.2
  | .advance => w.batch.eventHandling = true ∧ w.batch.next.isNone
  | .callback _ _ _ => w.batch.next.isSome
  | .call i _ | .foreignCall i _ | .queueInLoop i _ => (w.conn i).state ≠ .kConnecting
  | .runFunctor i _ => w.batch.eventHandling = false ∧ (w.conn i).state ≠ .kConnecting ∧
      (w.conn i).pendingFunctors ≠ []

instance (a : ConnectionStep ι) : Decidable (w.Allows a) := by
  cases a <;> unfold Allows <;> infer_instance

def machine : Machine (ConnectionLoop ι) (ConnectionStep ι) Fault where
  Allows := Allows
  step := step

instance (a : ConnectionStep ι) : Decidable (machine.Allows w a) :=
  inferInstanceAs (Decidable (w.Allows a))

/-- The step runs `startReadInLoop` of a connection. -/
def Starts (i : ι) : ConnectionStep ι → Prop
  | .call j a => j = i ∧ a = .startRead
  | .runFunctor j _ => j = i ∧ (w.conn j).pendingFunctors.head? = some .startReadInLoop
  | _ => False

/-- The step runs `stopReadInLoop` of a connection. -/
def Stops (i : ι) : ConnectionStep ι → Prop
  | .call j a => j = i ∧ a = .stopRead
  | .runFunctor j _ => j = i ∧ (w.conn j).pendingFunctors.head? = some .stopReadInLoop
  | _ => False

instance (i : ι) : (a : ConnectionStep ι) → Decidable (w.Starts i a)
  | .call j a => inferInstanceAs (Decidable (j = i ∧ a = .startRead))
  | .runFunctor j _ =>
    inferInstanceAs (Decidable (j = i ∧ (w.conn j).pendingFunctors.head? = some .startReadInLoop))
  | .connectEstablished _ | .poll _ | .advance | .callback _ _ _ | .foreignCall _ _
  | .queueInLoop _ _ => .isFalse id

/-- The loop while nobody restarts the reading of a connection. -/
def stoppedMachine (i : ι) : Machine (ConnectionLoop ι) (ConnectionStep ι) Fault :=
  machine.restrict fun w a => ¬ w.Starts i a

instance (i : ι) (a : ConnectionStep ι) : Decidable ((stoppedMachine i).Allows w a) :=
  inferInstanceAs (Decidable (w.Allows a ∧ ¬ w.Starts i a))

/-- A connection does not ask for input, and no report of input is left from before. -/
structure Hushed (i : ι) (n : ℕ) (w : ConnectionLoop ι) : Prop where
  messages : (w.conn i).messages = n
  reading : (w.conn i).channel.isReading = false
  begun : (w.conn i).state ≠ .kConnecting
  awaits : ¬ w.batch.Awaits i .read

variable {w} {w' : ConnectionLoop ι} {i j : ι} {n : ℕ}

/-- A step on one connection, which is another one or stays without input. -/
theorem Hushed.set (h : w.Hushed i n) {c : TcpConnection} (hc : j = i → (w.conn i).Deaf c) :
    (w.set j c).Hushed i n := by
  by_cases hj : j = i
  · subst hj
    have hdeaf := hc rfl
    exact ⟨by simpa [hdeaf.messages] using h.messages, by simpa using hdeaf.reading h.reading,
      by simpa using hdeaf.begun h.begun, h.awaits⟩
  · have hne : i ≠ j := Ne.symm hj
    exact ⟨by simpa [hne] using h.messages, by simpa [hne] using h.reading,
      by simpa [hne] using h.begun, h.awaits⟩

theorem Hushed.step (h : w.Hushed i n) {a : ConnectionStep ι} (ha : w.Allows a)
    (hstart : ¬ w.Starts i a) (hw' : w.step a = .ok w') : w'.Hushed i n := by
  cases a with
  | connectEstablished j =>
    obtain ⟨c, -, hreturn⟩ := bind_eq_ok.mp hw'
    cases hreturn
    apply h.set
    rintro rfl
    exact absurd ha h.begun
  | poll reports =>
    cases hw'
    refine ⟨h.messages, h.reading, h.begun, ?_⟩
    rw [EventBatch.awaits_poll]
    rintro ⟨revents, hmem, hread⟩
    exact (ha.2.2 _ hmem).not_read h.reading hread
  | advance =>
    cases hw'
    exact ⟨h.messages, h.reading, h.begun, fun hk => h.awaits (EventBatch.awaits_of_advance hk)⟩
  | callback read write input =>
    obtain ⟨⟨⟨j, k⟩, batch⟩, hnext⟩ := Option.isSome_iff_exists.mp ha
    simp only [ConnectionLoop.step, hnext] at hw'
    obtain ⟨c, hc, hreturn⟩ := bind_eq_ok.mp hw'
    cases hreturn
    have hset : (w.set j c).Hushed i n := by
      apply h.set
      rintro rfl
      have hk : k ≠ .read := by
        rintro rfl
        exact h.awaits (EventBatch.awaits_next hnext)
      exact TcpConnection.runCallback_deaf hk rfl hc
    exact ⟨hset.messages, hset.reading, hset.begun,
      fun hk => h.awaits (EventBatch.awaits_of_next hnext hk)⟩
  | call j a =>
    obtain ⟨c, hc, hreturn⟩ := bind_eq_ok.mp hw'
    cases hreturn
    apply h.set
    rintro rfl
    exact TcpConnection.call_deaf (fun ha => hstart ⟨rfl, ha⟩) hc
  | foreignCall j a =>
    cases hw'
    apply h.set
    rintro rfl
    exact TcpConnection.foreignCall_deaf a
  | queueInLoop j f =>
    cases hw'
    apply h.set
    rintro rfl
    exact ⟨rfl, id, id⟩
  | runFunctor j answer =>
    obtain ⟨f, fs, hfs⟩ := List.exists_cons_of_ne_nil ha.2.2
    simp only [ConnectionLoop.step, hfs] at hw'
    obtain ⟨c, hc, hreturn⟩ := bind_eq_ok.mp hw'
    cases hreturn
    apply h.set
    rintro rfl
    have hf : f ≠ .startReadInLoop := by
      rintro rfl
      exact hstart ⟨rfl, by simp [hfs]⟩
    have hpop : (w.conn j).Deaf { w.conn j with pendingFunctors := fs } := ⟨rfl, id, id⟩
    exact hpop.trans (TcpConnection.runFunctor_deaf hf hc)

/-- Behind `stopReadInLoop` a connection is hushed, unless a report of input was
waiting for it in the batch. -/
theorem hushed_of_stops {a : ConnectionStep ι} (ha : w.Allows a) (hstop : w.Stops i a)
    (hawaits : a = .call i .stopRead → ¬ w.batch.Awaits i .read) (hw' : w.step a = .ok w') :
    w'.Hushed i (w'.conn i).messages := by
  cases a with
  | call j a =>
    obtain ⟨rfl, rfl⟩ := hstop
    cases hw'
    exact ⟨rfl, by simpa using TcpConnection.isReading_stopReadInLoop,
      by simpa using TcpConnection.stopReadInLoop_deaf.begun ha, hawaits rfl⟩
  | runFunctor j answer =>
    obtain ⟨rfl, hhead⟩ := hstop
    obtain ⟨f, fs, hfs⟩ := List.exists_cons_of_ne_nil ha.2.2
    rw [hfs] at hhead
    cases hhead
    simp only [ConnectionLoop.step, hfs] at hw'
    cases hw'
    have hbegun : { w.conn j with pendingFunctors := fs }.state ≠ .kConnecting := ha.2.1
    exact ⟨rfl, by simpa using TcpConnection.isReading_stopReadInLoop,
      by simpa using TcpConnection.stopReadInLoop_deaf.begun hbegun,
      EventBatch.not_awaits_of_idle ha.1⟩
  | _ => exact absurd hstop id

/-- Once `stopReadInLoop` of a connection has run, its message callback is not run
until reading is restarted, provided that a direct call from a handler does not come
while a report of input for this connection is left in the batch. -/
theorem stopRead_takes_effect (w w₁ w₂ : ConnectionLoop ι) (i : ι) (a : ConnectionStep ι)
    (ha : machine.Allows w a) (hstop : w.Stops i a) (hstep : machine.step w a = .ok w₁)
    (hawaits : a = .call i .stopRead → ¬ w.batch.Awaits i .read)
    (steps : List (ConnectionStep ι)) (hp : (stoppedMachine i).Permits w₁ steps)
    (hrun : (stoppedMachine i).run w₁ steps = .ok w₂) :
    (w₂.conn i).messages = (w₁.conn i).messages := by
  have hkeeps : ∀ w a w', Hushed i (w₁.conn i).messages w → (stoppedMachine i).Allows w a →
      (stoppedMachine i).step w a = .ok w' → Hushed i (w₁.conn i).messages w' :=
    fun _ _ _ h ha hw' => h.step ha.1 ha.2 hw'
  exact (Machine.run_keeps _ hkeeps (hushed_of_stops ha hstop hawaits hstep) hp hrun).messages

/-- A connection that is up, with its channel's callback for input behind it. -/
def inMessageCallback : ConnectionLoop Unit where
  conn _ := { TcpConnection.init false false 64 with
    state := .kConnected, channel := Channel.init.enableReading }
  batch := .handling [()] (some ((), [.write])) []

/-- The message callback stops its own connection, and output is reported with input. -/
theorem stopRead_takes_effect_itself :
    ∃ w₁ w₂, machine.step inMessageCallback (.call () .stopRead) = .ok w₁ ∧
      (stoppedMachine ()).run w₁ [.callback (.bytes [7]) (.took 0) default, .advance,
        .foreignCall () .startRead] = .ok w₂ ∧
      (w₂.conn ()).messages = (w₁.conn ()).messages := by
  have hawaits : ¬ inMessageCallback.batch.Awaits () .read := by
    simp [inMessageCallback, EventBatch.Awaits]
  have hrun : ((stoppedMachine ()).run
      (inMessageCallback.set () (inMessageCallback.conn ()).stopReadInLoop)
      [.callback (.bytes [7]) (.took 0) default, .advance,
        .foreignCall () .startRead]).toOption.map (fun _ => ()) = some () := by
    decide +kernel
  obtain ⟨w₂, hw₂, -⟩ := exists_ok_of_map hrun
  exact ⟨_, w₂, rfl, hw₂, stopRead_takes_effect inMessageCallback _ w₂ () (.call () .stopRead)
    (by decide) ⟨rfl, rfl⟩ rfl (fun _ => hawaits) _ (by decide +kernel) hw₂⟩

/-- Two connections come up, input is reported for both, and the message callback of
the first one stops the second. -/
def stopTheOther : List (ConnectionStep Bool) :=
  [.connectEstablished false, .connectEstablished true,
    .poll [(false, { pollIn := true }), (true, { pollIn := true })], .advance,
    .callback (.bytes [1]) (.took 0) default, .call true .stopRead]

/-- The message callback of the second connection is run nevertheless. -/
theorem stopped_connection_is_read :
    ∃ w₁ w₂, machine.Permits (init fun _ => .init false false 64)
        (stopTheOther ++ [.advance, .callback (.bytes [2]) (.took 0) default]) ∧
      machine.run (init fun _ => .init false false 64) stopTheOther = .ok w₁ ∧
      machine.run w₁ [.advance, .callback (.bytes [2]) (.took 0) default] = .ok w₂ ∧
      (w₁.conn true).messages = 0 ∧ (w₂.conn true).messages = 1 := by
  have hstop : (machine.run (init fun _ => .init false false 64) stopTheOther).toOption.map
      (fun w => (w.conn true).messages) = some 0 := by
    decide +kernel
  have hread : (machine.run (init fun _ => .init false false 64) (stopTheOther ++
      [.advance, .callback (.bytes [2]) (.took 0) default])).toOption.map
      (fun w => (w.conn true).messages) = some 1 := by
    decide +kernel
  obtain ⟨w₁, hw₁, h₁⟩ := exists_ok_of_map hstop
  obtain ⟨w₂, hw₂, h₂⟩ := exists_ok_of_map hread
  rw [machine.run_append _ hw₁] at hw₂
  exact ⟨w₁, w₂, by decide +kernel, hw₁, hw₂, h₁, h₂⟩

end ConnectionLoop
end Muduo
