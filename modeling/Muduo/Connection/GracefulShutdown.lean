import Muduo.Connection.Outlet

/-!
# Graceful shutdown

One connection, used from its loop's thread and from any other threads. A call
from another thread is not one step: it reads the state, and later queues its
functor; `shutdown` also sets the state in between. The loop's thread runs the
queued functors in their order, handles write events, and makes calls of its own
whose functors run at once, ahead of the queue. What a user callback does is a
sequence of such calls.
-/

namespace Muduo

open Foundations

/-- How far the one call of `shutdown` has come, and on which thread. -/
inductive ShutdownCall where
  | notCalled
  | checked (onLoop : Bool)
  | stateSet (onLoop : Bool)
  | finished
  deriving DecidableEq

structure SharedConnection where
  conn : TcpConnection
  /-- messages of calls of `send` on other threads that have seen `kConnected` -/
  sending : List (List UInt8)
  shutdownCall : ShutdownCall
  /-- messages of the calls of `send` that saw `kConnected` and returned before
  `shutdown` was called -/
  returned : List (List UInt8)
  deriving DecidableEq

inductive ThreadStep where
  | send (message : List UInt8) (answer : WriteAnswer)
  | sendCheck (message : List UInt8)
  | sendQueue (i : ℕ)
  | shutdownCheck (onLoop : Bool)
  | shutdownSet
  | shutdownRun
  | runFunctor (answer : WriteAnswer)
  | handleWrite (answer : WriteAnswer)

def WriteAnswer.KeepsPipe (answer : WriteAnswer) : Prop :=
  answer ≠ .failed .EPIPE ∧ answer ≠ .failed .ECONNRESET

instance (answer : WriteAnswer) : Decidable answer.KeepsPipe :=
  inferInstanceAs (Decidable (_ ∧ _))

def Functor.message : Functor → Option (List UInt8)
  | sendInLoop message => some message
  | _ => none

namespace TcpConnection

instance (c : TcpConnection) : (answer : WriteAnswer) → Decidable (c.Drains answer)
  | .took _ => inferInstanceAs (Decidable (_ ∧ _))
  | .failed _ => .isFalse id

instance (c : TcpConnection) (answer : WriteAnswer) : Decidable (c.DrainsClosing answer) :=
  inferInstanceAs (Decidable (_ ∧ _))

end TcpConnection

namespace SharedConnection

variable (s : SharedConnection)

/-- The loop's thread is inside `shutdown`. -/
def LoopBusy : Prop := s.shutdownCall = .checked true ∨ s.shutdownCall = .stateSet true

instance : Decidable s.LoopBusy := inferInstanceAs (Decidable (_ ∨ _))

/-- A `send` of the message returns. -/
def noteReturn (message : List UInt8) : List (List UInt8) :=
  if s.shutdownCall = .notCalled then s.returned ++ [message] else s.returned

def step : ThreadStep → Except Fault SharedConnection
  | .send message answer => do
    let conn ← s.conn.call (.send message answer)
    return { s with
      conn := conn
      returned := if s.conn.state = .kConnected then s.noteReturn message else s.returned }
  | .sendCheck message =>
    .ok (if s.conn.state = .kConnected then { s with sending := s.sending ++ [message] } else s)
  | .sendQueue i =>
    match s.sending[i]? with
    | some message => .ok { s with
        conn := s.conn.queueInLoop (.sendInLoop message)
        sending := s.sending.eraseIdx i
        returned := s.noteReturn message }
    | none => .ok s
  | .shutdownCheck onLoop =>
    .ok { s with
      shutdownCall := if s.conn.state = .kConnected then .checked onLoop else .finished }
  | .shutdownSet =>
    match s.shutdownCall with
    | .checked onLoop => .ok { s with
        conn := s.conn.setState .kDisconnecting
        shutdownCall := .stateSet onLoop }
    | _ => .ok s
  | .shutdownRun =>
    match s.shutdownCall with
    | .stateSet true => .ok { s with conn := s.conn.shutdownInLoop, shutdownCall := .finished }
    | .stateSet false => .ok { s with
        conn := s.conn.queueInLoop .shutdownInLoop
        shutdownCall := .finished }
    | _ => .ok s
  | .runFunctor answer =>
    match s.conn.pendingFunctors with
    | [] => .ok s
    | f :: functors => do
      let conn ← { s.conn with pendingFunctors := functors }.runFunctor answer [] f
      return { s with conn := conn }
  | .handleWrite answer => do
    let conn ← s.conn.handleWrite answer
    return { s with conn := conn }

/-- `shutdown` is called once, no write breaks the pipe, and the loop's thread
does one thing at a time. -/
def Allows : ThreadStep → Prop
  | .send _ answer => ¬ s.LoopBusy ∧ answer.KeepsPipe
  | .sendCheck _ => True
  | .sendQueue i => i < s.sending.length
  | .shutdownCheck _ => s.shutdownCall = .notCalled
  | .shutdownSet => s.shutdownCall = .checked true ∨ s.shutdownCall = .checked false
  | .shutdownRun => s.shutdownCall = .stateSet true ∨ s.shutdownCall = .stateSet false
  | .runFunctor answer => ¬ s.LoopBusy ∧ answer.KeepsPipe
  | .handleWrite answer => ¬ s.LoopBusy ∧ answer.KeepsPipe

instance : (a : ThreadStep) → Decidable (s.Allows a)
  | .send _ _ => inferInstanceAs (Decidable (_ ∧ _))
  | .sendCheck _ => .isTrue trivial
  | .sendQueue _ => inferInstanceAs (Decidable (_ < _))
  | .shutdownCheck _ => inferInstanceAs (Decidable (_ = _))
  | .shutdownSet => inferInstanceAs (Decidable (_ ∨ _))
  | .shutdownRun => inferInstanceAs (Decidable (_ ∨ _))
  | .runFunctor _ => inferInstanceAs (Decidable (_ ∧ _))
  | .handleWrite _ => inferInstanceAs (Decidable (_ ∧ _))

/-- The step executes `shutdownWrite`. -/
def shutsDown : ThreadStep → Bool
  | .shutdownRun => s.shutdownCall = .stateSet true ∧ s.conn.channel.isWriting = false
  | .runFunctor _ =>
    s.conn.pendingFunctors.head? = some .shutdownInLoop ∧ s.conn.channel.isWriting = false
  | .handleWrite answer =>
    s.conn.channel.isWriting = true ∧ s.conn.DrainsClosing answer
  | _ => false

/-- No `sendInLoop` is queued or about to be queued. -/
def Quiescent : Prop := s.conn.pendingFunctors.filterMap Functor.message = [] ∧ s.sending = []

instance : Decidable s.Quiescent := inferInstanceAs (Decidable (_ ∧ _))

def machine : Machine SharedConnection ThreadStep Fault where
  Allows := Allows
  step := step

/-- The same steps, but no shutdown of the socket while a `sendInLoop` waits. -/
def calmMachine : Machine SharedConnection ThreadStep Fault where
  Allows s a := s.Allows a ∧ (s.shutsDown a = true → s.Quiescent)
  step := step

def outlet : Outlet where
  history := s.conn.history
  buffered := s.conn.outputBuffer.contents
  queued := s.conn.pendingFunctors.filterMap Functor.message
  sending := s.sending
  returned := s.returned
  closing := s.conn.state = .kDisconnecting

end SharedConnection

/-- The state of the connection while the call of `shutdown` has come this far. -/
def ShutdownCall.state : ShutdownCall → StateE
  | notCalled => .kConnected
  | checked _ => .kConnected
  | stateSet _ => .kDisconnecting
  | finished => .kDisconnecting

def Functor.forOutput : Functor → Bool
  | sendInLoop _ => true
  | shutdownInLoop => true
  | f => f.isNotification

theorem Functor.message_of_isNotification {f : Functor} (h : f.isNotification = true) :
    f.message = none := by
  cases f with
  | sendInLoop _ => cases h
  | _ => rfl

theorem Functor.forOutput_of_isNotification {f : Functor} (h : f.isNotification = true) :
    f.forOutput = true := by
  cases f with
  | writeCompleteCallback => rfl
  | highWaterMarkCallback _ => rfl
  | _ => cases h

theorem WriteAnswer.KeepsPipe.breaksPipe {answer : WriteAnswer} (h : answer.KeepsPipe)
    (data : List UInt8) : (Event.write data answer.errno).breaksPipe = false := by
  cases answer with
  | took _ => rfl
  | failed errno =>
    cases errno with
    | EPIPE => exact absurd rfl h.1
    | ECONNRESET => exact absurd rfl h.2
    | _ => rfl

namespace TcpConnection

variable {c c' : TcpConnection}

theorem OnlyNotifies.messages (h : OnlyNotifies c c') :
    c'.pendingFunctors.filterMap Functor.message =
      c.pendingFunctors.filterMap Functor.message := by
  obtain ⟨ns, hns, hn⟩ := h
  have hnone : ns.filterMap Functor.message = [] :=
    List.filterMap_eq_nil_iff.mpr fun f hf => Functor.message_of_isNotification (hn f hf)
  rw [hns, List.filterMap_append, hnone, List.append_nil]

theorem OnlyNotifies.forOutput (h : OnlyNotifies c c')
    (hc : ∀ f ∈ c.pendingFunctors, f.forOutput = true) :
    ∀ f ∈ c'.pendingFunctors, f.forOutput = true := by
  obtain ⟨ns, hns, hn⟩ := h
  intro f hf
  rw [hns] at hf
  rcases List.mem_append.mp hf with hf | hf
  · exact hc f hf
  · exact Functor.forOutput_of_isNotification (hn f hf)

theorem OnlyNotifies.shutdownInLoop (h : OnlyNotifies c c')
    (hmem : .shutdownInLoop ∈ c'.pendingFunctors) : .shutdownInLoop ∈ c.pendingFunctors := by
  obtain ⟨ns, hns, hn⟩ := h
  rw [hns] at hmem
  rcases List.mem_append.mp hmem with hmem | hmem
  · exact hmem
  · cases hn _ hmem

theorem HandleWrites.intact {answer : WriteAnswer} {events : List Event}
    (h : HandleWrites c c' answer events) (hpipe : answer.KeepsPipe) :
    events.any Event.breaksPipe = false := by
  cases hw : c.channel.isWriting with
  | false => simp [h.quiet hw]
  | true =>
    by_cases hdrain : c.DrainsClosing answer
    · obtain ⟨-, data, rfl⟩ := h.drain hw hdrain
      rfl
    · obtain ⟨data, rfl⟩ := h.write hw hdrain
      simp [hpipe.breaksPipe]

theorem sendInLoop_passes {v : Outlet} (hv : v.buffered = c.outputBuffer.contents)
    (hstate : c.state ≠ .kDisconnected) (hinterest : c.WritesWhatIsLeft) (message : List UInt8)
    {answer : WriteAnswer} (hpipe : answer.KeepsPipe) :
    ∃ c' writes, c.sendInLoop message answer = .ok c' ∧
      OutputStep c c' message (.sendInLoop message :: writes) ∧ c'.WritesWhatIsLeft ∧
      v.Passes message writes c'.outputBuffer.contents := by
  obtain ⟨c', writes, hc', hstep, hwrites⟩ := sendInLoop_spec message answer hstate
  have hidle : c.Idle ↔ v.buffered = [] := by
    rw [WritesWhatIsLeft] at hinterest
    rw [hv, Idle, ← Bool.not_eq_true, hinterest]
    simp
  have hintact : (Event.sendInLoop message :: writes).any Event.breaksPipe = false := by
    by_cases h : c.Idle
    · obtain ⟨data, rfl⟩ := hwrites.1 h
      simp [Event.breaksPipe.eq_def (.sendInLoop message), hpipe.breaksPipe]
    · simp [hwrites.2 h, Event.breaksPipe]
  refine ⟨c', writes, hc', hstep, hstep.interest hintact hinterest, ?_, ?_, ?_⟩
  · rw [hv]
    exact hstep.bytes hintact
  · intro h
    obtain ⟨data, hdata⟩ := hwrites.1 (hidle.mpr h)
    exact ⟨data, _, hdata⟩
  · exact fun h => hwrites.2 (hidle.not.mpr h)

end TcpConnection

namespace SharedConnection

/-- What holds of a connection in every run. -/
structure Inv (s : SharedConnection) : Prop where
  state : s.conn.state = s.shutdownCall.state
  interest : s.conn.WritesWhatIsLeft
  functors : ∀ f ∈ s.conn.pendingFunctors, f.forOutput = true
  closing : .shutdownInLoop ∈ s.conn.pendingFunctors → s.conn.state = .kDisconnecting

open Outlet TcpConnection

variable {s : SharedConnection}

theorem Inv.not_disconnected (h : s.Inv) : s.conn.state ≠ .kDisconnected := by
  rw [h.state]
  cases s.shutdownCall <;> simp [ShutdownCall.state]

theorem open_of_connected (hconnected : s.conn.state = .kConnected) :
    s.outlet.closing = false := by
  simp [outlet, hconnected]

theorem returns_noteReturn (h : s.Inv) (message : List UInt8) :
    s.outlet.Returns message (s.noteReturn message) := by
  unfold noteReturn
  split_ifs with hcall
  · right
    exact ⟨open_of_connected (h.state.trans (by rw [hcall]; rfl)), rfl⟩
  · exact .inl rfl

theorem Inv.output (h : s.Inv) {c' : TcpConnection} {added : List UInt8} {events : List Event}
    (hstep : OutputStep s.conn c' added events) (hinterest : c'.WritesWhatIsLeft)
    (returned : List (List UInt8)) : Inv { s with conn := c', returned := returned } where
  state := hstep.state.trans h.state
  interest := hinterest
  functors := hstep.notifies.forOutput h.functors
  closing hmem := hstep.state.trans (h.closing (hstep.notifies.shutdownInLoop hmem))

theorem outlet_output {c' : TcpConnection} {added : List UInt8} {events : List Event}
    (hstep : OutputStep s.conn c' added events) (returned : List (List UInt8)) :
    ({ s with conn := c', returned := returned } : SharedConnection).outlet =
      { s.outlet with
        history := s.conn.history ++ events
        buffered := c'.outputBuffer.contents
        returned := returned } := by
  simp [outlet, hstep.history, hstep.notifies.messages, hstep.state]

theorem send_moves (h : s.Inv) (message : List UInt8) {answer : WriteAnswer}
    (hpipe : answer.KeepsPipe) :
    ∃ s', s.step (.send message answer) = .ok s' ∧ s'.Inv ∧ Moves s.outlet false s'.outlet := by
  by_cases hstate : s.conn.state = .kConnected
  · obtain ⟨c', writes, hc', hstep, hinterest, hpasses⟩ :=
      sendInLoop_passes (v := s.outlet) rfl h.not_disconnected h.interest message hpipe
    refine ⟨{ s with conn := c', returned := s.noteReturn message }, ?_,
      h.output hstep hinterest _, ?_⟩
    · simp [step, call, hstate, hc']
    · rw [outlet_output hstep]
      exact .send message writes _ _ (open_of_connected hstate) hpasses
        (returns_noteReturn h message)
  · refine ⟨s, ?_, h, .stay⟩
    simp [step, call, hstate]

theorem sendCheck_moves (h : s.Inv) (message : List UInt8) :
    ∃ s', s.step (.sendCheck message) = .ok s' ∧ s'.Inv ∧ Moves s.outlet false s'.outlet := by
  by_cases hstate : s.conn.state = .kConnected
  · refine ⟨{ s with sending := s.sending ++ [message] }, by simp [step, hstate], ?_, ?_⟩
    · exact ⟨h.state, h.interest, h.functors, h.closing⟩
    · exact .check message (open_of_connected hstate)
  · exact ⟨s, by simp [step, hstate], h, .stay⟩

theorem Inv.queueInLoop (h : s.Inv) {f : Functor} (hf : f.forOutput = true) :
    ∀ g ∈ (s.conn.queueInLoop f).pendingFunctors, g.forOutput = true := by
  intro g hg
  rcases List.mem_append.mp hg with hg | hg
  · exact h.functors g hg
  · rw [List.mem_singleton.mp hg]
    exact hf

theorem sendQueue_moves (h : s.Inv) {i : ℕ} (hi : i < s.sending.length) :
    ∃ s', s.step (.sendQueue i) = .ok s' ∧ s'.Inv ∧ Moves s.outlet false s'.outlet := by
  have hget : s.sending[i]? = some s.sending[i] := List.getElem?_eq_getElem hi
  refine ⟨{ s with
      conn := s.conn.queueInLoop (.sendInLoop s.sending[i])
      sending := s.sending.eraseIdx i
      returned := s.noteReturn s.sending[i] }, by simp only [step, hget],
    ⟨h.state, h.interest, h.queueInLoop rfl, fun hmem => h.closing (by simpa using hmem)⟩, ?_⟩
  have := Moves.queue s.sending[i] (s.sending.eraseIdx i) (s.noteReturn s.sending[i])
    (List.getElem_cons_eraseIdx_perm hi).symm (returns_noteReturn h s.sending[i])
  simpa [outlet, Functor.message] using this

theorem shutdownCheck_moves (h : s.Inv) (onLoop : Bool) (hcall : s.shutdownCall = .notCalled) :
    ∃ s', s.step (.shutdownCheck onLoop) = .ok s' ∧ s'.Inv ∧ Moves s.outlet false s'.outlet := by
  have hstate : s.conn.state = .kConnected := by rw [h.state, hcall]; rfl
  refine ⟨{ s with shutdownCall := .checked onLoop }, by simp [step, hstate], ?_, .stay⟩
  exact ⟨hstate, h.interest, h.functors, h.closing⟩

theorem shutdownSet_moves (h : s.Inv) {onLoop : Bool} (hcall : s.shutdownCall = .checked onLoop) :
    ∃ s', s.step .shutdownSet = .ok s' ∧ s'.Inv ∧ Moves s.outlet false s'.outlet := by
  refine ⟨{ s with conn := s.conn.setState .kDisconnecting, shutdownCall := .stateSet onLoop },
    by simp only [step, hcall], ⟨rfl, h.interest, h.functors, fun _ => rfl⟩, ?_⟩
  simpa [outlet] using (Moves.close : Moves s.outlet false _)

theorem shutdownInLoop_moves {v : Outlet} {c : TcpConnection}
    (hempty : v.buffered = [] ↔ c.channel.isWriting = false) (hclosing : v.closing = true)
    (hhistory : v.history = c.history) :
    Moves v (c.channel.isWriting = false) { v with history := c.shutdownInLoop.history } := by
  cases hw : c.channel.isWriting with
  | true =>
    have hsame : ({ v with history := c.shutdownInLoop.history } : Outlet) = v := by
      simp [shutdownInLoop, hw, ← hhistory]
    rw [hsame]
    exact .stay
  | false =>
    have := Moves.shutdown hclosing (hempty.mpr hw)
    simpa [shutdownInLoop, hw, hhistory] using this

theorem Inv.buffered_empty_iff (h : s.Inv) :
    s.outlet.buffered = [] ↔ s.conn.channel.isWriting = false := by
  have hinterest := h.interest
  rw [WritesWhatIsLeft] at hinterest
  rw [← Bool.not_eq_true, hinterest, not_not]
  rfl

theorem shutdownInLoop_frame (c : TcpConnection) :
    c.shutdownInLoop = { c with history := c.shutdownInLoop.history } := by
  unfold shutdownInLoop
  split_ifs <;> rfl

theorem shutdownRun_moves (h : s.Inv) {onLoop : Bool} (hcall : s.shutdownCall = .stateSet onLoop) :
    ∃ s', s.step .shutdownRun = .ok s' ∧ s'.Inv ∧
      Moves s.outlet (s.shutsDown .shutdownRun) s'.outlet := by
  have hstate : s.conn.state = .kDisconnecting := by rw [h.state, hcall]; rfl
  have hclosing : s.outlet.closing = true := by simp [outlet, hstate]
  cases onLoop with
  | true =>
    refine ⟨{ s with conn := s.conn.shutdownInLoop, shutdownCall := .finished },
      by simp only [step, hcall], ?_, ?_⟩
    · rw [shutdownInLoop_frame]
      exact ⟨hstate, h.interest, h.functors, fun _ => hstate⟩
    · have hshut : s.shutsDown .shutdownRun = decide (s.conn.channel.isWriting = false) := by
        simp [shutsDown, hcall]
      rw [hshut, shutdownInLoop_frame]
      exact shutdownInLoop_moves h.buffered_empty_iff hclosing rfl
  | false =>
    refine ⟨{ s with conn := s.conn.queueInLoop .shutdownInLoop, shutdownCall := .finished },
      by simp only [step, hcall], ⟨hstate, h.interest, h.queueInLoop rfl, fun _ => hstate⟩, ?_⟩
    have hsame : ({ s with
        conn := s.conn.queueInLoop .shutdownInLoop
        shutdownCall := .finished } : SharedConnection).outlet = s.outlet := by
      simp [outlet, List.filterMap_cons, Functor.message]
    have hshut : s.shutsDown .shutdownRun = false := by simp [shutsDown, hcall]
    rw [hsame, hshut]
    exact .stay

theorem Inv.dequeue (h : s.Inv) {f : Functor} {functors : List Functor}
    (hqueue : s.conn.pendingFunctors = f :: functors) :
    Inv { s with conn := { s.conn with pendingFunctors := functors } } := by
  have hmem : ∀ g ∈ functors, g ∈ s.conn.pendingFunctors := by
    rw [hqueue]
    exact fun g hg => List.mem_cons_of_mem f hg
  exact ⟨h.state, h.interest, fun g hg => h.functors g (hmem g hg),
    fun hg => h.closing (hmem _ hg)⟩

theorem step_runFunctor (answer : WriteAnswer) {f : Functor} {functors : List Functor}
    (hqueue : s.conn.pendingFunctors = f :: functors) {c' : TcpConnection}
    (hrun : { s.conn with pendingFunctors := functors }.runFunctor answer [] f = .ok c') :
    s.step (.runFunctor answer) = .ok { s with conn := c' } := by
  simp only [step, hqueue, hrun, ok_bind]
  rfl

theorem outlet_dequeue {f : Functor} {functors : List Functor}
    (hqueue : s.conn.pendingFunctors = f :: functors) (hf : f.message = none) :
    ({ s with conn := { s.conn with pendingFunctors := functors } } : SharedConnection).outlet =
      s.outlet := by
  simp [outlet, hqueue, hf]

theorem runFunctor_send_moves (h : s.Inv) {answer : WriteAnswer} (hpipe : answer.KeepsPipe)
    {message : List UInt8} {functors : List Functor}
    (hqueue : s.conn.pendingFunctors = .sendInLoop message :: functors) :
    ∃ s', s.step (.runFunctor answer) = .ok s' ∧ s'.Inv ∧ Moves s.outlet false s'.outlet := by
  have hrest := h.dequeue hqueue
  obtain ⟨c', writes, hc', hstep, hinterest, hpasses⟩ :=
    sendInLoop_passes (c := { s.conn with pendingFunctors := functors }) (v := s.outlet) rfl
      hrest.not_disconnected hrest.interest message hpipe
  have hqueued : s.outlet.queued = message :: functors.filterMap Functor.message := by
    simp [outlet, hqueue, Functor.message]
  refine ⟨{ s with conn := c' }, step_runFunctor answer hqueue hc',
    hrest.output hstep hinterest s.returned, ?_⟩
  have houtlet := outlet_output
    (s := { s with conn := { s.conn with pendingFunctors := functors } })
    hstep s.returned
  exact houtlet ▸ .run message _ writes c'.outputBuffer.contents hqueued hpasses

theorem runFunctor_shutdown_moves (h : s.Inv) (answer : WriteAnswer) {functors : List Functor}
    (hqueue : s.conn.pendingFunctors = .shutdownInLoop :: functors) :
    ∃ s', s.step (.runFunctor answer) = .ok s' ∧ s'.Inv ∧
      Moves s.outlet (s.conn.channel.isWriting = false) s'.outlet := by
  have hrest := h.dequeue hqueue
  have hstate : s.conn.state = .kDisconnecting := h.closing (by simp [hqueue])
  refine ⟨_, step_runFunctor answer hqueue rfl, ?_, ?_⟩
  · rw [shutdownInLoop_frame]
    exact ⟨hrest.state, hrest.interest, hrest.functors, hrest.closing⟩
  · rw [shutdownInLoop_frame, ← outlet_dequeue hqueue rfl]
    exact shutdownInLoop_moves hrest.buffered_empty_iff (by simp [outlet, hstate]) rfl

/-- The notifications make no calls here: those are steps of their own. -/
theorem runFunctor_notification_moves (h : s.Inv) (answer : WriteAnswer) {f : Functor}
    (hf : f.isNotification = true) {functors : List Functor}
    (hqueue : s.conn.pendingFunctors = f :: functors) :
    ∃ s', s.step (.runFunctor answer) = .ok s' ∧ s'.Inv ∧ Moves s.outlet false s'.outlet := by
  have hrun : { s.conn with pendingFunctors := functors }.runFunctor answer [] f =
      .ok { s.conn with pendingFunctors := functors } := by
    cases f with
    | writeCompleteCallback => rfl
    | highWaterMarkCallback _ => rfl
    | _ => cases hf
  refine ⟨_, step_runFunctor answer hqueue hrun, h.dequeue hqueue, ?_⟩
  rw [outlet_dequeue hqueue (Functor.message_of_isNotification hf)]
  exact .stay

theorem runFunctor_moves (h : s.Inv) {answer : WriteAnswer} (hpipe : answer.KeepsPipe) :
    ∃ s', s.step (.runFunctor answer) = .ok s' ∧ s'.Inv ∧
      Moves s.outlet (s.shutsDown (.runFunctor answer)) s'.outlet := by
  cases hqueue : s.conn.pendingFunctors with
  | nil =>
    have hshut : s.shutsDown (.runFunctor answer) = false := by simp [shutsDown, hqueue]
    refine ⟨s, by simp only [step, hqueue], h, ?_⟩
    rw [hshut]
    exact .stay
  | cons f functors =>
    have hshut : s.shutsDown (.runFunctor answer) =
        decide (f = .shutdownInLoop ∧ s.conn.channel.isWriting = false) := by
      simp [shutsDown, hqueue]
    have hf : f.forOutput = true := h.functors f (by simp [hqueue])
    rw [hshut]
    cases f with
    | sendInLoop message => simpa using runFunctor_send_moves h hpipe hqueue
    | shutdownInLoop => simpa using runFunctor_shutdown_moves h answer hqueue
    | writeCompleteCallback => simpa using runFunctor_notification_moves h answer rfl hqueue
    | highWaterMarkCallback size => simpa using runFunctor_notification_moves h answer rfl hqueue
    | _ => cases hf

section HandleWrite

variable {answer : WriteAnswer} {c' : TcpConnection} {events : List Event}

theorem handleWrite_quiet_moves (hw : s.conn.channel.isWriting = false)
    (hstep : OutputStep s.conn c' [] events) (hevents : HandleWrites s.conn c' answer events) :
    Moves s.outlet false ({ s with conn := c' } : SharedConnection).outlet := by
  cases hevents.quiet hw
  have hbytes := hstep.bytes rfl
  have hsame : ({ s with conn := c' } : SharedConnection).outlet = s.outlet := by
    rw [outlet_output hstep s.returned]
    simpa [outlet] using hbytes
  rw [hsame]
  exact .stay

theorem handleWrite_write_moves (h : s.Inv) (hpipe : answer.KeepsPipe)
    (hw : s.conn.channel.isWriting = true) (hdrain : ¬ s.conn.DrainsClosing answer)
    (hstep : OutputStep s.conn c' [] events) (hevents : HandleWrites s.conn c' answer events) :
    Moves s.outlet false ({ s with conn := c' } : SharedConnection).outlet := by
  obtain ⟨data, rfl⟩ := hevents.write hw hdrain
  have hbytes := hstep.bytes (by simp [hpipe.breaksPipe])
  have hdata : data ++ c'.outputBuffer.contents = s.outlet.buffered := by
    simpa [Event.accepted, outlet] using hbytes
  rw [outlet_output hstep s.returned]
  exact .write data _ _ (h.interest.mp hw) hdata

theorem handleWrite_drain_moves (h : s.Inv) (hw : s.conn.channel.isWriting = true)
    (hdrain : s.conn.DrainsClosing answer) (hstep : OutputStep s.conn c' [] events)
    (hevents : HandleWrites s.conn c' answer events) :
    Moves s.outlet true ({ s with conn := c' } : SharedConnection).outlet := by
  obtain ⟨hempty, data, rfl⟩ := hevents.drain hw hdrain
  have hbytes := hstep.bytes rfl
  have hdata : data = s.outlet.buffered := by
    simpa [Event.accepted, outlet, hempty] using hbytes
  rw [outlet_output hstep s.returned, hempty, hdata]
  exact .drain (by simp [outlet, hdrain.1]) (h.interest.mp hw)

end HandleWrite

theorem handleWrite_moves (h : s.Inv) {answer : WriteAnswer} (hpipe : answer.KeepsPipe) :
    ∃ s', s.step (.handleWrite answer) = .ok s' ∧ s'.Inv ∧
      Moves s.outlet (s.shutsDown (.handleWrite answer)) s'.outlet := by
  obtain ⟨c', events, hc', hstep, hevents⟩ := s.conn.handleWrite_spec answer
  have hshut : s.shutsDown (.handleWrite answer) =
      decide (s.conn.channel.isWriting = true ∧ s.conn.DrainsClosing answer) := rfl
  refine ⟨{ s with conn := c' }, ?_, h.output hstep ?_ s.returned, ?_⟩
  · simp only [step, hc', ok_bind]
    rfl
  · exact hstep.interest (hevents.intact hpipe) h.interest
  · rw [hshut]
    cases hw : s.conn.channel.isWriting with
    | false => simpa using handleWrite_quiet_moves hw hstep hevents
    | true =>
      by_cases hdrain : s.conn.DrainsClosing answer
      · simpa [hdrain] using handleWrite_drain_moves h hw hdrain hstep hevents
      · simpa [hdrain] using handleWrite_write_moves h hpipe hw hdrain hstep hevents

/-- Each step is a move of the outlet, and marked when it shuts the socket down. -/
theorem step_moves (h : s.Inv) {a : ThreadStep} (ha : s.Allows a) :
    ∃ s', s.step a = .ok s' ∧ s'.Inv ∧ Moves s.outlet (s.shutsDown a) s'.outlet := by
  cases a with
  | send message answer => exact send_moves h message ha.2
  | sendCheck message => exact sendCheck_moves h message
  | sendQueue i => exact sendQueue_moves h ha
  | shutdownCheck onLoop => exact shutdownCheck_moves h onLoop ha
  | shutdownSet =>
    rcases ha with ha | ha
    · exact shutdownSet_moves h ha
    · exact shutdownSet_moves h ha
  | shutdownRun =>
    rcases ha with ha | ha
    · exact shutdownRun_moves h ha
    · exact shutdownRun_moves h ha
  | runFunctor answer => exact runFunctor_moves h ha.2
  | handleWrite answer => exact handleWrite_moves h ha.2

/-- Along a run the outlet stays sound; without a shutdown ahead of a waiting
message it stays good, and behind one it is doomed. -/
theorem run_outlet (steps : List ThreadStep) (h : s.Inv) (hsound : s.outlet.Sound)
    (hp : machine.Permits s steps) :
    ∃ s', machine.run s steps = .ok s' ∧
      (calmMachine.Permits s steps → s.outlet.Good → s'.outlet.Good) ∧
      (¬ calmMachine.Permits s steps ∨ s.outlet.Doomed → s'.outlet.Doomed) := by
  induction steps generalizing s with
  | nil =>
    refine ⟨s, rfl, fun _ hg => hg, ?_⟩
    rintro (hcalm | hd)
    · exact absurd trivial hcalm
    · exact hd
  | cons a steps ih =>
    obtain ⟨s₁, hs₁, hinv₁, hmoves⟩ := step_moves h hp.1
    have hstep : machine.step s a = .ok s₁ := hs₁
    have hcalmStep : calmMachine.step s a = .ok s₁ := hs₁
    have hp₁ := ((machine.permits_cons_ok hstep).mp hp).2
    obtain ⟨s', hrun, hgood, hdoomed⟩ := ih hinv₁ (moves_sound hmoves hsound) hp₁
    refine ⟨s', by rw [machine.run_cons_ok steps hstep, hrun], ?_, ?_⟩
    · intro hcalm hg
      rw [calmMachine.permits_cons_ok hcalmStep] at hcalm
      exact hgood hcalm.2 (moves_good hmoves hsound hg hcalm.1.2)
    · rintro (hcalm | hd)
      · rw [calmMachine.permits_cons_ok hcalmStep, not_and_or] at hcalm
        rcases hcalm with hwaits | hlater
        · -- this is the shutdown ahead of a waiting message
          have hwaits : ¬ (s.shutsDown a = true → s.Quiescent) := fun hq => hwaits ⟨hp.1, hq⟩
          rw [Classical.not_imp] at hwaits
          rw [hwaits.1] at hmoves
          exact hdoomed (.inr (doomed_of_shutdown hmoves hwaits.2))
        · exact hdoomed (.inl hlater)
      · exact hdoomed (.inr (moves_doomed hmoves hsound hd))

/-- A connection that has just been established and not been used yet. -/
def start (writeComplete highWater : Bool) (highWaterMark : ℕ) : SharedConnection where
  conn := .established writeComplete highWater highWaterMark
  sending := []
  shutdownCall := .notCalled
  returned := []

section Start

variable (writeComplete highWater : Bool) (highWaterMark : ℕ)

theorem start_inv : (start writeComplete highWater highWaterMark).Inv where
  state := rfl
  interest := by
    have hempty : (default : Buffer).contents = [] := Buffer.contents_ofSize _
    have hquiet : Channel.init.enableReading.isWriting = false := rfl
    simp [WritesWhatIsLeft, start, established, init, hempty, hquiet]
  functors _ hf := nomatch hf
  closing hf := nomatch hf

theorem start_sound : (start writeComplete highWater highWaterMark).outlet.Sound where
  bytes := Buffer.contents_ofSize _
  closing h := by simp [outlet, start, established] at h
  returned := List.nil_subperm

theorem start_good : (start writeComplete highWater highWaterMark).outlet.Good :=
  good_of_open (by simp [outlet, start, established])

/-- In any interleaving no step faults. If the socket is never shut down while a
`sendInLoop` is queued or about to be queued, the shutdown loses nothing; and
when at the end none is left, it lost nothing only if that was so. -/
theorem graceful_shutdown_iff_calm (steps : List ThreadStep)
    (hp : machine.Permits (start writeComplete highWater highWaterMark) steps) :
    ∃ s, machine.run (start writeComplete highWater highWaterMark) steps = .ok s ∧
      (calmMachine.Permits (start writeComplete highWater highWaterMark) steps →
        Graceful s.returned s.conn.history) ∧
      (s.Quiescent → Graceful s.returned s.conn.history →
        calmMachine.Permits (start writeComplete highWater highWaterMark) steps) := by
  obtain ⟨s, hrun, hgood, hdoomed⟩ := run_outlet steps
    (start_inv writeComplete highWater highWaterMark)
    (start_sound writeComplete highWater highWaterMark) hp
  refine ⟨s, hrun, ?_, ?_⟩
  · intro hcalm
    exact (hgood hcalm (start_good writeComplete highWater highWaterMark)).1
  · intro hquiescent hgraceful
    by_contra hcalm
    exact (hdoomed (.inl hcalm)).not_graceful hquiescent hgraceful

end Start

instance (s : SharedConnection) (a : ThreadStep) : Decidable (machine.Allows s a) :=
  inferInstanceAs (Decidable (s.Allows a))

/-- A message that is queued, shut down behind it on the same thread, written in
two parts. -/
def politeSteps : List ThreadStep :=
  [.sendCheck [1, 2], .sendQueue 0, .shutdownCheck false, .shutdownSet, .runFunctor (.took 1),
    .shutdownRun, .runFunctor (.took 0), .handleWrite (.took 1)]

theorem graceful_shutdown_iff_calm_polite :
    ∃ s, machine.run (start true false 9) politeSteps = .ok s ∧
      (calmMachine.Permits (start true false 9) politeSteps →
        Graceful s.returned s.conn.history) ∧
      (s.Quiescent → Graceful s.returned s.conn.history →
        calmMachine.Permits (start true false 9) politeSteps) :=
  graceful_shutdown_iff_calm true false 9 politeSteps (by decide +kernel)

/-- A message is queued from another thread, and its `send` returns. Then the
loop's thread calls `shutdown`. -/
def rudeSteps : List ThreadStep :=
  [.sendCheck [1, 2], .sendQueue 0, .shutdownCheck true, .shutdownSet, .shutdownRun]

theorem shutdown_overtakes_send :
    machine.Permits (start false false 9) rudeSteps ∧
      ∃ s, machine.run (start false false 9) rudeSteps = .ok s ∧
        ¬ Graceful s.returned s.conn.history := by
  have hrun : (machine.run (start false false 9) rudeSteps).toOption.map
      (fun s => (s.returned, s.conn.history)) =
        some ([[1, 2]], [.connectionCallback true, .shutdownWrite]) := by decide +kernel
  obtain ⟨s, hs, hseen⟩ := exists_ok_of_map hrun
  obtain ⟨hreturned, hhistory⟩ := Prod.mk.inj hseen
  refine ⟨by decide +kernel, s, hs, ?_⟩
  rw [hreturned, hhistory]
  rintro ⟨hwritten, -⟩
  obtain ⟨-, hpassed⟩ := hwritten [.connectionCallback true] .shutdownWrite [] rfl rfl
  have := hpassed.length_le
  cases this

end SharedConnection
end Muduo
