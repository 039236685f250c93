import Muduo.Foundations.Guards
import Muduo.EventLoop.Batch
import Muduo.Connection.Lifecycle
import Muduo.Client.Connector

/-!
# Removing channels while events are handled

`activeChannels_` holds plain pointers. `EventLoop::removeChannel` therefore asserts
that a channel that goes while events are handled is the current one, or was not
reported. A loop is modelled here with all channels that handlers can take away: of
connections, of servers' acceptors and of connectors. Connections are removed by
functors, behind the events, and a connector's handlers remove the connector's own
channel; but the destructor of a server, which a handler may run, removes the
acceptor's channel and those of the server's connections at once.

What the user's callbacks do are steps of their own. A destructor runs such callbacks
between its rounds, so its rounds are steps too, on a stack of running destructors.
-/

namespace Muduo

open Foundations

inductive ChannelId (ι σ κ : Type) where
  | connection (i : ι)
  | acceptor (s : σ)
  | connector (k : κ)
  /-- the loop's own descriptors, which stay as long as the loop -/
  | own
  deriving DecidableEq

inductive LoopFault (ι σ κ : Type) where
  /-- the assertion in `EventLoop::removeChannel` -/
  | removeChannel (channel : ChannelId ι σ κ)
  | other (fault : Fault)
  deriving DecidableEq

/-- `ι` are the connections, `σ` the servers and `κ` the connectors of one loop. -/
structure Reactor (ι σ κ : Type) where
  batch : EventBatch (ChannelId ι σ κ)
  conn : ι → TcpConnection
  /-- the server that made the connection; others belong to clients -/
  owner : ι → Option σ
  acceptChannel : σ → Channel
  /-- `connections_` -/
  connections : σ → List ι
  alive : σ → Bool
  /-- the servers whose destructors are running, the innermost first -/
  destroying : List σ
  connector : κ → Connector
  /-- the channels removed since the last poll -/
  removed : List (ChannelId ι σ κ)

/-- The environment of one callback: the kernel's answers, the input that the message
callback leaves, and the connection that is made if there is one and this loop has it. -/
structure HandlerScript (ι : Type) where
  read : ReadAnswer
  write : WriteAnswer
  input : Buffer
  fresh : Option ι
  err : Bool
  isSelfConnect : Bool

inductive ReactorStep (ι σ κ : Type) where
  | poll (reports : List (ChannelId ι σ κ × PollEvents))
  | advance
  | callback (script : HandlerScript ι)
  /-- calls on connections, and their functors -/
  | call (i : ι) (a : Call WriteAnswer)
  | foreignCall (i : ι) (a : Call Unit)
  | runFunctor (i : ι) (answer : WriteAnswer)
  /-- servers: `Acceptor::listen`, and the rounds of `~TcpServer` -/
  | listen (s : σ)
  | destroyServer (s : σ)
  | destroyConnection (onDown : List (Call WriteAnswer))
  | destroyAcceptor
  /-- calls on connectors, their functors and their timers -/
  | start (k : κ) (savedErrno : Option ConnectErrno)
  | foreignStart (k : κ)
  | stop (k : κ)
  | restart (k : κ) (savedErrno : Option ConnectErrno)
  | runConnectorFunctor (k : κ) (savedErrno : Option ConnectErrno)
  | expire (k : κ) (i : ℕ) (savedErrno : Option ConnectErrno)

namespace Reactor

variable {ι σ κ : Type}

section Steps

variable [DecidableEq ι] [DecidableEq σ] [DecidableEq κ] (w : Reactor ι σ κ)

def init (conn : ι → TcpConnection) : Reactor ι σ κ where
  batch := .idle
  conn := conn
  owner _ := none
  acceptChannel _ := .init
  connections _ := []
  alive _ := true
  destroying := []
  connector _ := .init
  removed := []

def setConn (i : ι) (c : TcpConnection) : Reactor ι σ κ :=
  { w with conn := Function.update w.conn i c }

def setConnector (k : κ) (c : Connector) : Reactor ι σ κ :=
  { w with connector := Function.update w.connector k c }

/-- The interest that the poller has for a channel. -/
def interest : ChannelId ι σ κ → PollEvents
  | .connection i => (w.conn i).channel.events
  | .acceptor s => (w.acceptChannel s).events
  | .connector k => ((w.connector k).channel.map (·.channel.events)).getD .kNoneEvent
  | .own => .kReadEvent

/-- Faults of the functions that know nothing of the loop. -/
def lift {α : Type} (x : Except Fault α) : Except (LoopFault ι σ κ) α := x.mapError .other

/-- What `EventLoop::removeChannel` asserts. -/
def MayRemove (channel : ChannelId ι σ κ) : Prop :=
  w.batch.eventHandling = true →
    w.batch.currentActiveChannel = some channel ∨ channel ∉ w.batch.activeChannels

instance (channel : ChannelId ι σ κ) : Decidable (w.MayRemove channel) :=
  inferInstanceAs (Decidable (_ → _))

def removeChannel (channel : ChannelId ι σ κ) : Except (LoopFault ι σ κ) (Reactor ι σ κ) :=
  if w.MayRemove channel then .ok { w with removed := channel :: w.removed }
  else .error (.removeChannel channel)

/-- `connectEstablished` of a new connection, on this loop at once. -/
def establish (i : ι) : Except Fault (Reactor ι σ κ) := do
  let c ← (w.conn i).connectEstablished []
  return w.setConn i c

/-- The close callback: the owner forgets the connection and queues the rest. -/
def removeConnection (i : ι) : Except Fault (Reactor ι σ κ) := do
  let w := w.setConn i ((w.conn i).queueInLoop .connectDestroyed)
  match w.owner i with
  | some s =>
    assertThat (i ∈ w.connections s)
    return { w with connections := Function.update w.connections s ((w.connections s).erase i) }
  | none => return w

/-- A connection behind one of its handlers, which may have run the close callback. -/
def settle (i : ι) (c : TcpConnection) : Except Fault (Reactor ι σ κ) :=
  if .closeCallback ∈ c.history ∧ .closeCallback ∉ (w.conn i).history then
    (w.setConn i c).removeConnection i
  else .ok (w.setConn i c)

def connectionCallback (script : HandlerScript ι) (i : ι) (k : ChannelCallback) :
    Except Fault (Reactor ι σ κ) := do
  let c ← (w.conn i).runCallback ⟨script.read, script.write, [], script.input, []⟩ k
  w.settle i c

/-- `Acceptor::handleRead` with `TcpServer::newConnection`; no other callback is set. -/
def acceptorCallback (script : HandlerScript ι) (s : σ) : ChannelCallback →
    Except Fault (Reactor ι σ κ)
  | .read =>
    match script.fresh with
    | some i => { w with
        connections := Function.update w.connections s (w.connections s ++ [i])
        owner := Function.update w.owner i (some s) }.establish i
    | none => .ok w
  | .close | .error | .write => .ok w

/-- Behind `removeAndResetChannel` of a connector, which runs while it is connecting. -/
def removeConnecting (k : κ) (c : Connector) : Except (LoopFault ι σ κ) (Reactor ι σ κ) :=
  if (w.connector k).state = .kConnecting then
    (w.setConnector k c).removeChannel (.connector k)
  else .ok (w.setConnector k c)

/-- `TcpClient::newConnection`, when the handler has called it. -/
def newConnection (called : Bool) : Option ι → Except Fault (Reactor ι σ κ)
  | some i => if called then w.establish i else .ok w
  | none => .ok w

def handleConnecting (script : HandlerScript ι) (k : κ) (callback : ChannelCallback) :
    Except (LoopFault ι σ κ) (Reactor ι σ κ) := do
  let c ← lift ((w.connector k).runCallback script.err script.isSelfConnect callback)
  let w' ← w.removeConnecting k c
  lift (w'.newConnection (c.handed ≠ (w.connector k).handed) script.fresh)

/-- Only the callbacks for errors and for output are set. -/
def connectorCallback (script : HandlerScript ι) (k : κ) (callback : ChannelCallback) :
    Except (LoopFault ι σ κ) (Reactor ι σ κ) :=
  match callback with
  | .write | .error => w.handleConnecting script k callback
  | .close | .read => .ok w

def runCallback (script : HandlerScript ι) (k : ChannelCallback) :
    ChannelId ι σ κ → Except (LoopFault ι σ κ) (Reactor ι σ κ)
  | .connection i => lift (w.connectionCallback script i k)
  | .acceptor s => lift (w.acceptorCallback script s k)
  | .connector j => w.connectorCallback script j k
  | .own => .ok w

/-- A functor of a connection; `connectDestroyed` ends with the removal of its channel. -/
def runFunctor (i : ι) (answer : WriteAnswer) (f : Functor) :
    Except (LoopFault ι σ κ) (Reactor ι σ κ) := do
  let c ← lift ((w.conn i).runFunctor answer [] f)
  let w ← lift (w.settle i c)
  if f = .connectDestroyed then w.removeChannel (.connection i) else return w

def runConnectorFunctor (k : κ) (savedErrno : Option ConnectErrno) (f : ConnectorFunctor) :
    Except (LoopFault ι σ κ) (Reactor ι σ κ) := do
  let c ← lift ((w.connector k).runFunctor savedErrno f)
  if f = .stopInLoop then w.removeConnecting k c else return w.setConnector k c

/-- One round of the loop in `~TcpServer`. -/
def destroyConnection (s : σ) (onDown : List (Call WriteAnswer)) :
    Except (LoopFault ι σ κ) (Reactor ι σ κ) :=
  match w.connections s with
  | i :: rest => do
    let c ← lift ((w.conn i).connectDestroyed onDown)
    { w.setConn i c with
      connections := Function.update w.connections s rest }.removeChannel (.connection i)
  | [] => .ok w

/-- `~Acceptor`. -/
def destroyAcceptor (s : σ) : Except (LoopFault ι σ κ) (Reactor ι σ κ) :=
  { w with
    acceptChannel := Function.update w.acceptChannel s
      { (w.acceptChannel s).disableAll with addedToLoop := false }
    destroying := w.destroying.tail }.removeChannel (.acceptor s)

def step : ReactorStep ι σ κ → Except (LoopFault ι σ κ) (Reactor ι σ κ)
  | .poll reports => return { w with batch := .poll reports, removed := [] }
  | .advance => return { w with batch := w.batch.advance }
  | .callback script =>
    match w.batch.next with
    | some ((channel, k), batch) => do
      let w' ← w.runCallback script k channel
      return { w' with batch := batch }
    | none => return w
  | .call i a => do
    let c ← lift ((w.conn i).call a)
    return w.setConn i c
  | .foreignCall i a => return w.setConn i ((w.conn i).foreignCall a)
  | .runFunctor i answer =>
    match (w.conn i).pendingFunctors with
    | f :: fs => (w.setConn i { w.conn i with pendingFunctors := fs }).runFunctor i answer f
    | [] => return w
  | .listen s =>
    return { w with
      acceptChannel := Function.update w.acceptChannel s (w.acceptChannel s).enableReading }
  | .destroyServer s =>
    return { w with alive := Function.update w.alive s false, destroying := s :: w.destroying }
  | .destroyConnection onDown =>
    match w.destroying with
    | s :: _ => w.destroyConnection s onDown
    | [] => return w
  | .destroyAcceptor =>
    match w.destroying with
    | s :: _ => w.destroyAcceptor s
    | [] => return w
  | .start k savedErrno => do
    let c ← lift ((w.connector k).start savedErrno)
    return w.setConnector k c
  | .foreignStart k => return w.setConnector k (w.connector k).foreignStart
  | .stop k => return w.setConnector k (w.connector k).stop
  | .restart k savedErrno => do
    let c ← lift ((w.connector k).restart savedErrno)
    return w.setConnector k c
  | .runConnectorFunctor k savedErrno =>
    match (w.connector k).pendingFunctors with
    | f :: fs => (w.setConnector k { w.connector k with
        pendingFunctors := fs }).runConnectorFunctor k savedErrno f
    | [] => return w
  | .expire k i savedErrno => do
    let c ← lift ((w.connector k).expire i savedErrno)
    return w.setConnector k c

/-- The loop goes on when no handler and no destructor is running, and functors run
when no event is left. The poller reports what the platform can report of channels
with interest, each channel once. A destructor removes the connections first. -/
def Allows : ReactorStep ι σ κ → Prop
  | .poll reports => w.batch.eventHandling = false ∧ w.destroying = [] ∧
      (reports.map Prod.fst).Nodup ∧
      ∀ r ∈ reports, TcpConnection.Reportable (w.interest r.1) r.2
  | .advance => w.batch.eventHandling = true ∧ w.batch.next.isNone ∧ w.destroying = []
  | .callback _ => w.batch.next.isSome ∧ w.destroying = []
  | .call i _ | .foreignCall i _ => (w.conn i).state ≠ .kConnecting
  | .runFunctor i _ => w.batch.eventHandling = false ∧ w.destroying = [] ∧
      (w.conn i).pendingFunctors ≠ []
  | .listen s | .destroyServer s => w.alive s = true
  | .destroyConnection _ => ∃ s ∈ w.destroying.head?, w.connections s ≠ []
  | .destroyAcceptor => ∃ s ∈ w.destroying.head?, w.connections s = []
  | .start _ _ | .foreignStart _ | .stop _ | .restart _ _ => True
  | .runConnectorFunctor k _ => w.batch.eventHandling = false ∧ w.destroying = [] ∧
      (w.connector k).pendingFunctors ≠ []
  | .expire k i _ => i < (w.connector k).timers.length

instance (a : ReactorStep ι σ κ) : Decidable (w.Allows a) := by
  cases a <;> unfold Allows <;> infer_instance

def machine : Machine (Reactor ι σ κ) (ReactorStep ι σ κ) (LoopFault ι σ κ) where
  Allows := Allows
  step := step

instance (a : ReactorStep ι σ κ) : Decidable (machine.Allows w a) :=
  inferInstanceAs (Decidable (w.Allows a))

/-- A round of a destructor that gets as far as the loop finds the assertion true. -/
def Timely : ReactorStep ι σ κ → Prop
  | .destroyConnection onDown => ∀ s ∈ w.destroying.head?, ∀ i ∈ (w.connections s).head?,
      ((w.conn i).connectDestroyed onDown).isOk = true → w.MayRemove (.connection i)
  | .destroyAcceptor => ∀ s ∈ w.destroying.head?, w.MayRemove (.acceptor s)
  | _ => True

instance : (a : ReactorStep ι σ κ) → Decidable (w.Timely a)
  | .destroyConnection onDown => inferInstanceAs (Decidable (∀ s ∈ w.destroying.head?,
      ∀ i ∈ (w.connections s).head?, ((w.conn i).connectDestroyed onDown).isOk = true →
        w.MayRemove (.connection i)))
  | .destroyAcceptor =>
    inferInstanceAs (Decidable (∀ s ∈ w.destroying.head?, w.MayRemove (.acceptor s)))
  | .poll _ | .advance | .callback _ | .call _ _ | .foreignCall _ _ | .runFunctor _ _ | .listen _
  | .destroyServer _ | .start _ _ | .foreignStart _ | .stop _ | .restart _ _
  | .runConnectorFunctor _ _ | .expire _ _ _ => .isTrue trivial

instance (a : ReactorStep ι σ κ) : Decidable ((machine.restrict Timely).Allows w a) :=
  inferInstanceAs (Decidable (w.Allows a ∧ w.Timely a))

end Steps

/-- No channel that the loop will come to was removed in this batch. -/
structure Safe (w : Reactor ι σ κ) : Prop where
  batch : w.batch.Orderly
  upcoming : ∀ channel ∈ w.removed, channel ∉ w.batch.upcoming

def Spares {α : Type} (x : Except (LoopFault ι σ κ) α) : Prop :=
  ∀ channel, x ≠ .error (.removeChannel channel)

/-- Nothing but the removal of one channel, which the assertion allows, is seen of a
step in the loop. -/
def Keeps (w w' : Reactor ι σ κ) : Prop :=
  w'.batch = w.batch ∧ (w'.removed = w.removed ∨
    ∃ channel, w.MayRemove channel ∧ w'.removed = channel :: w.removed)

variable {w w' : Reactor ι σ κ} {channel : ChannelId ι σ κ}

section Lift

variable {α β : Type}

theorem spares_lift (x : Except Fault α) : Spares (lift x : Except (LoopFault ι σ κ) α) := by
  intro channel h
  cases x with
  | error e => cases h
  | ok a => cases h

theorem lift_eq_ok {x : Except Fault α} {a : α} :
    (lift x : Except (LoopFault ι σ κ) α) = .ok a ↔ x = .ok a := by
  cases x with
  | error e => simp [lift, Except.mapError]
  | ok b => simp [lift, Except.mapError]

theorem spares_ok (a : α) : Spares (.ok a : Except (LoopFault ι σ κ) α) := by
  intro channel h
  cases h

theorem Spares.bind {x : Except (LoopFault ι σ κ) α} {f : α → Except (LoopFault ι σ κ) β}
    (hx : Spares x) (hf : ∀ a, x = .ok a → Spares (f a)) : Spares (x >>= f) := by
  intro channel h
  cases x with
  | error e =>
    cases h
    exact hx channel rfl
  | ok a => exact hf a rfl channel h

end Lift

theorem mayRemove_of_idle (h : w.batch.eventHandling = false) : w.MayRemove channel := by
  intro hhandling
  rw [h] at hhandling
  cases hhandling

theorem mayRemove_of_current (h : w.batch.currentActiveChannel = some channel) :
    w.MayRemove channel :=
  fun _ => .inl h

theorem Keeps.refl (w : Reactor ι σ κ) : Keeps w w := ⟨rfl, .inl rfl⟩

/-- In front of a step that is seen, any step that is not seen. -/
theorem Keeps.after {w₁ w₂ : Reactor ι σ κ} (hb : w₁.batch = w.batch) (hr : w₁.removed = w.removed)
    (h : Keeps w₁ w₂) : Keeps w w₂ := by
  unfold Keeps MayRemove at *
  rwa [hb, hr] at h

theorem Safe.keeps (h : w.Safe) (hk : Keeps w w') : w'.Safe := by
  obtain ⟨hb, hr⟩ := hk
  refine ⟨hb ▸ h.batch, ?_⟩
  rw [hb]
  rcases hr with hr | ⟨channel, hmay, hr⟩
  · rw [hr]
    exact h.upcoming
  · rw [hr, List.forall_mem_cons]
    refine ⟨?_, h.upcoming⟩
    intro hmem
    obtain ⟨hnodup, hsubset⟩ := h.batch
    cases hhandling : w.batch.eventHandling with
    | false =>
      rw [EventBatch.upcoming_of_idle hhandling] at hmem
      cases hmem
    | true =>
      rcases hmay hhandling with hcurrent | hactive
      · rw [hcurrent] at hnodup
        exact (List.nodup_cons.mp hnodup).1 hmem
      · exact hactive (hsubset hmem)

variable [DecidableEq ι]

theorem establish_frame {i : ι} (h : w.establish i = .ok w') :
    w'.batch = w.batch ∧ w'.removed = w.removed := by
  obtain ⟨c, -, hreturn⟩ := bind_eq_ok.mp h
  cases hreturn
  exact ⟨rfl, rfl⟩

theorem newConnection_frame {called : Bool} {fresh : Option ι}
    (h : w.newConnection called fresh = .ok w') :
    w'.batch = w.batch ∧ w'.removed = w.removed := by
  unfold newConnection at h
  split at h
  · split_ifs at h
    · exact establish_frame h
    · cases h
      exact ⟨rfl, rfl⟩
  · cases h
    exact ⟨rfl, rfl⟩

variable [DecidableEq σ]

theorem removeConnection_frame {i : ι} (h : w.removeConnection i = .ok w') :
    w'.batch = w.batch ∧ w'.removed = w.removed := by
  unfold removeConnection at h
  dsimp only at h
  split at h
  · obtain ⟨_, -, hreturn⟩ := bind_eq_ok.mp h
    cases hreturn
    exact ⟨rfl, rfl⟩
  · cases h
    exact ⟨rfl, rfl⟩

theorem settle_frame {i : ι} {c : TcpConnection} (h : w.settle i c = .ok w') :
    w'.batch = w.batch ∧ w'.removed = w.removed := by
  unfold settle at h
  split_ifs at h
  · have hframe := removeConnection_frame h
    exact hframe
  · cases h
    exact ⟨rfl, rfl⟩

variable [DecidableEq κ]

theorem spares_removeChannel_iff : Spares (w.removeChannel channel) ↔ w.MayRemove channel := by
  unfold removeChannel
  split_ifs with h
  · exact iff_of_true (spares_ok _) h
  · exact iff_of_false (fun hspares => hspares channel rfl) h

theorem removeChannel_keeps (h : w.removeChannel channel = .ok w') : Keeps w w' := by
  unfold removeChannel at h
  split_ifs at h with hmay
  cases h
  exact ⟨rfl, .inr ⟨channel, hmay, rfl⟩⟩

theorem removeConnecting_keeps {k : κ} {c : Connector} (h : w.removeConnecting k c = .ok w') :
    Keeps w w' := by
  unfold removeConnecting at h
  split_ifs at h
  · have hkeeps := removeChannel_keeps h
    exact hkeeps
  · cases h
    exact ⟨rfl, .inl rfl⟩

theorem spares_removeConnecting {k : κ} {c : Connector} (h : w.MayRemove (.connector k)) :
    Spares (w.removeConnecting k c) := by
  unfold removeConnecting
  split_ifs
  · exact spares_removeChannel_iff.mpr h
  · exact spares_ok _

theorem handleConnecting_spec {k : κ} (script : HandlerScript ι) (callback : ChannelCallback)
    (h : w.MayRemove (.connector k)) :
    Spares (w.handleConnecting script k callback) ∧
      ∀ w', w.handleConnecting script k callback = .ok w' → Keeps w w' := by
  constructor
  · exact (spares_lift _).bind fun c _ =>
      (spares_removeConnecting h).bind fun w' _ => spares_lift _
  · intro w' hw'
    obtain ⟨c, -, hrest⟩ := bind_eq_ok.mp hw'
    obtain ⟨w₁, h₁, hnew⟩ := bind_eq_ok.mp hrest
    obtain ⟨hb, hr⟩ := newConnection_frame (lift_eq_ok.mp hnew)
    have hkeeps := removeConnecting_keeps h₁
    unfold Keeps at hkeeps ⊢
    rwa [hb, hr]

theorem runCallback_spec (script : HandlerScript ι) (k : ChannelCallback)
    (h : w.batch.currentActiveChannel = some channel) :
    Spares (w.runCallback script k channel) ∧
      ∀ w', w.runCallback script k channel = .ok w' → Keeps w w' := by
  cases channel with
  | connection i =>
    refine ⟨spares_lift _, fun w' hw' => ?_⟩
    obtain ⟨c, -, hsettle⟩ := bind_eq_ok.mp (lift_eq_ok.mp hw')
    obtain ⟨hb, hr⟩ := settle_frame hsettle
    exact ⟨hb, .inl hr⟩
  | acceptor s =>
    refine ⟨spares_lift _, fun w' hw' => ?_⟩
    have haccept : w.acceptorCallback script s k = .ok w' := lift_eq_ok.mp hw'
    unfold acceptorCallback at haccept
    split at haccept
    · split at haccept
      · obtain ⟨hb, hr⟩ := establish_frame haccept
        exact ⟨hb, .inl hr⟩
      · cases haccept
        exact .refl w
    all_goals
      cases haccept
      exact .refl w
  | connector j =>
    have hmay : w.MayRemove (.connector j) := mayRemove_of_current h
    cases k with
    | close | read =>
      refine ⟨spares_ok _, fun w' hw' => ?_⟩
      cases hw'
      exact .refl w
    | write | error => exact handleConnecting_spec script _ hmay
  | own =>
    refine ⟨spares_ok _, fun w' hw' => ?_⟩
    cases hw'
    exact .refl w

theorem runFunctor_spec {i : ι} (answer : WriteAnswer) (f : Functor)
    (h : w.batch.eventHandling = false) :
    Spares (w.runFunctor i answer f) ∧ ∀ w', w.runFunctor i answer f = .ok w' → Keeps w w' := by
  constructor
  · refine (spares_lift _).bind fun c _ => (spares_lift _).bind fun w₁ hw₁ => ?_
    obtain ⟨hb, -⟩ := settle_frame (lift_eq_ok.mp hw₁)
    split_ifs
    · exact spares_removeChannel_iff.mpr (mayRemove_of_idle (hb ▸ h))
    · exact spares_ok _
  · intro w' hw'
    obtain ⟨c, -, hrest⟩ := bind_eq_ok.mp hw'
    obtain ⟨w₁, hw₁, hlast⟩ := bind_eq_ok.mp hrest
    obtain ⟨hb, hr⟩ := settle_frame (lift_eq_ok.mp hw₁)
    split_ifs at hlast
    · exact .after hb hr (removeChannel_keeps hlast)
    · cases hlast
      exact ⟨hb, .inl hr⟩

theorem runConnectorFunctor_spec {k : κ} (savedErrno : Option ConnectErrno) (f : ConnectorFunctor)
    (h : w.batch.eventHandling = false) :
    Spares (w.runConnectorFunctor k savedErrno f) ∧
      ∀ w', w.runConnectorFunctor k savedErrno f = .ok w' → Keeps w w' := by
  constructor
  · refine (spares_lift _).bind fun c _ => ?_
    split_ifs
    · exact spares_removeConnecting (mayRemove_of_idle h)
    · exact spares_ok _
  · intro w' hw'
    obtain ⟨c, -, hlast⟩ := bind_eq_ok.mp hw'
    split_ifs at hlast
    · exact removeConnecting_keeps hlast
    · cases hlast
      exact ⟨rfl, .inl rfl⟩

/-- One round of a destructor, which removes the connection's channel if the connection
gets that far. -/
theorem spares_destroyConnection_iff {s : σ} {i : ι} {rest : List ι}
    (onDown : List (Call WriteAnswer)) (h : w.connections s = i :: rest) :
    Spares (w.destroyConnection s onDown) ↔
      (((w.conn i).connectDestroyed onDown).isOk = true → w.MayRemove (.connection i)) := by
  simp only [destroyConnection, h]
  cases hc : (w.conn i).connectDestroyed onDown with
  | error e =>
    refine iff_of_true ?_ (fun hok => by cases hok)
    intro channel herror
    cases herror
  | ok c =>
    have hlift : (lift (.ok c) : Except (LoopFault ι σ κ) TcpConnection) = .ok c := rfl
    rw [hlift, ok_bind, spares_removeChannel_iff]
    exact ⟨fun hmay _ => hmay, fun hmay => hmay rfl⟩

theorem destroyConnection_keeps {s : σ} {onDown : List (Call WriteAnswer)}
    (h : w.destroyConnection s onDown = .ok w') : Keeps w w' := by
  unfold destroyConnection at h
  split at h
  · obtain ⟨c, -, hremove⟩ := bind_eq_ok.mp h
    have hkeeps := removeChannel_keeps hremove
    exact hkeeps
  · cases h
    exact .refl w

theorem spares_destroyAcceptor_iff {s : σ} :
    Spares (w.destroyAcceptor s) ↔ w.MayRemove (.acceptor s) := by
  unfold destroyAcceptor
  exact spares_removeChannel_iff

/-- Exactly the untimely rounds of destructors fail the loop's assertion. -/
theorem spares_step_iff {a : ReactorStep ι σ κ} (ha : w.Allows a) :
    Spares (w.step a) ↔ w.Timely a := by
  cases a with
  | callback script =>
    obtain ⟨⟨⟨channel, k⟩, batch⟩, hnext⟩ := Option.isSome_iff_exists.mp ha.1
    have hspec := w.runCallback_spec script k (EventBatch.current_of_next hnext)
    simp only [step, hnext, Timely, iff_true]
    exact hspec.1.bind fun w' _ => spares_ok _
  | runFunctor i answer =>
    obtain ⟨f, fs, hfs⟩ := List.exists_cons_of_ne_nil ha.2.2
    simp only [step, hfs, Timely, iff_true]
    exact (runFunctor_spec (w := w.setConn i { w.conn i with pendingFunctors := fs })
      answer f ha.1).1
  | runConnectorFunctor k savedErrno =>
    obtain ⟨f, fs, hfs⟩ := List.exists_cons_of_ne_nil ha.2.2
    simp only [step, hfs, Timely, iff_true]
    exact (runConnectorFunctor_spec
      (w := w.setConnector k { w.connector k with pendingFunctors := fs }) savedErrno f ha.1).1
  | destroyConnection onDown =>
    obtain ⟨s, hs, hne⟩ := ha
    obtain ⟨rest, hrest⟩ := List.head?_eq_some_iff.mp hs
    obtain ⟨i, is, his⟩ := List.exists_cons_of_ne_nil hne
    simp only [step, hrest, Timely, spares_destroyConnection_iff onDown his]
    simp [his]
  | destroyAcceptor =>
    obtain ⟨s, hs, -⟩ := ha
    obtain ⟨rest, hrest⟩ := List.head?_eq_some_iff.mp hs
    simp only [step, hrest, Timely, spares_destroyAcceptor_iff]
    simp
  | call i a => exact iff_of_true ((spares_lift _).bind fun c _ => spares_ok _) trivial
  | start k e => exact iff_of_true ((spares_lift _).bind fun c _ => spares_ok _) trivial
  | restart k e => exact iff_of_true ((spares_lift _).bind fun c _ => spares_ok _) trivial
  | expire k i e => exact iff_of_true ((spares_lift _).bind fun c _ => spares_ok _) trivial
  | _ => exact iff_of_true (spares_ok _) trivial

theorem Safe.step (h : w.Safe) {a : ReactorStep ι σ κ} (ha : w.Allows a)
    (hw' : w.step a = .ok w') : w'.Safe := by
  cases a with
  | poll reports =>
    cases hw'
    exact ⟨EventBatch.orderly_poll ha.2.2.1, by simp⟩
  | advance =>
    cases hw'
    obtain ⟨horderly, hsubset⟩ := h.batch.advance
    exact ⟨horderly, fun channel hc hmem => h.upcoming channel hc (hsubset hmem)⟩
  | callback script =>
    obtain ⟨⟨⟨channel, k⟩, batch⟩, hnext⟩ := Option.isSome_iff_exists.mp ha.1
    have hspec := w.runCallback_spec script k (EventBatch.current_of_next hnext)
    simp only [Reactor.step, hnext] at hw'
    obtain ⟨w₁, hw₁, hreturn⟩ := bind_eq_ok.mp hw'
    cases hreturn
    have hkeeps := hspec.2 w₁ hw₁
    have hsafe := h.keeps hkeeps
    rw [← hkeeps.1] at hnext
    obtain ⟨horderly, hupcoming⟩ := hsafe.batch.next hnext
    exact ⟨horderly, fun channel hc => hupcoming ▸ hsafe.upcoming channel hc⟩
  | runFunctor i answer =>
    obtain ⟨f, fs, hfs⟩ := List.exists_cons_of_ne_nil ha.2.2
    simp only [Reactor.step, hfs] at hw'
    have hkeeps := (runFunctor_spec (w := w.setConn i { w.conn i with pendingFunctors := fs })
      answer f ha.1).2 w' hw'
    exact h.keeps hkeeps
  | runConnectorFunctor k savedErrno =>
    obtain ⟨f, fs, hfs⟩ := List.exists_cons_of_ne_nil ha.2.2
    simp only [Reactor.step, hfs] at hw'
    have hkeeps := (runConnectorFunctor_spec
      (w := w.setConnector k { w.connector k with pendingFunctors := fs }) savedErrno f ha.1).2
      w' hw'
    exact h.keeps hkeeps
  | destroyConnection onDown =>
    obtain ⟨s, hs, -⟩ := ha
    obtain ⟨rest, hrest⟩ := List.head?_eq_some_iff.mp hs
    simp only [Reactor.step, hrest] at hw'
    exact h.keeps (destroyConnection_keeps hw')
  | destroyAcceptor =>
    obtain ⟨s, hs, -⟩ := ha
    obtain ⟨rest, hrest⟩ := List.head?_eq_some_iff.mp hs
    simp only [Reactor.step, hrest] at hw'
    have hkeeps := removeChannel_keeps hw'
    exact h.keeps hkeeps
  | call i a =>
    obtain ⟨c, -, hreturn⟩ := bind_eq_ok.mp hw'
    cases hreturn
    exact h.keeps ⟨rfl, .inl rfl⟩
  | start k e =>
    obtain ⟨c, -, hreturn⟩ := bind_eq_ok.mp hw'
    cases hreturn
    exact h.keeps ⟨rfl, .inl rfl⟩
  | restart k e =>
    obtain ⟨c, -, hreturn⟩ := bind_eq_ok.mp hw'
    cases hreturn
    exact h.keeps ⟨rfl, .inl rfl⟩
  | expire k i e =>
    obtain ⟨c, -, hreturn⟩ := bind_eq_ok.mp hw'
    cases hreturn
    exact h.keeps ⟨rfl, .inl rfl⟩
  | _ =>
    cases hw'
    exact h.keeps ⟨rfl, .inl rfl⟩

theorem step_fails_iff {a : ReactorStep ι σ κ} (ha : w.Allows a) :
    (∃ e, w.step a = .error e ∧ ∃ channel, e = .removeChannel channel) ↔ ¬ w.Timely a := by
  rw [← spares_step_iff ha]
  constructor
  · rintro ⟨_, he, channel, rfl⟩ hspares
    exact hspares channel he
  · intro hfails
    obtain ⟨channel, hc⟩ := not_forall_not.mp hfails
    exact ⟨_, hc, channel, rfl⟩

/-- The loop never comes to a channel that was removed in the same batch. -/
theorem safe_of_run {conn : ι → TcpConnection} {steps : List (ReactorStep ι σ κ)}
    (h : machine.Permits (init conn) steps) (hrun : machine.run (init conn) steps = .ok w) :
    w.Safe := by
  have hkeeps : ∀ (w : Reactor ι σ κ) a w', w.Safe → machine.Allows w a →
      machine.step w a = .ok w' → w'.Safe := fun _ _ _ hs ha hw' => hs.step ha hw'
  have hinit : (init conn : Reactor ι σ κ).Safe := ⟨⟨List.nodup_nil, fun _ h => h⟩, by simp [init]⟩
  exact machine.run_keeps hkeeps hinit h hrun

/-- However the handlers interleave: the assertion in `EventLoop::removeChannel` never
fails, and the loop never comes to a channel that was removed in the same batch, if and
only if no destructor of a server removes a channel that was reported in this batch and
is not the current one. -/
theorem removals_are_safe_iff (conn : ι → TcpConnection) (steps : List (ReactorStep ι σ κ))
    (h : machine.Permits (init conn) steps) :
    ((∀ channel, machine.run (init conn) steps ≠ .error (.removeChannel channel)) ∧
      ∀ done w, done <+: steps → machine.run (init conn) done = .ok w →
        ∀ channel ∈ w.removed, channel ∉ w.batch.upcoming) ↔
      (machine.restrict Timely).Permits (init conn) steps := by
  have hkeep : ∀ (w : Reactor ι σ κ) a w', True → machine.Allows w a →
      machine.step w a = .ok w' → True := fun _ _ _ _ _ _ => trivial
  rw [← machine.run_avoids_iff (fun e => ∃ channel, e = .removeChannel channel) Timely hkeep
    (fun w a _ ha => step_fails_iff ha) steps (init conn) trivial h]
  constructor
  · rintro ⟨hspares, -⟩ e he ⟨channel, rfl⟩
    exact hspares channel he
  · intro hgood
    refine ⟨fun channel he => hgood _ he ⟨channel, rfl⟩, ?_⟩
    rintro done w ⟨rest, rfl⟩ hrun
    exact (safe_of_run (machine.permits_append.mp h).1 hrun).upcoming

/-- The answers that a handler without surprises gets. -/
def plainScript (fresh : Option Unit) : HandlerScript Unit :=
  ⟨.bytes [1], .took 0, default, fresh, false, false⟩

/-- A server accepts a connection. Then input is reported for the connection and, on
request, for the acceptor in the same batch, and the message callback destroys the
server. -/
def destroyedByItsConnection (others : List (ChannelId Unit Unit Empty × PollEvents)) :
    List (ReactorStep Unit Unit Empty) :=
  [.listen (), .poll [(.acceptor (), { pollIn := true })], .advance,
    .callback (plainScript (some ())), .advance,
    .poll ((.connection (), { pollIn := true }) :: others), .advance, .callback (plainScript none),
    .destroyServer (), .destroyConnection [], .destroyAcceptor]

/-- Nothing else is reported: all is well. -/
theorem removals_are_safe_alone :
    machine.Permits (init fun _ => .init false false 64) (destroyedByItsConnection []) ∧
      ∀ channel, machine.run (init fun _ => .init false false 64) (destroyedByItsConnection []) ≠
        .error (.removeChannel channel) := by
  have hp : machine.Permits (init fun _ => .init false false 64) (destroyedByItsConnection []) := by
    decide +kernel
  have htimely : (machine.restrict Timely).Permits (init fun _ => .init false false 64)
      (destroyedByItsConnection []) := by
    decide +kernel
  exact ⟨hp, ((removals_are_safe_iff _ (destroyedByItsConnection []) hp).mpr htimely).1⟩

/-- The acceptor was reported as well. -/
theorem acceptor_is_removed_behind_the_loop :
    machine.Permits (init fun _ => .init false false 64)
        (destroyedByItsConnection [(.acceptor (), { pollIn := true })]) ∧
      machine.run (init fun _ => .init false false 64)
        (destroyedByItsConnection [(.acceptor (), { pollIn := true })]) =
      .error (.removeChannel (.acceptor ())) := by
  have hfault : faultOf (machine.run (init fun _ => .init false false 64)
      (destroyedByItsConnection [(.acceptor (), { pollIn := true })])) =
      some (.removeChannel (.acceptor ())) := by
    decide +kernel
  exact ⟨by decide +kernel, eq_error_of_faultOf hfault⟩

end Reactor
end Muduo
