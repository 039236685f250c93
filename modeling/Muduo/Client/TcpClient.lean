import Muduo.Client.Attempts

/-!
# A client

A `TcpClient` owns a connector and holds the connection that the connector handed out
last. Both the client and the connector have a flag `connect_`: the connector asks its
own before an attempt, the client asks its own before it restarts the connector.

Connections are numbered in the order of `newConnection`; their names are left out.
Functors of the connector and of each connection run in the order in which they were
queued, and anything may happen in between. The calls that a user makes on the client in
a callback are steps of their own. So `handleClose` is cut in two: behind its connection
callback the connection is closing until its close callback runs.
-/

namespace Muduo

open Foundations

/-- The public calls. On the loop's own thread `connect` meets the kernel at once and
carries its answer; on other threads `α` is `Unit`. -/
inductive ClientCall (α : Type) where
  | connect (answer : α)
  | disconnect
  | stop
  | enableRetry
  deriving DecidableEq, Repr

structure TcpClient where
  retry : Bool
  /-- `connect_` -/
  wanted : Bool
  connector : Connector
  /-- all connections that there have been -/
  connections : List TcpConnection
  /-- the number of `connection_` -/
  connection : Option ℕ
  /-- the connection that is about to run its close callback -/
  closing : Option ℕ
  writeCompleteCallback : Bool

namespace TcpClient

/-- The constructor, and whether the user has set the callback. -/
def init (writeComplete : Bool) : TcpClient where
  retry := false
  wanted := true
  connector := .init
  connections := []
  connection := none
  closing := none
  writeCompleteCallback := writeComplete

variable (c : TcpClient)

def onConnection (i : ℕ) (f : TcpConnection → Except Fault TcpConnection) :
    Except Fault TcpClient :=
  match c.connections[i]? with
  | none => .ok c
  | some conn => do
    let conn ← f conn
    return { c with connections := c.connections.set i conn }

def connect (savedErrno : Option ConnectErrno) : Except Fault TcpClient := do
  let connector ← c.connector.start savedErrno
  return { c with wanted := true, connector := connector }

def foreignConnect : TcpClient :=
  { c with wanted := true, connector := c.connector.foreignStart }

def disconnect (shutdown : TcpConnection → Except Fault TcpConnection) : Except Fault TcpClient :=
  let c := { c with wanted := false }
  match c.connection with
  | none => .ok c
  | some i => c.onConnection i shutdown

def stop : TcpClient := { c with wanted := false, connector := c.connector.stop }

def enableRetry : TcpClient := { c with retry := true }

def call : ClientCall (Option ConnectErrno) → Except Fault TcpClient
  | .connect savedErrno => c.connect savedErrno
  | .disconnect => c.disconnect (·.call .shutdown)
  | .stop => .ok c.stop
  | .enableRetry => .ok c.enableRetry

def foreignCall : ClientCall Unit → Except Fault TcpClient
  | .connect _ => .ok c.foreignConnect
  | .disconnect => c.disconnect fun conn => .ok (conn.foreignCall .shutdown)
  | .stop => .ok c.stop
  | .enableRetry => .ok c.enableRetry

/-- `newConnection`; `onUp` are the calls of the user in the connection callback. -/
def newConnection (onUp : List (Call WriteAnswer)) : Except Fault TcpClient := do
  let conn := TcpConnection.init c.writeCompleteCallback false TcpConnection.kHighWaterMark
  let conn ← conn.connectEstablished onUp
  return { c with connections := c.connections ++ [conn], connection := some c.connections.length }

def removeConnection (i : ℕ) (savedErrno : Option ConnectErrno) : Except Fault TcpClient := do
  assertThat (c.connection = some i)
  let c := { c with connection := none }
  let c ← c.onConnection i fun conn => .ok (conn.queueInLoop .connectDestroyed)
  if c.retry ∧ c.wanted then
    let connector ← c.connector.restart savedErrno
    return { c with connector := connector }
  else return c

/-- The channel of the connector has events. What the connector hands out goes to
`newConnection`. -/
def connectorEvent (revents : PollEvents) (err isSelfConnect : Bool)
    (onUp : List (Call WriteAnswer)) : Except Fault TcpClient := do
  let connector ← c.connector.handleEvent revents err isSelfConnect
  let handed := decide (c.connector.handed.length < connector.handed.length)
  let c := { c with connector := connector }
  if handed then c.newConnection onUp else return c

def connectorFunctor (savedErrno : Option ConnectErrno) : Except Fault TcpClient :=
  match c.connector.pendingFunctors with
  | [] => .ok c
  | f :: fs => do
    let connector ← { c.connector with pendingFunctors := fs }.runFunctor savedErrno f
    return { c with connector := connector }

def expire (i : ℕ) (savedErrno : Option ConnectErrno) : Except Fault TcpClient := do
  let connector ← c.connector.expire i savedErrno
  return { c with connector := connector }

/-- A connection takes the step `f`, which may close it. -/
def connectionStep (i : ℕ) (f : TcpConnection → Except Fault TcpConnection) :
    Except Fault TcpClient :=
  match c.connections[i]? with
  | none => .ok c
  | some conn => do
    let conn' ← f conn
    return { c with
      connections := c.connections.set i conn'
      closing := if conn.closes < conn'.closes then some i else c.closing }

/-- The close callback is `removeConnection`. -/
def closeCallback (savedErrno : Option ConnectErrno) : Except Fault TcpClient :=
  match c.closing with
  | none => .ok c
  | some i => { c with closing := none }.removeConnection i savedErrno

def popFunctor (answer : WriteAnswer) (onCallback : List (Call WriteAnswer))
    (conn : TcpConnection) : Except Fault TcpConnection :=
  match conn.pendingFunctors with
  | [] => .ok conn
  | f :: fs => { conn with pendingFunctors := fs }.runFunctor answer onCallback f

end TcpClient

/-- The environment of a client: its user on any thread, the poller, the queue of the loop
and the timers of the connector. -/
inductive ClientStep where
  | call (a : ClientCall (Option ConnectErrno))
  | foreignCall (a : ClientCall Unit)
  | connectorEvent (revents : PollEvents) (err isSelfConnect : Bool)
      (onUp : List (Call WriteAnswer))
  | connectorFunctor (savedErrno : Option ConnectErrno)
  | expire (i : ℕ) (savedErrno : Option ConnectErrno)
  | connectionCall (i : ℕ) (a : Call WriteAnswer)
  | connectionForeignCall (i : ℕ) (a : Call Unit)
  | connectionEvent (i : ℕ) (revents : PollEvents) (script : TcpConnection.Script)
  | connectionFunctor (i : ℕ) (answer : WriteAnswer) (onCallback : List (Call WriteAnswer))
  | closeCallback (savedErrno : Option ConnectErrno)

namespace ClientStep

/-- A call of `connect`, on any thread. -/
def connects : ClientStep → Bool
  | call (.connect _) => true
  | foreignCall (.connect _) => true
  | _ => false

/-- The same step, but `connect(2)` would answer `savedErrno`, and the user would do
`onUp` in the callback of a new connection. -/
def answered (savedErrno : Option ConnectErrno) (onUp : List (Call WriteAnswer)) :
    ClientStep → ClientStep
  | call (.connect _) => call (.connect savedErrno)
  | connectorEvent revents err isSelfConnect _ => connectorEvent revents err isSelfConnect onUp
  | connectorFunctor _ => connectorFunctor savedErrno
  | expire i _ => expire i savedErrno
  | closeCallback _ => closeCallback savedErrno
  | a => a

end ClientStep

namespace TcpClient

def step (c : TcpClient) : ClientStep → Except Fault TcpClient
  | .call a => c.call a
  | .foreignCall a => c.foreignCall a
  | .connectorEvent revents err isSelfConnect onUp =>
    c.connectorEvent revents err isSelfConnect onUp
  | .connectorFunctor savedErrno => c.connectorFunctor savedErrno
  | .expire i savedErrno => c.expire i savedErrno
  | .connectionCall i a => c.onConnection i (·.call a)
  | .connectionForeignCall i a => c.onConnection i fun conn => .ok (conn.foreignCall a)
  | .connectionEvent i revents script => c.connectionStep i (·.handleEvent revents script)
  | .connectionFunctor i answer onCallback => c.connectionStep i (popFunctor answer onCallback)
  | .closeCallback savedErrno => c.closeCallback savedErrno

def machine : Machine TcpClient ClientStep Fault where
  Allows _ _ := True
  step := step

end TcpClient

namespace Connector

variable {c c' : Connector}

/-- From `c` to `c'` nothing was begun and nothing handed out, and nobody asks for it. -/
structure Rests (c c' : Connector) : Prop where
  wanted : c'.wanted = false
  created : c'.created = c.created
  handed : c'.handed = c.handed

theorem Rests.trans {c₁ c₂ c₃ : Connector} (h₁ : Rests c₁ c₂) (h₂ : Rests c₂ c₃) : Rests c₁ c₃ :=
  ⟨h₂.wanted, h₂.created.trans h₁.created, h₂.handed.trans h₁.handed⟩

theorem startInLoop_eq_of_stopped (h : c.wanted = false) (savedErrno : Option ConnectErrno) :
    c.startInLoop savedErrno = (do assertThat (c.state = .kDisconnected); return c) := by
  rw [startInLoop, if_neg (by simp [h])]

theorem startInLoop_rests {savedErrno : Option ConnectErrno} (h : c.wanted = false)
    (hc' : c.startInLoop savedErrno = .ok c') : Rests c c' := by
  rw [startInLoop_eq_of_stopped h] at hc'
  obtain ⟨-, -, hreturn⟩ := bind_eq_ok.mp hc'
  cases hreturn
  exact ⟨h, rfl, rfl⟩

theorem retry_rests (sockfd : ℕ) (h : c.wanted = false) : Rests c (c.retry sockfd) := by
  have hstopped : ¬ ((c.close sockfd).setState .kDisconnected).wanted = true := by simp [h]
  unfold retry
  dsimp only
  rw [if_neg hstopped]
  exact ⟨h, rfl, rfl⟩

theorem removeAndResetChannel_rests {sockfd : ℕ} (h : c.wanted = false)
    (hc' : c.removeAndResetChannel = .ok (sockfd, c')) : Rests c c' := by
  unfold removeAndResetChannel at hc'
  split at hc'
  · cases hc'
    exact ⟨h, rfl, rfl⟩
  · cases hc'

theorem stopInLoop_rests (h : c.wanted = false) (hc' : c.stopInLoop = .ok c') : Rests c c' := by
  unfold stopInLoop at hc'
  split_ifs at hc'
  · obtain ⟨⟨sockfd, c₁⟩, hremove, hreturn⟩ := bind_eq_ok.mp hc'
    cases hreturn
    have h₁ := removeAndResetChannel_rests (c := c.setState .kDisconnected) h hremove
    have hset : Rests c (c.setState .kDisconnected) := ⟨h, rfl, rfl⟩
    exact (hset.trans h₁).trans (retry_rests sockfd h₁.wanted)
  · cases hc'
    exact ⟨h, rfl, rfl⟩

theorem resetChannel_rests (h : c.wanted = false) (hc' : c.resetChannel = .ok c') :
    Rests c c' := by
  unfold resetChannel at hc'
  dsimp only at hc'
  split at hc'
  · obtain ⟨-, -, hreturn⟩ := bind_eq_ok.mp hc'
    cases hreturn
    exact ⟨h, rfl, rfl⟩
  · cases hc'
    exact ⟨h, rfl, rfl⟩

theorem handleError_rests (h : c.wanted = false) (hc' : c.handleError = .ok c') : Rests c c' := by
  unfold handleError at hc'
  split_ifs at hc'
  · obtain ⟨⟨sockfd, c₁⟩, hremove, hreturn⟩ := bind_eq_ok.mp hc'
    cases hreturn
    have h₁ := removeAndResetChannel_rests h hremove
    exact h₁.trans (retry_rests sockfd h₁.wanted)
  · cases hc'
    exact ⟨h, rfl, rfl⟩

theorem handleWrite_rests {err isSelfConnect : Bool} (h : c.wanted = false)
    (hc' : c.handleWrite err isSelfConnect = .ok c') : Rests c c' := by
  unfold handleWrite at hc'
  by_cases hs : c.state = .kConnecting
  · rw [if_pos hs] at hc'
    obtain ⟨⟨sockfd, c₁⟩, hremove, hrest⟩ := bind_eq_ok.mp hc'
    have h₁ := removeAndResetChannel_rests h hremove
    refine h₁.trans ?_
    have hstopped : ¬ (c₁.setState .kConnected).wanted = true := by simp [h₁.wanted]
    dsimp only at hrest
    rw [if_neg hstopped] at hrest
    split_ifs at hrest
    · cases hrest
      exact retry_rests sockfd h₁.wanted
    · cases hrest
      exact retry_rests sockfd h₁.wanted
    · cases hrest
      exact ⟨h₁.wanted, rfl, rfl⟩
  · rw [if_neg hs] at hc'
    obtain ⟨-, -, hreturn⟩ := bind_eq_ok.mp hc'
    cases hreturn
    exact ⟨h, rfl, rfl⟩

theorem runCallbacks_rests {err isSelfConnect : Bool} {ks : List ChannelCallback}
    (h : c.wanted = false) (hc' : runCallbacks err isSelfConnect c ks = .ok c') : Rests c c' := by
  induction ks generalizing c with
  | nil =>
    cases hc'
    exact ⟨h, rfl, rfl⟩
  | cons k ks ih =>
    obtain ⟨c₁, hfirst, hrest⟩ := bind_eq_ok.mp hc'
    have h₁ : Rests c c₁ := by
      cases k with
      | write => exact handleWrite_rests h hfirst
      | error => exact handleError_rests h hfirst
      | close | read =>
        cases hfirst
        exact ⟨h, rfl, rfl⟩
    exact h₁.trans (ih h₁.wanted hrest)

theorem runFunctor_rests {savedErrno : Option ConnectErrno} {f : ConnectorFunctor}
    (h : c.wanted = false) (hc' : c.runFunctor savedErrno f = .ok c') : Rests c c' := by
  cases f with
  | startInLoop => exact startInLoop_rests h hc'
  | stopInLoop => exact stopInLoop_rests h hc'
  | resetChannel => exact resetChannel_rests h hc'

theorem expire_rests {i : ℕ} {savedErrno : Option ConnectErrno} (h : c.wanted = false)
    (hc' : c.expire i savedErrno = .ok c') : Rests c c' := by
  obtain ⟨hw, hn, hh⟩ := startInLoop_rests (c := { c with timers := c.timers.eraseIdx i }) h hc'
  exact ⟨hw, hn, hh⟩

end Connector

namespace TcpClient

variable {c c' : TcpClient}

/-- From `c` to `c'` no socket was created and no connection made, and neither the client
nor its connector asks for one. -/
structure Rests (c c' : TcpClient) : Prop where
  wanted : c'.wanted = false
  connector : c.connector.Rests c'.connector
  connections : c'.connections.length = c.connections.length

def Stopped (c : TcpClient) : Prop := c.wanted = false ∧ c.connector.wanted = false

theorem Stopped.refl (h : c.Stopped) : Rests c c := ⟨h.1, ⟨h.2, rfl, rfl⟩, rfl⟩

theorem Rests.trans {c₁ c₂ c₃ : TcpClient} (h₁ : Rests c₁ c₂) (h₂ : Rests c₂ c₃) : Rests c₁ c₃ :=
  ⟨h₂.wanted, h₁.connector.trans h₂.connector, h₂.connections.trans h₁.connections⟩

theorem Rests.stopped (h : Rests c c') : c'.Stopped := ⟨h.wanted, h.connector.wanted⟩

theorem stop_rests : Rests c c.stop := ⟨rfl, ⟨rfl, rfl, rfl⟩, rfl⟩

theorem onConnection_rests {i : ℕ} {f : TcpConnection → Except Fault TcpConnection}
    (h : c.Stopped) (hc' : c.onConnection i f = .ok c') : Rests c c' := by
  unfold onConnection at hc'
  split at hc'
  · cases hc'
    exact h.refl
  · obtain ⟨conn, -, hreturn⟩ := bind_eq_ok.mp hc'
    cases hreturn
    exact ⟨h.1, ⟨h.2, rfl, rfl⟩, List.length_set⟩

theorem disconnect_rests {shutdown : TcpConnection → Except Fault TcpConnection}
    (h : c.Stopped) (hc' : c.disconnect shutdown = .ok c') : Rests c c' := by
  unfold disconnect at hc'
  dsimp only at hc'
  have hfirst : Rests c { c with wanted := false } := ⟨rfl, ⟨h.2, rfl, rfl⟩, rfl⟩
  split at hc'
  · cases hc'
    exact hfirst
  · exact hfirst.trans (onConnection_rests hfirst.stopped hc')

theorem connectionStep_rests {i : ℕ} {f : TcpConnection → Except Fault TcpConnection}
    (h : c.Stopped) (hc' : c.connectionStep i f = .ok c') : Rests c c' := by
  unfold connectionStep at hc'
  split at hc'
  · cases hc'
    exact h.refl
  · obtain ⟨conn, -, hreturn⟩ := bind_eq_ok.mp hc'
    cases hreturn
    exact ⟨h.1, ⟨h.2, rfl, rfl⟩, List.length_set⟩

theorem removeConnection_eq_of_stopped {i : ℕ} (h : c.Stopped)
    (savedErrno : Option ConnectErrno) :
    c.removeConnection i savedErrno = (do
      assertThat (c.connection = some i)
      { c with connection := none }.onConnection i fun conn =>
        .ok (conn.queueInLoop .connectDestroyed)) := by
  unfold removeConnection
  congr 1
  funext _
  dsimp only
  cases hconn : onConnection { c with connection := none } i
      fun conn => .ok (conn.queueInLoop .connectDestroyed) with
  | error e => rfl
  | ok c₁ =>
    have h₁ := onConnection_rests (c := { c with connection := none }) h hconn
    have hnot : ¬ (c₁.retry = true ∧ c₁.wanted = true) := by simp [h₁.wanted]
    rw [ok_bind, if_neg hnot]
    rfl

theorem closeCallback_rests {savedErrno : Option ConnectErrno} (h : c.Stopped)
    (hc' : c.closeCallback savedErrno = .ok c') : Rests c c' := by
  unfold closeCallback at hc'
  split at hc'
  · cases hc'
    exact h.refl
  · next i _ =>
    have hopen : Stopped { c with closing := none } := h
    rw [removeConnection_eq_of_stopped hopen] at hc'
    obtain ⟨-, -, hconn⟩ := bind_eq_ok.mp hc'
    have hrests := onConnection_rests (c := { c with closing := none, connection := none }) h hconn
    exact ⟨hrests.wanted, hrests.connector, hrests.connections⟩

theorem connectorEvent_eq_of_stopped {revents : PollEvents} {err isSelfConnect : Bool}
    (h : c.Stopped) (onUp : List (Call WriteAnswer)) :
    c.connectorEvent revents err isSelfConnect onUp = (do
      let connector ← c.connector.handleEvent revents err isSelfConnect
      return { c with connector := connector }) := by
  unfold connectorEvent
  cases hevent : c.connector.handleEvent revents err isSelfConnect with
  | error e => rfl
  | ok connector =>
    have hrests : c.connector.Rests connector := Connector.runCallbacks_rests h.2 hevent
    simp [hrests.handed]

theorem connectorEvent_rests {revents : PollEvents} {err isSelfConnect : Bool}
    {onUp : List (Call WriteAnswer)} (h : c.Stopped)
    (hc' : c.connectorEvent revents err isSelfConnect onUp = .ok c') : Rests c c' := by
  rw [connectorEvent_eq_of_stopped h] at hc'
  obtain ⟨connector, hevent, hreturn⟩ := bind_eq_ok.mp hc'
  cases hreturn
  exact ⟨h.1, Connector.runCallbacks_rests h.2 hevent, rfl⟩

theorem connectorFunctor_rests {savedErrno : Option ConnectErrno} (h : c.Stopped)
    (hc' : c.connectorFunctor savedErrno = .ok c') : Rests c c' := by
  unfold connectorFunctor at hc'
  split at hc'
  · cases hc'
    exact h.refl
  · next f fs _ =>
    obtain ⟨connector, hrun, hreturn⟩ := bind_eq_ok.mp hc'
    cases hreturn
    have hrests := Connector.runFunctor_rests
      (c := { c.connector with pendingFunctors := fs }) h.2 hrun
    exact ⟨h.1, ⟨hrests.wanted, hrests.created, hrests.handed⟩, rfl⟩

theorem call_rests {a : ClientCall (Option ConnectErrno)} (h : c.Stopped)
    (ha : (ClientStep.call a).connects = false) (hc' : c.call a = .ok c') : Rests c c' := by
  cases a with
  | connect savedErrno => cases ha
  | disconnect => exact disconnect_rests h hc'
  | stop =>
    cases hc'
    exact stop_rests
  | enableRetry =>
    cases hc'
    exact ⟨h.1, ⟨h.2, rfl, rfl⟩, rfl⟩

theorem foreignCall_rests {a : ClientCall Unit} (h : c.Stopped)
    (ha : (ClientStep.foreignCall a).connects = false) (hc' : c.foreignCall a = .ok c') :
    Rests c c' := by
  cases a with
  | connect savedErrno => cases ha
  | disconnect => exact disconnect_rests h hc'
  | stop =>
    cases hc'
    exact stop_rests
  | enableRetry =>
    cases hc'
    exact ⟨h.1, ⟨h.2, rfl, rfl⟩, rfl⟩

theorem step_rests {a : ClientStep} (h : c.Stopped) (ha : a.connects = false)
    (hc' : c.step a = .ok c') : Rests c c' := by
  cases a with
  | call a => exact call_rests h ha hc'
  | foreignCall a => exact foreignCall_rests h ha hc'
  | connectorEvent revents err isSelfConnect onUp => exact connectorEvent_rests h hc'
  | connectorFunctor savedErrno => exact connectorFunctor_rests h hc'
  | expire i savedErrno =>
    obtain ⟨connector, hexpire, hreturn⟩ := bind_eq_ok.mp hc'
    cases hreturn
    exact ⟨h.1, Connector.expire_rests h.2 hexpire, rfl⟩
  | connectionCall i a => exact onConnection_rests h hc'
  | connectionForeignCall i a => exact onConnection_rests h hc'
  | connectionEvent i revents script => exact connectionStep_rests h hc'
  | connectionFunctor i answer onCallback => exact connectionStep_rests h hc'
  | closeCallback savedErrno => exact closeCallback_rests h hc'

/-- A stopped client does not ask the kernel for a connection: no step, not even one that
fails, depends on what the answer would be. -/
theorem step_answered {a : ClientStep} (h : c.Stopped) (ha : a.connects = false)
    (savedErrno : Option ConnectErrno) (onUp : List (Call WriteAnswer)) :
    c.step (a.answered savedErrno onUp) = c.step a := by
  cases a with
  | call a =>
    cases a with
    | connect _ => cases ha
    | _ => rfl
  | connectorEvent revents err isSelfConnect _ =>
    simp only [ClientStep.answered, step, connectorEvent_eq_of_stopped h]
  | connectorFunctor _ =>
    simp only [ClientStep.answered, step, connectorFunctor]
    split
    · rfl
    · next f fs _ =>
      have hstopped : { c.connector with pendingFunctors := fs }.wanted = false := h.2
      cases f with
      | startInLoop =>
        simp only [Connector.runFunctor, Connector.startInLoop_eq_of_stopped hstopped]
      | _ => rfl
  | expire i _ =>
    have hstopped : { c.connector with timers := c.connector.timers.eraseIdx i }.wanted = false :=
      h.2
    simp only [ClientStep.answered, step, expire, Connector.expire,
      Connector.startInLoop_eq_of_stopped hstopped]
  | closeCallback _ =>
    have hopen : Stopped { c with closing := none } := h
    simp only [ClientStep.answered, step, closeCallback, removeConnection_eq_of_stopped hopen]
  | _ => rfl

theorem run_rests {steps : List ClientStep} (h : c.Stopped)
    (hquiet : ∀ a ∈ steps, a.connects = false) (hc' : machine.run c steps = .ok c') :
    Rests c c' := by
  have hstep : ∀ d a d', ClientStep.connects a = false → Rests c d → machine.Allows d a →
      machine.step d a = .ok d' → Rests c d' :=
    fun d a d' ha hd _ hd' => hd.trans (step_rests hd.stopped ha hd')
  exact machine.run_keeps_of_forall hstep h.refl hquiet
    (machine.permits_of_allows (fun _ _ => trivial) c steps) hc'

theorem run_answered {steps : List ClientStep} (h : c.Stopped)
    (hquiet : ∀ a ∈ steps, a.connects = false) (savedErrno : Option ConnectErrno)
    (onUp : List (Call WriteAnswer)) :
    machine.run c (steps.map (ClientStep.answered savedErrno onUp)) = machine.run c steps := by
  induction steps generalizing c with
  | nil => rfl
  | cons a steps ih =>
    rw [List.forall_mem_cons] at hquiet
    have hsame : machine.step c (a.answered savedErrno onUp) = machine.step c a :=
      step_answered h hquiet.1 savedErrno onUp
    rw [List.map_cons]
    cases hstep : machine.step c a with
    | error e => simp [Machine.run, hsame, hstep]
    | ok c₁ =>
      have hrests : Rests c c₁ := step_rests h hquiet.1 hstep
      rw [machine.run_cons_ok _ (hsame.trans hstep), machine.run_cons_ok _ hstep]
      exact ih hrests.stopped hquiet.2

/-- Behind `stop`, whatever was going on, no further socket is created and `newConnection`
is not run until somebody calls `connect`. Not even a step that fails depends on what the
kernel would answer to an attempt or the user do with a new connection. -/
theorem stop_is_final (c : TcpClient) (steps : List ClientStep)
    (hquiet : ∀ a ∈ steps, a.connects = false) :
    (∀ c', machine.run c (.call .stop :: steps) = .ok c' →
      c'.connector.created = c.connector.created ∧
        c'.connections.length = c.connections.length) ∧
    (∀ savedErrno onUp,
      machine.run c (.call .stop :: steps.map (ClientStep.answered savedErrno onUp)) =
        machine.run c (.call .stop :: steps)) := by
  have hstop : machine.step c (.call .stop) = .ok c.stop := rfl
  have hstopped : c.stop.Stopped := stop_rests.stopped
  refine ⟨fun c' hc' => ?_, fun savedErrno onUp => ?_⟩
  · rw [machine.run_cons_ok steps hstop] at hc'
    have hrests := stop_rests.trans (run_rests hstopped hquiet hc')
    exact ⟨hrests.connector.created, hrests.connections⟩
  · rw [machine.run_cons_ok _ hstop, machine.run_cons_ok _ hstop]
    exact run_answered hstopped hquiet savedErrno onUp

/-- A client that reconnects has had a refused attempt, whose timer has expired, and a
connection, which is about to be removed. -/
def reconnecting : List ClientStep :=
  [.call .enableRetry, .foreignCall (.connect ()), .connectorFunctor (some .ECONNREFUSED),
    .expire 0 (some .EINPROGRESS), .connectorEvent { pollOut := true } false false [],
    .connectionCall 0 .forceClose, .connectionFunctor 0 (.took 0) []]

/-- Without the `stop` a third socket would be created here. -/
theorem stop_is_final_reconnecting :
    ∃ c, machine.run (init false) reconnecting = .ok c ∧
      (c.connector.created, c.closing) = (2, some 0) ∧
      ∀ c', machine.run c [.call .stop, .closeCallback none, .connectorFunctor none] = .ok c' →
        c'.connector.created = c.connector.created ∧
          c'.connections.length = c.connections.length := by
  have hend : (machine.run (init false) reconnecting).toOption.map
      (fun c => (c.connector.created, c.closing)) = some (2, some 0) := by decide +kernel
  obtain ⟨c, hc, hcreated⟩ := exists_ok_of_map hend
  have hquiet : ∀ a ∈ [ClientStep.closeCallback none, .connectorFunctor none],
      a.connects = false := by simp [ClientStep.connects]
  exact ⟨c, hc, hcreated, (stop_is_final c _ hquiet).1⟩

end TcpClient
end Muduo
