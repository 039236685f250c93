import Mathlib.Data.List.AList
import Muduo.Foundations.Queues
import Muduo.Base.Text
import Muduo.Connection.Lifecycle

/-!
# A server

A `TcpServer` lives in its base loop and gives each connection to one of `n` other loops,
or keeps it in its own if there are none. Loop `0` is the base loop. Connections are
numbered in the order in which they were accepted. What a loop does at a time, a functor
or the callbacks of one event, is one step, and so is a call of a user; `handleClose` is
cut before its close callback, behind the other callbacks of the event, and the destructor
of the server between its rounds. The functors of all connections of a loop wait in one
queue.

The map `connections_` is kept in the order of the insertions and not of the names, on
which nothing depends. Users do not set the high-water mark.
-/

namespace Muduo

open Foundations

/-- The functors that the loops run for a server and its connections. -/
inductive ServerFunctor where
  | connectEstablished (i : ℕ)
  | removeConnectionInLoop (i : ℕ)
  | connection (i : ℕ) (f : Functor)
  deriving DecidableEq, Repr

inductive ServerEvent where
  | established (i : ℕ)
  /-- the channel of a connection handles an event -/
  | handled (i : ℕ)
  /-- the connection was taken out of `connections_` -/
  | erased (i : ℕ)
  | destroyed (i : ℕ)
  deriving DecidableEq, Repr

inductive ServerFault where
  /-- the assertion in `connectEstablished` -/
  | established (i : ℕ)
  /-- the assertion in `removeConnectionInLoop` that one entry was erased -/
  | erased (i : ℕ)
  /-- `removeConnectionInLoop` of a server that was destroyed -/
  | dangling (i : ℕ)
  /-- faults in a connection that has been established -/
  | connection (fault : Fault)
  deriving DecidableEq, Repr

/-- A connection with its name and its loop. -/
structure ServedConnection (n : ℕ) where
  name : Bytes
  loop : Fin (n + 1)
  conn : TcpConnection
  deriving DecidableEq

structure TcpServer (n : ℕ) where
  ipPort : Bytes
  name : Bytes
  writeCompleteCallback : Bool
  /-- `next_` of the thread pool -/
  next : ℕ
  nextConnId : ℤ
  /-- `connections_`, with the numbers of the connections -/
  connections : AList fun _ : Bytes => ℕ
  /-- all connections that there have been -/
  accepted : List (ServedConnection n)
  queue : Fin (n + 1) → List ServerFunctor
  /-- the connections that are about to run their close callbacks -/
  closing : List ℕ
  /-- the connections that the destructor has still to destroy, once it runs -/
  destroying : Option (List ℕ)
  history : List ServerEvent

inductive ServerStep (n : ℕ) where
  | accept (onUp : List (Call WriteAnswer))
  | runFunctor (k : Fin (n + 1)) (answer : WriteAnswer) (onCallback : List (Call WriteAnswer))
  | handleEvent (i : ℕ) (revents : PollEvents) (script : TcpConnection.Script)
  | closeCallback (i : ℕ)
  /-- calls of users, on the loop's thread and on others -/
  | call (i : ℕ) (a : Call WriteAnswer)
  | foreignCall (i : ℕ) (a : Call Unit)
  /-- `~TcpServer`, and a round of its loop -/
  | destroy
  | destroyConnection (onDown : List (Call WriteAnswer))

namespace TcpServer

variable {n : ℕ}

abbrev baseLoop (n : ℕ) : Fin (n + 1) := 0

def init (n : ℕ) (ipPort name : Bytes) (writeComplete : Bool) : TcpServer n where
  ipPort := ipPort
  name := name
  writeCompleteCallback := writeComplete
  next := 0
  nextConnId := 1
  connections := ∅
  accepted := []
  queue _ := []
  closing := []
  destroying := none
  history := []

variable (w : TcpServer n)

@[simps] def observe (e : ServerEvent) : TcpServer n := { w with history := w.history ++ [e] }

@[simps] def queueInLoop (k : Fin (n + 1)) (f : ServerFunctor) : TcpServer n :=
  { w with queue := push w.queue k [f] }

/-- A connection has changed. What it has queued goes to its loop. -/
@[simps] def store (i : ℕ) (s : ServedConnection n) (c : TcpConnection) : TcpServer n :=
  { w with
    accepted := w.accepted.set i { s with conn := { c with pendingFunctors := [] } }
    queue := push w.queue s.loop (c.pendingFunctors.map (.connection i))
    closing := if s.conn.closes < c.closes then w.closing ++ [i] else w.closing }

/-- A connection takes the step `f`, which may close it. -/
def onConnection (i : ℕ) (f : TcpConnection → Except Fault TcpConnection)
    (faultOf : Fault → ServerFault) : Except ServerFault (TcpServer n) :=
  match w.accepted[i]? with
  | none => .ok w
  | some s => do
    let c ← (f s.conn).mapError faultOf
    return w.store i s c

def connectEstablished (i : ℕ) (onUp : List (Call WriteAnswer)) :
    Except ServerFault (TcpServer n) :=
  (w.observe (.established i)).onConnection i (·.connectEstablished onUp) fun _ => .established i

def connectDestroyed (i : ℕ) (onDown : List (Call WriteAnswer)) :
    Except ServerFault (TcpServer n) :=
  (w.observe (.destroyed i)).onConnection i (·.connectDestroyed onDown) .connection

/-- `EventLoopThreadPool::getNextLoop`. The counter stays below the number of the loops,
and without loops it is not used. -/
def getNextLoop : Fin (n + 1) × TcpServer n :=
  if h : w.next < n then
    (⟨w.next + 1, Nat.succ_lt_succ h⟩,
      { w with next := if n ≤ w.next + 1 then 0 else w.next + 1 })
  else (0, w)

/-- What `newConnection` prints behind the name of the server. -/
def connSuffix (ipPort : Bytes) (id : ℤ) : Bytes :=
  ascii "-" ++ ipPort ++ ascii "#" ++ signedDecimal id

/-- A connection is entered. The number of the last one is followed by an overflow. -/
def enter (ioLoop : Fin (n + 1)) : TcpServer n :=
  let connName := w.name ++ snprintf 64 (connSuffix w.ipPort w.nextConnId)
  let conn := TcpConnection.init w.writeCompleteCallback false TcpConnection.kHighWaterMark
  { w with
    nextConnId := Int.bmod (w.nextConnId + 1) (2 ^ 32)
    accepted := w.accepted ++ [⟨connName, ioLoop, conn⟩]
    connections := w.connections.insert connName w.accepted.length }

def newConnection (onUp : List (Call WriteAnswer)) : Except ServerFault (TcpServer n) :=
  let next := w.getNextLoop
  let i := w.accepted.length
  let w := next.2.enter next.1
  if next.1 = 0 then w.connectEstablished i onUp
  else .ok (w.queueInLoop next.1 (.connectEstablished i))

def removeConnectionInLoop (i : ℕ) : Except ServerFault (TcpServer n) :=
  if w.destroying ≠ none then .error (.dangling i)
  else
    match w.accepted[i]? with
    | none => .ok w
    | some s =>
      if s.name ∈ w.connections then
        let w := { w with connections := w.connections.erase s.name }.observe (.erased i)
        .ok (w.queueInLoop s.loop (.connection i .connectDestroyed))
      else .error (.erased i)

/-- The close callback, which is `removeConnection` on the thread of the connection. -/
def closeCallback (i : ℕ) : Except ServerFault (TcpServer n) :=
  match w.accepted[i]? with
  | none => .ok w
  | some s =>
    let w := { w with closing := w.closing.erase i }
    if s.loop = 0 then w.removeConnectionInLoop i
    else .ok (w.queueInLoop 0 (.removeConnectionInLoop i))

/-- `~TcpServer` begins. What it does behind its loop, when the members are destroyed, is in
`ServerProcess`. -/
def destroy : TcpServer n := { w with destroying := some (w.connections.entries.map Sigma.snd) }

def destroyConnection (onDown : List (Call WriteAnswer)) : Except ServerFault (TcpServer n) :=
  match w.destroying with
  | none | some [] => .ok w
  | some (i :: is) =>
    let w := { w with destroying := some is }
    match w.accepted[i]? with
    | none => .ok w
    | some s =>
      if s.loop = 0 then w.connectDestroyed i onDown
      else .ok (w.queueInLoop s.loop (.connection i .connectDestroyed))

def perform (answer : WriteAnswer) (onCallback : List (Call WriteAnswer)) :
    ServerFunctor → Except ServerFault (TcpServer n)
  | .connectEstablished i => w.connectEstablished i onCallback
  | .removeConnectionInLoop i => w.removeConnectionInLoop i
  | .connection i .connectDestroyed => w.connectDestroyed i onCallback
  | .connection i f => w.onConnection i (·.runFunctor answer onCallback f) .connection

def runFunctor (k : Fin (n + 1)) (answer : WriteAnswer) (onCallback : List (Call WriteAnswer)) :
    Except ServerFault (TcpServer n) :=
  match w.queue k with
  | [] => .ok w
  | f :: fs => { w with queue := Function.update w.queue k fs }.perform answer onCallback f

def step : ServerStep n → Except ServerFault (TcpServer n)
  | .accept onUp => w.newConnection onUp
  | .runFunctor k answer onCallback => w.runFunctor k answer onCallback
  | .handleEvent i revents script =>
    (w.observe (.handled i)).onConnection i (·.handleEvent revents script) .connection
  | .closeCallback i => w.closeCallback i
  | .call i a => w.onConnection i (·.call a) .connection
  | .foreignCall i a => w.onConnection i (fun c => .ok (c.foreignCall a)) .connection
  | .destroy => .ok w.destroy
  | .destroyConnection onDown => w.destroyConnection onDown

/-- The thread of the loop is inside `handleClose` or inside the destructor. -/
def Busy (k : Fin (n + 1)) : Prop :=
  (∃ i ∈ w.closing, (w.accepted[i]?).map ServedConnection.loop = some k) ∨
    k = 0 ∧ w.destroying.getD [] ≠ []

instance (k : Fin (n + 1)) : Decidable (w.Busy k) := inferInstanceAs (Decidable (_ ∨ _))

/-- Events are those of channels in the poller, and users know a connection from its
callback. A user may destroy the server in a callback. -/
def Enabled : ServerStep n → Prop
  | .accept _ => ¬ w.Busy 0 ∧ w.destroying = none ∧ w.accepted.length + 1 < 2 ^ 31
  | .runFunctor k _ _ => ¬ w.Busy k
  | .handleEvent i _ _ => ∃ s ∈ w.accepted[i]?, ¬ w.Busy s.loop ∧ s.conn.channel.addedToLoop = true
  | .closeCallback i => i ∈ w.closing
  | .call i _ | .foreignCall i _ => .established i ∈ w.history
  | .destroy => w.destroying = none
  | .destroyConnection _ => True

instance : (a : ServerStep n) → Decidable (w.Enabled a)
  | .accept _ => inferInstanceAs (Decidable (_ ∧ _))
  | .runFunctor _ _ _ => inferInstanceAs (Decidable (¬ _))
  | .handleEvent i _ _ =>
    match h : w.accepted[i]? with
    | none => .isFalse (by simp [Enabled, h])
    | some s => decidable_of_iff (¬ w.Busy s.loop ∧ s.conn.channel.addedToLoop = true)
        (by simp [Enabled, h])
  | .closeCallback _ => inferInstanceAs (Decidable (_ ∈ _))
  | .call _ _ => inferInstanceAs (Decidable (_ ∈ _))
  | .foreignCall _ _ => inferInstanceAs (Decidable (_ ∈ _))
  | .destroy => inferInstanceAs (Decidable (_ = _))
  | .destroyConnection _ => .isTrue trivial

/-- No connection has come to its close callback twice. -/
def ClosedOnce : Prop := ∀ s ∈ w.accepted, s.conn.closes ≤ 1

instance : Decidable w.ClosedOnce := inferInstanceAs (Decidable (∀ _ ∈ _, _))

def After (P : TcpServer n → Prop) (a : ServerStep n) : Prop :=
  match w.step a with
  | .ok w' => P w'
  | .error _ => True

instance (P : TcpServer n → Prop) [DecidablePred P] (a : ServerStep n) :
    Decidable (w.After P a) :=
  match h : w.step a with
  | .ok w' => decidable_of_iff (P w') (by rw [After, h])
  | .error _ => .isTrue (by rw [After, h]; trivial)

def machine : Machine (TcpServer n) (ServerStep n) ServerFault where
  Allows w a := w.Enabled a ∧ w.After ClosedOnce a
  step := step

instance (a : ServerStep n) : Decidable (machine.Allows w a) :=
  inferInstanceAs (Decidable (_ ∧ _))

end TcpServer
end Muduo
