import Muduo.Foundations.Machine
import Muduo.Buffer.Basic
import Muduo.Connection.Channel

/-!
# One TCP connection

The member functions of `TcpConnection` as they run on the thread of its loop.
Besides the members the record carries the functors that the loop has queued
for this connection, and the history of what its socket and its callbacks have
seen. The kernel's answers, and what a user does inside a callback, are
arguments. Logging is left out.
-/

namespace Muduo

open Foundations

inductive StateE where
  | kDisconnected
  | kConnecting
  | kConnected
  | kDisconnecting
  deriving DecidableEq, Repr

/-- What `write` does: it fails, or takes a prefix of the bytes it is given. Any
count stands for at most the length asked for. -/
inductive WriteAnswer where
  | failed (errno : Errno)
  | took (n : ℕ)
  deriving DecidableEq, Repr

/-- The functors that are bound to a connection and queued in its loop. -/
inductive Functor where
  | sendInLoop (message : List UInt8)
  | shutdownInLoop
  | forceCloseInLoop
  | startReadInLoop
  | stopReadInLoop
  | connectDestroyed
  | writeCompleteCallback
  | highWaterMarkCallback (size : ℕ)
  deriving DecidableEq, Repr

/-- What is seen of a connection. A write records the bytes the kernel took, or
its error; the connection callback records what `connected()` answers in it. -/
inductive Event where
  | sendInLoop (message : List UInt8)
  | write (accepted : List UInt8) (errno : Option Errno)
  | shutdownWrite
  | connectionCallback (connected : Bool)
  | messageCallback
  | closeCallback
  deriving DecidableEq, Repr

structure TcpConnection where
  state : StateE
  reading : Bool
  channel : Channel
  inputBuffer : Buffer
  outputBuffer : Buffer
  highWaterMark : ℕ
  /-- whether the callback is set -/
  writeCompleteCallback : Bool
  highWaterMarkCallback : Bool
  pendingFunctors : List Functor
  history : List Event
  deriving DecidableEq

/-- The public calls. A call on the loop's own thread meets the kernel at once,
so `send` carries its answer there; on other threads `α` is `Unit`. -/
inductive Call (α : Type) where
  | send (message : List UInt8) (answer : α)
  | shutdown
  | forceClose
  | forceCloseWithDelay
  | startRead
  | stopRead
  deriving DecidableEq, Repr

namespace TcpConnection

def kHighWaterMark : ℕ := 64 * 1024 * 1024

/-- The constructor, with the two optional callbacks set or not. -/
def init (writeComplete highWater : Bool) (highWaterMark : ℕ) : TcpConnection where
  state := .kConnecting
  reading := true
  channel := .init
  inputBuffer := default
  outputBuffer := default
  highWaterMark := highWaterMark
  writeCompleteCallback := writeComplete
  highWaterMarkCallback := highWater
  pendingFunctors := []
  history := []

variable (c : TcpConnection)

@[simps] def observe (e : Event) : TcpConnection := { c with history := c.history ++ [e] }

@[simps] def queueInLoop (f : Functor) : TcpConnection :=
  { c with pendingFunctors := c.pendingFunctors ++ [f] }

@[simps] def setState (s : StateE) : TcpConnection := { c with state := s }

def connected : Bool := c.state = .kConnected

/-- How often the connection has come to its close callback. -/
def closes : ℕ := c.history.count .closeCallback

def noteWriteComplete : TcpConnection :=
  if c.writeCompleteCallback then c.queueInLoop .writeCompleteCallback else c

/-- The direct write of `sendInLoop`: the connection, `nwrote` and `faultError`. -/
def writeDirectly (message : List UInt8) : WriteAnswer → TcpConnection × ℕ × Bool
  | .took n =>
    let nwrote := min n message.length
    let c := c.observe (.write (message.take nwrote) none)
    let remaining := message.length - nwrote
    (if remaining = 0 then c.noteWriteComplete else c, nwrote, false)
  | .failed errno =>
    (c.observe (.write [] (some errno)), 0, errno = .EPIPE || errno = .ECONNRESET)

/-- The output is about to grow by `remaining` bytes. -/
def noteHighWaterMark (remaining : ℕ) : TcpConnection :=
  let oldLen := c.outputBuffer.readableBytes
  if oldLen + remaining ≥ c.highWaterMark ∧ oldLen < c.highWaterMark ∧ c.highWaterMarkCallback then
    c.queueInLoop (.highWaterMarkCallback (oldLen + remaining))
  else c

def ensureWriting : TcpConnection :=
  if c.channel.isWriting then c else { c with channel := c.channel.enableWriting }

/-- The end of `sendInLoop`: what the kernel did not take goes to the buffer. -/
def bufferRest (rest : List UInt8) : Except Fault TcpConnection := do
  let c := c.noteHighWaterMark rest.length
  let outputBuffer ← c.outputBuffer.append rest
  return { c with outputBuffer := outputBuffer }.ensureWriting

/-- Behind the direct write, of which `nwrote` and `faultError` are left. -/
def sendRest (message : List UInt8) (nwrote : ℕ) (faultError : Bool) :
    Except Fault TcpConnection := do
  let remaining := message.length - nwrote
  assertThat (remaining ≤ message.length)
  if !faultError ∧ 0 < remaining then c.bufferRest (message.drop nwrote) else return c

def sendInLoop (message : List UInt8) (answer : WriteAnswer) : Except Fault TcpConnection :=
  let c := c.observe (.sendInLoop message)
  if c.state = .kDisconnected then .ok c
  -- if no thing in output queue, try writing directly
  else if !c.channel.isWriting ∧ c.outputBuffer.readableBytes = 0 then
    let direct := c.writeDirectly message answer
    direct.1.sendRest message direct.2.1 direct.2.2
  else c.sendRest message 0 false

def shutdownInLoop : TcpConnection :=
  if c.channel.isWriting then c else c.observe .shutdownWrite

/-- The part of `handleWrite` behind a write that took `n > 0` bytes. -/
def retrieveWritten (n : ℕ) : Except Fault TcpConnection := do
  let outputBuffer ← c.outputBuffer.retrieve n
  let c := { c with outputBuffer := outputBuffer }
  if outputBuffer.readableBytes = 0 then
    let c := { c with channel := c.channel.disableWriting }.noteWriteComplete
    return if c.state = .kDisconnecting then c.shutdownInLoop else c
  else return c

def handleWrite (answer : WriteAnswer) : Except Fault TcpConnection :=
  if c.channel.isWriting then
    match answer with
    | .took k =>
      let n := min k c.outputBuffer.readableBytes
      let c := c.observe (.write (c.outputBuffer.contents.take n) none)
      if 0 < n then c.retrieveWritten n else .ok c
    | .failed errno => .ok (c.observe (.write [] (some errno)))
  else .ok c

def startReadInLoop : TcpConnection :=
  if !c.reading ∨ !c.channel.isReading then
    { c with channel := c.channel.enableReading, reading := true }
  else c

def stopReadInLoop : TcpConnection :=
  if c.reading ∨ c.channel.isReading then
    { c with channel := c.channel.disableReading, reading := false }
  else c

def forceClose : TcpConnection :=
  if c.state = .kConnected ∨ c.state = .kDisconnecting then
    (c.setState .kDisconnecting).queueInLoop .forceCloseInLoop
  else c

/-- The timer calls `forceClose` later, through a weak pointer. -/
def forceCloseWithDelay : TcpConnection :=
  if c.state = .kConnected ∨ c.state = .kDisconnecting then c.setState .kDisconnecting else c

/-- A call on the thread of the loop, where `runInLoop` runs its functor. -/
def call : Call WriteAnswer → Except Fault TcpConnection
  | .send message answer =>
    if c.state = .kConnected then c.sendInLoop message answer else .ok c
  | .shutdown =>
    if c.state = .kConnected then .ok (c.setState .kDisconnecting).shutdownInLoop else .ok c
  | .forceClose => .ok c.forceClose
  | .forceCloseWithDelay => .ok c.forceCloseWithDelay
  | .startRead => .ok c.startReadInLoop
  | .stopRead => .ok c.stopReadInLoop

/-- A call on another thread, where `runInLoop` queues its functor. -/
def foreignCall : Call Unit → TcpConnection
  | .send message _ =>
    if c.state = .kConnected then c.queueInLoop (.sendInLoop message) else c
  | .shutdown =>
    if c.state = .kConnected then
      (c.setState .kDisconnecting).queueInLoop .shutdownInLoop
    else c
  | .forceClose => c.forceClose
  | .forceCloseWithDelay => c.forceCloseWithDelay
  | .startRead => c.queueInLoop .startReadInLoop
  | .stopRead => c.queueInLoop .stopReadInLoop

/-- What a user callback does: any calls, one after the other. -/
def calls : TcpConnection → List (Call WriteAnswer) → Except Fault TcpConnection
  | c, [] => .ok c
  | c, a :: as => do
    let c ← c.call a
    calls c as

def connectEstablished (onUp : List (Call WriteAnswer)) : Except Fault TcpConnection := do
  assertThat (c.state = .kConnecting)
  let c := c.setState .kConnected
  let c := { c with channel := c.channel.enableReading }
  let c := c.observe (.connectionCallback c.connected)
  c.calls onUp

/-- A connection right behind `connectEstablished`. -/
def established (writeComplete highWater : Bool) (highWaterMark : ℕ) : TcpConnection :=
  { init writeComplete highWater highWaterMark with
    state := .kConnected
    channel := Channel.init.enableReading
    history := [.connectionCallback true] }

theorem connectEstablished_init (writeComplete highWater : Bool) (highWaterMark : ℕ) :
    (init writeComplete highWater highWaterMark).connectEstablished [] =
      .ok (established writeComplete highWater highWaterMark) := rfl

/-- `channel_->remove()`. -/
def removeChannel : Except Fault TcpConnection := do
  assertThat c.channel.isNoneEvent
  return { c with channel := { c.channel with addedToLoop := false } }

def connectDestroyed (onDown : List (Call WriteAnswer)) : Except Fault TcpConnection := do
  let c ←
    if c.state = .kConnected then
      let c := c.setState .kDisconnected
      let c := { c with channel := c.channel.disableAll }
      let c := c.observe (.connectionCallback c.connected)
      c.calls onDown
    else .ok c
  c.removeChannel

def handleClose (onDown : List (Call WriteAnswer)) : Except Fault TcpConnection := do
  assertThat (c.state = .kConnected ∨ c.state = .kDisconnecting)
  let c := c.setState .kDisconnected
  let c := { c with channel := c.channel.disableAll }
  let c := c.observe (.connectionCallback c.connected)
  let c ← c.calls onDown
  return c.observe .closeCallback

def forceCloseInLoop (onDown : List (Call WriteAnswer)) : Except Fault TcpConnection :=
  if c.state = .kConnected ∨ c.state = .kDisconnecting then c.handleClose onDown else .ok c

/-- The environment while one event is handled: the kernel's answers, the calls
made by the callbacks, and the input buffer as the message callback leaves it. -/
structure Script where
  read : ReadAnswer
  write : WriteAnswer
  onMessage : List (Call WriteAnswer)
  input : Buffer
  onDown : List (Call WriteAnswer)

def handleRead (script : Script) : Except Fault TcpConnection := do
  let (n, _, inputBuffer) ← c.inputBuffer.readFd script.read
  let c := { c with inputBuffer := inputBuffer }
  if 0 < n then
    let c := c.observe .messageCallback
    let c ← c.calls script.onMessage
    return { c with inputBuffer := script.input }
  else if n = 0 then c.handleClose script.onDown
  else return c

/-- The members that the constructor registers with the channel. `handleError`
only logs the pending socket error. -/
def runCallback (script : Script) : ChannelCallback → Except Fault TcpConnection
  | .close => c.handleClose script.onDown
  | .error => .ok c
  | .read => c.handleRead script
  | .write => c.handleWrite script.write

def runCallbacks (script : Script) :
    TcpConnection → List ChannelCallback → Except Fault TcpConnection
  | c, [] => .ok c
  | c, k :: ks => do
    let c ← c.runCallback script k
    runCallbacks script c ks

def handleEvent (revents : PollEvents) (script : Script) : Except Fault TcpConnection :=
  runCallbacks script c (Channel.handleEventWithGuard revents)

/-- Run a functor taken from the queue. The two notifications are user callbacks. -/
def runFunctor (answer : WriteAnswer) (onCallback : List (Call WriteAnswer)) :
    Functor → Except Fault TcpConnection
  | .sendInLoop message => c.sendInLoop message answer
  | .shutdownInLoop => .ok c.shutdownInLoop
  | .forceCloseInLoop => c.forceCloseInLoop onCallback
  | .startReadInLoop => .ok c.startReadInLoop
  | .stopReadInLoop => .ok c.stopReadInLoop
  | .connectDestroyed => c.connectDestroyed onCallback
  | .writeCompleteCallback => c.calls onCallback
  | .highWaterMarkCallback _ => c.calls onCallback

end TcpConnection
end Muduo
