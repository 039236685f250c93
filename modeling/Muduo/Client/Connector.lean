import Muduo.Foundations.Machine
import Muduo.Connection.Channel

/-!
# Connecting

A `Connector` makes one attempt after the other. Each attempt has a socket, and a
channel once `connect` has not failed at once; the channel is taken from the poller
in a handler but destroyed later, by a functor. Retries are timers, which nobody
cancels. Sockets are numbered in the order of their creation, and the record keeps
what became of them. The answers of the kernel are arguments, and logging is left out.
-/

namespace Muduo

open Foundations

inductive ConnectorState where
  | kDisconnected
  | kConnecting
  | kConnected
  deriving DecidableEq, Repr

/-- The error numbers that `Connector::connect` tells apart. -/
inductive ConnectErrno where
  | EINPROGRESS
  | EINTR
  | EISCONN
  | EAGAIN
  | EADDRINUSE
  | EADDRNOTAVAIL
  | ECONNREFUSED
  | ENETUNREACH
  | EACCES
  | EPERM
  | EAFNOSUPPORT
  | EALREADY
  | EBADF
  | EFAULT
  | ENOTSOCK
  | other (code : ℕ)
  deriving DecidableEq, Repr

/-- The functors that are bound to a connector and queued in its loop. -/
inductive ConnectorFunctor where
  | startInLoop
  | stopInLoop
  | resetChannel
  deriving DecidableEq, Repr

/-- A channel with its descriptor. -/
structure ConnectorChannel where
  fd : ℕ
  channel : Channel
  deriving DecidableEq

structure Connector where
  /-- `connect_` -/
  wanted : Bool
  state : ConnectorState
  channel : Option ConnectorChannel
  retryDelayMs : ℕ
  pendingFunctors : List ConnectorFunctor
  /-- the delays of the retry timers that have not expired -/
  timers : List ℕ
  /-- how many sockets there have been -/
  created : ℕ
  /-- the sockets passed to `close`, and those passed to `newConnectionCallback_` -/
  closed : List ℕ
  handed : List ℕ
  deriving DecidableEq

namespace Connector

def kMaxRetryDelayMs : ℕ := 30 * 1000

def kInitRetryDelayMs : ℕ := 500

def init : Connector where
  wanted := false
  state := .kDisconnected
  channel := none
  retryDelayMs := kInitRetryDelayMs
  pendingFunctors := []
  timers := []
  created := 0
  closed := []
  handed := []

variable (c : Connector)

@[simps] def setState (s : ConnectorState) : Connector := { c with state := s }

@[simps] def queueInLoop (f : ConnectorFunctor) : Connector :=
  { c with pendingFunctors := c.pendingFunctors ++ [f] }

@[simps] def close (sockfd : ℕ) : Connector := { c with closed := c.closed ++ [sockfd] }

@[simps] def newConnectionCallback (sockfd : ℕ) : Connector :=
  { c with handed := c.handed ++ [sockfd] }

def retry (sockfd : ℕ) : Connector :=
  let c := (c.close sockfd).setState .kDisconnected
  if c.wanted then
    { c with
      timers := c.timers ++ [c.retryDelayMs]
      retryDelayMs := min (c.retryDelayMs * 2) kMaxRetryDelayMs }
  else c

def connecting (sockfd : ℕ) : Except Fault Connector := do
  let c := c.setState .kConnecting
  assertThat c.channel.isNone
  return { c with channel := some ⟨sockfd, Channel.init.enableWriting⟩ }

/-- `connect`, with the result of the system call. -/
def connect (savedErrno : Option ConnectErrno) : Except Fault Connector :=
  let sockfd := c.created
  let c := { c with created := c.created + 1 }
  match savedErrno with
  | none | some .EINPROGRESS | some .EINTR | some .EISCONN => c.connecting sockfd
  | some .EAGAIN | some .EADDRINUSE | some .EADDRNOTAVAIL | some .ECONNREFUSED
  | some .ENETUNREACH => .ok (c.retry sockfd)
  | some .EACCES | some .EPERM | some .EAFNOSUPPORT | some .EALREADY | some .EBADF
  | some .EFAULT | some .ENOTSOCK | some (.other _) => .ok (c.close sockfd)

def startInLoop (savedErrno : Option ConnectErrno) : Except Fault Connector := do
  assertThat (c.state = .kDisconnected)
  if c.wanted then c.connect savedErrno else return c

/-- `start` on the loop's thread, where `runInLoop` runs its functor. -/
def start (savedErrno : Option ConnectErrno) : Except Fault Connector :=
  { c with wanted := true }.startInLoop savedErrno

/-- `start` on another thread. -/
def foreignStart : Connector := { c with wanted := true }.queueInLoop .startInLoop

def stop : Connector := { c with wanted := false }.queueInLoop .stopInLoop

def restart (savedErrno : Option ConnectErrno) : Except Fault Connector :=
  { c with
    state := .kDisconnected
    retryDelayMs := kInitRetryDelayMs
    wanted := true }.startInLoop savedErrno

/-- The channel leaves the poller and waits to be destroyed. Without a channel the
null pointer is followed. -/
def removeAndResetChannel : Except Fault (ℕ × Connector) :=
  match c.channel with
  | some ⟨fd, channel⟩ =>
    let channel := { channel.disableAll with addedToLoop := false }
    .ok (fd, { c with channel := some ⟨fd, channel⟩ }.queueInLoop .resetChannel)
  | none => .error .outOfBounds

/-- The destructor of a channel asserts that the channel is not registered. -/
def resetChannel : Except Fault Connector := do
  match c.channel with
  | some channel => assertThat (channel.channel.addedToLoop = false)
  | none => pure ()
  return { c with channel := none }

def stopInLoop : Except Fault Connector :=
  if c.state = .kConnecting then do
    let (sockfd, c) ← (c.setState .kDisconnected).removeAndResetChannel
    return c.retry sockfd
  else .ok c

/-- `handleWrite`, with the socket's pending error and the test for a self connection. -/
def handleWrite (err isSelfConnect : Bool) : Except Fault Connector :=
  if c.state = .kConnecting then do
    let (sockfd, c) ← c.removeAndResetChannel
    if err then return c.retry sockfd
    else if isSelfConnect then return c.retry sockfd
    else
      let c := c.setState .kConnected
      return if c.wanted then c.newConnectionCallback sockfd else c.close sockfd
  else do
    assertThat (c.state = .kDisconnected)
    return c

def handleError : Except Fault Connector :=
  if c.state = .kConnecting then do
    let (sockfd, c) ← c.removeAndResetChannel
    return c.retry sockfd
  else .ok c

/-- The two callbacks that `connecting` registers with the channel; the others are
not set. -/
def runCallback (err isSelfConnect : Bool) : ChannelCallback → Except Fault Connector
  | .write => c.handleWrite err isSelfConnect
  | .error => c.handleError
  | .close | .read => .ok c

def runFunctor (savedErrno : Option ConnectErrno) : ConnectorFunctor → Except Fault Connector
  | .startInLoop => c.startInLoop savedErrno
  | .stopInLoop => c.stopInLoop
  | .resetChannel => c.resetChannel

/-- A retry timer expires. -/
def expire (i : ℕ) (savedErrno : Option ConnectErrno) : Except Fault Connector :=
  { c with timers := c.timers.eraseIdx i }.startInLoop savedErrno

end Connector
end Muduo
