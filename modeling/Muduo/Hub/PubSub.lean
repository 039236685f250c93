import Muduo.Base.Timestamp
import Muduo.Connection.ConnState
import Muduo.Foundations.OrderedMap
import Muduo.Foundations.OrderedSet
import Muduo.Hub.Codec

/-!
# The hub and its clients

The hub keeps for each topic the connections that listen to it, and for each connection the
topics it has subscribed to. Whoever publishes, all listeners of the topic get the message, and
a new listener gets the last one.
-/

namespace Muduo
namespace Hub

open Foundations

-- the order of the topics in a context, under names of its own
local instance bytes_lt_trans : IsTrans Bytes (· < ·) := inferInstance

local instance bytes_lt_trichotomous : Std.Trichotomous (α := Bytes) (· < ·) := inferInstance

/-- Connections are numbered in the order of their addresses. -/
structure Topic where
  topic : Bytes
  content : Bytes
  lastPubTime : Timestamp
  audiences : OrderedSet ℕ

namespace Topic

def new (topic : Bytes) : Topic := ⟨topic, [], Timestamp.invalid, .empty⟩

variable (t : Topic)

def makeMessage : Bytes := Hub.makeMessage t.topic t.content

def add (conn : ℕ) : Topic × List (ℕ × Bytes) :=
  ({ t with audiences := (t.audiences.insert conn).1 },
    if Timestamp.valid t.lastPubTime then [(conn, t.makeMessage)] else [])

def remove (conn : ℕ) : Topic := { t with audiences := (t.audiences.erase conn).1 }

def publish (content : Bytes) (time : Timestamp) : Topic × List (ℕ × Bytes) :=
  let t := { t with content := content, lastPubTime := time }
  (t, t.audiences.toList.map (·, t.makeMessage))

end Topic

/-- `context` is what `getMutableContext` of a connection gives, and `input` its buffer. -/
structure PubSubServer where
  topics : Bytes → Option Topic
  context : ℕ → OrderedMap Bytes Unit
  input : ℕ → Bytes
  state : ℕ → ConnState
  /-- what the connections have taken to send -/
  sent : List (ℕ × Bytes)

namespace PubSubServer

def init : PubSubServer := ⟨fun _ => none, fun _ => .empty, fun _ => [], fun _ => .absent, []⟩

variable (s : PubSubServer)

def send (out : List (ℕ × Bytes)) : PubSubServer :=
  { s with sent := s.sent ++ out.filter fun m => s.state m.1 = .connected }

def shutdown (conn : ℕ) : PubSubServer :=
  if s.state conn = .connected then
    { s with state := Function.update s.state conn .disconnecting }
  else s

def getTopic (topic : Bytes) : Topic := (s.topics topic).getD (Topic.new topic)

def setTopic (topic : Bytes) (t : Topic) : PubSubServer :=
  { s with topics := Function.update s.topics topic (some t) }

def doSubscribe (conn : ℕ) (topic : Bytes) : PubSubServer :=
  let s := { s with context := Function.update s.context conn ((s.context conn).assign topic ()) }
  let (t, out) := (s.getTopic topic).add conn
  (s.setTopic topic t).send out

def doUnsubscribe (conn : ℕ) (topic : Bytes) : PubSubServer :=
  let s := s.setTopic topic ((s.getTopic topic).remove conn)
  { s with context := Function.update s.context conn ((s.context conn).erase topic) }

def doPublish (topic content : Bytes) (time : Timestamp) : PubSubServer :=
  let (t, out) := (s.getTopic topic).publish content time
  (s.setTopic topic t).send out

/-- The loop of `onMessage`. After an unknown command it stops, with what follows in the buffer;
it will go on there when more has arrived. -/
def messageLoop (conn : ℕ) (time : Timestamp) :
    ℕ → PubSubServer → Bytes → Except Fault (PubSubServer × Bytes)
  | 0, _, _ => .error .endless
  | fuel + 1, s, buf =>
    match parseMessage buf with
    | .kContinue => .ok (s, buf)
    | .kError => .ok (s.shutdown conn, buf)
    | .kSuccess cmd topic content n =>
      let buf := buf.drop n
      if cmd = ascii "pub" then
        messageLoop conn time fuel (s.doPublish topic content time) buf
      else if cmd = ascii "sub" then messageLoop conn time fuel (s.doSubscribe conn topic) buf
      else if cmd = ascii "unsub" then messageLoop conn time fuel (s.doUnsubscribe conn topic) buf
      else .ok (s.shutdown conn, buf)

def onMessage (conn : ℕ) (data : Bytes) (time : Timestamp) : Except Fault PubSubServer := do
  let buf := s.input conn ++ data
  let (s, buf) ← messageLoop conn time (buf.length + 1) s buf
  return { s with input := Function.update s.input conn buf }

/-- `onConnection` of a new connection. -/
def connect (conn : ℕ) : PubSubServer :=
  { s with
    state := Function.update s.state conn .connected
    context := Function.update s.context conn .empty }

/-- `onConnection` of a connection that is down. -/
def disconnect (conn : ℕ) : PubSubServer :=
  (s.context conn).entries.foldl (fun s it => s.doUnsubscribe conn it.1)
    { s with state := Function.update s.state conn .disconnected }

def timePublish (now : Bytes) (time : Timestamp) : PubSubServer :=
  s.doPublish (ascii "utc_time") now time

/-- What happens on the loop of the hub. -/
inductive Event
  | connect (conn : ℕ)
  | receive (conn : ℕ) (data : Bytes) (time : Timestamp)
  | disconnect (conn : ℕ)
  /-- the timer, with the time as a text -/
  | tick (now : Bytes) (time : Timestamp)
  deriving DecidableEq

def step : Event → Except Fault PubSubServer
  | .connect conn => .ok (s.connect conn)
  | .receive conn data time => s.onMessage conn data time
  | .disconnect conn => .ok (s.disconnect conn)
  | .tick now time => .ok (s.timePublish now time)

def Allows : Event → Prop
  | .connect conn => s.state conn = .absent
  | .receive conn _ time => (s.state conn).Up ∧ Timestamp.valid time = true
  | .disconnect conn => (s.state conn).Up
  | .tick now time => OneLine now ∧ Timestamp.valid time = true

def machine : Machine PubSubServer Event Fault where
  Allows s e := s.Allows e
  step s e := s.step e

def sentTo (conn : ℕ) : Bytes := (s.sent.filter (·.1 = conn)).flatMap Prod.snd

end PubSubServer

structure PubSubClient where
  input : Bytes
  /-- `subscribeCallback_` is set -/
  subscribed : Bool
  /-- the calls of `subscribeCallback_` -/
  called : List (Bytes × Bytes)
  /-- `conn->shutdown()` was called -/
  shutdown : Bool
  deriving DecidableEq, Repr

namespace PubSubClient

/-- A client that has subscribed and has not received anything. -/
def init : PubSubClient := ⟨[], true, [], false⟩

def take (c : PubSubClient) (m : Message) : PubSubClient :=
  if m.cmd = ascii "pub" ∧ c.subscribed = true then
    { c with called := c.called ++ [(m.topic, m.content)] }
  else c

/-- The loop of `onMessage`. -/
def messageLoop : ℕ → PubSubClient → Bytes → Except Fault PubSubClient
  | 0, _, _ => .error .endless
  | fuel + 1, c, buf =>
    match parseMessage buf with
    | .kContinue => .ok { c with input := buf }
    | .kError => .ok { c with input := buf, shutdown := true }
    | .kSuccess cmd topic content n => messageLoop fuel (c.take ⟨cmd, topic, content⟩) (buf.drop n)

def onMessage (c : PubSubClient) (data : Bytes) : Except Fault PubSubClient :=
  messageLoop ((c.input ++ data).length + 1) c (c.input ++ data)

end PubSubClient

end Hub
end Muduo
