import Muduo.Chat.Codec
import Muduo.Connection.ConnState
import Muduo.Foundations.Machine
import Muduo.Foundations.OrderedSet

/-!
# The chat server

The server sends each message that it gets to all who are there. What a client gets is described
by a room: everybody in it hears what is said from then on, in one order, until they leave or say
something that is no message. How the network cuts the streams does not matter.
-/

namespace Muduo
namespace Chat

open Foundations

/-- `sent` are the bytes that a connection has taken to send. -/
structure ChatServer where
  connections : OrderedSet ℕ
  input : ℕ → Bytes
  state : ℕ → ConnState
  sent : ℕ → Bytes

namespace ChatServer

def init : ChatServer := ⟨.empty, fun _ => [], fun _ => .absent, fun _ => []⟩

variable (s : ChatServer)

/-- A connection that is shut down takes nothing. -/
def send (conn : ℕ) (data : Bytes) : ChatServer :=
  if s.state conn = .connected then
    { s with sent := Function.update s.sent conn (s.sent conn ++ data) }
  else s

def shutdown (conn : ℕ) : ChatServer :=
  { s with state := Function.update s.state conn (s.state conn).shutdown }

def onStringMessage (message : Bytes) : ChatServer :=
  s.connections.toList.foldl (fun s it => s.send it (encode message)) s

/-- `onConnection` of a new connection. -/
def connect (conn : ℕ) : ChatServer :=
  { s with
    connections := (s.connections.insert conn).1
    state := Function.update s.state conn .connected }

/-- `onConnection` of a connection that is down. -/
def disconnect (conn : ℕ) : ChatServer :=
  { s with
    connections := (s.connections.erase conn).1
    state := Function.update s.state conn .disconnected }

def receive (conn : ℕ) (data : Bytes) : Except Fault ChatServer := do
  let (s, buf) ← onMessage onStringMessage (·.shutdown conn) s (s.input conn) data
  return { s with input := Function.update s.input conn buf }

inductive Event
  | connect (conn : ℕ)
  | receive (conn : ℕ) (data : Bytes)
  | disconnect (conn : ℕ)
  deriving DecidableEq

def step : Event → Except Fault ChatServer
  | .connect conn => .ok (s.connect conn)
  | .receive conn data => s.receive conn data
  | .disconnect conn => .ok (s.disconnect conn)

def Allows : Event → Prop
  | .connect conn => s.state conn = .absent
  | .receive conn _ | .disconnect conn => (s.state conn).Up

instance : (e : Event) → Decidable (s.Allows e)
  | .connect conn => inferInstanceAs (Decidable (s.state conn = .absent))
  | .receive conn _ | .disconnect conn => inferInstanceAs (Decidable (s.state conn).Up)

def machine : Machine ChatServer Event Fault where
  Allows s e := s.Allows e
  step s e := s.step e

instance (e : Event) : Decidable (machine.Allows s e) := inferInstanceAs (Decidable (s.Allows e))

end ChatServer

/-- `messages` are those that the callback got, and `printed` is what it has put out. -/
structure ChatClient where
  input : Bytes
  messages : List Bytes
  printed : Bytes

namespace ChatClient

def init : ChatClient := ⟨[], [], []⟩

/-- A line of the output. The string that `c_str` gives ends at the first zero. -/
def line (message : Bytes) : Bytes :=
  ascii "<<< " ++ message.takeWhile (· ≠ 0) ++ ascii "\n"

def onStringMessage (c : ChatClient) (message : Bytes) : ChatClient :=
  { c with messages := c.messages ++ [message], printed := c.printed ++ line message }

/-- What becomes of a connection that is shut down does not matter here. -/
def take (c : ChatClient) (data : Bytes) : Except Fault ChatClient := do
  let (c, buf) ← onMessage onStringMessage id c c.input data
  return { c with input := buf }

def receive (c : ChatClient) (chunks : List Bytes) : Except Fault ChatClient :=
  chunks.foldlM take c

end ChatClient

/-- What has arrived from those who are there, and what each has heard. -/
structure Room where
  arrived : ℕ → Option Bytes
  inbox : ℕ → List Bytes

namespace Room

def empty : Room := ⟨fun _ => none, fun _ => []⟩

variable (r : Room)

/-- Who is there and has sent nothing but messages. -/
def hears (conn : ℕ) : Bool := (r.arrived conn).any fun bytes => !(messages.drain () bytes).halted

/-- The messages that `data` completes. -/
def news (before data : Bytes) : List Bytes :=
  (messages.drain () (before ++ data)).out.drop (messages.drain () before).out.length

def next : ChatServer.Event → Room
  | .connect conn => { r with arrived := Function.update r.arrived conn (some []) }
  | .disconnect conn => { r with arrived := Function.update r.arrived conn none }
  | .receive conn data =>
    let before := (r.arrived conn).getD []
    { arrived := Function.update r.arrived conn (some (before ++ data))
      inbox := fun c => r.inbox c ++ if r.hears c then news before data else [] }

end Room

/-- The server against the room. -/
structure Mirrors (s : ChatServer) (r : Room) : Prop where
  member : ∀ conn, conn ∈ s.connections ↔ (r.arrived conn).isSome
  up : ∀ conn, (s.state conn).Up ↔ (r.arrived conn).isSome
  connected : ∀ conn, s.state conn = .connected ↔ r.hears conn = true
  input : ∀ conn bytes, r.arrived conn = some bytes →
    s.input conn = (messages.drain () bytes).rest
  fresh : ∀ conn, s.state conn = .absent → s.input conn = []
  sent : ∀ conn, s.sent conn = (r.inbox conn).flatMap encode
  short : ∀ conn, ∀ message ∈ r.inbox conn, message.length ≤ 65536

theorem drain_nil : messages.drain () [] = ⟨(), [], [], false⟩ := Parser.drain_wait rfl

theorem mirrors_init : Mirrors .init .empty where
  member conn := by simp [ChatServer.init, Room.empty, ← OrderedSet.mem_toList, OrderedSet.empty]
  up conn := by simp [ChatServer.init, Room.empty, ConnState.Up]
  connected conn := by simp [ChatServer.init, Room.empty, Room.hears]
  input conn bytes h := by cases h
  fresh conn _ := rfl
  sent conn := rfl
  short conn message h := by cases h

/-- What the messages of one piece do to the server. -/
structure Broadcasts (s t : ChatServer) (ms : List Bytes) : Prop where
  connections : t.connections = s.connections
  input : t.input = s.input
  state : t.state = s.state
  sent : ∀ conn, t.sent conn = s.sent conn ++
    if conn ∈ s.connections ∧ s.state conn = .connected then ms.flatMap encode else []

theorem foldl_send (s : ChatServer) (data : Bytes) {l : List ℕ} (hl : l.Nodup) :
    let t := l.foldl (fun s it => s.send it data) s
    t.connections = s.connections ∧ t.input = s.input ∧ t.state = s.state ∧
      ∀ conn, t.sent conn = s.sent conn ++
        if conn ∈ l ∧ s.state conn = .connected then data else [] := by
  induction l generalizing s with
  | nil => simp
  | cons it l ih =>
    obtain ⟨hnot, hrest⟩ := List.nodup_cons.mp hl
    obtain ⟨hconnections, hinput, hstate, hsent⟩ := ih (s.send it data) hrest
    have hsame : (s.send it data).connections = s.connections ∧
        (s.send it data).input = s.input ∧ (s.send it data).state = s.state := by
      rw [ChatServer.send]
      split_ifs
      · exact ⟨rfl, rfl, rfl⟩
      · exact ⟨rfl, rfl, rfl⟩
    refine ⟨hconnections.trans hsame.1, hinput.trans hsame.2.1, hstate.trans hsame.2.2,
      fun conn => ?_⟩
    rw [List.foldl_cons, hsent, hsame.2.2, ChatServer.send]
    by_cases heq : conn = it
    · subst heq
      by_cases hup : s.state conn = .connected
      · simp [hnot, hup]
      · simp [hup]
    · by_cases hup : s.state it = .connected
      · simp [hup, heq]
      · simp [hup, heq]

theorem broadcasts_nil (s : ChatServer) : Broadcasts s s [] :=
  ⟨rfl, rfl, rfl, fun _ => by simp⟩

theorem broadcasts_foldl (s : ChatServer) (ms : List Bytes) :
    Broadcasts s (ms.foldl ChatServer.onStringMessage s) ms := by
  induction ms generalizing s with
  | nil => exact broadcasts_nil s
  | cons m ms ih =>
    obtain ⟨hconnections, hinput, hstate, hsent⟩ :=
      foldl_send s (encode m) s.connections.nodup
    have hrest := ih (s.onStringMessage m)
    refine ⟨hrest.connections.trans hconnections, hrest.input.trans hinput,
      hrest.state.trans hstate, fun conn => ?_⟩
    rw [List.foldl_cons, hrest.sent, ChatServer.onStringMessage, hsent, hconnections, hstate]
    simp only [OrderedSet.mem_toList]
    split_ifs
    · simp
    · simp

section Steps

variable {s : ChatServer} {r : Room} {conn : ℕ}

theorem Mirrors.connect (h : Mirrors s r) (habsent : s.state conn = .absent) :
    Mirrors (s.connect conn) (r.next (.connect conn)) := by
  refine ⟨fun c => ?_, fun c => ?_, fun c => ?_, fun c bytes hc => ?_, fun c hc => ?_, h.sent,
    h.short⟩
  · show c ∈ (s.connections.insert conn).1 ↔
      (Function.update r.arrived conn (some []) c).isSome = true
    rw [OrderedSet.mem_insert]
    by_cases heq : c = conn
    · simp [heq]
    · simp [heq, h.member]
  · by_cases heq : c = conn
    · simp [heq, ChatServer.connect, Room.next, ConnState.Up]
    · simp [heq, ChatServer.connect, Room.next, h.up]
  · by_cases heq : c = conn
    · simp [heq, ChatServer.connect, Room.next, Room.hears, drain_nil]
    · simp [heq, ChatServer.connect, Room.next, Room.hears, h.connected]
  · by_cases heq : c = conn
    · have hbytes : bytes = [] := by simpa [heq, Room.next] using hc.symm
      rw [hbytes, drain_nil, heq]
      exact h.fresh conn habsent
    · exact h.input c bytes (by simpa [heq, Room.next] using hc)
  · by_cases heq : c = conn
    · simp [heq, ChatServer.connect] at hc
    · exact h.fresh c (by simpa [heq, ChatServer.connect] using hc)

theorem Mirrors.disconnect (h : Mirrors s r) :
    Mirrors (s.disconnect conn) (r.next (.disconnect conn)) := by
  refine ⟨fun c => ?_, fun c => ?_, fun c => ?_, fun c bytes hc => ?_, fun c hc => ?_, h.sent,
    h.short⟩
  · show c ∈ (s.connections.erase conn).1 ↔
      (Function.update r.arrived conn none c).isSome = true
    rw [OrderedSet.mem_erase]
    by_cases heq : c = conn
    · simp [heq]
    · simp [heq, h.member]
  · by_cases heq : c = conn
    · simp [heq, ChatServer.disconnect, Room.next, ConnState.Up]
    · simp [heq, ChatServer.disconnect, Room.next, h.up]
  · by_cases heq : c = conn
    · simp [heq, ChatServer.disconnect, Room.next, Room.hears]
    · simp [heq, ChatServer.disconnect, Room.next, Room.hears, h.connected]
  · by_cases heq : c = conn
    · simp [heq, Room.next] at hc
    · exact h.input c bytes (by simpa [heq, Room.next] using hc)
  · by_cases heq : c = conn
    · simp [heq, ChatServer.disconnect] at hc
    · exact h.fresh c (by simpa [heq, ChatServer.disconnect] using hc)

/-- The parser goes on from what is in the buffer. Behind a length that is not possible it finds
the same length again. -/
theorem drain_rest (before data : Bytes) :
    (messages.drain () ((messages.drain () before).rest ++ data)).out = Room.news before data ∧
      (messages.drain () ((messages.drain () before).rest ++ data)).rest =
        (messages.drain () (before ++ data)).rest ∧
      (messages.drain () ((messages.drain () before).rest ++ data)).halted =
        (messages.drain () (before ++ data)).halted := by
  cases hhalted : (messages.drain () before).halted with
  | false =>
    rw [Room.news, Parser.drain_append_of_waiting hhalted]
    exact ⟨(List.drop_left ..).symm, rfl, rfl⟩
  | true =>
    have hverdict : messages.step () ((messages.drain () before).rest ++ data) = .halt () 0 [] := by
      have hrest := verdict_of_halted hhalted
      exact (verdict_append (by simp [hrest]) data).trans hrest
    rw [Room.news, Parser.drain_append_of_halted hhalted, Parser.drain_halt hverdict]
    exact ⟨(List.drop_length ..).symm, rfl, hhalted.symm⟩

/-- A piece of the stream of one client, with what is in its buffer. -/
theorem receive_eq {before : Bytes} (hinput : s.input conn = (messages.drain () before).rest)
    (data : Bytes) : ∃ s', s.receive conn data = .ok s' ∧
      s'.connections = s.connections ∧
      s'.input = Function.update s.input conn (messages.drain () (before ++ data)).rest ∧
      (∀ c, s'.state c = if c = conn ∧ (messages.drain () (before ++ data)).halted = true
        then (s.state c).shutdown else s.state c) ∧
      ∀ c, s'.sent c = s.sent c ++ if c ∈ s.connections ∧ s.state c = .connected
        then (Room.news before data).flatMap encode else [] := by
  obtain ⟨hout, hrest, hhalted⟩ := drain_rest before data
  have hb := broadcasts_foldl s (Room.news before data)
  rw [ChatServer.receive, hinput, onMessage_eq, hout, hrest, hhalted]
  cases hhalt : (messages.drain () (before ++ data)).halted with
  | false =>
    refine ⟨_, rfl, hb.connections, ?_, fun c => ?_, hb.sent⟩
    · simp [hb.input]
    · simp [hb.state]
  | true =>
    refine ⟨_, rfl, hb.connections, ?_, fun c => ?_, hb.sent⟩
    · simp [ChatServer.shutdown, hb.input]
    · by_cases heq : c = conn
      · simp [ChatServer.shutdown, hb.state, heq]
      · simp [ChatServer.shutdown, hb.state, heq]

theorem halted_append {before data : Bytes}
    (h : (messages.drain () (before ++ data)).halted = false) :
    (messages.drain () before).halted = false := by
  by_contra hhalted
  rw [Parser.drain_append_of_halted (Bool.eq_true_of_not_eq_false hhalted)] at h
  exact hhalted h

theorem Mirrors.receive (h : Mirrors s r) (hup : (s.state conn).Up) (data : Bytes) :
    ∃ s', s.receive conn data = .ok s' ∧ Mirrors s' (r.next (.receive conn data)) := by
  obtain ⟨before, hbefore⟩ := Option.isSome_iff_exists.mp ((h.up conn).mp hup)
  have hinput := h.input conn before hbefore
  obtain ⟨s', hs', hconnections, hbuf, hstate, hsent⟩ := receive_eq hinput data
  have hnews : ∀ message ∈ Room.news before data, message.length ≤ 65536 :=
    fun message hmem => length_le_of_mem (List.mem_of_mem_drop hmem)
  have hthere : ∀ c, (c ∈ s.connections ∧ s.state c = .connected) ↔ r.hears c = true := by
    intro c
    rw [← h.connected]
    refine and_iff_right_of_imp fun hconnected => ?_
    exact (h.member c).mpr ((h.up c).mp (.inl hconnected))
  have harrived : (r.next (.receive conn data)).arrived =
      Function.update r.arrived conn (some (before ++ data)) := by
    simp [Room.next, hbefore]
  refine ⟨s', hs', fun c => ?_, fun c => ?_, fun c => ?_, fun c bytes hc => ?_, fun c hc => ?_,
    fun c => ?_, fun c message hmem => ?_⟩
  · rw [hconnections, harrived, h.member]
    by_cases heq : c = conn
    · simp [heq, hbefore]
    · simp [heq]
  · rw [hstate, harrived]
    by_cases heq : c = conn
    · subst heq
      split_ifs
      · simp [ConnState.up_shutdown, hup]
      · simp [hup]
    · simp [heq, h.up]
  · rw [hstate, Room.hears, harrived]
    by_cases heq : c = conn
    · subst heq
      cases hhalted : (messages.drain () (before ++ data)).halted with
      | true =>
        have hdown : (s.state c).shutdown ≠ .connected := by
          cases s.state c <;> simp [ConnState.shutdown]
        simp [hhalted, hdown]
      | false =>
        have hhears : r.hears c = true := by simp [Room.hears, hbefore, halted_append hhalted]
        simp [hhalted, (h.connected c).mpr hhears]
    · simp [heq, h.connected, Room.hears]
  · rw [harrived] at hc
    rw [hbuf]
    by_cases heq : c = conn
    · rw [heq, Function.update_self] at hc
      rw [heq, Function.update_self, ← Option.some.inj hc]
    · rw [Function.update_of_ne heq] at hc
      rw [Function.update_of_ne heq]
      exact h.input c bytes hc
  · have hne : c ≠ conn := by
      rintro rfl
      have hup' : (s'.state c).Up := by
        rw [hstate]
        split_ifs
        · exact ConnState.up_shutdown.mpr hup
        · exact hup
      exact hup'.ne_absent hc
    rw [hstate, if_neg (by simp [hne])] at hc
    rw [hbuf, Function.update_of_ne hne]
    exact h.fresh c hc
  · rw [hsent, h.sent]
    simp only [hthere, Room.next, hbefore, Option.getD_some, List.flatMap_append]
    split_ifs <;> rfl
  · simp only [Room.next, hbefore, Option.getD_some] at hmem
    rcases List.mem_append.mp hmem with hmem | hmem
    · exact h.short c message hmem
    · split_ifs at hmem
      · exact hnews message hmem
      · cases hmem

theorem Mirrors.step (h : Mirrors s r) {e : ChatServer.Event} (ha : s.Allows e) :
    ∃ s', s.step e = .ok s' ∧ Mirrors s' (r.next e) := by
  cases e with
  | connect conn => exact ⟨_, rfl, h.connect ha⟩
  | receive conn data => exact h.receive ha data
  | disconnect conn => exact ⟨_, rfl, h.disconnect⟩

end Steps

namespace ChatClient

theorem foldl_onStringMessage (c : ChatClient) (ms : List Bytes) :
    ms.foldl onStringMessage c =
      { c with messages := c.messages ++ ms, printed := c.printed ++ ms.flatMap line } := by
  induction ms generalizing c with
  | nil => simp
  | cons m ms ih => simp [ih, onStringMessage]

/-- A client that was given `seen`. -/
def behind (seen : Bytes) : ChatClient where
  input := (Chat.messages.drain () seen).rest
  messages := (Chat.messages.drain () seen).out
  printed := (Chat.messages.drain () seen).out.flatMap line

theorem take_behind {seen data : Bytes}
    (hwaiting : (Chat.messages.drain () (seen ++ data)).halted = false) :
    (behind seen).take data = .ok (behind (seen ++ data)) := by
  rw [take, onMessage_eq, foldl_onStringMessage, behind, behind,
    Parser.drain_append_of_waiting (halted_append hwaiting)]
  split_ifs <;> simp

theorem receive_behind (seen : Bytes) (chunks : List Bytes)
    (hwaiting : (Chat.messages.drain () (seen ++ chunks.flatten)).halted = false) :
    (behind seen).receive chunks = .ok (behind (seen ++ chunks.flatten)) := by
  induction chunks generalizing seen with
  | nil => simp [receive]
  | cons data chunks ih =>
    rw [List.flatten_cons, ← List.append_assoc] at hwaiting ⊢
    rw [receive, List.foldlM_cons, take_behind (halted_append hwaiting)]
    exact ih (seen ++ data) hwaiting

end ChatClient

/-- However the clients come and go and the network cuts their bytes: no run of the server
faults, and the callback of every client, which again gets its bytes in any pieces, gets what was
heard in the room: each message that was completed while the client was there, in one order for
all. It prints a line for each, up to the first zero of the message. -/
theorem chat_delivers (events : List ChatServer.Event)
    (hp : ChatServer.machine.Permits .init events) :
    ∃ s, ChatServer.machine.run .init events = .ok s ∧
      ∀ conn (chunks : List Bytes), chunks.flatten = s.sent conn →
        ChatClient.init.receive chunks =
          .ok ⟨[], (events.foldl Room.next Room.empty).inbox conn,
            ((events.foldl Room.next Room.empty).inbox conn).flatMap ChatClient.line⟩ := by
  obtain ⟨s, hs, h⟩ := ChatServer.machine.run_refines Mirrors Room.next
    (fun _ _ _ hm ha => hm.step ha) events .init .empty mirrors_init hp
  refine ⟨s, hs, fun conn chunks hchunks => ?_⟩
  have hdrain : messages.drain () ([] ++ chunks.flatten) =
      ⟨(), [], (events.foldl Room.next Room.empty).inbox conn, false⟩ := by
    rw [List.nil_append, hchunks, h.sent]
    exact drain_encode _ (h.short conn)
  have hclient := ChatClient.receive_behind [] chunks (by rw [hdrain])
  rw [ChatClient.behind, ChatClient.behind, hdrain, drain_nil] at hclient
  exact hclient

/-- Client 2 comes between the two halves of what client 1 says, and there is a zero in it. -/
theorem chat_delivers_late :
    ∃ s, ChatServer.machine.run .init
        [.connect 1, .receive 1 [0, 0, 0], .connect 2, .receive 1 [3, 97, 0, 98]] = .ok s ∧
      s.sent 2 = [0, 0, 0, 3, 97, 0, 98] ∧
      ChatClient.init.receive [[0, 0, 0, 3], [97, 0, 98]] =
        .ok ⟨[], [[97, 0, 98]], ascii "<<< a\n"⟩ := by
  obtain ⟨s, hs, h⟩ := chat_delivers
    [.connect 1, .receive 1 [0, 0, 0], .connect 2, .receive 1 [3, 97, 0, 98]] (by decide +kernel)
  have hsent : s.sent 2 = [0, 0, 0, 3, 97, 0, 98] := by
    have hend : (ChatServer.machine.run .init
        [.connect 1, .receive 1 [0, 0, 0], .connect 2, .receive 1 [3, 97, 0, 98]]).toOption.map
        (fun s => s.sent 2) = some [0, 0, 0, 3, 97, 0, 98] := by decide +kernel
    rw [hs] at hend
    exact Option.some.inj hend
  have hinbox : (List.foldl Room.next Room.empty
      [.connect 1, .receive 1 [0, 0, 0], .connect 2, .receive 1 [3, 97, 0, 98]]).inbox 2 =
        [[97, 0, 98]] := by decide +kernel
  have hclient := h 2 [[0, 0, 0, 3], [97, 0, 98]] hsent.symm
  rw [hinbox] at hclient
  exact ⟨s, hs, hsent, hclient⟩

end Chat
end Muduo
