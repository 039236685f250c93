import Muduo.Hub.Board

/-!
# What the hub delivers

Whatever the order in which the bytes of the clients come in, and however they are cut, the
requests of each client are carried out in the order in which it sent them, and the callback of
a client is called with what the board delivers to it.
-/

namespace Muduo
namespace Hub

open Foundations

def Message.Known (m : Message) : Prop :=
  m.cmd = ascii "pub" ∨ m.cmd = ascii "sub" ∨ m.cmd = ascii "unsub"

instance (m : Message) : Decidable m.Known := inferInstanceAs (Decidable (_ ∨ _ ∨ _))

def Message.action (conn : ℕ) (m : Message) : Action :=
  if m.cmd = ascii "pub" then .publish (some conn) m.topic m.content
  else if m.cmd = ascii "sub" then .subscribe conn m.topic
  else .unsubscribe conn m.topic

/-- What the server does for a message that it knows. -/
def PubSubServer.handle (conn : ℕ) (time : Timestamp) (s : PubSubServer) (m : Message) :
    PubSubServer :=
  if m.cmd = ascii "pub" then s.doPublish m.topic m.content time
  else if m.cmd = ascii "sub" then s.doSubscribe conn m.topic
  else s.doUnsubscribe conn m.topic

/-- The requests in the bytes of a client; a line without a blank closes it. -/
def requests (conn : ℕ) (data : Bytes) : List Action :=
  (messages.drain () data).out.map (Message.action conn) ++
    if (messages.drain () data).halted then [.close conn] else []

section Requests

variable {s : PubSubServer} {b : Board} {conn : ℕ} {time : Timestamp} {data : Bytes}

theorem state_handle (s : PubSubServer) (m : Message) : (s.handle conn time m).state = s.state := by
  rw [PubSubServer.handle]
  split_ifs <;> rfl

theorem input_handle (s : PubSubServer) (m : Message) : (s.handle conn time m).input = s.input := by
  rw [PubSubServer.handle]
  split_ifs <;> rfl

theorem handle_keeps (conn : ℕ) (time : Timestamp) (s : PubSubServer) (ms : List Message) :
    (ms.foldl (PubSubServer.handle conn time) s).state = s.state ∧
      (ms.foldl (PubSubServer.handle conn time) s).input = s.input := by
  induction ms generalizing s with
  | nil => exact ⟨rfl, rfl⟩
  | cons m ms ih =>
    obtain ⟨hstate, hinput⟩ := ih (s.handle conn time m)
    exact ⟨hstate.trans (state_handle s m), hinput.trans (input_handle s m)⟩

theorem Mirrors.handle (h : Mirrors s b) (hup : s.state conn ≠ .absent)
    (htime : Timestamp.valid time = true) (m : Message) :
    Mirrors (s.handle conn time m) (b.act (m.action conn)) := by
  rw [PubSubServer.handle, Message.action]
  split_ifs
  · exact h.publish htime _ _ _
  · exact h.subscribe hup _
  · exact h.unsubscribe conn _

theorem Mirrors.foldl_handle (h : Mirrors s b) (hup : s.state conn ≠ .absent)
    (htime : Timestamp.valid time = true) (ms : List Message) :
    Mirrors (ms.foldl (PubSubServer.handle conn time) s)
      (b.acts (ms.map (Message.action conn))) := by
  induction ms generalizing s b with
  | nil => exact h
  | cons m ms ih => exact ih (h.handle hup htime m) (by rwa [state_handle])

theorem messageLoop_eq (conn : ℕ) (time : Timestamp)
    (hknown : ∀ m ∈ (messages.drain () data).out, m.Known) {fuel : ℕ}
    (hfuel : data.length < fuel) (s : PubSubServer) :
    PubSubServer.messageLoop conn time fuel s data =
      .ok (if (messages.drain () data).halted then
          ((messages.drain () data).out.foldl (PubSubServer.handle conn time) s).shutdown conn
        else (messages.drain () data).out.foldl (PubSubServer.handle conn time) s,
        (messages.drain () data).rest) := by
  refine Parser.drain_loop (P := messages) (s := ())
    (fun fuel s _ buf => PubSubServer.messageLoop conn time fuel s buf)
    (PubSubServer.handle conn time)
    (fun s _ rest halted => .ok (if halted then s.shutdown conn else s, rest)) Message.Known
    ?_ ?_ ?_ hfuel hknown s
  · intro fuel s _ buf hstep
    cases hparse : parseMessage buf with
    | kContinue => simp [PubSubServer.messageLoop, hparse]
    | kError => exact absurd ((messages_halt hparse).symm.trans hstep) (by simp)
    | kSuccess cmd topic content n =>
      exact absurd ((messages_next hparse).symm.trans hstep) (by simp)
  · intro fuel s _ buf s' n out hstep _
    cases hparse : parseMessage buf with
    | kContinue => exact absurd ((messages_wait hparse).symm.trans hstep) (by simp)
    | kError =>
      cases (messages_halt hparse).symm.trans hstep
      simp [PubSubServer.messageLoop, hparse]
    | kSuccess cmd topic content n =>
      exact absurd ((messages_next hparse).symm.trans hstep) (by simp)
  · intro fuel s _ buf s' n out hstep hout
    cases hparse : parseMessage buf with
    | kContinue => exact absurd ((messages_wait hparse).symm.trans hstep) (by simp)
    | kError => exact absurd ((messages_halt hparse).symm.trans hstep) (by simp)
    | kSuccess cmd topic content n =>
      cases (messages_next hparse).symm.trans hstep
      have hcmd : cmd = ascii "pub" ∨ cmd = ascii "sub" ∨ cmd = ascii "unsub" :=
        hout ⟨cmd, topic, content⟩ (by simp)
      simp only [PubSubServer.messageLoop, hparse, List.foldl_cons, List.foldl_nil,
        PubSubServer.handle]
      split_ifs with hpub hsub hunsub
      · rfl
      · rfl
      · rfl
      · exact absurd hcmd (by simp [hpub, hsub, hunsub])

theorem parseMessage_of_halted (h : (messages.drain () data).halted = true) :
    parseMessage (messages.drain () data).rest = .kError := by
  generalize hs : () = s at h ⊢
  induction s, data using messages.drain_induction with
  | wait s buf hstep => simp [Parser.drain_wait hstep] at h
  | halt s buf s' n out hstep =>
    rw [Parser.drain_halt hstep]
    cases hparse : parseMessage buf with
    | kError =>
      cases (messages_halt hparse).symm.trans hstep
      exact hparse
    | kContinue => exact absurd ((messages_wait hparse).symm.trans hstep) (by simp)
    | kSuccess cmd topic content n =>
      exact absurd ((messages_next hparse).symm.trans hstep) (by simp)
  | next s buf s' n out hstep ih =>
    rw [Parser.drain_next hstep] at h ⊢
    exact ih rfl h

theorem requests_nil (conn : ℕ) : requests conn [] = [] := by
  rw [requests, Parser.drain_wait rfl]
  rfl

theorem requests_append (conn : ℕ) (data more : Bytes) :
    requests conn (data ++ more) = requests conn data ++
      if (messages.drain () data).halted then []
      else requests conn ((messages.drain () data).rest ++ more) := by
  rw [requests, requests]
  cases hhalted : (messages.drain () data).halted with
  | true =>
    rw [Parser.drain_append_of_halted hhalted]
    simp [hhalted]
  | false =>
    rw [Parser.drain_append_of_waiting hhalted, requests]
    simp

theorem Mirrors.receive (h : Mirrors s b) (hup : s.state conn ≠ .absent)
    (htime : Timestamp.valid time = true)
    (hknown : ∀ m ∈ (messages.drain () (s.input conn ++ data)).out, m.Known) :
    ∃ s', s.onMessage conn data time = .ok s' ∧
      Mirrors s' (b.acts (requests conn (s.input conn ++ data))) ∧
      s'.input = Function.update s.input conn
        (messages.drain () (s.input conn ++ data)).rest ∧
      s'.state = if (messages.drain () (s.input conn ++ data)).halted ∧ s.state conn = .connected
        then Function.update s.state conn .disconnecting else s.state := by
  have hloop := messageLoop_eq conn time hknown (Nat.lt_succ_self _) s
  have hmirrors := h.foldl_handle hup htime (messages.drain () (s.input conn ++ data)).out
  obtain ⟨hstate, hinput⟩ :=
    handle_keeps conn time s (messages.drain () (s.input conn ++ data)).out
  rw [PubSubServer.onMessage, hloop, requests, Board.acts_append]
  cases hhalted : (messages.drain () (s.input conn ++ data)).halted with
  | false =>
    refine ⟨_, rfl, ⟨hmirrors.context, hmirrors.topic, hmirrors.audience, hmirrors.last,
      hmirrors.listening, hmirrors.absent, hmirrors.sent⟩, ?_, ?_⟩
    · simp [hinput]
    · simpa using hstate
  | true =>
    have hclosed := hmirrors.shutdown conn
    refine ⟨_, rfl, ⟨hclosed.context, hclosed.topic, hclosed.audience, hclosed.last,
      hclosed.listening, hclosed.absent, hclosed.sent⟩, ?_, ?_⟩
    · simp only [if_true, PubSubServer.shutdown]
      split_ifs <;> simp [hinput]
    · simp only [if_true, PubSubServer.shutdown, hstate, true_and]
      split_ifs
      · rfl
      · exact hstate

end Requests

def bytesOf (conn : ℕ) (events : List PubSubServer.Event) : Bytes :=
  events.flatMap fun
    | .receive c data _ => if c = conn then data else []
    | _ => []

def timerActions (events : List PubSubServer.Event) : List Action :=
  events.flatMap fun
    | .tick now _ => [.publish none (ascii "utc_time") now]
    | _ => []

/-- The actions of a client, or those of the timer. -/
def actionsOf (client : Option ℕ) (actions : List Action) : List Action :=
  actions.filter (·.client = client)

/-- What a client should have done: it joins, its requests are carried out, and it leaves. -/
def expected (conn : ℕ) (events : List PubSubServer.Event) : List Action :=
  (if .connect conn ∈ events then [.join conn] else []) ++ requests conn (bytesOf conn events) ++
    if .disconnect conn ∈ events then [.leave conn] else []

/-- What has happened on the loop, seen from the board. -/
structure Explains (events : List PubSubServer.Event) (actions : List Action)
    (s : PubSubServer) : Prop where
  mirrors : Mirrors s (Board.init.acts actions)
  client : ∀ conn, actionsOf (some conn) actions = expected conn events
  timer : actionsOf none actions = timerActions events
  input : ∀ conn, s.input conn = (messages.drain () (bytesOf conn events)).rest
  state : ∀ conn, s.state conn =
    if .connect conn ∉ events then .absent
    else if .disconnect conn ∈ events then .disconnected
    else if (messages.drain () (bytesOf conn events)).halted then .disconnecting
    else .connected
  absent : ∀ conn, .connect conn ∉ events → .disconnect conn ∉ events ∧ bytesOf conn events = []

section Runs

open PubSubServer

variable {events : List PubSubServer.Event} {actions : List Action} {s : PubSubServer} {conn : ℕ}

theorem bytesOf_append (conn : ℕ) (events more : List PubSubServer.Event) :
    bytesOf conn (events ++ more) = bytesOf conn events ++ bytesOf conn more := List.flatMap_append

theorem timerActions_append (events more : List PubSubServer.Event) :
    timerActions (events ++ more) = timerActions events ++ timerActions more := List.flatMap_append

theorem actionsOf_append (client : Option ℕ) (actions more : List Action) :
    actionsOf client (actions ++ more) = actionsOf client actions ++ actionsOf client more :=
  List.filter_append ..

theorem drain_messages_nil : messages.drain () [] = ⟨(), [], [], false⟩ := Parser.drain_wait rfl

theorem explains_nil : Explains [] [] .init where
  mirrors := mirrors_init
  client conn := by simp [actionsOf, expected, bytesOf, requests_nil]
  timer := rfl
  input conn := by
    show [] = (messages.drain () []).rest
    rw [drain_messages_nil]
  state conn := rfl
  absent conn _ := ⟨by simp, rfl⟩

/-- A connection that is up was connected, and not disconnected. -/
theorem Explains.up (h : Explains events actions s) (hup : (s.state conn).Up) :
    .connect conn ∈ events ∧ .disconnect conn ∉ events := by
  rw [ConnState.Up, h.state] at hup
  split_ifs at hup <;> simp_all

theorem Explains.connect (h : Explains events actions s) (hstate : s.state conn = .absent) :
    Explains (events ++ [.connect conn]) (actions ++ [.join conn]) (s.connect conn) := by
  have hnot : .connect conn ∉ events := by
    intro hmem
    rw [h.state, if_neg (not_not.mpr hmem)] at hstate
    split_ifs at hstate
  obtain ⟨hleft, hdata⟩ := h.absent conn hnot
  have hbytes : ∀ conn', bytesOf conn' (events ++ [.connect conn]) = bytesOf conn' events :=
    fun conn' => (bytesOf_append conn' events _).trans (List.append_nil _)
  refine ⟨?_, fun conn' => ?_, ?_, fun conn' => ?_, fun conn' => ?_, fun conn' hconn' => ?_⟩
  · rw [Board.acts_append]
    exact h.mirrors.connect hstate
  · rw [actionsOf_append, h.client, expected, expected, hbytes]
    by_cases hconn : conn' = conn
    · subst hconn
      simp [hnot, hleft, hdata, requests_nil, actionsOf, Action.client]
    · have hne : ¬conn = conn' := Ne.symm hconn
      simp [hconn, hne, actionsOf, Action.client]
  · rw [actionsOf_append, timerActions_append, h.timer]
    rfl
  · rw [hbytes]
    exact h.input conn'
  · rw [hbytes]
    by_cases hconn : conn' = conn
    · subst hconn
      simp [PubSubServer.connect, hdata, hleft, drain_messages_nil]
    · simp [PubSubServer.connect, hconn, h.state]
  · rw [hbytes]
    have hold := h.absent conn' fun hmem => hconn' (List.mem_append_left _ hmem)
    exact ⟨by simp [hold.1], hold.2⟩

theorem state_doUnsubscribes (conn : ℕ) (its : List (Bytes × Unit)) (s : PubSubServer) :
    (its.foldl (fun s it => s.doUnsubscribe conn it.1) s).state = s.state ∧
      (its.foldl (fun s it => s.doUnsubscribe conn it.1) s).input = s.input := by
  induction its generalizing s with
  | nil => exact ⟨rfl, rfl⟩
  | cons it its ih => exact ih (s.doUnsubscribe conn it.1)

theorem Explains.disconnect (h : Explains events actions s) (hup : (s.state conn).Up) :
    Explains (events ++ [.disconnect conn]) (actions ++ [.leave conn]) (s.disconnect conn) := by
  obtain ⟨hjoined, hstays⟩ := h.up hup
  obtain ⟨hstate, hinput⟩ := state_doUnsubscribes conn (s.context conn).entries
    { s with state := Function.update s.state conn .disconnected }
  have hbytes : ∀ conn', bytesOf conn' (events ++ [.disconnect conn]) = bytesOf conn' events :=
    fun conn' => (bytesOf_append conn' events _).trans (List.append_nil _)
  refine ⟨?_, fun conn' => ?_, ?_, fun conn' => ?_, fun conn' => ?_, fun conn' hconn' => ?_⟩
  · rw [Board.acts_append]
    exact h.mirrors.disconnect conn
  · rw [actionsOf_append, h.client, expected, expected, hbytes]
    by_cases hconn : conn' = conn
    · subst hconn
      simp [hjoined, hstays, actionsOf, Action.client]
    · have hne : ¬conn = conn' := Ne.symm hconn
      simp [hconn, hne, actionsOf, Action.client]
  · rw [actionsOf_append, timerActions_append, h.timer]
    rfl
  · rw [hbytes, PubSubServer.disconnect, hinput]
    exact h.input conn'
  · rw [hbytes, PubSubServer.disconnect, hstate]
    by_cases hconn : conn' = conn
    · subst hconn
      simp [hjoined]
    · simp [hconn, h.state]
  · rw [hbytes]
    have hold := h.absent conn' fun hmem => hconn' (List.mem_append_left _ hmem)
    have hne : conn' ≠ conn := by
      rintro rfl
      exact hconn' (List.mem_append_left _ hjoined)
    exact ⟨by simp [hold.1, hne], hold.2⟩

theorem Explains.tick (h : Explains events actions s) {now : Bytes} {time : Timestamp}
    (htime : Timestamp.valid time = true) :
    Explains (events ++ [.tick now time])
      (actions ++ [.publish none (ascii "utc_time") now]) (s.timePublish now time) := by
  have hbytes : ∀ conn', bytesOf conn' (events ++ [.tick now time]) = bytesOf conn' events :=
    fun conn' => (bytesOf_append conn' events _).trans (List.append_nil _)
  refine ⟨?_, fun conn' => ?_, ?_, fun conn' => ?_, fun conn' => ?_, fun conn' hconn' => ?_⟩
  · rw [Board.acts_append]
    exact h.mirrors.publish htime none _ _
  · rw [actionsOf_append, h.client, expected, expected, hbytes]
    simp [actionsOf, Action.client]
  · rw [actionsOf_append, timerActions_append, h.timer]
    rfl
  · rw [hbytes]
    exact h.input conn'
  · rw [hbytes]
    exact (h.state conn').trans (by simp)
  · rw [hbytes]
    have hold := h.absent conn' fun hmem => hconn' (List.mem_append_left _ hmem)
    exact ⟨by simp [hold.1], hold.2⟩

theorem actionsOf_requests (conn conn' : ℕ) (data : Bytes) :
    actionsOf (some conn') (requests conn data) =
      if conn' = conn then requests conn data else [] := by
  have hclient : ∀ a ∈ requests conn data, a.client = some conn := by
    intro a ha
    rcases List.mem_append.mp ha with ha | ha
    · obtain ⟨m, -, rfl⟩ := List.mem_map.mp ha
      rw [Message.action]
      split_ifs <;> rfl
    · split_ifs at ha
      · rw [List.mem_singleton.mp ha]
        rfl
      · cases ha
  split_ifs with hconn
  · rw [actionsOf, List.filter_eq_self]
    intro a ha
    simp [hclient a ha, hconn]
  · rw [actionsOf, List.filter_eq_nil_iff]
    intro a ha
    simpa [hclient a ha] using Ne.symm hconn

theorem actionsOf_none_requests (conn : ℕ) (data : Bytes) :
    actionsOf none (requests conn data) = [] := by
  rw [actionsOf, List.filter_eq_nil_iff]
  intro a ha
  rcases List.mem_append.mp ha with ha | ha
  · obtain ⟨m, -, rfl⟩ := List.mem_map.mp ha
    rw [Message.action]
    split_ifs <;> simp [Action.client]
  · split_ifs at ha
    · rw [List.mem_singleton.mp ha]
      simp [Action.client]
    · cases ha

theorem drain_more (data more : Bytes) :
    (messages.drain () (data ++ more)).rest =
        (messages.drain () ((messages.drain () data).rest ++ more)).rest ∧
      (messages.drain () (data ++ more)).halted =
        (messages.drain () ((messages.drain () data).rest ++ more)).halted ∧
      ((messages.drain () data).halted = true →
        (messages.drain () ((messages.drain () data).rest ++ more)).out = []) ∧
      ∀ m ∈ (messages.drain () ((messages.drain () data).rest ++ more)).out,
        m ∈ (messages.drain () (data ++ more)).out := by
  cases hhalted : (messages.drain () data).halted with
  | true =>
    have herror := parseMessage_of_halted hhalted
    have hagain : parseMessage ((messages.drain () data).rest ++ more) = .kError := by
      rw [parseMessage_append (by simp [herror]), herror]
    rw [Parser.drain_append_of_halted hhalted, Parser.drain_halt (messages_halt hagain)]
    simp [hhalted]
  | false =>
    rw [Parser.drain_append_of_waiting hhalted]
    simp only [true_and, Bool.false_eq_true, false_implies]
    exact fun m hm => List.mem_append_right _ hm

theorem Explains.receive (h : Explains events actions s) {data : Bytes} {time : Timestamp}
    (hup : (s.state conn).Up) (htime : Timestamp.valid time = true)
    (hknown : ∀ m ∈ (messages.drain () (bytesOf conn events ++ data)).out, m.Known) :
    ∃ s' new, s.onMessage conn data time = .ok s' ∧
      Explains (events ++ [.receive conn data time]) (actions ++ new) s' := by
  obtain ⟨hjoined, hstays⟩ := h.up hup
  have hup' : s.state conn ≠ .absent := by
    rcases hup with hstate | hstate <;> simp [hstate]
  obtain ⟨hrest, hhalt, hnothing, hmem⟩ := drain_more (bytesOf conn events) data
  have hknown' : ∀ m ∈ (messages.drain () (s.input conn ++ data)).out, m.Known := by
    rw [h.input]
    exact fun m hm => hknown m (hmem m hm)
  obtain ⟨s', hs', hmirrors, hinput, hstate⟩ := h.mirrors.receive hup' htime hknown'
  have hbytes : ∀ conn', bytesOf conn' (events ++ [.receive conn data time]) =
      bytesOf conn' events ++ if conn = conn' then data else [] := fun conn' => by
    rw [bytesOf_append]
    simp [bytesOf]
  rw [h.input] at hmirrors hinput hstate
  obtain ⟨new, hnew, hacts⟩ : ∃ new, requests conn (bytesOf conn events ++ data) =
      requests conn (bytesOf conn events) ++ new ∧
      Mirrors s' (Board.init.acts (actions ++ new)) ∧
      (new = [] ∨ ∃ data, new = requests conn data) := by
    refine ⟨_, requests_append conn _ _, ?_⟩
    rw [Board.acts_append]
    cases hhalted : (messages.drain () (bytesOf conn events)).halted with
    | false => exact ⟨hmirrors, .inr ⟨_, rfl⟩⟩
    | true =>
      refine ⟨?_, .inl rfl⟩
      have hquiet : (Board.init.acts actions).listening conn = false := by
        rw [← Bool.not_eq_true, h.mirrors.listening, h.state]
        simp [hjoined, hstays, hhalted]
      have hsame : (Board.init.acts actions).acts
          (requests conn ((messages.drain () (bytesOf conn events)).rest ++ data)) =
          Board.init.acts actions := by
        rw [requests, hnothing hhalted, ← hhalt, Parser.drain_append_of_halted hhalted]
        simp only [hhalted, if_true, List.map_nil, List.nil_append]
        refine Board.ext rfl rfl ?_ rfl
        exact Function.update_eq_self_iff.mpr hquiet.symm
      exact hsame ▸ hmirrors
  refine ⟨s', new, hs', hacts.1, fun conn' => ?_, ?_, fun conn' => ?_, fun conn' => ?_,
    fun conn' hconn' => ?_⟩
  · rw [actionsOf_append, h.client, expected, expected, hbytes]
    by_cases hconn : conn' = conn
    · subst hconn
      have hall : actionsOf (some conn') new = new := by
        rcases hacts.2 with rfl | ⟨_, rfl⟩
        · rfl
        · rw [actionsOf_requests, if_pos rfl]
      simp [hjoined, hstays, hnew, hall]
    · have hnone : actionsOf (some conn') new = [] := by
        rcases hacts.2 with rfl | ⟨_, rfl⟩
        · rfl
        · rw [actionsOf_requests, if_neg hconn]
      simp [Ne.symm hconn, hnone]
  · have hnone : actionsOf none new = [] := by
      rcases hacts.2 with rfl | ⟨_, rfl⟩
      · rfl
      · exact actionsOf_none_requests _ _
    rw [actionsOf_append, timerActions_append, h.timer, hnone]
    rfl
  · rw [hbytes, hinput]
    by_cases hconn : conn' = conn
    · subst hconn
      rw [Function.update_self, if_pos rfl, hrest]
    · rw [Function.update_of_ne hconn, if_neg (Ne.symm hconn), List.append_nil, h.input]
  · rw [hbytes, hstate, ← hhalt]
    by_cases hconn : conn' = conn
    · subst hconn
      have hbefore := h.state conn'
      simp only [hjoined, hstays, not_true, if_false] at hbefore
      cases hhalted : (messages.drain () (bytesOf conn' events)).halted with
      | true =>
        have hstill := Parser.drain_append_of_halted hhalted data
        simp [hbefore, hjoined, hstays, hhalted, hstill]
      | false =>
        simp only [hhalted, Bool.false_eq_true, if_false] at hbefore
        simp only [hbefore, hjoined, hstays, List.mem_append, List.mem_singleton]
        split_ifs <;> simp_all
    · have hkeep : (if (messages.drain () (bytesOf conn events ++ data)).halted = true ∧
          s.state conn = .connected then Function.update s.state conn .disconnecting
          else s.state) conn' = s.state conn' := by
        split_ifs
        · exact Function.update_of_ne hconn _ _
        · rfl
      rw [hkeep, if_neg (Ne.symm hconn), List.append_nil, h.state]
      simp
  · rw [hbytes]
    have hold := h.absent conn' fun hmem => hconn' (List.mem_append_left _ hmem)
    have hne : conn ≠ conn' := by
      rintro rfl
      exact hconn' (List.mem_append_left _ hjoined)
    exact ⟨by simp [hold.1], by simp [hold.2, hne]⟩

/-- All streams of a run have known commands only, and so have those of its beginning. -/
theorem known_of_append {more : Bytes} {data : Bytes}
    (h : ∀ m ∈ (messages.drain () (data ++ more)).out, m.Known) :
    ∀ m ∈ (messages.drain () data).out, m.Known := by
  intro m hm
  refine h m ?_
  cases hhalted : (messages.drain () data).halted with
  | true => rwa [Parser.drain_append_of_halted hhalted]
  | false =>
    rw [Parser.drain_append_of_waiting hhalted]
    exact List.mem_append_left _ hm

/-- Every run is explained by some order of the actions. The induction is on the events, with the
last one split off. -/
theorem explains_run (hp : machine.Permits .init events)
    (hknown : ∀ conn, ∀ m ∈ (messages.drain () (bytesOf conn events)).out, m.Known) :
    ∃ s actions, machine.run .init events = .ok s ∧ Explains events actions s ∧
      ∀ now time, .tick now time ∈ events → OneLine now := by
  induction events using List.reverseRecOn with
  | nil => exact ⟨_, [], rfl, explains_nil, by simp⟩
  | append_singleton events e ih =>
    obtain ⟨hp, hlast⟩ := machine.permits_append.mp hp
    obtain ⟨s, actions, hs, h, hticks⟩ := ih hp fun conn => by
      have hconn := hknown conn
      rw [bytesOf_append] at hconn
      exact known_of_append hconn
    have hallows : s.Allows e := machine.permits_singleton.mp (hlast s hs)
    have hrun : machine.run .init (events ++ [e]) = machine.run s [e] := machine.run_append [e] hs
    have hticks' : (∀ now time, e ≠ .tick now time) →
        ∀ now time, .tick now time ∈ events ++ [e] → OneLine now := by
      intro hne now time hmem
      rcases List.mem_append.mp hmem with hmem | hmem
      · exact hticks now time hmem
      · exact absurd (List.mem_singleton.mp hmem).symm (hne now time)
    rw [hrun]
    cases e with
    | connect conn => exact ⟨_, _, rfl, h.connect hallows, hticks' (by simp)⟩
    | disconnect conn => exact ⟨_, _, rfl, h.disconnect hallows, hticks' (by simp)⟩
    | receive conn data time =>
      have hconn := hknown conn
      rw [bytesOf_append] at hconn
      simp only [bytesOf, List.flatMap_cons, if_true, List.flatMap_nil, List.append_nil] at hconn
      obtain ⟨s', new, hs', h'⟩ := h.receive hallows.1 hallows.2 hconn
      have hstep : machine.step s (.receive conn data time) = .ok s' := hs'
      exact ⟨s', _, machine.run_cons_ok [] hstep, h', hticks' (by simp)⟩
    | tick now time =>
      refine ⟨_, _, rfl, h.tick hallows.2, fun now' time' hmem => ?_⟩
      rcases List.mem_append.mp hmem with hmem | hmem
      · exact hticks now' time' hmem
      · cases List.mem_singleton.mp hmem
        exact hallows.1

end Runs

def Action.OneLine : Action → Prop
  | .subscribe _ topic => Hub.OneLine topic
  | .publish _ topic content => Hub.OneLine topic ∧ Hub.OneLine content
  | _ => True

/-- The contents on the board, and all that was delivered. -/
structure Board.OneLine (b : Board) : Prop where
  last : ∀ topic content, b.last topic = some content → Hub.OneLine content
  delivered : ∀ conn, ∀ m ∈ b.delivered conn, Hub.OneLine m.1 ∧ Hub.OneLine m.2

section OneLine

variable {b : Board}

theorem Board.OneLine.act (h : b.OneLine) {a : Action} (ha : a.OneLine) : (b.act a).OneLine := by
  cases a with
  | join conn => exact ⟨h.last, h.delivered⟩
  | unsubscribe conn topic => exact ⟨h.last, h.delivered⟩
  | close conn => exact ⟨h.last, h.delivered⟩
  | leave conn => exact ⟨h.last, h.delivered⟩
  | subscribe conn topic =>
    refine ⟨h.last, fun conn' m hm => ?_⟩
    by_cases hconn : conn' = conn
    · subst hconn
      simp only [Board.act, Function.update_self, List.mem_append] at hm
      rcases hm with hm | hm
      · exact h.delivered conn' m hm
      · split_ifs at hm
        · obtain ⟨content, hcontent, rfl⟩ := List.mem_map.mp hm
          exact ⟨ha, h.last topic content (Option.mem_toList.mp hcontent)⟩
        · cases hm
    · simp only [Board.act, Function.update_of_ne hconn] at hm
      exact h.delivered conn' m hm
  | publish client topic content =>
    refine ⟨fun topic' content' hlast => ?_, fun conn m hm => ?_⟩
    · by_cases htopic : topic' = topic
      · subst htopic
        simp only [Board.act, Function.update_self, Option.some.injEq] at hlast
        exact hlast ▸ ha.2
      · simp only [Board.act, Function.update_of_ne htopic] at hlast
        exact h.last topic' content' hlast
    · simp only [Board.act, List.mem_append] at hm
      rcases hm with hm | hm
      · exact h.delivered conn m hm
      · split_ifs at hm
        · rw [List.mem_singleton.mp hm]
          exact ha
        · cases hm

theorem Board.OneLine.acts (h : b.OneLine) {actions : List Action} (ha : ∀ a ∈ actions, a.OneLine) :
    (b.acts actions).OneLine := by
  induction actions generalizing b with
  | nil => exact h
  | cons a actions ih =>
    rw [List.forall_mem_cons] at ha
    exact ih (h.act ha.1) ha.2

theorem board_init_oneLine : Board.init.OneLine :=
  ⟨fun _ _ h => absurd h (by simp [Board.init]), fun _ _ h => absurd h (by simp [Board.init])⟩

theorem requests_oneLine (conn : ℕ) (data : Bytes) : ∀ a ∈ requests conn data, a.OneLine := by
  intro a ha
  rcases List.mem_append.mp ha with ha | ha
  · obtain ⟨m, hm, rfl⟩ := List.mem_map.mp ha
    have hline := messages_oneLine data m hm
    rw [Message.action]
    split_ifs
    · exact hline
    · exact hline.1
    · trivial
  · split_ifs at ha
    · rw [List.mem_singleton.mp ha]
      trivial
    · cases ha

theorem Explains.oneLine {events : List PubSubServer.Event} {actions : List Action}
    {s : PubSubServer} (h : Explains events actions s)
    (hticks : ∀ now time, .tick now time ∈ events → OneLine now) : ∀ a ∈ actions, a.OneLine := by
  intro a ha
  cases hclient : a.client with
  | some conn =>
    have hmem : a ∈ actionsOf (some conn) actions := List.mem_filter.mpr ⟨ha, by simp [hclient]⟩
    rw [h.client] at hmem
    rcases List.mem_append.mp hmem with hmem | hmem
    · rcases List.mem_append.mp hmem with hmem | hmem
      · split_ifs at hmem
        · rw [List.mem_singleton.mp hmem]
          trivial
        · cases hmem
      · exact requests_oneLine conn _ a hmem
    · split_ifs at hmem
      · rw [List.mem_singleton.mp hmem]
        trivial
      · cases hmem
  | none =>
    have hmem : a ∈ actionsOf none actions := List.mem_filter.mpr ⟨ha, by simp [hclient]⟩
    rw [h.timer] at hmem
    obtain ⟨e, he, hae⟩ := List.mem_flatMap.mp hmem
    cases e with
    | tick now time =>
      rw [List.mem_singleton.mp hae]
      exact ⟨by decide, hticks now time he⟩
    | connect conn => cases hae
    | disconnect conn => cases hae
    | receive conn data time => cases hae

end OneLine

namespace PubSubClient

def received (m : Message) : Option (Bytes × Bytes) :=
  if m.cmd = ascii "pub" then some (m.topic, m.content) else none

theorem foldl_take {c : PubSubClient} (hc : c.subscribed = true) (ms : List Message) :
    ms.foldl take c = { c with called := c.called ++ ms.filterMap received } := by
  induction ms generalizing c with
  | nil => simp
  | cons m ms ih =>
    rw [List.foldl_cons]
    by_cases hpub : m.cmd = ascii "pub"
    · have hnext : (take c m).subscribed = true := by
        rw [take, if_pos ⟨hpub, hc⟩]
        exact hc
      rw [ih hnext, take, if_pos ⟨hpub, hc⟩]
      simp [received, hpub]
    · rw [take, if_neg fun h => hpub h.1, ih hc]
      simp [received, hpub]

def behind (data : Bytes) : PubSubClient :=
  ⟨(messages.drain () data).rest, true, (messages.drain () data).out.filterMap received,
    (messages.drain () data).halted⟩

theorem onMessage_behind {data : Bytes} (h : (messages.drain () data).halted = false)
    (chunk : Bytes) : (behind data).onMessage chunk = .ok (behind (data ++ chunk)) := by
  have hloop := Parser.drain_loop (P := messages) (s := ())
    (fun fuel c _ buf => messageLoop fuel c buf) take
    (fun c _ rest halted => .ok { c with input := rest, shutdown := halted || c.shutdown })
    (fun _ => True)
    (fun fuel c _ buf hstep => by
      cases hparse : parseMessage buf with
      | kContinue => simp [messageLoop, hparse]
      | kError => exact absurd ((messages_halt hparse).symm.trans hstep) (by simp)
      | kSuccess cmd topic content n =>
        exact absurd ((messages_next hparse).symm.trans hstep) (by simp))
    (fun fuel c _ buf s' n out hstep _ => by
      cases hparse : parseMessage buf with
      | kContinue => exact absurd ((messages_wait hparse).symm.trans hstep) (by simp)
      | kError =>
        cases (messages_halt hparse).symm.trans hstep
        simp [messageLoop, hparse]
      | kSuccess cmd topic content n =>
        exact absurd ((messages_next hparse).symm.trans hstep) (by simp))
    (fun fuel c _ buf s' n out hstep _ => by
      cases hparse : parseMessage buf with
      | kContinue => exact absurd ((messages_wait hparse).symm.trans hstep) (by simp)
      | kError => exact absurd ((messages_halt hparse).symm.trans hstep) (by simp)
      | kSuccess cmd topic content n =>
        cases (messages_next hparse).symm.trans hstep
        simp [messageLoop, hparse])
    (Nat.lt_succ_self ((behind data).input ++ chunk).length) (fun _ _ => trivial) (behind data)
  refine hloop.trans ?_
  rw [foldl_take rfl, behind, behind, Parser.drain_append_of_waiting h]
  simp [h]

/-- The cuts do not matter for a client that gets messages only. -/
theorem receives {ms : List (Bytes × Bytes)} (h : ∀ m ∈ ms, OneLine m.1 ∧ OneLine m.2)
    {chunks : List Bytes} (hchunks : chunks.flatten = ms.flatMap fun m => makeMessage m.1 m.2) :
    chunks.foldlM onMessage init = .ok ⟨[], true, ms, false⟩ := by
  have hall : ∀ (chunks : List Bytes) (data : Bytes),
      (messages.drain () (data ++ chunks.flatten)).halted = false →
      chunks.foldlM onMessage (behind data) = .ok (behind (data ++ chunks.flatten)) := by
    intro chunks
    induction chunks with
    | nil => intro data _; simp
    | cons chunk chunks ih =>
      intro data hwaits
      have hnow : (messages.drain () data).halted = false := by
        rw [← Bool.not_eq_true]
        intro hhalted
        rw [Parser.drain_append_of_halted hhalted] at hwaits
        exact absurd hhalted (by simpa using hwaits)
      rw [List.flatten_cons, ← List.append_assoc] at hwaits ⊢
      rw [List.foldlM_cons, onMessage_behind hnow, ok_bind]
      exact ih (data ++ chunk) hwaits
  have hdrain := drain_makeMessages h
  have hinit : init = behind [] := by
    rw [behind, drain_messages_nil]
    rfl
  rw [hinit, hall chunks [] (by rw [List.nil_append, hchunks, hdrain]), List.nil_append, hchunks,
    behind, hdrain]
  have hcalled :
      ((ms.map fun m => (⟨ascii "pub", m.1, m.2⟩ : Message)).filterMap received) = ms := by
    rw [List.filterMap_map]
    exact List.filterMap_some
  rw [hcalled]

end PubSubClient

/-- Any number of clients, whose bytes come to the hub in pieces and in any order, with
connections that come and go and the timer in between, as long as nobody sends a command that
the hub does not know: there is an order of all requests in which those of each client stand as
it sent them, and a client that takes what the hub sends to it, in pieces again, has its callback
called with what a board delivers to it that carries out the requests in this order. -/
theorem hub_delivers (events : List PubSubServer.Event)
    (hp : PubSubServer.machine.Permits .init events)
    (hknown : ∀ conn, ∀ m ∈ (messages.drain () (bytesOf conn events)).out, m.Known) :
    ∃ s actions, PubSubServer.machine.run .init events = .ok s ∧
      (∀ conn, actionsOf (some conn) actions = expected conn events) ∧
      actionsOf none actions = timerActions events ∧
      ∀ (conn : ℕ) (chunks : List Bytes), chunks.flatten = s.sentTo conn →
        chunks.foldlM PubSubClient.onMessage .init =
          .ok ⟨[], true, (Board.init.acts actions).delivered conn, false⟩ := by
  obtain ⟨s, actions, hs, h, hticks⟩ := explains_run hp hknown
  refine ⟨s, actions, hs, h.client, h.timer, fun conn chunks hchunks => ?_⟩
  have hboard : (Board.init.acts actions).OneLine :=
    board_init_oneLine.acts (h.oneLine hticks)
  exact PubSubClient.receives (hboard.delivered conn) (hchunks.trans (h.mirrors.sent conn))

/-- One client listens to the topic to which another one publishes, in two pieces. -/
theorem hub_delivers_pair :
    let events : List PubSubServer.Event := [.connect 1, .connect 2,
      .receive 1 (ascii "sub a\r\n") 1, .receive 2 (ascii "pub a\r\nhi\r") 2, .tick (ascii "now") 3,
      .receive 2 (ascii "\n") 4]
    ∃ s actions, PubSubServer.machine.run .init events = .ok s ∧
      s.sentTo 1 = ascii "pub a\r\nhi\r\n" ∧
      [ascii "pub a\r", ascii "\nhi\r\n"].foldlM PubSubClient.onMessage .init =
        .ok ⟨[], true, (Board.init.acts actions).delivered 1, false⟩ := by
  intro events
  have hp : PubSubServer.machine.Permits .init events :=
    ⟨rfl, rfl, ⟨.inl rfl, rfl⟩, ⟨.inl rfl, rfl⟩, ⟨by decide, rfl⟩, ⟨.inl rfl, rfl⟩, trivial⟩
  have hsub : parseMessage (ascii "sub a\r\n") = .kSuccess (ascii "sub") (ascii "a") [] 7 := rfl
  have hdrain : (messages.drain () (ascii "sub a\r\n")).out = [⟨ascii "sub", ascii "a", []⟩] := by
    rw [Parser.drain_next (messages_next hsub)]
    show _ ++ (messages.drain () []).out = _
    rw [drain_messages_nil]
    rfl
  have hpub := @drain_makeMessages [(ascii "a", ascii "hi")] (by decide)
  have hknown : ∀ conn, ∀ m ∈ (messages.drain () (bytesOf conn events)).out, m.Known := by
    intro conn
    by_cases h₁ : conn = 1
    · subst h₁
      show ∀ m ∈ (messages.drain () (ascii "sub a\r\n")).out, m.Known
      rw [hdrain]
      decide
    · by_cases h₂ : conn = 2
      · subst h₂
        show ∀ m ∈ (messages.drain () (makeMessage (ascii "a") (ascii "hi") ++ [])).out, m.Known
        rw [show makeMessage (ascii "a") (ascii "hi") ++ [] =
          [(ascii "a", ascii "hi")].flatMap fun m => makeMessage m.1 m.2 from rfl, hpub]
        decide
      · have hnone : bytesOf conn events = [] := by
          simp [bytesOf, events, Ne.symm h₁, Ne.symm h₂]
        rw [hnone, drain_messages_nil]
        simp
  obtain ⟨s, actions, hs, -, -, hdelivers⟩ := hub_delivers events hp hknown
  have hsent : s.sentTo 1 = ascii "pub a\r\nhi\r\n" := by
    cases hs
    rfl
  exact ⟨s, actions, hs, hsent, hdelivers 1 _ hsent.symm⟩

end Hub
end Muduo
