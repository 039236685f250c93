import Muduo.Hub.PubSub

/-!
# The board

What the hub is for: a board with the last content of each topic and the topics of each client.
The sets that the server keeps for its topics and its connections say the same as the board.
-/

namespace Muduo
namespace Hub

open Foundations

@[ext] structure Board where
  subscribed : ℕ → Bytes → Bool
  last : Bytes → Option Bytes
  /-- the client still gets what is delivered to it -/
  listening : ℕ → Bool
  delivered : ℕ → List (Bytes × Bytes)

inductive Action
  | join (conn : ℕ)
  | subscribe (conn : ℕ) (topic : Bytes)
  | unsubscribe (conn : ℕ) (topic : Bytes)
  /-- the timer of the hub publishes without a client -/
  | publish (client : Option ℕ) (topic content : Bytes)
  | close (conn : ℕ)
  | leave (conn : ℕ)
  deriving DecidableEq

def Action.client : Action → Option ℕ
  | .join conn | .subscribe conn _ | .unsubscribe conn _ | .close conn | .leave conn => some conn
  | .publish client _ _ => client

namespace Board

def init : Board := ⟨fun _ _ => false, fun _ => none, fun _ => false, fun _ => []⟩

variable (b : Board)

def setSubscribed (conn : ℕ) (topic : Bytes) (value : Bool) : Board :=
  { b with
    subscribed := Function.update b.subscribed conn
      (Function.update (b.subscribed conn) topic value) }

def act : Action → Board
  | .join conn => { b with listening := Function.update b.listening conn true }
  | .subscribe conn topic =>
    { b.setSubscribed conn topic true with
      delivered := Function.update b.delivered conn (b.delivered conn ++
        if b.listening conn then (b.last topic).toList.map (topic, ·) else []) }
  | .unsubscribe conn topic => b.setSubscribed conn topic false
  | .publish _ topic content =>
    { b with
      last := Function.update b.last topic (some content)
      delivered := fun conn => b.delivered conn ++
        if b.listening conn && b.subscribed conn topic then [(topic, content)] else [] }
  | .close conn => { b with listening := Function.update b.listening conn false }
  | .leave conn =>
    { b with
      listening := Function.update b.listening conn false
      subscribed := Function.update b.subscribed conn fun _ => false }

def acts (actions : List Action) : Board := actions.foldl act b

theorem acts_append (actions more : List Action) :
    b.acts (actions ++ more) = (b.acts actions).acts more := List.foldl_append

end Board

structure Mirrors (s : PubSubServer) (b : Board) : Prop where
  context : ∀ conn topic, ((s.context conn).find topic).isSome = b.subscribed conn topic
  topic : ∀ topic, (s.getTopic topic).topic = topic
  audience : ∀ topic conn, conn ∈ (s.getTopic topic).audiences ↔ b.subscribed conn topic = true
  last : ∀ topic, b.last topic =
    if Timestamp.valid (s.getTopic topic).lastPubTime then some (s.getTopic topic).content else none
  listening : ∀ conn, b.listening conn = true ↔ s.state conn = .connected
  absent : ∀ conn, s.state conn = .absent → ∀ topic, b.subscribed conn topic = false
  sent : ∀ conn, s.sentTo conn = (b.delivered conn).flatMap fun m => makeMessage m.1 m.2

section Steps

variable {s : PubSubServer} {b : Board} {conn : ℕ} {topic content : Bytes} {time : Timestamp}

theorem mirrors_init : Mirrors .init .init where
  context _ _ := rfl
  topic _ := rfl
  audience _ _ := by simp [PubSubServer.init, PubSubServer.getTopic, Topic.new, Board.init]
  last _ := rfl
  listening _ := by simp [PubSubServer.init, Board.init]
  absent _ _ _ := rfl
  sent _ := rfl

@[simp] theorem getTopic_setTopic (s : PubSubServer) (topic : Bytes) (t : Topic) (k : Bytes) :
    (s.setTopic topic t).getTopic k = if k = topic then t else s.getTopic k := by
  by_cases h : k = topic
  · simp [PubSubServer.setTopic, PubSubServer.getTopic, h]
  · simp [PubSubServer.setTopic, PubSubServer.getTopic, h]

theorem sentTo_send (s : PubSubServer) (out : List (ℕ × Bytes)) (conn : ℕ) :
    (s.send out).sentTo conn = s.sentTo conn ++
      if s.state conn = .connected then (out.filter (·.1 = conn)).flatMap Prod.snd else [] := by
  simp only [PubSubServer.sentTo, PubSubServer.send, List.filter_append, List.flatMap_append,
    List.filter_filter]
  congr 1
  split_ifs with hstate
  · congr 1
    refine List.filter_congr fun m _ => ?_
    by_cases hm : m.1 = conn
    · simp [hm, hstate]
    · simp [hm]
  · rw [List.filter_eq_nil_iff.mpr, List.flatMap_nil]
    intro m _
    by_cases hm : m.1 = conn
    · simp [hm, hstate]
    · simp [hm]

theorem filter_audience (l : OrderedSet ℕ) (message : Bytes) (conn : ℕ) :
    (l.toList.map (·, message)).filter (·.1 = conn) =
      if conn ∈ l then [(conn, message)] else [] := by
  rw [List.filter_map]
  have hfilter : l.toList.filter ((fun m : ℕ × Bytes => decide (m.1 = conn)) ∘ (·, message)) =
      if conn ∈ l then [conn] else [] := by
    show l.toList.filter (· == conn) = _
    rw [List.filter_beq]
    split_ifs with hmem
    · rw [List.count_eq_one_of_mem l.nodup hmem]
      rfl
    · rw [List.count_eq_zero_of_not_mem hmem]
      rfl
  rw [hfilter]
  split_ifs <;> rfl

/-- What a topic is behind a change of the sets, and behind a publication. -/
theorem getTopic_doSubscribe (s : PubSubServer) (conn : ℕ) (topic k : Bytes) :
    (s.doSubscribe conn topic).getTopic k =
      if k = topic then ((s.getTopic topic).add conn).1 else s.getTopic k :=
  getTopic_setTopic _ topic _ k

theorem getTopic_doUnsubscribe (s : PubSubServer) (conn : ℕ) (topic k : Bytes) :
    (s.doUnsubscribe conn topic).getTopic k =
      if k = topic then (s.getTopic topic).remove conn else s.getTopic k :=
  getTopic_setTopic s topic _ k

theorem getTopic_doPublish (s : PubSubServer) (topic content : Bytes) (time : Timestamp)
    (k : Bytes) :
    (s.doPublish topic content time).getTopic k =
      if k = topic then ((s.getTopic topic).publish content time).1 else s.getTopic k :=
  getTopic_setTopic s topic _ k

theorem subscribed_setSubscribed (b : Board) (conn conn' : ℕ) (topic topic' : Bytes)
    (value : Bool) :
    (b.setSubscribed conn topic value).subscribed conn' topic' =
      if conn' = conn ∧ topic' = topic then value else b.subscribed conn' topic' := by
  by_cases hconn : conn' = conn
  · subst hconn
    by_cases htopic : topic' = topic
    · simp [Board.setSubscribed, htopic]
    · simp [Board.setSubscribed, htopic]
  · simp [Board.setSubscribed, hconn]

theorem find_doSubscribe (s : PubSubServer) (conn conn' : ℕ) (topic topic' : Bytes) :
    (((s.doSubscribe conn topic).context conn').find topic').isSome =
      if conn' = conn ∧ topic' = topic then true else ((s.context conn').find topic').isSome := by
  show (((Function.update s.context conn _) conn').find topic').isSome = _
  by_cases hconn : conn' = conn
  · subst hconn
    rw [Function.update_self, OrderedMap.find_assign]
    by_cases htopic : topic' = topic
    · simp [htopic]
    · simp [htopic]
  · simp [hconn]

theorem find_doUnsubscribe (s : PubSubServer) (conn conn' : ℕ) (topic topic' : Bytes) :
    (((s.doUnsubscribe conn topic).context conn').find topic').isSome =
      if conn' = conn ∧ topic' = topic then false else ((s.context conn').find topic').isSome := by
  show (((Function.update s.context conn _) conn').find topic').isSome = _
  by_cases hconn : conn' = conn
  · subst hconn
    rw [Function.update_self]
    show (((s.context conn').erase topic).find topic').isSome = _
    rw [OrderedMap.find_erase]
    by_cases htopic : topic' = topic
    · simp [htopic]
    · simp [htopic]
  · simp [hconn]

theorem Mirrors.subscribe (h : Mirrors s b) (hup : s.state conn ≠ .absent) (topic : Bytes) :
    Mirrors (s.doSubscribe conn topic) (b.act (.subscribe conn topic)) where
  context conn' topic' := by
    rw [find_doSubscribe, h.context]
    exact (subscribed_setSubscribed b conn conn' topic topic' true).symm
  topic topic' := by
    rw [getTopic_doSubscribe]
    split_ifs with htopic
    · exact (h.topic topic).trans htopic.symm
    · exact h.topic topic'
  audience topic' conn' := by
    show _ ↔ (b.setSubscribed conn topic true).subscribed conn' topic' = true
    rw [getTopic_doSubscribe, subscribed_setSubscribed]
    by_cases htopic : topic' = topic
    · subst htopic
      rw [if_pos rfl, Topic.add]
      simp only [OrderedSet.mem_insert, h.audience]
      by_cases hconn : conn' = conn
      · simp [hconn]
      · simp [hconn]
    · simp [htopic, h.audience]
  last topic' := by
    rw [getTopic_doSubscribe]
    by_cases htopic : topic' = topic
    · subst htopic
      rw [if_pos rfl]
      exact h.last topic'
    · rw [if_neg htopic]
      exact h.last topic'
  listening := h.listening
  absent conn' hstate topic' := by
    have hne : conn' ≠ conn := fun heq => hup (heq ▸ hstate)
    have hkeep := subscribed_setSubscribed b conn conn' topic topic' true
    rw [if_neg fun hboth => hne hboth.1] at hkeep
    exact hkeep.trans (h.absent conn' hstate topic')
  sent conn' := by
    have hout : (s.doSubscribe conn topic).sentTo conn' = s.sentTo conn' ++
        if s.state conn' = .connected then
          (((s.getTopic topic).add conn).2.filter (·.1 = conn')).flatMap Prod.snd else [] :=
      sentTo_send _ _ conn'
    have hmessage : (s.getTopic topic).makeMessage =
        makeMessage topic (s.getTopic topic).content := by
      rw [Topic.makeMessage, h.topic]
    rw [hout, h.sent]
    by_cases hconn : conn' = conn
    · subst hconn
      simp only [Board.act, Function.update_self, List.flatMap_append, h.last, Topic.add, hmessage,
        h.listening]
      split_ifs <;> simp
    · have hnone :
          (((s.getTopic topic).add conn).2.filter (·.1 = conn')).flatMap Prod.snd = [] := by
        simp only [Topic.add]
        split_ifs
        · simp [Ne.symm hconn]
        · rfl
      simp [Board.act, hconn, hnone]

theorem Mirrors.unsubscribe (h : Mirrors s b) (conn : ℕ) (topic : Bytes) :
    Mirrors (s.doUnsubscribe conn topic) (b.act (.unsubscribe conn topic)) where
  context conn' topic' := by
    rw [find_doUnsubscribe, h.context]
    exact (subscribed_setSubscribed b conn conn' topic topic' false).symm
  topic topic' := by
    rw [getTopic_doUnsubscribe]
    split_ifs with htopic
    · exact (h.topic topic).trans htopic.symm
    · exact h.topic topic'
  audience topic' conn' := by
    show _ ↔ (b.setSubscribed conn topic false).subscribed conn' topic' = true
    rw [getTopic_doUnsubscribe, subscribed_setSubscribed]
    by_cases htopic : topic' = topic
    · subst htopic
      rw [if_pos rfl, Topic.remove]
      simp only [OrderedSet.mem_erase, h.audience]
      by_cases hconn : conn' = conn
      · simp [hconn]
      · simp [hconn]
    · simp [htopic, h.audience]
  last topic' := by
    rw [getTopic_doUnsubscribe]
    by_cases htopic : topic' = topic
    · subst htopic
      rw [if_pos rfl]
      exact h.last topic'
    · rw [if_neg htopic]
      exact h.last topic'
  listening := h.listening
  absent conn' hstate topic' := by
    have hkeep := subscribed_setSubscribed b conn conn' topic topic' false
    rw [h.absent conn' hstate topic', ite_self] at hkeep
    exact hkeep
  sent := h.sent

theorem Mirrors.publish (h : Mirrors s b) (htime : Timestamp.valid time = true)
    (client : Option ℕ) (topic content : Bytes) :
    Mirrors (s.doPublish topic content time) (b.act (.publish client topic content)) where
  context := h.context
  topic topic' := by
    rw [getTopic_doPublish]
    split_ifs with htopic
    · exact (h.topic topic).trans htopic.symm
    · exact h.topic topic'
  audience topic' conn' := by
    rw [getTopic_doPublish]
    split_ifs with htopic
    · subst htopic
      exact h.audience topic' conn'
    · exact h.audience topic' conn'
  last topic' := by
    rw [getTopic_doPublish]
    by_cases htopic : topic' = topic
    · subst htopic
      simp [Board.act, Topic.publish, htime]
    · simpa [Board.act, htopic] using h.last topic'
  listening := h.listening
  absent := h.absent
  sent conn' := by
    have hout : (s.doPublish topic content time).sentTo conn' = s.sentTo conn' ++
        if s.state conn' = .connected then
          (((s.getTopic topic).publish content time).2.filter (·.1 = conn')).flatMap Prod.snd
        else [] :=
      sentTo_send _ _ conn'
    rw [hout, h.sent]
    simp only [Topic.publish, filter_audience, h.audience, Topic.makeMessage, h.topic, Board.act,
      List.flatMap_append, Bool.and_eq_true, h.listening]
    by_cases hstate : s.state conn' = .connected
    · by_cases hsub : b.subscribed conn' topic = true
      · simp [hstate, hsub]
      · simp [hstate, hsub]
    · simp [hstate]

theorem Mirrors.shutdown (h : Mirrors s b) (conn : ℕ) :
    Mirrors (s.shutdown conn) (b.act (.close conn)) := by
  have hlistening : ∀ conn', (b.act (.close conn)).listening conn' = true ↔
      conn' ≠ conn ∧ s.state conn' = .connected := by
    intro conn'
    by_cases hconn : conn' = conn
    · simp [Board.act, hconn]
    · simp [Board.act, hconn, h.listening]
  rw [PubSubServer.shutdown]
  split_ifs with hstate
  · refine ⟨h.context, h.topic, h.audience, h.last, fun conn' => ?_, fun conn' hconn' => ?_, h.sent⟩
    · rw [hlistening]
      by_cases hconn : conn' = conn
      · simp [hconn]
      · simp [hconn]
    · refine h.absent conn' ?_
      by_cases hconn : conn' = conn
      · simp [hconn] at hconn'
      · simpa [hconn] using hconn'
  · refine ⟨h.context, h.topic, h.audience, h.last, fun conn' => ?_, h.absent, h.sent⟩
    rw [hlistening]
    constructor
    · exact And.right
    · exact fun hconn' => ⟨fun heq => hstate (heq ▸ hconn'), hconn'⟩

theorem Mirrors.connect (h : Mirrors s b) (hstate : s.state conn = .absent) :
    Mirrors (s.connect conn) (b.act (.join conn)) where
  context conn' topic := by
    show (((Function.update s.context conn _) conn').find topic).isSome = b.subscribed conn' topic
    by_cases hconn : conn' = conn
    · subst hconn
      simp [h.absent conn' hstate]
    · rw [Function.update_of_ne hconn, h.context]
  topic := h.topic
  audience := h.audience
  last := h.last
  listening conn' := by
    by_cases hconn : conn' = conn
    · simp [Board.act, PubSubServer.connect, hconn]
    · simp [Board.act, PubSubServer.connect, hconn, h.listening]
  absent conn' hconn' := by
    refine h.absent conn' ?_
    by_cases hconn : conn' = conn
    · simp [PubSubServer.connect, hconn] at hconn'
    · simpa [PubSubServer.connect, hconn] using hconn'
  sent := h.sent

theorem Mirrors.unsubscribeAll (h : Mirrors s b) (conn : ℕ) (topics : List Bytes) :
    Mirrors (topics.foldl (fun s topic => s.doUnsubscribe conn topic) s)
      { b with
        subscribed := Function.update b.subscribed conn fun topic =>
          b.subscribed conn topic && !topics.contains topic } := by
  induction topics generalizing s b with
  | nil => simpa using h
  | cons topic topics ih =>
    have hrest := ih (h.unsubscribe conn topic)
    rw [List.foldl_cons]
    have hboard : ({ b.act (.unsubscribe conn topic) with
        subscribed :=
          Function.update (b.act (.unsubscribe conn topic)).subscribed conn fun topic' =>
            (b.act (.unsubscribe conn topic)).subscribed conn topic' && !topics.contains topic' } :
        Board) = { b with
        subscribed := Function.update b.subscribed conn fun topic' =>
          b.subscribed conn topic' && !(topic :: topics).contains topic' } := by
      refine Board.ext (funext fun conn' => funext fun topic' => ?_) rfl rfl rfl
      by_cases hconn : conn' = conn
      · subst hconn
        by_cases htopic : topic' = topic
        · simp [Board.act, Board.setSubscribed, htopic]
        · simp [Board.act, Board.setSubscribed, htopic]
      · simp [Board.act, Board.setSubscribed, hconn]
    exact hboard ▸ hrest

theorem Mirrors.disconnect (h : Mirrors s b) (conn : ℕ) :
    Mirrors (s.disconnect conn) (b.act (.leave conn)) := by
  have hclosed : Mirrors { s with state := Function.update s.state conn .disconnected }
      (b.act (.close conn)) := by
    refine ⟨h.context, h.topic, h.audience, h.last, fun conn' => ?_, fun conn' hconn' => ?_, h.sent⟩
    · by_cases hconn : conn' = conn
      · simp [Board.act, hconn]
      · simp [Board.act, hconn, h.listening]
    · refine h.absent conn' ?_
      by_cases hconn : conn' = conn
      · simp [hconn] at hconn'
      · simpa [hconn] using hconn'
  have hall := hclosed.unsubscribeAll conn ((s.context conn).entries.map Prod.fst)
  rw [List.foldl_map] at hall
  have hboard : ({ b.act (.close conn) with
      subscribed := Function.update b.subscribed conn fun topic =>
        b.subscribed conn topic && !((s.context conn).entries.map Prod.fst).contains topic } :
      Board) = b.act (.leave conn) := by
    refine Board.ext (funext fun conn' => funext fun topic => ?_) rfl rfl rfl
    by_cases hconn : conn' = conn
    · subst hconn
      simp only [Function.update_self, Board.act, Bool.and_eq_false_iff, Bool.not_eq_false',
        List.contains_iff_mem, List.mem_map]
      by_cases hsub : b.subscribed conn' topic = true
      · rw [← h.context, Option.isSome_iff_exists] at hsub
        obtain ⟨value, hvalue⟩ := hsub
        exact .inr ⟨(topic, value), OrderedMap.mem_entries_of_find hvalue, rfl⟩
      · exact .inl (Bool.eq_false_iff.mpr hsub)
    · simp [Board.act, hconn]
  exact hboard ▸ hall

end Steps

end Hub
end Muduo
