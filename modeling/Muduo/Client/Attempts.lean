import Muduo.Foundations.Guards
import Muduo.Connection.Lifecycle
import Muduo.Client.Connector

/-!
# Attempts

A connector in its loop: requests on the loop's thread and on others, retry timers that
expire at any later time, functors in the order in which they were queued, and reports
of the poller, which are handled before the functors run.

A connection that was handed out is removed when it ends, and `TcpClient` may then ask
for a restart. The end is seen by a later poll or by a functor, both behind
`resetChannel`.
-/

namespace Muduo

open Foundations

namespace Connector

variable {c c' : Connector}

/-- The answers of `connect` behind which the attempt goes on. -/
def begins : Option ConnectErrno → Bool
  | none | some .EINPROGRESS | some .EINTR | some .EISCONN => true
  | _ => false

def inProgress (c : Connector) : Option ℕ :=
  if c.state = .kConnecting then c.channel.map ConnectorChannel.fd else none

/-- A channel outside of an attempt was taken from the poller and waits for
`resetChannel`. -/
structure Detached (c : Connector) : Prop where
  removed : ∀ channel, c.channel = some channel → channel.channel.addedToLoop = false
  resets : c.pendingFunctors.count .resetChannel = if c.channel.isSome then 1 else 0

/-- All sockets but one were closed or handed out. -/
structure Holds (c : Connector) (sockfd : ℕ) : Prop where
  detached : c.Detached
  sockets : (sockfd :: (c.closed ++ c.handed)).Perm (List.range c.created)

/-- All sockets were closed or handed out. -/
structure Settled (c : Connector) : Prop where
  detached : c.Detached
  sockets : (c.closed ++ c.handed).Perm (List.range c.created)

/-- One socket is with the channel, which is registered. -/
structure Attached (c : Connector) (channel : ConnectorChannel) : Prop where
  owner : c.channel = some channel
  registered : channel.channel.addedToLoop = true
  resets : c.pendingFunctors.count .resetChannel = 0
  sockets : (channel.fd :: (c.closed ++ c.handed)).Perm (List.range c.created)

/-- An attempt is in progress exactly in the state for it. -/
def Sound (c : Connector) : Prop :=
  c.state ≠ .kConnecting ∧ c.Settled ∨ c.state = .kConnecting ∧ ∃ channel, c.Attached channel

theorem sound_init : init.Sound :=
  .inl ⟨by simp [init], ⟨by simp [init], rfl⟩, .refl _⟩

theorem Settled.create (h : c.Settled) : Holds { c with created := c.created + 1 } c.created := by
  refine ⟨⟨h.detached.removed, h.detached.resets⟩, ?_⟩
  rw [List.range_succ]
  exact (h.sockets.cons _).trans (List.perm_append_singleton _ _).symm

theorem Holds.close {sockfd : ℕ} (h : c.Holds sockfd) : (c.close sockfd).Settled := by
  refine ⟨⟨h.detached.removed, h.detached.resets⟩, ?_⟩
  simpa using List.perm_middle.trans h.sockets

theorem Holds.newConnectionCallback {sockfd : ℕ} (h : c.Holds sockfd) :
    (c.newConnectionCallback sockfd).Settled := by
  refine ⟨⟨h.detached.removed, h.detached.resets⟩, ?_⟩
  rw [newConnectionCallback_closed, newConnectionCallback_handed, ← List.append_assoc]
  exact (List.perm_append_singleton _ _).trans h.sockets

theorem retry_state (sockfd : ℕ) : (c.retry sockfd).state = .kDisconnected := by
  unfold retry
  dsimp only
  split_ifs <;> rfl

theorem retry_handed (sockfd : ℕ) : (c.retry sockfd).handed = c.handed := by
  unfold retry
  dsimp only
  split_ifs <;> rfl

theorem Holds.retry {sockfd : ℕ} (h : c.Holds sockfd) : (c.retry sockfd).Settled := by
  obtain ⟨⟨hremoved, hresets⟩, hsockets⟩ := h.close
  unfold Connector.retry
  dsimp only
  split_ifs <;> exact ⟨⟨hremoved, hresets⟩, hsockets⟩

theorem Holds.connecting {sockfd : ℕ} (h : c.Holds sockfd) (hnone : c.channel = none) :
    ∃ c', c.connecting sockfd = .ok c' ∧ c'.Sound ∧ c'.state = .kConnecting := by
  have hresets := h.detached.resets
  rw [hnone] at hresets
  rw [Connector.connecting, assertThat_pos (by simp [hnone])]
  exact ⟨_, rfl, .inr ⟨rfl, _, rfl, rfl, hresets, h.sockets⟩, rfl⟩

theorem connecting_of_ne {sockfd : ℕ} (h : c.channel ≠ none) :
    c.connecting sockfd = .error .assertion := by
  rw [Connector.connecting, assertThat_neg (by simpa using h)]
  rfl

theorem Settled.connect (h : c.Settled) (hs : c.state = .kDisconnected)
    {savedErrno : Option ConnectErrno} (hnone : begins savedErrno = true → c.channel = none) :
    ∃ c', c.connect savedErrno = .ok c' ∧ c'.Sound ∧ c'.state ≠ .kConnected := by
  have hbegin := h.create.connecting
  have hretry := h.create.retry
  have hclose := h.create.close
  have hfails : ∃ c', (Except.ok ({ c with created := c.created + 1 }.retry c.created) :
      Except Fault Connector) = .ok c' ∧ c'.Sound ∧ c'.state ≠ .kConnected :=
    ⟨_, rfl, .inl ⟨by simp [retry_state], hretry⟩, by simp [retry_state]⟩
  have hgivesUp : ∃ c', (Except.ok ({ c with created := c.created + 1 }.close c.created) :
      Except Fault Connector) = .ok c' ∧ c'.Sound ∧ c'.state ≠ .kConnected :=
    ⟨_, rfl, .inl ⟨by simp [hs], hclose⟩, by simp [hs]⟩
  have hgoesOn (hb : begins savedErrno = true) : ∃ c',
      { c with created := c.created + 1 }.connecting c.created = .ok c' ∧ c'.Sound ∧
        c'.state ≠ .kConnected := by
    obtain ⟨c', hc', hsound, hstate⟩ := hbegin (hnone hb)
    exact ⟨c', hc', hsound, by simp [hstate]⟩
  unfold Connector.connect
  dsimp only
  split <;> first | exact hgoesOn rfl | exact hfails | exact hgivesUp

/-- When `startInLoop` meets its assertion and the one in `connecting`. -/
def MayStart (c : Connector) (savedErrno : Option ConnectErrno) : Prop :=
  c.state = .kDisconnected ∧
    (c.wanted = true → begins savedErrno = true → c.channel = none)

theorem Sound.settled (h : c.Sound) (hs : c.state ≠ .kConnecting) : c.Settled := by
  obtain ⟨-, hsettled⟩ | ⟨hconnecting, -⟩ := h
  · exact hsettled
  · exact absurd hconnecting hs

theorem Sound.attached (h : c.Sound) (hs : c.state = .kConnecting) :
    ∃ channel, c.Attached channel := by
  obtain ⟨hne, -⟩ | ⟨-, hattached⟩ := h
  · exact absurd hs hne
  · exact hattached

theorem Sound.startInLoop (h : c.Sound) {savedErrno : Option ConnectErrno}
    (hmay : c.MayStart savedErrno) :
    ∃ c', c.startInLoop savedErrno = .ok c' ∧ c'.Sound ∧ c'.state ≠ .kConnected := by
  obtain ⟨hs, hnone⟩ := hmay
  rw [Connector.startInLoop, assertThat_pos hs, ok_bind]
  split_ifs with hwanted
  · exact (h.settled (by simp [hs])).connect hs (hnone hwanted)
  · exact ⟨c, rfl, h, by simp [hs]⟩

theorem startInLoop_fails {savedErrno : Option ConnectErrno} (h : ¬ c.MayStart savedErrno) :
    c.startInLoop savedErrno = .error .assertion := by
  by_cases hs : c.state = .kDisconnected
  · obtain ⟨hwanted, hbegins, hchannel⟩ : c.wanted = true ∧ begins savedErrno = true ∧
        c.channel ≠ none := by
      simpa [MayStart, hs] using h
    rw [Connector.startInLoop, assertThat_pos hs, ok_bind, if_pos hwanted]
    unfold Connector.connect
    dsimp only
    split <;> first | exact connecting_of_ne hchannel | cases hbegins
  · rw [Connector.startInLoop, assertThat_neg hs]
    rfl

theorem Attached.remove {channel : ConnectorChannel} (h : c.Attached channel) :
    ∃ c', c.removeAndResetChannel = .ok (channel.fd, c') ∧ c'.Holds channel.fd ∧
      c'.handed = c.handed := by
  rw [removeAndResetChannel, h.owner]
  refine ⟨_, rfl, ⟨⟨?_, ?_⟩, h.sockets⟩, rfl⟩
  · intro channel' hchannel'
    cases hchannel'
    rfl
  · simp [List.count_append, h.resets]

theorem Attached.stop {channel : ConnectorChannel} (h : c.Attached channel)
    (hs : c.state = .kConnecting) :
    ∃ c', c.stopInLoop = .ok c' ∧ c'.Settled ∧ c'.state = .kDisconnected := by
  have hset : (c.setState .kDisconnected).Attached channel :=
    ⟨h.owner, h.registered, h.resets, h.sockets⟩
  obtain ⟨c₁, hc₁, hholds, -⟩ := hset.remove
  rw [stopInLoop, if_pos hs, hc₁]
  exact ⟨_, rfl, hholds.retry, retry_state _⟩

theorem Attached.handleError {channel : ConnectorChannel} (h : c.Attached channel)
    (hs : c.state = .kConnecting) :
    ∃ c', c.handleError = .ok c' ∧ c'.Settled ∧ c'.state = .kDisconnected ∧
      c'.handed = c.handed := by
  obtain ⟨c₁, hc₁, hholds, hhanded⟩ := h.remove
  rw [Connector.handleError, if_pos hs, hc₁]
  exact ⟨_, rfl, hholds.retry, retry_state _, (retry_handed _).trans hhanded⟩

theorem Attached.handleWrite {channel : ConnectorChannel} (h : c.Attached channel)
    (hs : c.state = .kConnecting) (err isSelfConnect : Bool) :
    ∃ c', c.handleWrite err isSelfConnect = .ok c' ∧ c'.Settled ∧
      (c'.state = .kDisconnected ∧ c'.handed = c.handed ∧ (err || isSelfConnect) = true ∨
        c'.state = .kConnected ∧ (err || isSelfConnect) = false) := by
  obtain ⟨c₁, hc₁, hholds, hhanded⟩ := h.remove
  rw [Connector.handleWrite, if_pos hs, hc₁, ok_bind]
  dsimp only
  have hconnected : (c₁.setState .kConnected).Holds channel.fd :=
    ⟨⟨hholds.detached.removed, hholds.detached.resets⟩, hholds.sockets⟩
  have hretry : ((c₁.retry channel.fd).state = .kDisconnected ∧
      (c₁.retry channel.fd).handed = c.handed) :=
    ⟨retry_state _, (retry_handed _).trans hhanded⟩
  cases err with
  | true => exact ⟨_, rfl, hholds.retry, .inl ⟨hretry.1, hretry.2, rfl⟩⟩
  | false =>
    cases isSelfConnect with
    | true => exact ⟨_, rfl, hholds.retry, .inl ⟨hretry.1, hretry.2, rfl⟩⟩
    | false =>
      simp only [Bool.false_eq_true, if_false]
      split_ifs
      · exact ⟨_, rfl, hconnected.newConnectionCallback, .inr ⟨rfl, rfl⟩⟩
      · exact ⟨_, rfl, hconnected.close, .inr ⟨rfl, rfl⟩⟩

def runCallbacks (err isSelfConnect : Bool) :
    Connector → List ChannelCallback → Except Fault Connector
  | c, [] => .ok c
  | c, k :: ks => do
    let c ← c.runCallback err isSelfConnect k
    runCallbacks err isSelfConnect c ks

def handleEvent (c : Connector) (revents : PollEvents) (err isSelfConnect : Bool) :
    Except Fault Connector :=
  runCallbacks err isSelfConnect c (Channel.handleEventWithGuard revents)

/-- The attempt is reported as done, and without an error. -/
def succeeds (revents : PollEvents) (err isSelfConnect : Bool) : Bool :=
  revents.pollOut && !(revents.pollErr || revents.pollNval) && !(err || isSelfConnect)

theorem handleEvent_eq (revents : PollEvents) (err isSelfConnect : Bool) :
    c.handleEvent revents err isSelfConnect = (do
      let c ← if revents.pollErr || revents.pollNval then c.handleError else .ok c
      if revents.pollOut then c.handleWrite err isSelfConnect else .ok c) := by
  have hlast (x : Except Fault Connector) : (x >>= fun c => .ok c) = x := bind_pure x
  unfold handleEvent Channel.handleEventWithGuard
  generalize (revents.pollHup && !revents.pollIn) = close
  generalize (revents.pollErr || revents.pollNval) = error
  generalize (revents.pollIn || revents.pollPri || revents.pollRdHup) = read
  generalize revents.pollOut = write
  cases close <;> cases error <;> cases read <;> cases write <;>
    simp [runCallbacks, runCallback, hlast]

theorem Attached.handleEvent {channel : ConnectorChannel} (h : c.Attached channel)
    (hs : c.state = .kConnecting) (revents : PollEvents) (err isSelfConnect : Bool) :
    ∃ c', c.handleEvent revents err isSelfConnect = .ok c' ∧ c'.Sound ∧
      (c'.state = .kConnected ↔ succeeds revents err isSelfConnect = true) ∧
      (c'.state ≠ .kConnected → c'.handed = c.handed) := by
  rw [handleEvent_eq]
  unfold succeeds
  cases herror : revents.pollErr || revents.pollNval with
  | true =>
    obtain ⟨c₁, hc₁, hsettled, hdisconnected, hhanded⟩ := h.handleError hs
    have hwrite : c₁.handleWrite err isSelfConnect = .ok c₁ := by
      simp [Connector.handleWrite, hdisconnected]
    have hboth : (if revents.pollOut then c₁.handleWrite err isSelfConnect else .ok c₁) =
        .ok c₁ := by
      split_ifs
      · exact hwrite
      · rfl
    refine ⟨c₁, ?_, .inl ⟨by simp [hdisconnected], hsettled⟩, by simp [hdisconnected],
      fun _ => hhanded⟩
    rw [if_pos rfl, hc₁, ok_bind]
    exact hboth
  | false =>
    cases hout : revents.pollOut with
    | true =>
      obtain ⟨c₁, hc₁, hsettled, hstate⟩ := h.handleWrite hs err isSelfConnect
      refine ⟨c₁, by simpa using hc₁, .inl ⟨?_, hsettled⟩, ?_⟩
      · obtain ⟨hstate, -⟩ | ⟨hstate, -⟩ := hstate <;> simp [hstate]
      · obtain ⟨hstate, hhanded, hfails⟩ | ⟨hstate, hsucceeds⟩ := hstate
        · exact ⟨by simp [hstate, hfails], fun _ => hhanded⟩
        · exact ⟨by simp [hstate, hsucceeds], fun hne => absurd hstate hne⟩
    | false => exact ⟨c, rfl, .inr ⟨hs, channel, h⟩, by simp [hs], fun _ => rfl⟩

theorem Sound.congr (h : c.Sound) (hstate : c'.state = c.state) (hchannel : c'.channel = c.channel)
    (hresets : c'.pendingFunctors.count .resetChannel = c.pendingFunctors.count .resetChannel)
    (hclosed : c'.closed = c.closed) (hhanded : c'.handed = c.handed)
    (hcreated : c'.created = c.created) : c'.Sound := by
  obtain ⟨hne, ⟨hremoved, hcount⟩, hsockets⟩ | ⟨hs, channel, howner, hreg, hcount, hsockets⟩ := h
  · refine .inl ⟨by rwa [hstate], ⟨by rwa [hchannel], ?_⟩, ?_⟩
    · rw [hresets, hchannel, hcount]
    · rwa [hclosed, hhanded, hcreated]
  · refine .inr ⟨hstate.trans hs, channel, hchannel.trans howner, hreg, hresets.trans hcount, ?_⟩
    rwa [hclosed, hhanded, hcreated]

theorem Sound.sockets (h : c.Sound) :
    (c.inProgress.toList ++ (c.closed ++ c.handed)).Perm (List.range c.created) := by
  obtain ⟨hne, hsettled⟩ | ⟨hs, channel, hattached⟩ := h
  · simpa [inProgress, hne] using hsettled.sockets
  · simpa [inProgress, hs, hattached.owner] using hattached.sockets

theorem Sound.resetChannel (h : c.Sound) {rest : List ConnectorFunctor}
    (hp : c.pendingFunctors = .resetChannel :: rest) :
    ∃ c', { c with pendingFunctors := rest }.resetChannel = .ok c' ∧ c'.Sound ∧
      c'.state = c.state := by
  obtain ⟨hne, hdetached, hsockets⟩ | ⟨-, channel, hattached⟩ := h
  · have hresets := hdetached.resets
    rw [hp, List.count_cons_self] at hresets
    cases hchannel : c.channel with
    | none =>
      rw [hchannel] at hresets
      simp at hresets
    | some channel =>
      rw [hchannel] at hresets
      have hrest : rest.count .resetChannel = 0 := by simpa using hresets
      have hremoved := hdetached.removed channel hchannel
      simp only [Connector.resetChannel, assertThat_pos hremoved, ok_bind]
      refine ⟨_, rfl, .inl ⟨hne, ⟨?_, ?_⟩, hsockets⟩, rfl⟩
      · intro channel' hchannel'
        cases hchannel'
      · simpa using hrest
  · have hresets := hattached.resets
    rw [hp, List.count_cons_self] at hresets
    cases hresets

end Connector

/-- A connector and what its loop and its owner keep for it. -/
structure ConnectorLoop where
  connector : Connector
  /-- reported by the poller and not handled yet -/
  active : Option PollEvents
  /-- the connection that was handed out last has not been removed -/
  live : Bool
  /-- the last attempt was successful, and no restart followed -/
  succeeded : Bool

inductive ConnectorStep where
  /-- on the loop's thread -/
  | start (savedErrno : Option ConnectErrno)
  | foreignStart
  | stop
  /-- the connection ends, and `TcpClient` wants another one or not -/
  | restart (savedErrno : Option ConnectErrno)
  | removeConnection
  | poll (revents : PollEvents)
  | handleEvent (err isSelfConnect : Bool)
  | runFunctor (savedErrno : Option ConnectErrno)
  | expire (i : ℕ) (savedErrno : Option ConnectErrno)
  deriving DecidableEq

namespace ConnectorLoop

def init : ConnectorLoop where
  connector := .init
  active := none
  live := false
  succeeded := false

variable (w : ConnectorLoop)

@[simps] def set (c : Connector) : ConnectorLoop := { w with connector := c }

def step : ConnectorStep → Except Fault ConnectorLoop
  | .start savedErrno => do
    let c ← w.connector.start savedErrno
    return w.set c
  | .foreignStart => return w.set w.connector.foreignStart
  | .stop => return w.set w.connector.stop
  | .restart savedErrno => do
    let c ← w.connector.restart savedErrno
    return { w.set c with live := false, succeeded := false }
  | .removeConnection => return { w with live := false }
  | .poll revents => return { w with active := some revents }
  | .handleEvent err isSelfConnect =>
    match w.active with
    | none => return w
    | some revents => do
      let c ← w.connector.handleEvent revents err isSelfConnect
      return {
        connector := c
        active := none
        live := w.live || decide (w.connector.handed.length < c.handed.length)
        succeeded := w.succeeded || Connector.succeeds revents err isSelfConnect }
  | .runFunctor savedErrno =>
    match w.connector.pendingFunctors with
    | [] => return w
    | f :: fs => do
      let c ← { w.connector with pendingFunctors := fs }.runFunctor savedErrno f
      return w.set c
  | .expire i savedErrno => do
    let c ← w.connector.expire i savedErrno
    return w.set c

def Allows : ConnectorStep → Prop
  | .start _ | .foreignStart | .stop => True
  | .restart _ | .removeConnection =>
    w.live = true ∧ .resetChannel ∉ w.connector.pendingFunctors
  | .poll revents => w.active = none ∧
      ∃ channel ∈ w.connector.channel, channel.channel.addedToLoop = true ∧
        TcpConnection.Reportable channel.channel.events revents
  | .handleEvent _ _ => w.active.isSome = true
  | .runFunctor _ => w.active = none ∧ w.connector.pendingFunctors ≠ []
  | .expire i _ => i < w.connector.timers.length

instance : (a : ConnectorStep) → Decidable (w.Allows a)
  | .start _ | .foreignStart | .stop => .isTrue trivial
  | .restart _ | .removeConnection => inferInstanceAs (Decidable (w.live = true ∧ _))
  | .poll _ => inferInstanceAs (Decidable (w.active = none ∧ _))
  | .handleEvent _ _ => inferInstanceAs (Decidable (w.active.isSome = true))
  | .runFunctor _ => inferInstanceAs (Decidable (w.active = none ∧ _ ≠ []))
  | .expire i _ => inferInstanceAs (Decidable (i < w.connector.timers.length))

def machine : Machine ConnectorLoop ConnectorStep Fault where
  Allows w a := w.Allows a
  step w a := w.step a

instance (a : ConnectorStep) : Decidable (machine.Allows w a) :=
  inferInstanceAs (Decidable (w.Allows a))

/-- Every socket was closed or handed out, and the last attempt was not successful. -/
def Idle : Prop :=
  (∀ n < w.connector.created, n ∈ w.connector.closed ∨ n ∈ w.connector.handed) ∧
    w.succeeded = false

/-- Nobody asks for an attempt while there is one or behind one that was successful, and
the channel of the last one is gone when the next one begins. -/
def Timely : ConnectorStep → Prop
  | .start savedErrno => w.Idle ∧
      (Connector.begins savedErrno = true → .resetChannel ∉ w.connector.pendingFunctors)
  | .expire _ savedErrno => w.Idle ∧ (w.connector.wanted = true →
      Connector.begins savedErrno = true → .resetChannel ∉ w.connector.pendingFunctors)
  | .runFunctor savedErrno => w.connector.pendingFunctors.head? = some .startInLoop →
      w.Idle ∧ (w.connector.wanted = true → Connector.begins savedErrno = true →
        .resetChannel ∉ w.connector.pendingFunctors)
  | _ => True

instance : Decidable w.Idle := inferInstanceAs (Decidable (_ ∧ _))

instance : (a : ConnectorStep) → Decidable (w.Timely a)
  | .start _ => inferInstanceAs (Decidable (w.Idle ∧ _))
  | .expire _ _ => inferInstanceAs (Decidable (w.Idle ∧ _))
  | .runFunctor _ => inferInstanceAs (Decidable (_ → w.Idle ∧ _))
  | .foreignStart | .stop | .restart _ | .removeConnection | .poll _ | .handleEvent _ _ =>
    .isTrue trivial

instance (a : ConnectorStep) : Decidable ((machine.restrict Timely).Allows w a) :=
  inferInstanceAs (Decidable (w.Allows a ∧ w.Timely a))

structure Sound (w : ConnectorLoop) : Prop where
  connector : w.connector.Sound
  connected : w.connector.state = .kConnected ↔ w.succeeded = true
  live : w.live = true → w.connector.state = .kConnected
  active : ∀ revents, w.active = some revents → w.connector.state = .kConnecting

variable {w} {w' : ConnectorLoop} {savedErrno : Option ConnectErrno}

theorem sound_init : init.Sound :=
  ⟨Connector.sound_init, by simp [init, Connector.init], by simp [init], by simp [init]⟩

/-- What is seen of the sockets and of the last attempt tells the state. -/
theorem Sound.idle_iff (h : w.Sound) : w.Idle ↔ w.connector.state = .kDisconnected := by
  obtain ⟨hne, hsettled⟩ | ⟨hs, channel, hattached⟩ := h.connector
  · have hall : ∀ n < w.connector.created, n ∈ w.connector.closed ∨ n ∈ w.connector.handed := by
      intro n hn
      exact List.mem_append.mp (hsettled.sockets.mem_iff.mpr (List.mem_range.mpr hn))
    have hconnected := h.connected
    cases hs : w.connector.state with
    | kConnecting => exact absurd hs hne
    | kDisconnected =>
      have hnot : w.succeeded = false := by
        by_contra hsucceeded
        have := hconnected.mpr (by simpa using hsucceeded)
        cases hs.symm.trans this
      exact iff_of_true ⟨hall, hnot⟩ rfl
    | kConnected =>
      refine iff_of_false (fun hidle => ?_) (by simp)
      have := hconnected.mp hs
      rw [hidle.2] at this
      cases this
  · refine iff_of_false (fun hidle => ?_) (by simp [hs])
    have hcreated : channel.fd < w.connector.created :=
      List.mem_range.mp (hattached.sockets.mem_iff.mp List.mem_cons_self)
    have hnodup := hattached.sockets.nodup_iff.mpr List.nodup_range
    exact (List.nodup_cons.mp hnodup).1 (List.mem_append.mpr (hidle.1 _ hcreated))

theorem Sound.reset_iff (h : w.Sound) (hs : w.connector.state ≠ .kConnecting) :
    .resetChannel ∉ w.connector.pendingFunctors ↔ w.connector.channel = none := by
  rw [← List.count_eq_zero, (h.connector.settled hs).detached.resets]
  cases w.connector.channel <;> simp

theorem Sound.mayStart_iff (h : w.Sound) (wanted : Bool) (savedErrno : Option ConnectErrno) :
    (w.Idle ∧ (wanted = true → Connector.begins savedErrno = true →
        .resetChannel ∉ w.connector.pendingFunctors)) ↔
      Connector.MayStart { w.connector with wanted := wanted } savedErrno := by
  rw [h.idle_iff, Connector.MayStart]
  constructor
  · rintro ⟨hs, hnone⟩
    exact ⟨hs, fun hw hb => (h.reset_iff (by simp [hs])).mp (hnone hw hb)⟩
  · rintro ⟨hs, hnone⟩
    have hs : w.connector.state = .kDisconnected := hs
    exact ⟨hs, fun hw hb => (h.reset_iff (by simp [hs])).mpr (hnone hw hb)⟩

theorem Sound.same (h : w.Sound) {c' : Connector} (hc' : c'.Sound)
    (hs : c'.state = w.connector.state) : (w.set c').Sound :=
  ⟨hc', by rw [set_connector, hs]; exact h.connected, fun hl => hs.trans (h.live hl),
    fun revents hr => hs.trans (h.active revents hr)⟩

/-- The connector goes on, away from the state in which it is connected. -/
theorem Sound.moved (h : w.Sound) (hs : w.connector.state ≠ .kConnected) (hactive : w.active = none)
    {c' : Connector} (hc' : c'.Sound) (hs' : c'.state ≠ .kConnected) : (w.set c').Sound := by
  refine ⟨hc', ?_, fun hl => absurd (h.live hl) hs, ?_⟩
  · exact iff_of_false hs' (fun hsucceeded => hs (h.connected.mpr hsucceeded))
  · intro revents hr
    cases hactive.symm.trans hr

theorem Sound.not_active (h : w.Sound) (hs : w.connector.state ≠ .kConnecting) :
    w.active = none := by
  cases hactive : w.active with
  | none => rfl
  | some revents => exact absurd (h.active revents hactive) hs

/-- `startInLoop` is entered; nothing that it looks at has changed but `connect_`. -/
theorem Sound.enters (h : w.Sound) {c : Connector} (hc : c.Sound)
    (hs : c.state = w.connector.state) (savedErrno : Option ConnectErrno) :
    c.MayStart savedErrno ∧ (∃ c', c.startInLoop savedErrno = .ok c' ∧ (w.set c').Sound) ∨
      ¬ c.MayStart savedErrno ∧ c.startInLoop savedErrno = .error .assertion := by
  by_cases hmay : c.MayStart savedErrno
  · obtain ⟨c', hc', hsound, hne⟩ := hc.startInLoop hmay
    have hdisconnected : w.connector.state = .kDisconnected := hs.symm.trans hmay.1
    exact .inl ⟨hmay, c', hc', h.moved (by simp [hdisconnected])
      (h.not_active (by simp [hdisconnected])) hsound hne⟩
  · exact .inr ⟨hmay, Connector.startInLoop_fails hmay⟩

theorem Sound.start (h : w.Sound) (savedErrno : Option ConnectErrno) :
    w.Timely (.start savedErrno) ∧ (∃ w', w.step (.start savedErrno) = .ok w' ∧ w'.Sound) ∨
      ¬ w.Timely (.start savedErrno) ∧ ∃ e, w.step (.start savedErrno) = .error e := by
  have htimely : w.Timely (.start savedErrno) ↔
      Connector.MayStart { w.connector with wanted := true } savedErrno := by
    rw [← h.mayStart_iff, Timely]
    simp
  have hc : Connector.Sound { w.connector with wanted := true } :=
    h.connector.congr rfl rfl rfl rfl rfl rfl
  rw [htimely]
  obtain ⟨hmay, c', hc', hsound⟩ | ⟨hmay, hfails⟩ := h.enters hc rfl savedErrno
  · exact .inl ⟨hmay, w.set c', by rw [step, Connector.start, hc']; rfl, hsound⟩
  · exact .inr ⟨hmay, .assertion, by rw [step, Connector.start, hfails]; rfl⟩

theorem Sound.expire (h : w.Sound) (i : ℕ) (savedErrno : Option ConnectErrno) :
    w.Timely (.expire i savedErrno) ∧ (∃ w', w.step (.expire i savedErrno) = .ok w' ∧ w'.Sound) ∨
      ¬ w.Timely (.expire i savedErrno) ∧ ∃ e, w.step (.expire i savedErrno) = .error e := by
  have htimely : w.Timely (.expire i savedErrno) ↔
      Connector.MayStart { w.connector with timers := w.connector.timers.eraseIdx i } savedErrno :=
    h.mayStart_iff w.connector.wanted savedErrno
  have hc : Connector.Sound { w.connector with timers := w.connector.timers.eraseIdx i } :=
    h.connector.congr rfl rfl rfl rfl rfl rfl
  rw [htimely]
  obtain ⟨hmay, c', hc', hsound⟩ | ⟨hmay, hfails⟩ := h.enters hc rfl savedErrno
  · exact .inl ⟨hmay, w.set c', by rw [step, Connector.expire, hc']; rfl, hsound⟩
  · exact .inr ⟨hmay, .assertion, by rw [step, Connector.expire, hfails]; rfl⟩

theorem Sound.runFunctor (h : w.Sound) (ha : w.Allows (.runFunctor savedErrno)) :
    w.Timely (.runFunctor savedErrno) ∧
        (∃ w', w.step (.runFunctor savedErrno) = .ok w' ∧ w'.Sound) ∨
      ¬ w.Timely (.runFunctor savedErrno) ∧ ∃ e, w.step (.runFunctor savedErrno) = .error e := by
  obtain ⟨hactive, hpending⟩ := ha
  obtain ⟨f, fs, hp⟩ := List.exists_cons_of_ne_nil hpending
  have hstep : w.step (.runFunctor savedErrno) = (do
      let c ← { w.connector with pendingFunctors := fs }.runFunctor savedErrno f
      return w.set c) := by
    simp only [step, hp]
  rw [hstep]
  have hpop (hf : f ≠ .resetChannel) : Connector.Sound { w.connector with pendingFunctors := fs } :=
    h.connector.congr rfl rfl (by rw [hp, List.count_cons_of_ne hf]) rfl rfl rfl
  cases f with
  | startInLoop =>
    have htimely : w.Timely (.runFunctor savedErrno) ↔
        Connector.MayStart { w.connector with pendingFunctors := fs } savedErrno := by
      have hmay : _ ↔ Connector.MayStart { w.connector with pendingFunctors := fs } savedErrno :=
        h.mayStart_iff w.connector.wanted savedErrno
      rw [← hmay]
      simp only [Timely, hp, List.head?_cons, true_implies]
    rw [htimely]
    obtain ⟨hmay, c', hc', hsound⟩ | ⟨hmay, hfails⟩ := h.enters (hpop (by simp)) rfl savedErrno
    · exact .inl ⟨hmay, w.set c', by rw [Connector.runFunctor, hc']; rfl, hsound⟩
    · exact .inr ⟨hmay, .assertion, by rw [Connector.runFunctor, hfails]; rfl⟩
  | stopInLoop =>
    refine .inl ⟨by simp [Timely, hp], ?_⟩
    have hsound := hpop (by simp)
    by_cases hs : w.connector.state = .kConnecting
    · obtain ⟨channel, hattached⟩ := hsound.attached hs
      obtain ⟨c', hc', hsettled, hstate⟩ := hattached.stop hs
      refine ⟨w.set c', by rw [Connector.runFunctor, hc']; rfl, ?_⟩
      exact h.moved (by simp [hs]) hactive (.inl ⟨by simp [hstate], hsettled⟩) (by simp [hstate])
    · refine ⟨w.set { w.connector with pendingFunctors := fs }, ?_, h.same hsound rfl⟩
      rw [Connector.runFunctor, Connector.stopInLoop, if_neg hs]
      rfl
  | resetChannel =>
    refine .inl ⟨by simp [Timely, hp], ?_⟩
    obtain ⟨c', hc', hsound, hstate⟩ := h.connector.resetChannel hp
    exact ⟨w.set c', by rw [Connector.runFunctor, hc']; rfl, h.same hsound hstate⟩

theorem Sound.restart (h : w.Sound) (ha : w.Allows (.restart savedErrno)) :
    ∃ w', w.step (.restart savedErrno) = .ok w' ∧ w'.Sound := by
  obtain ⟨hlive, hreset⟩ := ha
  have hs := h.live hlive
  have hne : w.connector.state ≠ .kConnecting := by simp [hs]
  have hnone := (h.reset_iff hne).mp hreset
  have hsettled := h.connector.settled hne
  have hc : Connector.Sound { w.connector with
      state := .kDisconnected, retryDelayMs := Connector.kInitRetryDelayMs, wanted := true } :=
    .inl ⟨by simp, ⟨hsettled.detached.removed, hsettled.detached.resets⟩, hsettled.sockets⟩
  have hmay : Connector.MayStart { w.connector with
      state := .kDisconnected, retryDelayMs := Connector.kInitRetryDelayMs, wanted := true }
      savedErrno :=
    ⟨rfl, fun _ _ => hnone⟩
  obtain ⟨c', hc', hsound, hne'⟩ := hc.startInLoop hmay
  refine ⟨{ w.set c' with live := false, succeeded := false }, ?_, hsound, ?_, ?_, ?_⟩
  · rw [step, Connector.restart, hc']
    rfl
  · exact iff_of_false hne' (by simp)
  · intro hl
    cases hl
  · intro revents hr
    cases (h.not_active hne).symm.trans hr

theorem Sound.handleEvent (h : w.Sound) (err isSelfConnect : Bool)
    (ha : w.Allows (.handleEvent err isSelfConnect)) :
    ∃ w', w.step (.handleEvent err isSelfConnect) = .ok w' ∧ w'.Sound := by
  obtain ⟨revents, hr⟩ := Option.isSome_iff_exists.mp ha
  have hs := h.active revents hr
  obtain ⟨channel, hattached⟩ := h.connector.attached hs
  obtain ⟨c', hc', hsound, hconnected, hhanded⟩ :=
    hattached.handleEvent hs revents err isSelfConnect
  have hnot : w.succeeded = false := by
    by_contra hsucceeded
    have := h.connected.mpr (by simpa using hsucceeded)
    cases hs.symm.trans this
  have hdead : w.live = false := by
    by_contra hlive
    cases hs.symm.trans (h.live (by simpa using hlive))
  simp only [step, hr, hc', ok_bind, hnot, hdead, Bool.false_or]
  refine ⟨_, rfl, hsound, hconnected, ?_, fun _ hr' => by cases hr'⟩
  intro hgrown
  by_contra hne
  rw [hhanded hne] at hgrown
  simp at hgrown

theorem Sound.poll (h : w.Sound) {revents : PollEvents} (ha : w.Allows (.poll revents)) :
    Sound { w with active := some revents } := by
  obtain ⟨-, channel, hchannel, hregistered, -⟩ := ha
  refine ⟨h.connector, h.connected, h.live, fun _ _ => ?_⟩
  obtain ⟨-, hsettled⟩ | ⟨hs, -⟩ := h.connector
  · have hremoved := hsettled.detached.removed channel hchannel
    rw [hregistered] at hremoved
    cases hremoved
  · exact hs

theorem Sound.step (h : w.Sound) {a : ConnectorStep} (ha : w.Allows a) :
    w.Timely a ∧ (∃ w', w.step a = .ok w' ∧ w'.Sound) ∨
      ¬ w.Timely a ∧ ∃ e, w.step a = .error e := by
  cases a with
  | start savedErrno => exact h.start savedErrno
  | foreignStart =>
    refine .inl ⟨trivial, _, rfl, h.same (h.connector.congr rfl rfl ?_ rfl rfl rfl) rfl⟩
    simp [Connector.foreignStart, List.count_append]
  | stop =>
    refine .inl ⟨trivial, _, rfl, h.same (h.connector.congr rfl rfl ?_ rfl rfl rfl) rfl⟩
    simp [Connector.stop, List.count_append]
  | restart savedErrno => exact .inl ⟨trivial, h.restart ha⟩
  | removeConnection =>
    exact .inl ⟨trivial, _, rfl, h.connector, h.connected, fun hl => (by cases hl), h.active⟩
  | poll revents => exact .inl ⟨trivial, _, rfl, h.poll ha⟩
  | handleEvent err isSelfConnect => exact .inl ⟨trivial, h.handleEvent err isSelfConnect ha⟩
  | runFunctor savedErrno => exact h.runFunctor ha
  | expire i savedErrno => exact h.expire i savedErrno

/-- A run meets no failing assertion if and only if every entry of `startInLoop` is
timely: there is no attempt and no success before it, and the last channel is gone when
the next attempt begins. -/
theorem requests_are_safe_iff (steps : List ConnectorStep) (h : machine.Permits init steps) :
    (∃ w, machine.run init steps = .ok w) ↔ (machine.restrict Timely).Permits init steps :=
  machine.run_returns_iff Timely (fun _ _ hs ha => hs.step ha) steps init sound_init h

/-- The first attempt is refused and will be retried. The user stops and starts again,
and the second attempt is in progress when the timer of the first one expires. -/
def overtaken : List ConnectorStep :=
  [.start (some .ECONNREFUSED), .stop, .runFunctor none, .start (some .EINPROGRESS),
    .expire 0 none]

theorem timer_enters_a_second_attempt :
    machine.Permits init overtaken ∧ machine.run init overtaken = .error .assertion := by
  have hfault : faultOf (machine.run init overtaken) = some .assertion := by decide +kernel
  exact ⟨by decide +kernel, eq_error_of_faultOf hfault⟩

/-- A retry, a connection, its end and the next one. -/
def patient : List ConnectorStep :=
  [.start (some .EAGAIN), .expire 0 (some .EINPROGRESS), .poll { pollOut := true },
    .handleEvent false false, .runFunctor none, .restart none,
    .poll { pollOut := true, pollErr := true },
    .handleEvent true false, .runFunctor none, .expire 0 none]

theorem requests_are_safe_patient :
    (machine.restrict Timely).Permits init patient ∧ ∃ w, machine.run init patient = .ok w := by
  have hp : machine.Permits init patient := by decide +kernel
  have htimely : (machine.restrict Timely).Permits init patient := by decide +kernel
  exact ⟨htimely, (requests_are_safe_iff patient hp).mpr htimely⟩

/-- However the requests, answers and events come: up to a failed assertion every socket
is with the attempt in progress, or was closed once, or was handed out once. -/
theorem sockets_are_accounted_for (steps : List ConnectorStep) (w : ConnectorLoop)
    (h : machine.Permits init steps) (hw : machine.run init steps = .ok w) :
    ∀ n < w.connector.created,
      (w.connector.inProgress = some n ∧ n ∉ w.connector.closed ∧ n ∉ w.connector.handed) ∨
      (w.connector.inProgress ≠ some n ∧ w.connector.closed.count n = 1 ∧
        n ∉ w.connector.handed) ∨
      (w.connector.inProgress ≠ some n ∧ n ∉ w.connector.closed ∧
        w.connector.handed.count n = 1) := by
  have hkeeps : ∀ w a w', Sound w → machine.Allows w a → machine.step w a = .ok w' → w'.Sound := by
    intro w a w' hs ha hw'
    obtain ⟨-, w₁, hw₁, hs₁⟩ | ⟨-, e, he⟩ := hs.step ha
    · cases hw₁.symm.trans hw'
      exact hs₁
    · cases he.symm.trans hw'
  have hsockets := (machine.run_keeps hkeeps sound_init h hw).connector.sockets
  intro n hn
  have hcount := hsockets.count_eq n
  rw [List.count_append, List.count_append,
    List.count_eq_one_of_mem List.nodup_range (List.mem_range.mpr hn)] at hcount
  have hprogress : w.connector.inProgress.toList.count n =
      if w.connector.inProgress = some n then 1 else 0 := by
    cases w.connector.inProgress with
    | none => simp
    | some fd => simp [List.count_singleton]
  rw [hprogress] at hcount
  simp only [← List.count_eq_zero]
  split_ifs at hcount with hin
  · exact .inl ⟨hin, by omega, by omega⟩
  · have hone : w.connector.closed.count n = 1 ∧ w.connector.handed.count n = 0 ∨
        w.connector.closed.count n = 0 ∧ w.connector.handed.count n = 1 := by omega
    obtain ⟨hclosed, hhanded⟩ | ⟨hclosed, hhanded⟩ := hone
    · exact .inr (.inl ⟨hin, hclosed, hhanded⟩)
    · exact .inr (.inr ⟨hin, hclosed, hhanded⟩)

theorem sockets_are_accounted_for_patient :
    ∃ w, machine.run init patient = .ok w ∧ w.connector.created = 4 ∧
      ∀ n < w.connector.created,
        (w.connector.inProgress = some n ∧ n ∉ w.connector.closed ∧ n ∉ w.connector.handed) ∨
        (w.connector.inProgress ≠ some n ∧ w.connector.closed.count n = 1 ∧
          n ∉ w.connector.handed) ∨
        (w.connector.inProgress ≠ some n ∧ n ∉ w.connector.closed ∧
          w.connector.handed.count n = 1) := by
  have hend : (machine.run init patient).toOption.map (fun w => w.connector.created) = some 4 := by
    decide +kernel
  obtain ⟨w, hw, hcreated⟩ := exists_ok_of_map hend
  exact ⟨w, hw, hcreated, sockets_are_accounted_for patient w (by decide +kernel) hw⟩

end ConnectorLoop
end Muduo
