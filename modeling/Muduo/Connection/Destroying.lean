import Muduo.Connection.StopRead

/-!
# Destroying a connection

The owner of a connection calls `connectDestroyed` once, behind the close callback or,
when the server goes, at any time. The function takes the interest of the channel away
only from a connection that is still connected. The loop is the one of `stopRead`, so
the calls of users come at any moment, also inside handlers.
-/

namespace Muduo

open Foundations

namespace TcpConnection

variable {c c' : TcpConnection}

/-- What the destructors of the connection and of its channel assert, and what the user
was told. -/
structure Finished (c : TcpConnection) : Prop where
  state : c.state = .kDisconnected
  reports : (Event.reports c.history).count false = 1
  none : c.channel.isNoneEvent = true
  removed : c.channel.addedToLoop = false

instance (c : TcpConnection) : Decidable c.Finished :=
  decidable_of_iff (c.state = .kDisconnected ∧ (Event.reports c.history).count false = 1 ∧
      c.channel.isNoneEvent = true ∧ c.channel.addedToLoop = false)
    ⟨fun ⟨h₁, h₂, h₃, h₄⟩ => ⟨h₁, h₂, h₃, h₄⟩, fun ⟨h₁, h₂, h₃, h₄⟩ => ⟨h₁, h₂, h₃, h₄⟩⟩

/-- Whether a channel is read after some calls; the last one that matters decides. -/
def readsAfter (reading : Bool) : List (Call WriteAnswer) → Bool
  | [] => reading
  | .startRead :: as => readsAfter true as
  | .stopRead :: as => readsAfter false as
  | _ :: as => readsAfter reading as

/-- The connection is still connected and its callback does not end up reading, or it
is down and without interest. -/
def Destroyable (c : TcpConnection) (onDown : List (Call WriteAnswer)) : Prop :=
  c.state = .kConnected ∧ readsAfter false onDown = false ∨
    c.state = .kDisconnected ∧ c.channel.isNoneEvent = true

instance (c : TcpConnection) (onDown : List (Call WriteAnswer)) :
    Decidable (c.Destroyable onDown) :=
  inferInstanceAs (Decidable (_ ∨ _))

/-- What `connectDestroyed` needs to return, be the connection finished or not. -/
def Removable (c : TcpConnection) (onDown : List (Call WriteAnswer)) : Prop :=
  c.state = .kConnected ∧ readsAfter false onDown = false ∨
    c.state ≠ .kConnected ∧ c.channel.isNoneEvent = true

instance (c : TcpConnection) (onDown : List (Call WriteAnswer)) :
    Decidable (c.Removable onDown) :=
  inferInstanceAs (Decidable (_ ∨ _))

theorem isReading_startReadInLoop : c.startReadInLoop.channel.isReading = true := by
  unfold startReadInLoop
  split_ifs with h
  · simp
  · simpa using (not_or.mp h).2

theorem isWriting_startReadInLoop : c.startReadInLoop.channel.isWriting = c.channel.isWriting := by
  unfold startReadInLoop
  split_ifs <;> simp

theorem isWriting_stopReadInLoop : c.stopReadInLoop.channel.isWriting = c.channel.isWriting := by
  unfold stopReadInLoop
  split_ifs <;> simp

/-- The same state, with the same reports. -/
structure Alike (c c' : TcpConnection) : Prop where
  state : c'.state = c.state
  reports : Event.reports c'.history = Event.reports c.history

theorem Alike.refl (c : TcpConnection) : Alike c c := ⟨rfl, rfl⟩

theorem Alike.trans {c₁ c₂ c₃ : TcpConnection} (h₁ : Alike c₁ c₂) (h₂ : Alike c₂ c₃) :
    Alike c₁ c₃ :=
  ⟨h₂.state.trans h₁.state, h₂.reports.trans h₁.reports⟩

theorem startReadInLoop_alike : Alike c c.startReadInLoop := by
  unfold startReadInLoop
  split_ifs <;> exact ⟨rfl, rfl⟩

theorem stopReadInLoop_alike : Alike c c.stopReadInLoop := by
  unfold stopReadInLoop
  split_ifs <;> exact ⟨rfl, rfl⟩

theorem calls_closed (as : List (Call WriteAnswer)) (hs : c.state = .kDisconnected) :
    ∃ c', c.calls as = .ok c' ∧ Alike c c' ∧ c'.channel.isWriting = c.channel.isWriting ∧
      c'.channel.isReading = readsAfter c.channel.isReading as := by
  induction as generalizing c with
  | nil => exact ⟨c, rfl, .refl c, rfl, rfl⟩
  | cons a as ih =>
    have hcons : ∀ c₁, c.call a = .ok c₁ → Alike c c₁ → c₁.channel.isWriting = c.channel.isWriting →
        readsAfter c.channel.isReading (a :: as) = readsAfter c₁.channel.isReading as →
        ∃ c', c.calls (a :: as) = .ok c' ∧ Alike c c' ∧
          c'.channel.isWriting = c.channel.isWriting ∧
          c'.channel.isReading = readsAfter c.channel.isReading (a :: as) := by
      intro c₁ hc₁ halike hwriting hreads
      obtain ⟨c', hc', halike', hwriting', hreading'⟩ := ih (halike.state.trans hs)
      refine ⟨c', ?_, halike.trans halike', hwriting'.trans hwriting, hreading'.trans hreads.symm⟩
      rw [calls, hc₁, ok_bind, hc']
    cases a with
    | send message answer => exact hcons c (by simp [call, hs]) (.refl c) rfl rfl
    | shutdown => exact hcons c (by simp [call, hs]) (.refl c) rfl rfl
    | forceClose => exact hcons c (by simp [call, forceClose, hs]) (.refl c) rfl rfl
    | forceCloseWithDelay =>
      exact hcons c (by simp [call, forceCloseWithDelay, hs]) (.refl c) rfl rfl
    | startRead =>
      refine hcons _ rfl startReadInLoop_alike isWriting_startReadInLoop ?_
      rw [isReading_startReadInLoop, readsAfter]
    | stopRead =>
      refine hcons _ rfl stopReadInLoop_alike isWriting_stopReadInLoop ?_
      rw [isReading_stopReadInLoop, readsAfter]

/-- Not established yet, up, or reported down. -/
structure Standing (c : TcpConnection) : Prop where
  phase : c.state = .kConnecting ∧ Event.reports c.history = [] ∨
    c.IsUp ∧ Event.reports c.history = [true] ∨
    c.state = .kDisconnected ∧ Event.reports c.history = [true, false]
  kept : .connectDestroyed ∉ c.pendingFunctors

theorem removeChannel_finishes_iff (hs : c.state = .kDisconnected)
    (hr : (Event.reports c.history).count false = 1) :
    (∃ c', c.removeChannel = .ok c' ∧ c'.Finished) ↔ c.channel.isNoneEvent = true := by
  constructor
  · rintro ⟨c', hc', -⟩
    obtain ⟨_, hassert, -⟩ := bind_eq_ok.mp hc'
    exact of_assertThat hassert
  · intro hnone
    rw [removeChannel, assertThat_pos hnone]
    exact ⟨_, rfl, hs, hr, hnone, rfl⟩

theorem connectDestroyed_connected (hs : c.state = .kConnected) (onDown : List (Call WriteAnswer)) :
    c.connectDestroyed onDown = c.closing.calls onDown >>= removeChannel := by
  simp [connectDestroyed, hs, closing, observe, setState, connected]

theorem connectDestroyed_of_ne (hs : c.state ≠ .kConnected) (onDown : List (Call WriteAnswer)) :
    c.connectDestroyed onDown = c.removeChannel := by
  simp [connectDestroyed, hs]

theorem removeChannel_returns_iff :
    (∃ c', c.removeChannel = .ok c') ↔ c.channel.isNoneEvent = true := by
  constructor
  · rintro ⟨c', hc'⟩
    obtain ⟨_, hassert, -⟩ := bind_eq_ok.mp hc'
    exact of_assertThat hassert
  · intro hnone
    rw [removeChannel, assertThat_pos hnone]
    exact ⟨_, rfl⟩

theorem connectDestroyed_returns_iff (onDown : List (Call WriteAnswer)) :
    (∃ c', c.connectDestroyed onDown = .ok c') ↔ c.Removable onDown := by
  by_cases hs : c.state = .kConnected
  · obtain ⟨c₁, hc₁, -, hwriting, hreading⟩ := calls_closed (c := c.closing) onDown rfl
    rw [connectDestroyed_connected hs, hc₁, ok_bind, removeChannel_returns_iff,
      Channel.isNoneEvent_iff, hreading, hwriting]
    simp [Removable, hs, closing]
  · rw [connectDestroyed_of_ne hs, removeChannel_returns_iff]
    simp [Removable, hs]

theorem Standing.finishes_iff (h : c.Standing) (hbegun : c.state ≠ .kConnecting)
    (onDown : List (Call WriteAnswer)) :
    (∃ c', c.connectDestroyed onDown = .ok c' ∧ c'.Finished) ↔ c.Destroyable onDown := by
  obtain ⟨hconnecting, -⟩ | ⟨hup | hleaving, hreports⟩ | ⟨hdown, hreports⟩ := h.phase
  · exact absurd hconnecting hbegun
  · obtain ⟨c₁, hc₁, halike, hwriting, hreading⟩ := calls_closed (c := c.closing) onDown rfl
    have hreports₁ : Event.reports c₁.history = [true, false] := by
      rw [halike.reports]
      simp [closing, Event.reports, hreports]
    rw [connectDestroyed_connected hup, hc₁, ok_bind,
      removeChannel_finishes_iff halike.state (by rw [hreports₁]; rfl), Channel.isNoneEvent_iff,
      hreading, hwriting]
    simp [Destroyable, hup, closing]
  · refine iff_of_false ?_ (by simp [Destroyable, hleaving])
    rintro ⟨c', hc', hfinished⟩
    rw [connectDestroyed_of_ne (by simp [hleaving])] at hc'
    obtain ⟨_, -, hreturn⟩ := bind_eq_ok.mp hc'
    cases hreturn
    cases hleaving.symm.trans hfinished.state
  · rw [connectDestroyed_of_ne (by simp [hdown]),
      removeChannel_finishes_iff hdown (by rw [hreports]; rfl)]
    simp [Destroyable, hdown]

/-- A step that the connection callback is not told of. -/
structure Unreported (c c' : TcpConnection) : Prop where
  reports : Event.reports c'.history = Event.reports c.history
  up : c.IsUp → c'.IsUp
  down : c.state = .kDisconnected → c'.state = .kDisconnected
  kept : .connectDestroyed ∉ c.pendingFunctors → .connectDestroyed ∉ c'.pendingFunctors

theorem Unreported.refl (c : TcpConnection) : Unreported c c := ⟨rfl, id, id, id⟩

theorem Alike.unreported (h : Alike c c') (hf : c'.pendingFunctors = c.pendingFunctors) :
    Unreported c c' :=
  ⟨h.reports, fun hup => by rwa [IsUp, h.state], fun hs => h.state.trans hs, fun hk => by rwa [hf]⟩

theorem Quiet.unreported (h : Quiet c c') (hk : KeepsStream c c') : Unreported c c' := by
  obtain ⟨⟨es, hes, hquiet⟩, ⟨fs, hfs, hf⟩, hup, -⟩ := h
  refine ⟨?_, hup, hk.1, fun hkept => ?_⟩
  · rw [hes, Event.reports_append, Event.reports_of_quiet hquiet, List.append_nil]
  · rw [hfs, List.mem_append, not_or]
    exact ⟨hkept, fun hm => (hf _ hm).2 rfl⟩

theorem call_unreported {a : Call WriteAnswer} (h : c.call a = .ok c') : Unreported c c' := by
  by_cases ha : a = .startRead
  · subst ha
    cases h
    refine startReadInLoop_alike.unreported ?_
    unfold startReadInLoop
    split_ifs <;> rfl
  · obtain ⟨c₁, hc₁, hquiet⟩ := c.call_quiet ha
    obtain ⟨c₂, hc₂, hkeeps⟩ := c.call_keepsStream a
    cases hc₁.symm.trans h
    cases hc₂.symm.trans h
    exact hquiet.unreported hkeeps

theorem queueInLoop_unreported {f : Functor} (hf : f ≠ .connectDestroyed) :
    Unreported c (c.queueInLoop f) :=
  ⟨rfl, id, id, fun hk => by simp [hk, hf.symm]⟩

theorem foreignCall_unreported (a : Call Unit) : Unreported c (c.foreignCall a) := by
  by_cases ha : a = .startRead
  · subst ha
    exact queueInLoop_unreported (by simp)
  · exact (foreignCall_quiet ha).unreported (foreignCall_keepsStream a)

theorem Standing.unreported (h : c.Standing) (hbegun : c.state ≠ .kConnecting)
    (hu : Unreported c c') : c'.Standing := by
  refine ⟨.inr ?_, hu.kept h.kept⟩
  obtain ⟨hconnecting, -⟩ | ⟨hup, hreports⟩ | ⟨hdown, hreports⟩ := h.phase
  · exact absurd hconnecting hbegun
  · exact .inl ⟨hu.up hup, hu.reports.trans hreports⟩
  · exact .inr ⟨hu.down hdown, hu.reports.trans hreports⟩

theorem Standing.alike (h : c.Standing) (ha : Alike c c')
    (hk : .connectDestroyed ∉ c'.pendingFunctors) : c'.Standing := by
  refine ⟨?_, hk⟩
  rw [IsUp, ha.state, ha.reports]
  exact h.phase

theorem Standing.handleClose (h : c.Standing) (hc' : c.handleClose [] = .ok c') :
    c'.Standing := by
  obtain ⟨_, hassert, -⟩ := bind_eq_ok.mp hc'
  have hup : c.IsUp := of_assertThat hassert
  rw [handleClose_eq hup] at hc'
  cases hc'
  refine ⟨.inr (.inr ⟨rfl, ?_⟩), h.kept⟩
  obtain ⟨hconnecting, -⟩ | ⟨-, hreports⟩ | ⟨hdown, -⟩ := h.phase
  · simp [IsUp, hconnecting] at hup
  · simp [closing, Event.reports, hreports]
  · exact absurd hup (not_isUp_of_disconnected hdown)

theorem Standing.connectEstablished (h : c.Standing) (hc' : c.connectEstablished [] = .ok c') :
    c'.Standing := by
  obtain ⟨_, hassert, hreturn⟩ := bind_eq_ok.mp hc'
  have hconnecting : c.state = .kConnecting := of_assertThat hassert
  cases hreturn
  refine ⟨.inr (.inl ⟨.inl rfl, ?_⟩), h.kept⟩
  obtain ⟨-, hreports⟩ | ⟨hup, -⟩ | ⟨hdown, -⟩ := h.phase
  · simp [Event.reports, hreports, connected]
  · simp [IsUp, hconnecting] at hup
  · cases hconnecting.symm.trans hdown

theorem Standing.handleWrite (h : c.Standing) {answer : WriteAnswer}
    (hc' : c.handleWrite answer = .ok c') : c'.Standing := by
  obtain ⟨c₁, events, hc₁, hstep, -⟩ := c.handleWrite_spec answer
  cases hc₁.symm.trans hc'
  obtain ⟨c₂, hc₂, hquiet⟩ := c.handleWrite_quiet answer
  cases hc₂.symm.trans hc'
  obtain ⟨c₃, hc₃, hkeeps⟩ := c.handleWrite_keepsStream answer
  cases hc₃.symm.trans hc'
  have hu := hquiet.unreported hkeeps
  exact h.alike ⟨hstep.state, hu.reports⟩ (hu.kept h.kept)

theorem Standing.handleRead (h : c.Standing) {read : ReadAnswer} {write : WriteAnswer}
    {input : Buffer} (hc' : c.handleRead ⟨read, write, [], input, []⟩ = .ok c') :
    c'.Standing := by
  obtain ⟨⟨n, errno, b⟩, -, hrest⟩ := bind_eq_ok.mp hc'
  dsimp only at hrest
  have hb : Standing { c with inputBuffer := b } := ⟨h.phase, h.kept⟩
  split_ifs at hrest
  · cases hrest
    exact hb.alike ⟨rfl, by simp [Event.reports]⟩ h.kept
  · exact hb.handleClose hrest
  · cases hrest
    exact hb

theorem Standing.runCallback (h : c.Standing) {k : ChannelCallback} {read : ReadAnswer}
    {write : WriteAnswer} {input : Buffer}
    (hc' : c.runCallback ⟨read, write, [], input, []⟩ k = .ok c') : c'.Standing := by
  cases k with
  | close => exact h.handleClose hc'
  | error =>
    cases hc'
    exact h
  | read => exact h.handleRead hc'
  | write => exact h.handleWrite hc'

theorem Standing.runFunctor (h : c.Standing) (hbegun : c.state ≠ .kConnecting) {f : Functor}
    (hf : f ≠ .connectDestroyed) {answer : WriteAnswer} (hc' : c.runFunctor answer [] f = .ok c') :
    c'.Standing := by
  cases f with
  | sendInLoop message =>
    obtain ⟨c₁, hc₁, hquiet⟩ := c.sendInLoop_quiet message answer
    obtain ⟨c₂, hc₂, hkeeps⟩ := c.sendInLoop_keepsStream message answer
    cases hc₁.symm.trans hc'
    cases hc₂.symm.trans hc'
    exact h.unreported hbegun (hquiet.unreported hkeeps)
  | shutdownInLoop =>
    cases hc'
    exact h.unreported hbegun (shutdownInLoop_quiet.unreported shutdownInLoop_keepsStream)
  | forceCloseInLoop =>
    simp only [TcpConnection.runFunctor, forceCloseInLoop] at hc'
    split_ifs at hc'
    · exact h.handleClose hc'
    · cases hc'
      exact h
  | startReadInLoop => exact h.unreported hbegun (call_unreported (a := .startRead) hc')
  | stopReadInLoop => exact h.unreported hbegun (call_unreported (a := .stopRead) hc')
  | connectDestroyed => exact absurd rfl hf
  | writeCompleteCallback =>
    cases hc'
    exact h
  | highWaterMarkCallback size =>
    cases hc'
    exact h

end TcpConnection

namespace ConnectionLoop

variable {ι : Type} [DecidableEq ι] {w w' : ConnectionLoop ι}

def Owned : ConnectionStep ι → Prop
  | .queueInLoop _ f => f ≠ .connectDestroyed
  | _ => True

instance : (a : ConnectionStep ι) → Decidable (Owned a)
  | .queueInLoop _ f => inferInstanceAs (Decidable (f ≠ .connectDestroyed))
  | .connectEstablished _ | .poll _ | .advance | .callback _ _ _ | .call _ _ | .foreignCall _ _
  | .runFunctor _ _ => .isTrue trivial

def ownedMachine : Machine (ConnectionLoop ι) (ConnectionStep ι) Fault :=
  machine.restrict fun _ a => Owned a

instance (w : ConnectionLoop ι) (a : ConnectionStep ι) : Decidable (ownedMachine.Allows w a) :=
  inferInstanceAs (Decidable (w.Allows a ∧ Owned a))

theorem standing_set (h : ∀ i, (w.conn i).Standing) {i : ι} {c : TcpConnection}
    (hc : c.Standing) (j : ι) : ((w.set i c).conn j).Standing := by
  by_cases hj : j = i
  · subst hj
    simpa using hc
  · simpa [Function.update_of_ne hj] using h j

theorem standing_step (h : ∀ i, (w.conn i).Standing) {a : ConnectionStep ι}
    (ha : ownedMachine.Allows w a) (hw' : ownedMachine.step w a = .ok w') (j : ι) :
    (w'.conn j).Standing := by
  obtain ⟨ha, howned⟩ := ha
  have hw' : w.step a = .ok w' := hw'
  cases a with
  | connectEstablished i =>
    obtain ⟨c, hc, hreturn⟩ := bind_eq_ok.mp hw'
    cases hreturn
    exact standing_set h ((h i).connectEstablished hc) j
  | poll reports =>
    cases hw'
    exact h j
  | advance =>
    cases hw'
    exact h j
  | callback read write input =>
    simp only [step] at hw'
    split at hw'
    · next i k batch hnext =>
      obtain ⟨c, hc, hreturn⟩ := bind_eq_ok.mp hw'
      cases hreturn
      exact standing_set h ((h i).runCallback hc) j
    · cases hw'
      exact h j
  | call i a =>
    obtain ⟨c, hc, hreturn⟩ := bind_eq_ok.mp hw'
    cases hreturn
    exact standing_set h ((h i).unreported ha (TcpConnection.call_unreported hc)) j
  | foreignCall i a =>
    cases hw'
    exact standing_set h ((h i).unreported ha (TcpConnection.foreignCall_unreported a)) j
  | queueInLoop i f =>
    cases hw'
    exact standing_set h ((h i).unreported ha (TcpConnection.queueInLoop_unreported howned)) j
  | runFunctor i answer =>
    obtain ⟨-, hbegun, hpending⟩ := ha
    obtain ⟨f, fs, hp⟩ := List.exists_cons_of_ne_nil hpending
    simp only [step, hp] at hw'
    obtain ⟨c, hc, hreturn⟩ := bind_eq_ok.mp hw'
    cases hreturn
    have hkept := (h i).kept
    rw [hp, List.mem_cons, not_or] at hkept
    have hpop : TcpConnection.Standing { w.conn i with pendingFunctors := fs } :=
      ⟨(h i).phase, hkept.2⟩
    exact standing_set h (hpop.runFunctor hbegun (Ne.symm hkept.1) hc) j

/-- In every state of an established connection that its owner has not destroyed yet:
`connectDestroyed` leaves it as the destructors want it, with one report of its end,
if and only if it is connected and its callback does not end up reading, or it is down
and without interest. -/
theorem connectDestroyed_finishes_iff (writeComplete highWater : ι → Bool) (mark : ι → ℕ)
    (steps : List (ConnectionStep ι)) (w : ConnectionLoop ι)
    (h : ownedMachine.Permits
      (init fun i => .init (writeComplete i) (highWater i) (mark i)) steps)
    (hw : ownedMachine.run
      (init fun i => .init (writeComplete i) (highWater i) (mark i)) steps = .ok w)
    (i : ι) (hi : (w.conn i).state ≠ .kConnecting) (onDown : List (Call WriteAnswer)) :
    (∃ c, (w.conn i).connectDestroyed onDown = .ok c ∧ c.Finished) ↔
      (w.conn i).Destroyable onDown := by
  have hkeeps : ∀ (w : ConnectionLoop ι) a w', (∀ i, (w.conn i).Standing) →
      ownedMachine.Allows w a → ownedMachine.step w a = .ok w' → ∀ i, (w'.conn i).Standing :=
    fun _ _ _ hs ha hs' => standing_step hs ha hs'
  have hstart : ∀ i, ((init fun i => .init (writeComplete i) (highWater i) (mark i) :
      ConnectionLoop ι).conn i).Standing :=
    fun _ => ⟨.inl ⟨rfl, rfl⟩, List.not_mem_nil⟩
  exact (ownedMachine.run_keeps hkeeps hstart h hw i).finishes_iff hi onDown

/-- The peer's input is read; in the message callback the server goes. -/
def readSteps : List (ConnectionStep Unit) :=
  [.connectEstablished (), .poll [((), { pollIn := true })], .advance,
    .callback (.bytes [1]) (.took 0) default]

theorem connectDestroyed_finishes_in_callback :
    ∃ w, ownedMachine.run (init fun _ => .init true true 64) readSteps = .ok w ∧
      ∃ c, (w.conn ()).connectDestroyed [.startRead, .stopRead] = .ok c ∧ c.Finished := by
  have hp : ownedMachine.Permits (init fun _ => .init true true 64) readSteps := by decide +kernel
  have hstate : (ownedMachine.run (init fun _ => .init true true 64) readSteps).toOption.map
      (fun w => (w.conn ()).state) = some .kConnected := by decide +kernel
  obtain ⟨w, hw, hstate⟩ := exists_ok_of_map hstate
  exact ⟨w, hw, (connectDestroyed_finishes_iff _ _ _ readSteps w hp hw () (by simp [hstate])
    [.startRead, .stopRead]).mpr (.inl ⟨hstate, rfl⟩)⟩

/-- Behind `shutdown` the connection is neither connected nor down, and the assertion
in `Channel::remove` fails. -/
theorem shutdown_connection_is_not_finished :
    ownedMachine.Permits (init fun _ => .init true true 64)
        [.connectEstablished (), .call () .shutdown] ∧
      ∃ w, ownedMachine.run (init fun _ => .init true true 64)
          [.connectEstablished (), .call () .shutdown] = .ok w ∧
        (w.conn ()).connectDestroyed [] = .error .assertion := by
  refine ⟨by decide +kernel, ?_⟩
  have hend : (ownedMachine.run (init fun _ => .init true true 64)
      [.connectEstablished (), .call () .shutdown]).toOption.map
        (fun w => faultOf ((w.conn ()).connectDestroyed [])) = some (some .assertion) := by
    decide +kernel
  obtain ⟨w, hw, hfault⟩ := exists_ok_of_map hend
  exact ⟨w, hw, eq_error_of_faultOf hfault⟩

end ConnectionLoop
end Muduo
