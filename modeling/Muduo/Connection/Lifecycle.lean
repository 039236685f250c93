import Muduo.Foundations.History
import Muduo.Connection.Output

/-!
# The life of a connection

A connection comes up once and goes down at most once, however the end is
reached: by a hang-up, by reading the end of the stream, or by a forced close
of which several may be queued. Between the poll that reports an event and the
handler other callbacks of the loop may call into the connection, so the report
can be older than the interest. Two facts about the platform are used: a channel
without interest is not reported, and a hang-up comes with `POLLIN` when that is
asked for.
-/

namespace Muduo

open Foundations

namespace Event

/-- The answers of `connected()` inside the connection callback, in order. -/
def reports : List Event → List Bool
  | [] => []
  | connectionCallback up :: es => up :: reports es
  | _ :: es => reports es

/-- Events of the socket, which no callback of the user sees. -/
def isQuiet : Event → Bool
  | sendInLoop _ => true
  | write _ _ => true
  | shutdownWrite => true
  | _ => false

@[simp] theorem reports_append (es fs : List Event) :
    reports (es ++ fs) = reports es ++ reports fs := by
  induction es with
  | nil => rfl
  | cons e es ih => cases e <;> simp [reports, ih]

theorem reports_of_quiet {es : List Event} (h : ∀ e ∈ es, e.isQuiet = true) : reports es = [] := by
  induction es with
  | nil => rfl
  | cons e es ih =>
    have he := h e (by simp)
    have hes := ih (fun f hf => h f (by simp [hf]))
    cases e <;> simp_all [reports, isQuiet]

theorem mem_reports {es : List Event} {up : Bool} :
    connectionCallback up ∈ es ↔ up ∈ reports es := by
  induction es with
  | nil => simp [reports]
  | cons e es ih => cases e <;> simp [reports, ih]

theorem isQuiet_of_isWrite {e : Event} (h : e.isWrite = true) : e.isQuiet = true := by
  cases e with
  | write _ _ => rfl
  | _ => cases h

/-- The message callback is not run once the connection was reported down. -/
def NotAfterDown (before : List Event) (e : Event) : Prop :=
  e = messageCallback → connectionCallback false ∉ before

theorem obeys_notAfterDown_append {es fs : List Event} (h : Obeys NotAfterDown es)
    (hfs : ∀ e ∈ fs, e ≠ messageCallback) : Obeys NotAfterDown (es ++ fs) := by
  induction fs generalizing es with
  | nil => simpa using h
  | cons f fs ih =>
    have hf : NotAfterDown es f := fun he => absurd he (hfs f (by simp))
    have := ih (h.concat hf) (fun e he => hfs e (by simp [he]))
    simpa using this

end Event

namespace TcpConnection

/-- Neither shut nor not yet open. -/
def IsUp (c : TcpConnection) : Prop := c.state = .kConnected ∨ c.state = .kDisconnecting

instance (c : TcpConnection) : Decidable c.IsUp := inferInstanceAs (Decidable (_ ∨ _))

/-- A step that no callback of the user sees and that only moves the connection
from connected towards disconnecting. -/
structure Quiet (c c' : TcpConnection) : Prop where
  history : ∃ es, c'.history = c.history ++ es ∧ ∀ e ∈ es, e.isQuiet = true
  functors : ∃ fs, c'.pendingFunctors = c.pendingFunctors ++ fs ∧
    ∀ f ∈ fs, f ≠ .startReadInLoop ∧ f ≠ .connectDestroyed
  up : c.IsUp → c'.IsUp
  down : c.state = .kDisconnected → c.channel.isNoneEvent = true →
    c'.state = .kDisconnected ∧ c'.channel.isNoneEvent = true

variable {c : TcpConnection}

theorem Quiet.refl (c : TcpConnection) : Quiet c c :=
  ⟨⟨[], by simp, by simp⟩, ⟨[], by simp, by simp⟩, id, fun h hn => ⟨h, hn⟩⟩

theorem Quiet.trans {c₁ c₂ c₃ : TcpConnection} (h₁ : Quiet c₁ c₂) (h₂ : Quiet c₂ c₃) :
    Quiet c₁ c₃ := by
  obtain ⟨⟨es, hes, hq⟩, ⟨fs, hfs, hf⟩, hup, hdown⟩ := h₁
  obtain ⟨⟨es', hes', hq'⟩, ⟨fs', hfs', hf'⟩, hup', hdown'⟩ := h₂
  refine ⟨⟨es ++ es', by rw [hes', hes, List.append_assoc], ?_⟩,
    ⟨fs ++ fs', by rw [hfs', hfs, List.append_assoc], ?_⟩, hup' ∘ hup, ?_⟩
  · intro e he
    rcases List.mem_append.mp he with he | he
    · exact hq e he
    · exact hq' e he
  · intro f hm
    rcases List.mem_append.mp hm with hm | hm
    · exact hf f hm
    · exact hf' f hm
  · intro hs hn
    obtain ⟨hs', hn'⟩ := hdown hs hn
    exact hdown' hs' hn'

theorem OnlyNotifies.functors {c' : TcpConnection} (h : OnlyNotifies c c') :
    ∃ fs, c'.pendingFunctors = c.pendingFunctors ++ fs ∧
      ∀ f ∈ fs, f ≠ .startReadInLoop ∧ f ≠ .connectDestroyed := by
  obtain ⟨ns, hns, hn⟩ := h
  refine ⟨ns, hns, ?_⟩
  intro f hf
  have := hn f hf
  constructor <;> rintro rfl <;> cases this

theorem sendInLoop_quiet (message : List UInt8) (answer : WriteAnswer) :
    ∃ c', c.sendInLoop message answer = .ok c' ∧ Quiet c c' := by
  by_cases h : c.state = .kDisconnected
  · refine ⟨_, sendInLoop_disconnected message answer h, ⟨[.sendInLoop message], rfl, ?_⟩,
      ⟨[], by simp, by simp⟩, id, fun hs hn => ⟨hs, hn⟩⟩
    simp [Event.isQuiet]
  · obtain ⟨c', writes, hc', hstep, hwrites⟩ := sendInLoop_spec message answer h
    refine ⟨c', hc', ⟨_, hstep.history, ?_⟩, hstep.notifies.functors, ?_, ?_⟩
    · intro e he
      rcases List.mem_cons.mp he with rfl | he
      · rfl
      · exact Event.isQuiet_of_isWrite (hwrites.isWrite e he)
    · intro hup
      rwa [IsUp, hstep.state]
    · intro hs
      exact absurd hs h

theorem not_writing_of_none (h : c.channel.isNoneEvent = true) : c.channel.isWriting = false :=
  (c.channel.isNoneEvent_iff.mp h).2

theorem handleWrite_quiet (answer : WriteAnswer) :
    ∃ c', c.handleWrite answer = .ok c' ∧ Quiet c c' := by
  obtain ⟨c', events, hc', hstep, hevents⟩ := c.handleWrite_spec answer
  refine ⟨c', hc', ⟨events, hstep.history, ?_⟩, hstep.notifies.functors, ?_, ?_⟩
  · intro e he
    rcases hevents.mem e he with hw | rfl
    · exact Event.isQuiet_of_isWrite hw
    · rfl
  · intro hup
    rwa [IsUp, hstep.state]
  · intro hs hn
    have hsame : c.handleWrite answer = .ok c := by
      simp [handleWrite, not_writing_of_none hn]
    rw [hsame] at hc'
    cases hc'
    exact ⟨hs, hn⟩

theorem shutdownInLoop_quiet : Quiet c c.shutdownInLoop := by
  unfold shutdownInLoop
  split_ifs
  · exact .refl c
  · exact ⟨⟨[.shutdownWrite], rfl, by simp [Event.isQuiet]⟩, ⟨[], by simp, by simp⟩, id,
      fun hs hn => ⟨hs, hn⟩⟩

theorem stopReadInLoop_quiet : Quiet c c.stopReadInLoop := by
  unfold stopReadInLoop
  split_ifs
  · exact ⟨⟨[], by simp, by simp⟩, ⟨[], by simp, by simp⟩, id,
      fun hs hn => ⟨hs, c.channel.isNoneEvent_disableReading hn⟩⟩
  · exact .refl c

theorem not_isUp_of_disconnected (h : c.state = .kDisconnected) : ¬ c.IsUp := by
  simp [IsUp, h]

/-- Leaving the connected state, with at most one functor queued. -/
theorem setDisconnecting_quiet (h : c.IsUp) (fs : List Functor)
    (hfs : ∀ f ∈ fs, f ≠ .startReadInLoop ∧ f ≠ .connectDestroyed) :
    Quiet c { c with state := .kDisconnecting, pendingFunctors := c.pendingFunctors ++ fs } :=
  ⟨⟨[], by simp, by simp⟩, ⟨fs, rfl, hfs⟩, fun _ => .inr rfl,
    fun hs _ => absurd h (not_isUp_of_disconnected hs)⟩

theorem forceClose_quiet : Quiet c c.forceClose := by
  unfold forceClose
  split_ifs with h
  · exact setDisconnecting_quiet h [.forceCloseInLoop] (by simp)
  · exact .refl c

theorem forceCloseWithDelay_quiet : Quiet c c.forceCloseWithDelay := by
  unfold forceCloseWithDelay
  split_ifs with h
  · simpa [setState] using setDisconnecting_quiet h [] (by simp)
  · exact .refl c

theorem call_quiet {a : Call WriteAnswer} (ha : a ≠ .startRead) :
    ∃ c', c.call a = .ok c' ∧ Quiet c c' := by
  cases a with
  | send message answer =>
    simp only [call]
    split_ifs
    · exact sendInLoop_quiet message answer
    · exact ⟨c, rfl, .refl c⟩
  | shutdown =>
    simp only [call]
    split_ifs with h
    · refine ⟨_, rfl, Quiet.trans ?_ shutdownInLoop_quiet⟩
      simpa [setState] using setDisconnecting_quiet (.inl h) [] (by simp)
    · exact ⟨c, rfl, .refl c⟩
  | forceClose => exact ⟨_, rfl, forceClose_quiet⟩
  | forceCloseWithDelay => exact ⟨_, rfl, forceCloseWithDelay_quiet⟩
  | startRead => exact absurd rfl ha
  | stopRead => exact ⟨_, rfl, stopReadInLoop_quiet⟩

theorem calls_quiet {as : List (Call WriteAnswer)} (has : .startRead ∉ as) :
    ∃ c', c.calls as = .ok c' ∧ Quiet c c' := by
  induction as generalizing c with
  | nil => exact ⟨c, rfl, .refl c⟩
  | cons a as ih =>
    rw [List.mem_cons, not_or] at has
    obtain ⟨c₁, h₁, hq₁⟩ := c.call_quiet (Ne.symm has.1)
    obtain ⟨c₂, h₂, hq₂⟩ := ih (c := c₁) has.2
    exact ⟨c₂, by simp [calls, h₁, h₂], hq₁.trans hq₂⟩

theorem foreignCall_quiet {a : Call Unit} (ha : a ≠ .startRead) : Quiet c (c.foreignCall a) := by
  cases a with
  | send message _ =>
    simp only [foreignCall]
    split_ifs
    · exact ⟨⟨[], by simp, by simp⟩, ⟨[.sendInLoop message], rfl, by simp⟩, id,
        fun hs hn => ⟨hs, hn⟩⟩
    · exact .refl c
  | shutdown =>
    simp only [foreignCall]
    split_ifs with h
    · exact setDisconnecting_quiet (.inl h) [.shutdownInLoop] (by simp)
    · exact .refl c
  | forceClose => exact forceClose_quiet
  | forceCloseWithDelay => exact forceCloseWithDelay_quiet
  | startRead => exact absurd rfl ha
  | stopRead =>
    exact ⟨⟨[], by simp [foreignCall], by simp⟩, ⟨[.stopReadInLoop], rfl, by simp⟩, id,
      fun hs hn => ⟨hs, hn⟩⟩

/-- Reported up and not yet down. -/
structure Up (c : TcpConnection) : Prop where
  state : c.IsUp
  reports : Event.reports c.history = [true]
  closes : .closeCallback ∉ c.history

/-- Reported down, and no longer watched by the poller. -/
structure Down (c : TcpConnection) : Prop where
  state : c.state = .kDisconnected
  reports : Event.reports c.history = [true, false]
  none : c.channel.isNoneEvent = true

structure Orderly (c : TcpConnection) : Prop where
  phase : c.Up ∨ c.Down
  closes : c.history.count .closeCallback ≤ 1
  messages : Obeys Event.NotAfterDown c.history
  functors : .startReadInLoop ∉ c.pendingFunctors
  destroyed : .connectDestroyed ∈ c.pendingFunctors → c.state = .kDisconnected

theorem Orderly.up (h : c.Orderly) (hup : c.IsUp) : c.Up := by
  rcases h.phase with hu | hd
  · exact hu
  · exact absurd hup (not_isUp_of_disconnected hd.state)

theorem Orderly.down (h : c.Orderly) (hs : c.state = .kDisconnected) : c.Down := by
  rcases h.phase with hu | hd
  · exact absurd hu.state (not_isUp_of_disconnected hs)
  · exact hd

theorem closeCallback_not_quiet {es : List Event} (h : ∀ e ∈ es, e.isQuiet = true) :
    .closeCallback ∉ es := by
  intro hm
  cases h _ hm

theorem Orderly.quiet {c' : TcpConnection} (h : c.Orderly) (hq : Quiet c c') : c'.Orderly := by
  obtain ⟨⟨es, hes, hquiet⟩, ⟨fs, hfs, hf⟩, hup, hdown⟩ := hq
  have hclose := closeCallback_not_quiet hquiet
  have hreports : Event.reports c'.history = Event.reports c.history := by
    rw [hes, Event.reports_append, Event.reports_of_quiet hquiet, List.append_nil]
  constructor
  · rcases h.phase with hu | hd
    · left
      exact ⟨hup hu.state, hreports.trans hu.reports, by simp [hes, hu.closes, hclose]⟩
    · right
      obtain ⟨hs, hn⟩ := hdown hd.state hd.none
      exact ⟨hs, hreports.trans hd.reports, hn⟩
  · rw [hes, List.count_append, List.count_eq_zero.mpr hclose]
    exact h.closes
  · rw [hes]
    apply Event.obeys_notAfterDown_append h.messages
    rintro e he rfl
    cases hquiet _ he
  · rw [hfs, List.mem_append, not_or]
    exact ⟨h.functors, fun hm => (hf _ hm).1 rfl⟩
  · intro hm
    rw [hfs, List.mem_append] at hm
    rcases hm with hm | hm
    · have hs := h.destroyed hm
      exact (hdown hs (h.down hs).none).1
    · exact absurd rfl (hf _ hm).2

/-- Running a callback of the user keeps the order of the reports. -/
theorem Orderly.calls (h : c.Orderly) {as : List (Call WriteAnswer)} (has : .startRead ∉ as) :
    ∃ c', c.calls as = .ok c' ∧ Quiet c c' ∧ c'.Orderly := by
  obtain ⟨c', hc', hq⟩ := c.calls_quiet has
  exact ⟨c', hc', hq, h.quiet hq⟩

theorem Orderly.goDown (h : c.Orderly) (hup : c.IsUp) :
    Orderly { c with
      state := .kDisconnected
      channel := c.channel.disableAll
      history := c.history ++ [.connectionCallback false] } := by
  have hu := h.up hup
  constructor
  · right
    exact ⟨rfl, by simp [Event.reports, hu.reports], rfl⟩
  · simpa using h.closes
  · exact h.messages.concat (by simp [Event.NotAfterDown])
  · exact h.functors
  · intro _
    rfl

theorem handleClose_orderly (h : c.Orderly) (hup : c.IsUp) {onDown : List (Call WriteAnswer)}
    (hon : .startRead ∉ onDown) :
    ∃ c', c.handleClose onDown = .ok c' ∧ c'.Orderly ∧ c'.state = .kDisconnected := by
  have hdown := h.goDown hup
  obtain ⟨c', hc', hq, ho⟩ := hdown.calls hon
  have hs : c'.state = .kDisconnected := (hq.down rfl rfl).1
  refine ⟨c'.observe .closeCallback, ?_, ?_, hs⟩
  · have hassert : c.state = .kConnected ∨ c.state = .kDisconnecting := hup
    simp [handleClose, assertThat_pos hassert, connected, observe, setState, hc']
  · have hnone : .closeCallback ∉ c'.history := by
      obtain ⟨es, hes, hquiet⟩ := hq.history
      rw [hes]
      simp [(h.up hup).closes, closeCallback_not_quiet hquiet]
    have hd := ho.down hs
    constructor
    · right
      exact ⟨hs, by simp [Event.reports, hd.reports], hd.none⟩
    · simp [List.count_append, List.count_eq_zero.mpr hnone]
    · exact ho.messages.concat (by simp [Event.NotAfterDown])
    · exact ho.functors
    · intro _
      exact hs

theorem forceCloseInLoop_orderly (h : c.Orderly) {onDown : List (Call WriteAnswer)}
    (hon : .startRead ∉ onDown) : ∃ c', c.forceCloseInLoop onDown = .ok c' ∧ c'.Orderly := by
  unfold forceCloseInLoop
  split_ifs with hup
  · obtain ⟨c', hc', ho, -⟩ := handleClose_orderly h hup hon
    exact ⟨c', hc', ho⟩
  · exact ⟨c, rfl, h⟩

theorem connectDestroyed_orderly (h : c.Orderly) (hs : c.state = .kDisconnected)
    (onDown : List (Call WriteAnswer)) :
    ∃ c', c.connectDestroyed onDown = .ok c' ∧ c'.Orderly := by
  have hd := h.down hs
  refine ⟨{ c with channel := { c.channel with addedToLoop := false } }, ?_, ?_⟩
  · simp [connectDestroyed, hs, removeChannel, hd.none]
  · exact ⟨.inr ⟨hs, hd.reports, hd.none⟩, h.closes, h.messages, h.functors, h.destroyed⟩

theorem Orderly.withInput (h : c.Orderly) (b : Buffer) : Orderly { c with inputBuffer := b } :=
  h.quiet ⟨⟨[], by simp, by simp⟩, ⟨[], by simp, by simp⟩, id, fun hs hn => ⟨hs, hn⟩⟩

theorem Orderly.observeMessage (h : c.Orderly) (hup : c.IsUp) :
    (c.observe .messageCallback).Orderly := by
  have hu := h.up hup
  constructor
  · left
    exact ⟨hup, by simp [Event.reports, hu.reports], by simp [hu.closes]⟩
  · simpa using h.closes
  · apply h.messages.concat
    intro _
    simp [Event.mem_reports, hu.reports]
  · exact h.functors
  · exact h.destroyed

/-- What the callbacks of one event do is admissible. -/
def Script.Admissible (script : Script) : Prop :=
  .startRead ∉ script.onMessage ∧ .startRead ∉ script.onDown

theorem handleRead_orderly (h : c.Orderly) (hup : c.IsUp) {script : Script}
    (hs : script.Admissible) : ∃ c', c.handleRead script = .ok c' ∧ c'.Orderly := by
  obtain ⟨⟨n, errno, b⟩, hread⟩ := c.inputBuffer.readFd_returns script.read
  have hb : Orderly { c with inputBuffer := b } := h.withInput b
  have hupb : IsUp { c with inputBuffer := b } := hup
  simp only [handleRead, hread, ok_bind]
  split_ifs
  · obtain ⟨c', hc', -, ho⟩ := (hb.observeMessage hupb).calls hs.1
    exact ⟨_, by rw [hc']; rfl, ho.withInput script.input⟩
  · obtain ⟨c', hc', ho, -⟩ := handleClose_orderly hb hupb hs.2
    exact ⟨c', hc', ho⟩
  · exact ⟨_, rfl, hb⟩

theorem runCallbacks_append (script : Script) (ks ls : List ChannelCallback) (c : TcpConnection) :
    runCallbacks script c (ks ++ ls) =
      (runCallbacks script c ks >>= fun c => runCallbacks script c ls) := by
  induction ks generalizing c with
  | nil => rfl
  | cons k ks ih =>
    simp only [List.cons_append, runCallbacks]
    cases c.runCallback script k with
    | error e => rfl
    | ok c' => exact ih c'

/-- The callbacks for errors and for output tell the user nothing. -/
theorem runCallbacks_quiet (script : Script) {ks : List ChannelCallback}
    (hks : ∀ k ∈ ks, k = .error ∨ k = .write) :
    ∃ c', runCallbacks script c ks = .ok c' ∧ Quiet c c' := by
  induction ks generalizing c with
  | nil => exact ⟨c, rfl, .refl c⟩
  | cons k ks ih =>
    have hks' : ∀ l ∈ ks, l = .error ∨ l = .write := fun l hl => hks l (by simp [hl])
    rcases hks k (by simp) with rfl | rfl
    · exact ih hks'
    · obtain ⟨c₁, h₁, hq₁⟩ := c.handleWrite_quiet script.write
      obtain ⟨c₂, h₂, hq₂⟩ := ih (c := c₁) hks'
      exact ⟨c₂, by simp [runCallbacks, runCallback, h₁, h₂], hq₁.trans hq₂⟩

/-- The callbacks of a mask: at most one of closing and reading comes with the
quiet ones, which stand in front of a read and behind either. -/
theorem handleEventWithGuard_cases {revents : PollEvents}
    (h : (revents.pollHup && !revents.pollIn) = true →
      (revents.pollIn || revents.pollPri || revents.pollRdHup) = false) :
    ∃ ks ls, (∀ k ∈ ks ++ ls, k = ChannelCallback.error ∨ k = .write) ∧
      (Channel.handleEventWithGuard revents = ks ++ ls ∨
        Channel.handleEventWithGuard revents = ks ++ .close :: ls ∨
        Channel.handleEventWithGuard revents = ks ++ .read :: ls) := by
  have herror : ∀ k ∈ (if revents.pollErr || revents.pollNval then [ChannelCallback.error] else []),
      k = .error ∨ k = .write := by
    split_ifs <;> simp
  have hwrite : ∀ k ∈ (if revents.pollOut then [ChannelCallback.write] else []),
      k = .error ∨ k = .write := by
    split_ifs <;> simp
  unfold Channel.handleEventWithGuard
  generalize (if revents.pollErr || revents.pollNval then [ChannelCallback.error] else []) = es
    at herror ⊢
  generalize (if revents.pollOut then [ChannelCallback.write] else []) = ws at hwrite ⊢
  have hboth := List.forall_mem_append.mpr ⟨herror, hwrite⟩
  by_cases hclose : (revents.pollHup && !revents.pollIn) = true
  · refine ⟨[], es ++ ws, hboth, .inr (.inl ?_)⟩
    simp [hclose, h hclose]
  · by_cases hread : (revents.pollIn || revents.pollPri || revents.pollRdHup) = true
    · refine ⟨es, ws, hboth, .inr (.inr ?_)⟩
      simp only [hclose, hread]
      simp
    · refine ⟨es, ws, hboth, .inl ?_⟩
      simp only [hclose, hread]
      simp

theorem handleEvent_orderly (h : c.Orderly) (hup : c.IsUp) {revents : PollEvents}
    (hread : (revents.pollHup && !revents.pollIn) = true →
      (revents.pollIn || revents.pollPri || revents.pollRdHup) = false)
    {script : Script} (hs : script.Admissible) :
    ∃ c', c.handleEvent revents script = .ok c' ∧ c'.Orderly := by
  obtain ⟨ks, ls, hquiet, hcases⟩ := handleEventWithGuard_cases hread
  obtain ⟨hks, hls⟩ := List.forall_mem_append.mp hquiet
  obtain ⟨c₁, h₁, hq₁⟩ := c.runCallbacks_quiet script hks
  have ho₁ := h.quiet hq₁
  have hup₁ := hq₁.up hup
  have hloud : ∀ k c₂, c₁.runCallback script k = .ok c₂ → c₂.Orderly →
      ∃ c', runCallbacks script c (ks ++ k :: ls) = .ok c' ∧ c'.Orderly := by
    intro k c₂ hk ho₂
    obtain ⟨c₃, h₃, hq₃⟩ := c₂.runCallbacks_quiet script hls
    exact ⟨c₃, by simp [runCallbacks_append, h₁, runCallbacks, hk, h₃], ho₂.quiet hq₃⟩
  unfold handleEvent
  rcases hcases with heq | heq | heq
  · obtain ⟨c', hc', hq⟩ := c.runCallbacks_quiet script hquiet
    exact ⟨c', by rw [heq, hc'], h.quiet hq⟩
  · obtain ⟨c₂, h₂, ho₂, -⟩ := handleClose_orderly ho₁ hup₁ hs.2
    rw [heq]
    exact hloud .close c₂ h₂ ho₂
  · obtain ⟨c₂, h₂, ho₂⟩ := handleRead_orderly ho₁ hup₁ hs
    rw [heq]
    exact hloud .read c₂ h₂ ho₂

/-- A connection, and the events that the poller has reported for its channel
and the loop has not handled yet. -/
structure Watched where
  conn : TcpConnection
  active : Option PollEvents

/-- The masks that the platform reports for a channel with some interest. -/
def Reportable (interest revents : PollEvents) : Prop :=
  interest ≠ .kNoneEvent ∧
    revents.without (interest.or { pollErr := true, pollHup := true }) = .kNoneEvent ∧
    (revents.pollHup = true → interest.pollIn = true → revents.pollIn = true)

instance (interest revents : PollEvents) : Decidable (Reportable interest revents) :=
  inferInstanceAs (Decidable (_ ∧ _))

instance (script : Script) : Decidable script.Admissible :=
  inferInstanceAs (Decidable (_ ∧ _))

inductive LifeStep where
  | poll (revents : PollEvents)
  | handleEvent (script : Script)
  | call (a : Call WriteAnswer)
  | foreignCall (a : Call Unit)
  | queueInLoop (f : Functor)
  | runFunctor (answer : WriteAnswer) (onCallback : List (Call WriteAnswer))

/-- Everybody may send, shut down and close at any time, and queue functors. The
owner queues `connectDestroyed` after the close callback, nobody restarts
reading, and functors run when no event is left. -/
def LifeStep.Allowed (w : Watched) : LifeStep → Prop
  | .poll revents => w.active = none ∧ Reportable w.conn.channel.events revents
  | .handleEvent script => w.active ≠ none ∧ script.Admissible
  | .call a => a ≠ .startRead
  | .foreignCall a => a ≠ .startRead
  | .queueInLoop f => f ≠ .startReadInLoop ∧
      (f = .connectDestroyed → .closeCallback ∈ w.conn.history)
  | .runFunctor _ onCallback =>
    w.active = none ∧ w.conn.pendingFunctors ≠ [] ∧ .startRead ∉ onCallback

instance (w : Watched) (a : LifeStep) : Decidable (a.Allowed w) := by
  cases a <;> unfold LifeStep.Allowed <;> infer_instance

def lifeMachine : Machine Watched LifeStep Fault where
  Allows w a := a.Allowed w
  step w
    | .poll revents => .ok { w with active := some revents }
    | .handleEvent script =>
      match w.active with
      | none => .ok w
      | some revents => do
        let conn ← w.conn.handleEvent revents script
        return { conn := conn, active := none }
    | .call a => do
      let conn ← w.conn.call a
      return { w with conn := conn }
    | .foreignCall a => .ok { w with conn := w.conn.foreignCall a }
    | .queueInLoop f => .ok { w with conn := w.conn.queueInLoop f }
    | .runFunctor answer onCallback =>
      match w.conn.pendingFunctors with
      | [] => .ok w
      | f :: fs => do
        let conn ← { w.conn with pendingFunctors := fs }.runFunctor answer onCallback f
        return { w with conn := conn }

instance (w : Watched) (a : LifeStep) : Decidable (lifeMachine.Allows w a) :=
  inferInstanceAs (Decidable (a.Allowed w))

/-- A reported event finds its connection up, and closes it or reads from it but
not both. -/
structure Watched.Orderly (w : Watched) : Prop where
  conn : w.conn.Orderly
  active : ∀ revents, w.active = some revents → w.conn.IsUp ∧
    ((revents.pollHup && !revents.pollIn) = true →
      (revents.pollIn || revents.pollPri || revents.pollRdHup) = false)

theorem Watched.Orderly.quiet {w : Watched} (h : w.Orderly) {c' : TcpConnection}
    (hq : Quiet w.conn c') : Watched.Orderly { w with conn := c' } := by
  constructor
  · exact h.conn.quiet hq
  · intro revents hr
    obtain ⟨hup, hread⟩ := h.active revents hr
    exact ⟨hq.up hup, hread⟩

theorem Reportable.not_read_of_close {revents : PollEvents}
    (h : Reportable c.channel.events revents)
    (hclose : (revents.pollHup && !revents.pollIn) = true) :
    (revents.pollIn || revents.pollPri || revents.pollRdHup) = false := by
  obtain ⟨-, hwithin, hhup⟩ := h
  have hpri := congrArg PollEvents.pollPri hwithin
  have hrd := congrArg PollEvents.pollRdHup hwithin
  apply Channel.not_read_of_close c.channel.shape ?_ ?_ hhup hclose
  · intro h
    simpa [PollEvents.without, PollEvents.or, PollEvents.kNoneEvent, h] using hpri
  · intro h
    simpa [PollEvents.without, PollEvents.or, PollEvents.kNoneEvent, h] using hrd

theorem poll_orderly {w : Watched} (h : w.Orderly) {revents : PollEvents}
    (hr : Reportable w.conn.channel.events revents) :
    Watched.Orderly { w with active := some revents } := by
  constructor
  · exact h.conn
  · rintro _ ⟨rfl⟩
    constructor
    · rcases h.conn.phase with hu | hd
      · exact hu.state
      · exact absurd (by simpa [Channel.isNoneEvent] using hd.none) hr.1
    · exact hr.not_read_of_close

theorem queueInLoop_orderly (h : c.Orderly) {f : Functor} (hf : f ≠ .startReadInLoop)
    (hd : f = .connectDestroyed → .closeCallback ∈ c.history) : (c.queueInLoop f).Orderly := by
  refine ⟨?_, h.closes, h.messages, ?_, ?_⟩
  · rcases h.phase with hu | hd
    · exact .inl ⟨hu.state, hu.reports, hu.closes⟩
    · exact .inr ⟨hd.state, hd.reports, hd.none⟩
  · simp [h.functors, Ne.symm hf]
  · intro hm
    rcases List.mem_append.mp hm with hm | hm
    · exact h.destroyed hm
    · have hclosed := hd (List.mem_singleton.mp hm).symm
      rcases h.phase with hu | hdown
      · exact absurd hclosed hu.closes
      · exact hdown.state

theorem runFunctor_orderly {f : Functor} {fs : List Functor} (h : c.Orderly)
    (hp : c.pendingFunctors = f :: fs) (answer : WriteAnswer)
    {onCallback : List (Call WriteAnswer)} (hon : .startRead ∉ onCallback) :
    ∃ c', { c with pendingFunctors := fs }.runFunctor answer onCallback f = .ok c' ∧
      c'.Orderly := by
  have hfs := h.functors
  have hdes := h.destroyed
  rw [hp, List.mem_cons, not_or] at hfs
  rw [hp] at hdes
  have hpop : Orderly { c with pendingFunctors := fs } := by
    refine ⟨?_, h.closes, h.messages, hfs.2, fun hm => hdes (by simp [hm])⟩
    rcases h.phase with hu | hd
    · exact .inl ⟨hu.state, hu.reports, hu.closes⟩
    · exact .inr ⟨hd.state, hd.reports, hd.none⟩
  cases f with
  | sendInLoop message =>
    obtain ⟨c', hc', hq⟩ := sendInLoop_quiet (c := { c with pendingFunctors := fs }) message answer
    exact ⟨c', hc', hpop.quiet hq⟩
  | shutdownInLoop => exact ⟨_, rfl, hpop.quiet shutdownInLoop_quiet⟩
  | forceCloseInLoop => exact forceCloseInLoop_orderly hpop hon
  | startReadInLoop => exact absurd rfl hfs.1
  | stopReadInLoop => exact ⟨_, rfl, hpop.quiet stopReadInLoop_quiet⟩
  | connectDestroyed => exact connectDestroyed_orderly hpop (hdes (by simp)) onCallback
  | writeCompleteCallback =>
    obtain ⟨c', hc', -, ho⟩ := hpop.calls hon
    exact ⟨c', hc', ho⟩
  | highWaterMarkCallback size =>
    obtain ⟨c', hc', -, ho⟩ := hpop.calls hon
    exact ⟨c', hc', ho⟩

theorem lifeMachine_step {w : Watched} (h : w.Orderly) {a : LifeStep} (ha : a.Allowed w) :
    ∃ w', lifeMachine.step w a = .ok w' ∧ w'.Orderly := by
  cases a with
  | poll revents => exact ⟨_, rfl, poll_orderly h ha.2⟩
  | handleEvent script =>
    obtain ⟨revents, hr⟩ := Option.ne_none_iff_exists'.mp ha.1
    obtain ⟨hup, hread⟩ := h.active revents hr
    obtain ⟨c', hc', ho⟩ := handleEvent_orderly h.conn hup hread ha.2
    exact ⟨⟨c', none⟩, by simp [lifeMachine, hr, hc'], ho, by simp⟩
  | call a =>
    obtain ⟨c', hc', hq⟩ := w.conn.call_quiet ha
    exact ⟨_, by simp [lifeMachine, hc'], h.quiet hq⟩
  | foreignCall a => exact ⟨_, rfl, h.quiet (foreignCall_quiet ha)⟩
  | queueInLoop f => exact ⟨_, rfl, queueInLoop_orderly h.conn ha.1 ha.2, h.active⟩
  | runFunctor answer onCallback =>
    obtain ⟨hnone, hpending, hon⟩ := ha
    obtain ⟨f, fs, hp⟩ := List.exists_cons_of_ne_nil hpending
    obtain ⟨c', hc', ho⟩ := runFunctor_orderly h.conn hp answer hon
    exact ⟨⟨c', w.active⟩, by simp [lifeMachine, hp, hc'], ho, by simp [hnone]⟩

theorem connectEstablished_orderly (writeComplete highWater : Bool) (mark : ℕ)
    {onUp : List (Call WriteAnswer)} (hon : .startRead ∉ onUp) :
    ∃ c, (init writeComplete highWater mark).connectEstablished onUp = .ok c ∧ c.Orderly := by
  have hup : Orderly { init writeComplete highWater mark with
      state := .kConnected
      channel := Channel.init.enableReading
      history := [.connectionCallback true] } := by
    refine ⟨.inl ⟨.inl rfl, rfl, by simp⟩, by simp, ?_, by simp [init], by simp [init]⟩
    exact obeys_nil.concat (by simp [Event.NotAfterDown])
  obtain ⟨c, hc, -, ho⟩ := hup.calls hon
  exact ⟨c, by simpa [connectEstablished, init, connected, observe, setState] using hc, ho⟩

/-- From `connectEstablished` on, whatever is reported, answered, called and
queued, nothing asserted fails; the connection is reported up and then at most
once down, its owner is told at most once, and no message follows the end. -/
theorem up_once_down_once (writeComplete highWater : Bool) (mark : ℕ)
    (onUp : List (Call WriteAnswer)) (hon : .startRead ∉ onUp) :
    ∃ c, (init writeComplete highWater mark).connectEstablished onUp = .ok c ∧
      ∀ steps, lifeMachine.Permits ⟨c, none⟩ steps →
        ∃ w, lifeMachine.run ⟨c, none⟩ steps = .ok w ∧
          (Event.reports w.conn.history = [true] ∨
            Event.reports w.conn.history = [true, false]) ∧
          w.conn.history.count .closeCallback ≤ 1 ∧
          Obeys Event.NotAfterDown w.conn.history := by
  obtain ⟨c, hc, ho⟩ := connectEstablished_orderly writeComplete highWater mark hon
  refine ⟨c, hc, ?_⟩
  intro steps hp
  have hstart : Watched.Orderly ⟨c, none⟩ := ⟨ho, by simp⟩
  obtain ⟨w, hw, hend⟩ :=
    lifeMachine.run_safe (fun _ _ hi ha => lifeMachine_step hi ha) hstart hp
  refine ⟨w, hw, ?_, hend.conn.closes, hend.conn.messages⟩
  rcases hend.conn.phase with hu | hd
  · exact .inl hu.reports
  · exact .inr hd.reports

/-- Two forced closes are queued between the report of a hang-up and its handler. -/
def forcedTwice : List LifeStep :=
  [.poll { pollIn := true, pollOut := true, pollHup := true }, .call .forceClose,
    .foreignCall .forceClose,
    .handleEvent ⟨.bytes [], .took 1, [], default, [.send [3] (.took 1), .stopRead]⟩,
    .queueInLoop .connectDestroyed, .runFunctor (.took 0) [], .runFunctor (.took 0) [],
    .runFunctor (.took 0) []]

theorem up_once_down_once_forced_twice :
    ∃ c w, (init true true 4).connectEstablished [.send [1, 2] (.took 1)] = .ok c ∧
      lifeMachine.run ⟨c, none⟩ forcedTwice = .ok w ∧
      (Event.reports w.conn.history = [true] ∨
        Event.reports w.conn.history = [true, false]) ∧
      w.conn.history.count .closeCallback ≤ 1 ∧ Obeys Event.NotAfterDown w.conn.history := by
  obtain ⟨c, hc, hrun⟩ := up_once_down_once true true 4 [.send [1, 2] (.took 1)] (by decide)
  have hp : ∀ c ∈ ((init true true 4).connectEstablished [.send [1, 2] (.took 1)]).toOption,
      lifeMachine.Permits ⟨c, none⟩ forcedTwice := by
    decide +kernel
  obtain ⟨w, hw⟩ := hrun forcedTwice (hp c (by rw [hc]; rfl))
  exact ⟨c, w, hc, hw⟩

end TcpConnection
end Muduo
