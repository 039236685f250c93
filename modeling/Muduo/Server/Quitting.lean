import Muduo.Server.Destruction

/-!
# The end of a server with its threads

A connection gets its one `connectDestroyed` when three things go well: no removal is under way
from the moment at which the server is destroyed, each `connectDestroyed` that is called returns,
and no loop is left while one waits in its queue. Each of them is also necessary.
-/

namespace Muduo

open Foundations

namespace TcpServer

variable {n : ℕ} {w w' : TcpServer n} {i : ℕ} {onDown : List (Call WriteAnswer)}
  {ipPort name : Bytes} {a : ServerStep n}

theorem step_of_destroys (h : w.destroys a = some (i, onDown)) :
    ∃ w₁ : TcpServer n, w₁.accepted = w.accepted ∧ w.step a = w₁.connectDestroyed i onDown := by
  cases a with
  | runFunctor k answer onCallback =>
    rw [destroys] at h
    split at h
    · next j fs hk =>
      cases h
      refine ⟨{ w with queue := Function.update w.queue k fs }, rfl, ?_⟩
      rw [step, runFunctor, hk]
      rfl
    · cases h
  | destroyConnection calls =>
    rw [destroys] at h
    split at h
    · next j is hrest =>
      split_ifs at h with hloop
      cases h
      obtain ⟨s, hs, hzero⟩ := Option.map_eq_some_iff.mp hloop
      refine ⟨{ w with destroying := some is }, rfl, ?_⟩
      simp [step, destroyConnection, hrest, hs, hzero]
    · cases h
  | _ => cases h

theorem connectDestroyed_returns_iff {s : ServedConnection n} (hi : w.accepted[i]? = some s) :
    (∃ w', w.connectDestroyed i onDown = .ok w') ↔ s.conn.Removable onDown := by
  rw [← TcpConnection.connectDestroyed_returns_iff]
  constructor
  · rintro ⟨w', hw'⟩
    obtain ⟨hnone, -⟩ | ⟨s', c, hs', hc, -⟩ := onConnection_eq_ok hw'
    · cases hi.symm.trans hnone
    · cases hi.symm.trans hs'
      exact ⟨c, hc⟩
  · rintro ⟨c, hc⟩
    refine ⟨(w.observe (.destroyed i)).store i s c, ?_⟩
    simp [connectDestroyed, onConnection, hi, hc, Except.mapError]

/-- A `connectDestroyed` that is called finds its connection as it needs it. -/
def FindsRemovable (w : TcpServer n) (a : ServerStep n) : Prop :=
  ∀ d ∈ w.destroys a, ∀ s ∈ w.accepted[d.1]?, s.conn.Removable d.2

instance (w : TcpServer n) (a : ServerStep n) : Decidable (w.FindsRemovable a) :=
  inferInstanceAs (Decidable (∀ _ ∈ _, ∀ _ ∈ _, _))

theorem findsRemovable_of_ok (hw' : w.step a = .ok w') : w.FindsRemovable a := by
  rintro ⟨i, onDown⟩ hd s hs
  obtain ⟨w₁, haccepted, hstep⟩ := step_of_destroys hd
  rw [← haccepted] at hs
  exact (connectDestroyed_returns_iff hs).mp ⟨w', hstep.symm.trans hw'⟩

theorem Safe.returns (h : w.Safe ipPort name) (ha : w.Enabled a) (hsound : w.Sound a)
    (hfinds : w.FindsRemovable a) : ∃ w', w.step a = .ok w' := by
  cases hstep : w.step a with
  | ok w' => exact ⟨w', rfl⟩
  | error e =>
    obtain ⟨fault, rfl⟩ := h.fails ha hstep
    rw [Sound, hstep] at hsound
    obtain ⟨⟨i, onDown⟩, hd⟩ := Option.isSome_iff_exists.mp hsound
    obtain ⟨w₁, haccepted, hdestroy⟩ := step_of_destroys hd
    cases hi : w₁.accepted[i]? with
    | none =>
      have hsame : w₁.connectDestroyed i onDown = .ok (w₁.observe (.destroyed i)) := by
        simp [connectDestroyed, onConnection, hi]
      cases hsame.symm.trans (hdestroy.symm.trans hstep)
    | some s =>
      have hremovable := hfinds (i, onDown) hd s (by rw [← haccepted]; exact hi)
      obtain ⟨w', hw'⟩ := (connectDestroyed_returns_iff hi).mpr hremovable
      cases hw'.symm.trans (hdestroy.symm.trans hstep)

end TcpServer

def ProcessStep.accepts {n : ℕ} : ProcessStep n → Bool
  | .server a => a.accepts
  | _ => false

namespace ServerProcess

open TcpServer (baseLoop threadLoop)

variable {n : ℕ} {p p' : ServerProcess n} {ipPort name : Bytes}

/-- The destructor has returned, and nothing is left to do. -/
structure Complete (p : ServerProcess n) : Prop where
  destroyed : p.Destroyed
  closing : p.server.closing = []
  queue : p.server.queue 0 = []

/-- No removal is under way from the moment at which the server is destroyed, each
`connectDestroyed` that is called returns, and no loop is left while one waits in its queue. -/
def Calm (p : ServerProcess n) : ProcessStep n → Prop
  | .server a => p.server.Calm a ∧ p.server.FindsRemovable a
  | .turn k => p.quit k = true → ∀ f ∈ p.server.queue k, f.isDestruction = false
  | .swap _ | .quit _ => True

instance (p : ServerProcess n) : (a : ProcessStep n) → Decidable (p.Calm a)
  | .server _ => inferInstanceAs (Decidable (_ ∧ _))
  | .turn _ => inferInstanceAs (Decidable (_ → _))
  | .swap _ => .isTrue trivial
  | .quit _ => .isTrue trivial

instance (p : ServerProcess n) (a : ProcessStep n) :
    Decidable ((machine.restrict Calm).Allows p a) :=
  inferInstanceAs (Decidable (_ ∧ _))

theorem spend_eq_left {a : ServerStep n} {k : Fin (n + 1)} :
    p.spend a k = .left ↔ p.phase k = .left := by
  unfold spend
  split
  · next l _ _ =>
    rcases hl : p.phase l with _ | ⟨_ | functors⟩ | _
    · rfl
    · rfl
    · by_cases heq : k = l
      · simp [heq, hl]
      · simp [heq]
    · rfl
  · rfl

theorem update_ne_left {k l : Fin (n + 1)} {phase : ThreadPhase} (hne : phase ≠ .left)
    (h : Function.update p.phase k phase l = .left) : p.phase l = .left := by
  rw [Function.update_apply] at h
  split_ifs at h
  · exact absurd h hne
  · exact h

theorem step_server {a : ServerStep n} (h : p.step (.server a) = .ok p') :
    ∃ w', p.server.step a = .ok w' ∧ p' = { p with server := w', phase := p.spend a } := by
  obtain ⟨w', hw', hreturn⟩ := bind_eq_ok.mp h
  cases hreturn
  exact ⟨w', hw', rfl⟩

/-- The server is safe, and what was left behind in a queue destroys no connection. -/
structure Settled (ipPort name : Bytes) (p : ServerProcess n) : Prop where
  safe : p.server.Safe ipPort name
  base : p.server.RemovalsAtBase
  quits : ∀ k, p.quit k = true → p.server.destroying = some []
  leaves : ∀ k, p.phase k = .left → p.quit k = true
  clean : ∀ k, p.phase k = .left → ∀ f ∈ p.server.queue k, f.isDestruction = false

theorem settled_init (n : ℕ) (ipPort name : Bytes) (writeComplete : Bool) :
    (init n ipPort name writeComplete).Settled ipPort name where
  safe := ⟨TcpServer.begins_init n ipPort name writeComplete,
    .inl (TcpServer.books_init n ipPort name writeComplete)⟩
  base k f hf := by cases hf
  quits k hk := by cases hk
  leaves k hk := by cases hk
  clean k hk := by cases hk

theorem Settled.server (h : p.Settled ipPort name) (hport : ipPort.length ≤ 51)
    {a : ServerStep n} (ha : TcpServer.machine.Allows p.server a) (hcalm : p.server.Calm a)
    {w' : TcpServer n} (hw' : p.server.step a = .ok w') :
    Settled ipPort name { p with server := w', phase := p.spend a } where
  safe := h.safe.step hport ⟨ha, hcalm⟩ hw'
  base := h.base.step h.safe.begins hw'
  quits k hk := TcpServer.step_ended (h.quits k hk) ha.1 hw'
  leaves k hk := h.leaves k (spend_eq_left.mp hk)
  clean k hk f hf := by
    have hleft := spend_eq_left.mp hk
    rcases TcpServer.step_fills h.safe.begins hw' k f hf with hf | hmay
    · exact h.clean k hleft f hf
    · rw [Bool.eq_false_iff]
      exact fun hd => hmay.2 hd (h.quits k (h.leaves k hleft))

theorem Settled.step (h : p.Settled ipPort name) (hport : ipPort.length ≤ 51)
    {a : ProcessStep n} (ha : (machine.restrict Calm).Allows p a) :
    ∃ p', p.step a = .ok p' ∧ p'.Settled ipPort name := by
  obtain ⟨hallows, hcalm⟩ := ha
  cases a with
  | server a =>
    obtain ⟨w', hw'⟩ := h.safe.returns hallows.1.1 hallows.2.1 hcalm.2
    refine ⟨{ p with server := w', phase := p.spend a }, ?_, h.server hport hallows.1 hcalm.1 hw'⟩
    simp [ServerProcess.step, hw']
  | swap k =>
    have hphase : ∀ l, Function.update p.phase k (.calling (p.server.queue k).length) l = .left →
        p.phase l = .left := fun l hl => update_ne_left (by simp) hl
    exact ⟨_, rfl, h.safe, h.base, h.quits, fun l hl => h.leaves l (hphase l hl),
      fun l hl => h.clean l (hphase l hl)⟩
  | turn k =>
    have hphase : ∀ l, Function.update p.phase k (if p.quit k then .left else .handling) l =
        .left → p.phase l = .left ∨ l = k ∧ p.quit k = true := by
      intro l hl
      by_cases hq : p.quit k = true
      · rw [Function.update_apply] at hl
        split_ifs at hl with hlk
        · exact .inr ⟨hlk, hq⟩
        · exact .inl hl
      · rw [if_neg hq] at hl
        exact .inl (update_ne_left (by simp) hl)
    refine ⟨_, rfl, h.safe, h.base, h.quits, fun l hl => ?_, fun l hl => ?_⟩
    · obtain hl | ⟨rfl, hq⟩ := hphase l hl
      · exact h.leaves l hl
      · exact hq
    · obtain hl | ⟨rfl, hq⟩ := hphase l hl
      · exact h.clean l hl
      · exact hcalm hq
  | quit k =>
    refine ⟨_, rfl, h.safe, h.base, fun l hl => ?_, fun l hl => ?_, h.clean⟩
    · exact hallows.2.1
    · have hquit := h.leaves l hl
      dsimp only
      rw [Function.update_apply, hquit, ite_self]

theorem Settled.destroyed_once (h : p.Settled ipPort name) (hc : p.Complete) {i : ℕ}
    (hi : i < p.server.accepted.length) : p.server.history.count (.destroyed i) = 1 := by
  obtain hbooks | ⟨rest, hleaving⟩ := h.safe.stands
  · cases hbooks.lives.symm.trans hc.destroyed.1
  · cases hleaving.destroying.symm.trans hc.destroyed.1
    have hnone : p.server.waits (.connection i .connectDestroyed) = 0 := by
      by_contra hpos
      obtain ⟨k, hk⟩ := waiting_pos.mp (Nat.pos_of_ne_zero hpos)
      by_cases hzero : k = 0
      · simp [hzero, hc.queue] at hk
      · exact Bool.noConfusion (h.clean k (hc.destroyed.2 k hzero) _ hk)
    have honce := hleaving.once i
    rw [hnone, if_pos hi] at honce
    simpa using honce

/-- A loop was left while a connection waits for its `connectDestroyed` there. -/
def Stuck (p : ServerProcess n) : Prop :=
  ∃ k, p.phase k = .left ∧ ∃ f ∈ p.server.queue k, f.isDestruction = true

/-- A removal is under way that will find no server, or a connection will never be destroyed. -/
structure Doomed (ipPort name : Bytes) (p : ServerProcess n) : Prop where
  begins : p.server.Begins none
  base : p.server.RemovalsAtBase
  fails : p.server.Doomed ∨
    p.server.Safe ipPort name ∧ p.server.destroying = some [] ∧ p.Stuck

theorem Stuck.server (h : p.Stuck) (hended : p.server.destroying = some []) {a : ServerStep n}
    (ha : p.Allows (.server a)) {w' : TcpServer n} (hw' : p.server.step a = .ok w') :
    Stuck { p with server := w', phase := p.spend a } := by
  obtain ⟨k, hk, f, hf, hd⟩ := h
  refine ⟨k, spend_eq_left.mpr hk, f, ?_, hd⟩
  have hgone : p.server.destroying ≠ none := by simp [hended]
  obtain hgrows | ⟨l, _, _, rfl, g, fs, -, -, hgrows⟩ | ⟨i, rfl⟩ :=
    TcpServer.step_grows hgone ha.1.1 hw'
  · exact hgrows.queue k f hf
  · have hne : k ≠ l := by
      rintro rfl
      exact ha.2.2.1.1 hk
    refine hgrows.queue k f ?_
    dsimp only
    rwa [Function.update_of_ne hne]
  · exact mem_push hf

theorem Doomed.step (h : p.Doomed ipPort name) (hport : ipPort.length ≤ 51) {a : ProcessStep n}
    (ha : p.Allows a) (hp' : p.step a = .ok p') : p'.Doomed ipPort name := by
  cases a with
  | server a =>
    obtain ⟨w', hw', rfl⟩ := step_server hp'
    refine ⟨h.begins.step ha.1.1 hw', h.base.step h.begins hw', ?_⟩
    obtain hdoomed | ⟨hsafe, hended, hstuck⟩ := h.fails
    · exact .inl (hdoomed.step ha.1.1 hw')
    · by_cases hcalm : p.server.Calm a
      · exact .inr ⟨hsafe.step hport ⟨ha.1, hcalm⟩ hw', TcpServer.step_ended hended ha.1.1 hw',
          hstuck.server hended ha hw'⟩
      · exact .inl (TcpServer.doomed_of_not_calm hcalm hw')
  | swap k =>
    cases hp'
    refine ⟨h.begins, h.base, h.fails.imp_right fun ⟨hsafe, hended, l, hl, hf⟩ => ?_⟩
    have hne : l ≠ k := by
      rintro rfl
      exact ha.1.1 hl
    exact ⟨hsafe, hended, l, (Function.update_of_ne hne _ _).trans hl, hf⟩
  | turn k =>
    cases hp'
    refine ⟨h.begins, h.base, h.fails.imp_right fun ⟨hsafe, hended, l, hl, hf⟩ => ?_⟩
    have hne : l ≠ k := by
      rintro rfl
      exact ha.1.1 hl
    exact ⟨hsafe, hended, l, (Function.update_of_ne hne _ _).trans hl, hf⟩
  | quit k =>
    cases hp'
    exact ⟨h.begins, h.base, h.fails⟩

theorem Settled.doomed (h : p.Settled ipPort name) {a : ProcessStep n} (ha : p.Allows a)
    (hrash : ¬ p.Calm a) (hp' : p.step a = .ok p') : p'.Doomed ipPort name := by
  cases a with
  | server a =>
    obtain ⟨w', hw', rfl⟩ := step_server hp'
    have hnot : ¬ p.server.Calm a :=
      fun hcalm => hrash ⟨hcalm, TcpServer.findsRemovable_of_ok hw'⟩
    exact ⟨h.safe.begins.step ha.1.1 hw', h.base.step h.safe.begins hw',
      .inl (TcpServer.doomed_of_not_calm hnot hw')⟩
  | turn k =>
    cases hp'
    rw [Calm] at hrash
    push Not at hrash
    obtain ⟨hquit, f, hf, hd⟩ := hrash
    refine ⟨h.safe.begins, h.base, .inr ⟨h.safe, h.quits k hquit, k, ?_, f, hf, ?_⟩⟩
    · simp [hquit]
    · simpa using hd
  | swap k => exact absurd trivial hrash
  | quit k => exact absurd trivial hrash

theorem Doomed.incomplete (h : p.Doomed ipPort name) (hc : p.Complete) :
    ∃ i < p.server.accepted.length, p.server.history.count (.destroyed i) ≠ 1 := by
  obtain hdoomed | ⟨hsafe, hended, k, -, f, hf, hd⟩ := h.fails
  · obtain ⟨i, hi⟩ | ⟨k, f, hf, hr⟩ := hdoomed.cases
    · simp [hc.closing] at hi
    · cases h.base k f hf hr
      simp [hc.queue] at hf
  · obtain ⟨i, rfl⟩ : ∃ i, f = .connection i .connectDestroyed := by
      unfold ServerFunctor.isDestruction at hd
      split at hd
      · exact ⟨_, rfl⟩
      · cases hd
    obtain hbooks | ⟨rest, hleaving⟩ := hsafe.stands
    · cases hbooks.lives.symm.trans hended
    · have honce := hleaving.once i
      have hwaits : 0 < p.server.waits (.connection i .connectDestroyed) :=
        waiting_pos.mpr ⟨k, hf⟩
      by_cases hi : i < p.server.accepted.length
      · rw [if_pos hi] at honce
        exact ⟨i, hi, by omega⟩
      · rw [if_neg hi] at honce
        omega

theorem accepted_run {ipPort name : Bytes} {writeComplete : Bool} {steps : List (ProcessStep n)}
    (h : machine.Permits (init n ipPort name writeComplete) steps)
    (hp : machine.run (init n ipPort name writeComplete) steps = .ok p) :
    p.server.accepted.length = steps.countP ProcessStep.accepts := by
  have hstep : ∀ (p : ServerProcess n) past a p',
      p.server.accepted.length = past.countP ProcessStep.accepts → machine.Allows p a →
      machine.step p a = .ok p' →
      p'.server.accepted.length = (past ++ [a]).countP ProcessStep.accepts := by
    intro p past a p' hpast _ hp'
    rw [List.countP_append, ← hpast]
    cases a with
    | server a =>
      obtain ⟨server, hserver, hp'⟩ := bind_eq_ok.mp hp'
      cases hp'
      exact TcpServer.step_accepted hserver
    | swap k | turn k | quit k =>
      cases hp'
      rfl
  exact machine.run_history hstep rfl h hp

/-- A server is destroyed, its threads are joined, and the base loop has run its queue, or the
run has failed; connections do not fail by themselves. No removal is made behind the destructor
and each connection is destroyed once, exactly if no removal is under way when the destructor
begins or at any later moment, each `connectDestroyed` finds a connection that is connected and
does not end up reading or else has no interest, and no loop is left while a `connectDestroyed`
waits in its queue. -/
theorem destruction_is_safe_iff (n : ℕ) (ipPort name : Bytes) (writeComplete : Bool)
    (hport : ipPort.length ≤ 51) (steps : List (ProcessStep n))
    (h : machine.Permits (init n ipPort name writeComplete) steps)
    (hend : ∀ p, machine.run (init n ipPort name writeComplete) steps = .ok p → p.Complete) :
    (∃ p, machine.run (init n ipPort name writeComplete) steps = .ok p ∧
      ∀ i < steps.countP ProcessStep.accepts, p.server.history.count (.destroyed i) = 1) ↔
    (machine.restrict Calm).Permits (init n ipPort name writeComplete) steps := by
  have hinit := settled_init n ipPort name writeComplete
  constructor
  · rintro ⟨p, hp, honce⟩
    have hkeep : ∀ (p : ServerProcess n) a p', p.Settled ipPort name →
        (machine.restrict Calm).Allows p a → machine.step p a = .ok p' →
        p'.Settled ipPort name := by
      intro p a p' hs ha hstep
      obtain ⟨p₁, hp₁, hs₁⟩ := hs.step hport ha
      cases hp₁.symm.trans hstep
      exact hs₁
    have hrash : ∀ (p : ServerProcess n) a p', p.Settled ipPort name → machine.Allows p a →
        ¬ p.Calm a → machine.step p a = .ok p' → p'.Doomed ipPort name :=
      fun _ _ _ hs ha hrash hstep => hs.doomed ha hrash hstep
    refine machine.permits_of_not_doomed hkeep hrash
      (fun _ _ _ hd ha hstep => hd.step hport ha hstep) steps _ p hinit h hp fun hdoomed => ?_
    obtain ⟨i, hi, hne⟩ := hdoomed.incomplete (hend p hp)
    rw [accepted_run h hp] at hi
    exact hne (honce i hi)
  · intro hcalm
    obtain ⟨p, hp, hs⟩ := (machine.restrict Calm).run_safe
      (fun _ _ hs ha => hs.step hport ha) hinit hcalm
    rw [machine.run_restrict Calm] at hp
    rw [← accepted_run h hp]
    exact ⟨p, hp, fun i hi => hs.destroyed_once (hend p hp) hi⟩

/-- The loop of the only thread goes through a round with `m` functors. -/
def threadRound (m : ℕ) : List (ProcessStep 1) :=
  .swap threadLoop :: List.replicate m (.server TcpServer.threadTurn) ++ [.turn threadLoop]

def baseRound : List (ProcessStep 1) :=
  [.swap (baseLoop 1), .server TcpServer.baseTurn, .turn (baseLoop 1)]

def closed (i : ℕ) : List (ProcessStep 1) :=
  [.server (TcpServer.hangUp i), .server (.closeCallback i)]

/-- The server is destroyed with one connection in its map. -/
def destruction : List (ProcessStep 1) := [.server .destroy, .server (.destroyConnection [])]

/-- The first connection was removed, and the second is up when the server is destroyed. -/
def calmEnd : List (ProcessStep 1) :=
  [.server (.accept [])] ++ threadRound 1 ++ closed 0 ++ baseRound ++ [.server (.accept [])] ++
    threadRound 2 ++ destruction ++ [.quit threadLoop] ++ threadRound 1

theorem complete_of_one {p : ServerProcess 1} (hd : p.server.destroying = some [])
    (hl : p.phase 1 = .left) (hc : p.server.closing = []) (hq : p.server.queue 0 = []) :
    p.Complete := by
  refine ⟨⟨hd, fun k hk => ?_⟩, hc, hq⟩
  fin_cases k
  · exact absurd rfl hk
  · exact hl

theorem destruction_is_safe_calm :
    ∃ p, machine.run (init 1 (ascii "0.0.0.0:7") (ascii "echo") true) calmEnd = .ok p ∧
      ∀ i < 2, p.server.history.count (.destroyed i) = 1 := by
  have hdone : (machine.run (init 1 (ascii "0.0.0.0:7") (ascii "echo") true)
      calmEnd).toOption.map (fun p => (p.server.destroying, p.phase 1, p.server.closing,
        p.server.queue 0)) = some (some [], .left, [], []) := by
    decide +kernel
  obtain ⟨p, hp, hparts⟩ := exists_ok_of_map hdone
  simp only [Prod.mk.injEq] at hparts
  obtain ⟨hd, hl, hc, hq⟩ := hparts
  obtain ⟨p', hp', honce⟩ := (destruction_is_safe_iff 1 (ascii "0.0.0.0:7") (ascii "echo") true
    (by decide) calmEnd (by decide +kernel) (by
      intro p' hp'
      cases hp.symm.trans hp'
      exact complete_of_one hd hl hc hq)).mpr (by decide +kernel)
  cases hp.symm.trans hp'
  exact ⟨p, hp, honce⟩

/-- Three ways to fail. A connection is closed by its peer, and its removal waits in the base loop
when the server is destroyed there. The loop of the thread has taken its functors when the server
is destroyed, so that it is left with `connectDestroyed` in its queue. A connection has been shut
down, and the assertion in `Channel::remove` fails. -/
theorem destruction_is_not_safe :
    let start := init 1 (ascii "0.0.0.0:7") (ascii "echo") true
    let behindDestructor := [.server (.accept [])] ++ threadRound 1 ++ closed 0 ++ destruction ++
      [.quit 1] ++ threadRound 1 ++ baseRound
    let behindSwap := [.server (.accept []), .swap 1] ++ destruction ++
      [.server TcpServer.threadTurn, .quit 1, .turn 1]
    let shutDown := [.server (.accept [])] ++ threadRound 1 ++ [.server (.call 0 .shutdown)] ++
      destruction ++ [.quit 1] ++ threadRound 1
    (machine.Permits start behindDestructor ∧
      machine.run start behindDestructor = .error (.dangling 0)) ∧
    (machine.Permits start behindSwap ∧ ∃ p, machine.run start behindSwap = .ok p ∧
      p.Complete ∧ p.server.accepted.length = 1 ∧ .destroyed 0 ∉ p.server.history) ∧
    (machine.Permits start shutDown ∧
      machine.run start shutDown = .error (.connection .assertion)) := by
  have hleft : (machine.run (init 1 (ascii "0.0.0.0:7") (ascii "echo") true)
      ([.server (.accept []), .swap 1] ++ destruction ++
        [.server TcpServer.threadTurn, .quit 1, .turn 1])).toOption.map (fun p =>
      ((p.server.destroying, p.phase 1, p.server.closing), p.server.queue 0,
        p.server.accepted.length, p.server.history)) =
      some ((some [], .left, []), [], 1, [.established 0]) := by
    decide +kernel
  obtain ⟨p, hp, hparts⟩ := exists_ok_of_map hleft
  simp only [Prod.mk.injEq] at hparts
  obtain ⟨⟨hd, hl, hc⟩, hq, hlength, hhistory⟩ := hparts
  refine ⟨⟨by decide +kernel, eq_error_of_faultOf ?_⟩, ⟨by decide +kernel, p, hp,
    complete_of_one hd hl hc hq, hlength, by simp [hhistory]⟩, by decide +kernel,
    eq_error_of_faultOf ?_⟩
  · decide +kernel
  · decide +kernel

end ServerProcess
end Muduo
