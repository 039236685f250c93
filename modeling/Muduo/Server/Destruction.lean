import Muduo.Foundations.Guards
import Muduo.Server.Bookkeeping
import Muduo.Server.ServerProcess

/-!
# Destroying a server

The destructor of a server passes `connectDestroyed` of each connection in `connections_` to
the loop of the connection. The close callback of a connection holds a plain pointer to the
server, and so does the removal that it queues in the base loop. If one of them is under
way when the destructor runs, or comes later, a removal follows that uses the server behind
its end, and the connection would be destroyed twice. Otherwise each connection that was
not removed is passed on by the destructor, and each other one by its removal. It is destroyed
then unless `connectDestroyed` fails, or the loop of the connection is left before it is called.
-/

namespace Muduo

open Foundations

namespace ServerFunctor

def isRemoval : ServerFunctor → Bool
  | removeConnectionInLoop _ => true
  | _ => false

def isDestruction : ServerFunctor → Bool
  | connection _ .connectDestroyed => true
  | _ => false

end ServerFunctor

namespace TcpServer

variable {n : ℕ} {w w' : TcpServer n} {i : ℕ} {owed owed' due : Option ℕ} {rest : List ℕ}
  {ipPort name : Bytes}

/-- No removal is under way: no connection is about to run its close callback, and no removal
waits in a loop. -/
def NoRemoval (w : TcpServer n) : Prop :=
  w.closing = [] ∧ ∀ k, ∀ f ∈ w.queue k, f.isRemoval = false

instance (w : TcpServer n) : Decidable w.NoRemoval := inferInstanceAs (Decidable (_ ∧ _))

/-- The server is destroyed while no removal is under way, and no connection comes to its
close callback from then on. -/
def Calm (w : TcpServer n) (a : ServerStep n) : Prop :=
  w.After (fun w' => w'.destroying ≠ none → w'.NoRemoval) a

instance (w : TcpServer n) (a : ServerStep n) : Decidable (w.Calm a) :=
  inferInstanceAs (Decidable (w.After _ a))

instance (w : TcpServer n) (a : ServerStep n) : Decidable ((machine.restrict Calm).Allows w a) :=
  inferInstanceAs (Decidable (_ ∧ _))

/-- From `w` to `w'` nothing was taken from the queues, no close callback was run, and the
server did not come back, nor did its destructor. -/
structure Grows (w w' : TcpServer n) : Prop where
  queue : ∀ k f, f ∈ w.queue k → f ∈ w'.queue k
  closing : ∀ i ∈ w.closing, i ∈ w'.closing
  destroyed : w.destroying ≠ none → w'.destroying ≠ none
  ended : w.destroying = some [] → w'.destroying = some []

theorem Grows.refl (w : TcpServer n) : Grows w w := ⟨fun _ _ hf => hf, fun _ hi => hi, id, id⟩

theorem Grows.trans {w₁ w₂ w₃ : TcpServer n} (h₁ : Grows w₁ w₂) (h₂ : Grows w₂ w₃) : Grows w₁ w₃ :=
  ⟨fun k f hf => h₂.queue k f (h₁.queue k f hf), fun i hi => h₂.closing i (h₁.closing i hi),
    h₂.destroyed ∘ h₁.destroyed, h₂.ended ∘ h₁.ended⟩

theorem observe_grows (e : ServerEvent) : Grows w (w.observe e) :=
  ⟨fun _ _ hf => hf, fun _ hi => hi, id, id⟩

theorem queueInLoop_grows (k : Fin (n + 1)) (f : ServerFunctor) : Grows w (w.queueInLoop k f) :=
  ⟨fun _ _ hg => mem_push hg, fun _ hi => hi, id, id⟩

theorem onConnection_grows {f : TcpConnection → Except Fault TcpConnection}
    {faultOf : Fault → ServerFault} (h : w.onConnection i f faultOf = .ok w') : Grows w w' := by
  obtain ⟨-, rfl⟩ | ⟨s, c, -, -, rfl⟩ := onConnection_eq_ok h
  · exact .refl _
  · refine ⟨fun _ _ hf => mem_push hf, fun j hj => ?_, id, id⟩
    rw [store_closing]
    split_ifs
    · exact List.mem_append_left _ hj
    · exact hj

theorem connectDestroyed_grows {onDown : List (Call WriteAnswer)}
    (h : w.connectDestroyed i onDown = .ok w') : Grows w w' :=
  (observe_grows _).trans (onConnection_grows h)

theorem removeConnectionInLoop_dangling (h : w.destroying ≠ none) (i : ℕ) :
    w.removeConnectionInLoop i = .error (.dangling i) := by
  rw [removeConnectionInLoop, if_pos h]

theorem perform_grows (hgone : w.destroying ≠ none) {answer : WriteAnswer}
    {onCallback : List (Call WriteAnswer)} {f : ServerFunctor}
    (h : w.perform answer onCallback f = .ok w') : f.isRemoval = false ∧ Grows w w' := by
  cases f with
  | connectEstablished i =>
    rw [perform, connectEstablished] at h
    exact ⟨rfl, (observe_grows _).trans (onConnection_grows h)⟩
  | removeConnectionInLoop i =>
    rw [perform, removeConnectionInLoop_dangling hgone] at h
    cases h
  | connection i f =>
    by_cases hf : f = .connectDestroyed
    · subst hf
      exact ⟨rfl, connectDestroyed_grows h⟩
    · rw [perform_connection hf] at h
      exact ⟨rfl, onConnection_grows h⟩

theorem destroyConnection_grows {onDown : List (Call WriteAnswer)}
    (h : w.destroyConnection onDown = .ok w') : Grows w w' := by
  obtain hsame | ⟨i, is, hdue, hround⟩ := destroyConnection_cases h
  · cases hsame
    exact .refl w
  · have hrest : Grows w { w with destroying := some is } :=
      ⟨fun _ _ hf => hf, fun _ hi => hi, fun _ => by simp, fun hnil => by simp [hdue] at hnil⟩
    obtain ⟨-, hsame⟩ | hdestroyed | ⟨k, hqueued⟩ := hround
    · cases hsame
      exact hrest
    · exact hrest.trans (connectDestroyed_grows hdestroyed)
    · cases hqueued
      exact hrest.trans (queueInLoop_grows _ _)

/-- A step of a server that is gone takes nothing from the queues but a functor that is no
removal, and a callback that is due only to queue its removal. -/
theorem step_grows (h : w.destroying ≠ none) {a : ServerStep n} (ha : w.Enabled a)
    (hw' : w.step a = .ok w') : Grows w w' ∨
      (∃ k answer onCallback, a = .runFunctor k answer onCallback ∧
        ∃ f fs, w.queue k = f :: fs ∧ f.isRemoval = false ∧
          Grows { w with queue := Function.update w.queue k fs } w') ∨
      ∃ i, w' = { w with closing := w.closing.erase i }.queueInLoop 0
        (.removeConnectionInLoop i) := by
  cases a with
  | accept onUp => exact absurd ha.2.1 h
  | runFunctor k answer onCallback =>
    obtain hsame | ⟨f, fs, hk, hperformed⟩ := runFunctor_cases hw'
    · cases hsame
      exact .inl (.refl w)
    · have hgone : { w with queue := Function.update w.queue k fs }.destroying ≠ none := h
      exact .inr (.inl ⟨k, answer, onCallback, rfl, f, fs, hk, perform_grows hgone hperformed⟩)
  | handleEvent i revents script =>
    rw [TcpServer.step] at hw'
    exact .inl ((observe_grows _).trans (onConnection_grows hw'))
  | closeCallback i =>
    obtain hsame | hremoved | hqueued := closeCallback_cases hw'
    · cases hsame
      exact .inl (.refl w)
    · have hgone : { w with closing := w.closing.erase i }.destroying ≠ none := h
      rw [removeConnectionInLoop_dangling hgone] at hremoved
      cases hremoved
    · cases hqueued
      exact .inr (.inr ⟨i, rfl⟩)
  | call i a =>
    rw [TcpServer.step] at hw'
    exact .inl (onConnection_grows hw')
  | foreignCall i a =>
    rw [TcpServer.step] at hw'
    exact .inl (onConnection_grows hw')
  | destroy => exact absurd ha h
  | destroyConnection onDown => exact .inl (destroyConnection_grows hw')

theorem step_destroyed (h : w.destroying ≠ none) {a : ServerStep n} (ha : w.Enabled a)
    (hw' : w.step a = .ok w') : w'.destroying ≠ none := by
  obtain hgrows | ⟨k, _, _, -, f, fs, -, -, hgrows⟩ | ⟨i, rfl⟩ := step_grows h ha hw'
  · exact hgrows.destroyed h
  · exact hgrows.destroyed h
  · exact h

theorem step_ended (h : w.destroying = some []) {a : ServerStep n} (ha : w.Enabled a)
    (hw' : w.step a = .ok w') : w'.destroying = some [] := by
  have hgone : w.destroying ≠ none := by simp [h]
  obtain hgrows | ⟨k, _, _, -, f, fs, -, -, hgrows⟩ | ⟨i, rfl⟩ := step_grows hgone ha hw'
  · exact hgrows.ended h
  · exact hgrows.ended h
  · exact h

/-- The server is gone, and a removal is under way. -/
def Doomed (w : TcpServer n) : Prop := w.destroying ≠ none ∧ ¬ w.NoRemoval

theorem doomed_of_closing (hgone : w.destroying ≠ none) (hi : i ∈ w.closing) : w.Doomed :=
  ⟨hgone, fun hnone => by simp [hnone.1] at hi⟩

theorem doomed_of_queue (hgone : w.destroying ≠ none) {k : Fin (n + 1)} {f : ServerFunctor}
    (hf : f ∈ w.queue k) (hr : f.isRemoval = true) : w.Doomed :=
  ⟨hgone, fun hnone => by simp [hnone.2 k f hf] at hr⟩

theorem Doomed.cases (h : w.Doomed) :
    (∃ i, i ∈ w.closing) ∨ ∃ k, ∃ f ∈ w.queue k, f.isRemoval = true := by
  by_contra hnone
  push Not at hnone
  refine h.2 ⟨List.eq_nil_iff_forall_not_mem.mpr hnone.1, fun k f hf => ?_⟩
  exact Bool.eq_false_iff.mpr (hnone.2 k f hf)

theorem Doomed.grows (h : w.Doomed) (hg : Grows w w') : w'.Doomed := by
  obtain ⟨i, hi⟩ | ⟨k, f, hf, hr⟩ := h.cases
  · exact doomed_of_closing (hg.destroyed h.1) (hg.closing i hi)
  · exact doomed_of_queue (hg.destroyed h.1) (hg.queue k f hf) hr

theorem Doomed.pop (h : w.Doomed) {k : Fin (n + 1)} {f : ServerFunctor} {fs : List ServerFunctor}
    (hk : w.queue k = f :: fs) (hf : f.isRemoval = false) :
    { w with queue := Function.update w.queue k fs }.Doomed := by
  obtain ⟨i, hi⟩ | ⟨l, g, hg, hr⟩ := h.cases
  · exact doomed_of_closing h.1 hi
  · refine doomed_of_queue h.1 (k := l) (f := g) ?_ hr
    dsimp only
    rw [Function.update_apply]
    split_ifs with hl
    · subst hl
      rw [hk, List.mem_cons] at hg
      rcases hg with rfl | hg
      · simp [hf] at hr
      · exact hg
    · exact hg

theorem Doomed.step (h : w.Doomed) {a : ServerStep n} (ha : w.Enabled a)
    (hw' : w.step a = .ok w') : w'.Doomed := by
  obtain hgrows | ⟨k, _, _, -, f, fs, hk, hf, hgrows⟩ | ⟨i, rfl⟩ := step_grows h.1 ha hw'
  · exact h.grows hgrows
  · exact (h.pop hk hf).grows hgrows
  · refine doomed_of_queue (k := 0) (f := .removeConnectionInLoop i) h.1 ?_ rfl
    simp [TcpServer.queueInLoop, push]

theorem doomed_of_not_calm {a : ServerStep n} (h : ¬ w.Calm a) (hw' : w.step a = .ok w') :
    w'.Doomed := by
  rw [Calm, After, hw'] at h
  push Not at h
  exact h

/-- The server is gone, no removal is under way, and each connection is among those that the
destructor has still to destroy, or its destruction waits, or was made, or comes next if it
is `owed`. -/
structure Leaving (w : TcpServer n) (rest : List ℕ) (owed : Option ℕ) : Prop where
  destroying : w.destroying = some rest
  quiet : w.NoRemoval
  once : ∀ i, rest.count i + w.waits (.connection i .connectDestroyed) +
    w.history.count (.destroyed i) + (if owed = some i then 1 else 0) =
      if i < w.accepted.length then 1 else 0

theorem Leaving.observe (h : w.Leaving rest owed) {e : ServerEvent}
    (howed : ∀ i, (if owed = some i then 1 else 0) =
      (if e = .destroyed i then 1 else 0) + if owed' = some i then 1 else 0) :
    (w.observe e).Leaving rest owed' where
  destroying := h.destroying
  quiet := h.quiet
  once i := by
    have hi := h.once i
    rw [howed i] at hi
    rw [count_observe, waits_observe, observe_accepted, ← hi]
    omega

theorem Leaving.queueDestroyed (h : w.Leaving rest (some i)) (k : Fin (n + 1)) :
    (w.queueInLoop k (.connection i .connectDestroyed)).Leaving rest none where
  destroying := h.destroying
  quiet := by
    refine ⟨h.quiet.1, fun l f hf => ?_⟩
    rcases mem_queueInLoop hf with hf | ⟨-, rfl⟩
    · exact h.quiet.2 l f hf
    · rfl
  once j := by
    have hj := h.once j
    rw [waits_queueInLoop, queueInLoop_history, queueInLoop_accepted, ← hj]
    simp only [ServerFunctor.connection.injEq, and_true, Option.some.injEq, reduceCtorEq, if_false]
    omega

theorem Leaving.pop (h : w.Leaving rest none) {k : Fin (n + 1)} {f : ServerFunctor}
    {fs : List ServerFunctor} (hk : w.queue k = f :: fs) (owed' : Option ℕ)
    (howed : ∀ i, f = .connection i .connectDestroyed ↔ owed' = some i) :
    { w with queue := Function.update w.queue k fs }.Leaving rest owed' where
  destroying := h.destroying
  quiet := ⟨h.quiet.1, fun l f hf => h.quiet.2 l f (mem_pop hk hf)⟩
  once i := by
    have hi := h.once i
    rw [waits_pop hk] at hi
    simp only [howed, reduceCtorEq, if_false] at hi
    refine Eq.trans ?_ hi
    dsimp only
    omega

theorem Leaving.onConnection (h : w.Leaving rest owed) (hb : w.Begins due)
    {f : TcpConnection → Except Fault TcpConnection} {faultOf : Fault → ServerFault}
    (ht : ∀ c c', f c = .ok c' → c.Tame c') (hw' : w.onConnection i f faultOf = .ok w')
    (hquiet : w'.NoRemoval) : w'.Leaving rest owed := by
  obtain ⟨-, rfl⟩ | ⟨s, c, hi, hc, rfl⟩ := onConnection_eq_ok hw'
  · exact h
  · refine ⟨h.destroying, hquiet, fun j => ?_⟩
    have hkept := (ht _ _ hc).kept (by simp [hb.flushed i s hi])
    rw [waits_store hkept (by simp [ServerFunctor.isMilestone]), store_history, store_accepted,
      List.length_set]
    exact h.once j

theorem Leaving.connectDestroyed (h : w.Leaving rest (some i)) (hb : w.Begins due)
    {onDown : List (Call WriteAnswer)} (hw' : w.connectDestroyed i onDown = .ok w')
    (hquiet : w'.NoRemoval) : w'.Leaving rest none := by
  have hpaid : (w.observe (.destroyed i)).Leaving rest none := h.observe (by simp)
  exact hpaid.onConnection (hb.observe (by simp))
    (fun _ _ => TcpConnection.connectDestroyed_tame) hw' hquiet

theorem Leaving.round {is : List ℕ} (h : w.Leaving (i :: is) none) :
    { w with destroying := some is }.Leaving is (some i) where
  destroying := rfl
  quiet := h.quiet
  once j := by
    have hj := h.once j
    rw [List.count_cons] at hj
    simp only [beq_iff_eq, reduceCtorEq, if_false] at hj
    simp only [Option.some.injEq]
    refine Eq.trans ?_ hj
    change is.count j + w.waits _ + w.history.count _ + _ =
      is.count j + _ + w.waits _ + w.history.count _ + 0
    omega

theorem Leaving.destroyConnection (h : w.Leaving rest none) (hb : w.Begins none)
    {onDown : List (Call WriteAnswer)} (hw' : w.destroyConnection onDown = .ok w')
    (hquiet : w'.NoRemoval) : ∃ rest', w'.Leaving rest' none := by
  obtain hsame | ⟨i, is, hrest, hround⟩ := destroyConnection_cases hw'
  · cases hsame
    exact ⟨rest, h⟩
  · cases h.destroying.symm.trans hrest
    have hleft := h.round
    have hbegins : { w with destroying := some is }.Begins none := hb.congr rfl rfl rfl
    obtain ⟨hnone, -⟩ | hdestroyed | ⟨k, hqueued⟩ := hround
    · have hi := hleft.once i
      rw [if_pos rfl, if_neg (by simpa using hnone)] at hi
      omega
    · exact ⟨is, hleft.connectDestroyed hbegins hdestroyed hquiet⟩
    · cases hqueued
      exact ⟨is, hleft.queueDestroyed _⟩

theorem Leaving.perform (h : w.Leaving rest none) (hb : w.Begins none) {k : Fin (n + 1)}
    {f : ServerFunctor} {fs : List ServerFunctor} (hk : w.queue k = f :: fs)
    {answer : WriteAnswer} {onCallback : List (Call WriteAnswer)}
    (hw' : { w with queue := Function.update w.queue k fs }.perform answer onCallback f = .ok w')
    (hquiet : w'.NoRemoval) : w'.Leaving rest none := by
  cases f with
  | connectEstablished i =>
    have hpop := h.pop hk none (by simp)
    have hsame : ({ w with queue := Function.update w.queue k fs }.observe
        (.established i)).Leaving rest none := hpop.observe (by simp)
    exact hsame.onConnection (hb.pop hk (some i) (by simp)).observeDue
      (fun _ _ => TcpConnection.connectEstablished_tame) hw' hquiet
  | removeConnectionInLoop i =>
    have hgone : { w with queue := Function.update w.queue k fs }.destroying ≠ none := by
      simp [h.destroying]
    rw [TcpServer.perform, removeConnectionInLoop_dangling hgone] at hw'
    cases hw'
  | connection i f =>
    have hbegins := hb.pop hk none (by simp)
    by_cases hf : f = .connectDestroyed
    · subst hf
      exact (h.pop hk (some i) (by simp)).connectDestroyed hbegins hw' hquiet
    · rw [perform_connection hf] at hw'
      exact (h.pop hk none (by simp [hf])).onConnection hbegins
        (fun _ _ => TcpConnection.runFunctor_tame) hw' hquiet

theorem Leaving.step (h : w.Leaving rest none) (hb : w.Begins none) {a : ServerStep n}
    (ha : w.Enabled a) (hw' : w.step a = .ok w') (hquiet : w'.NoRemoval) :
    ∃ rest', w'.Leaving rest' none := by
  have hgone : w.destroying ≠ none := by simp [h.destroying]
  cases a with
  | accept onUp => exact absurd ha.2.1 hgone
  | runFunctor k answer onCallback =>
    obtain hsame | ⟨f, fs, hk, hperformed⟩ := runFunctor_cases hw'
    · cases hsame
      exact ⟨rest, h⟩
    · exact ⟨rest, h.perform hb hk hperformed hquiet⟩
  | handleEvent i revents script =>
    rw [TcpServer.step] at hw'
    have hsame : (w.observe (.handled i)).Leaving rest none := h.observe (by simp)
    exact ⟨rest, hsame.onConnection (hb.observe (by simp))
      (fun _ _ => TcpConnection.runCallbacks_tame) hw' hquiet⟩
  | closeCallback i =>
    have hi : i ∈ w.closing := ha
    simp [h.quiet.1] at hi
  | call i a =>
    rw [TcpServer.step] at hw'
    exact ⟨rest, h.onConnection hb (fun _ _ => TcpConnection.call_tame) hw' hquiet⟩
  | foreignCall i a =>
    rw [TcpServer.step] at hw'
    refine ⟨rest, h.onConnection hb (fun c c' hc' => ?_) hw' hquiet⟩
    cases hc'
    exact TcpConnection.foreignCall_tame a
  | destroy => exact absurd ha hgone
  | destroyConnection onDown => exact h.destroyConnection hb hw' hquiet

/-- A destructor that is called now will find the connections that were not removed. -/
theorem Books.count_connections (h : w.Books ipPort name) (i : ℕ) :
    (w.connections.entries.map Sigma.snd).count i =
      if i < w.accepted.length ∧ .erased i ∉ w.history then 1 else 0 := by
  have hentry (e : Σ _ : Bytes, ℕ) : e ∈ w.connections.entries ↔
      ∃ s, w.accepted[e.2]? = some s ∧ s.name = e.1 ∧ .erased e.2 ∉ w.history := by
    rw [← h.accounts.listed e.1 e.2]
    exact AList.mem_lookup_iff.symm
  have hnodup : (w.connections.entries.map Sigma.snd).Nodup := by
    refine List.Nodup.map_on ?_ w.connections.nodupKeys.nodup
    rintro ⟨nm, j⟩ he ⟨nm', j'⟩ he' heq
    obtain ⟨s, hs, hname, -⟩ := (hentry _).mp he
    obtain ⟨s', hs', hname', -⟩ := (hentry _).mp he'
    dsimp only at heq hs hs' hname hname'
    subst heq
    cases hs.symm.trans hs'
    rw [← hname, ← hname']
  have hmem : i ∈ w.connections.entries.map Sigma.snd ↔
      i < w.accepted.length ∧ .erased i ∉ w.history := by
    rw [List.mem_map]
    constructor
    · rintro ⟨e, he, rfl⟩
      obtain ⟨s, hs, -, hnot⟩ := (hentry e).mp he
      exact ⟨(List.getElem?_eq_some_iff.mp hs).1, hnot⟩
    · rintro ⟨hlt, hnot⟩
      exact ⟨⟨_, i⟩, (hentry _).mpr ⟨_, List.getElem?_eq_getElem hlt, rfl, hnot⟩, rfl⟩
  rw [hnodup.count]
  simp only [hmem]

theorem NoRemoval.waits_eq (h : w.NoRemoval) (i : ℕ) : w.waits (.removeConnectionInLoop i) = 0 := by
  by_contra hne
  obtain ⟨k, hk⟩ := waiting_pos.mp (Nat.pos_of_ne_zero hne)
  exact Bool.noConfusion (h.2 k _ hk)

theorem Books.destroy (h : w.Books ipPort name) (hquiet : w.NoRemoval) :
    w.destroy.Leaving (w.connections.entries.map Sigma.snd) none where
  destroying := rfl
  quiet := hquiet
  once i := by
    have hclosed := h.accounts.closed i
    have herased := h.accounts.erased i
    have hle := h.accounts.once i
    have hcount := h.count_connections i
    rw [hquiet.1, hquiet.waits_eq] at hclosed
    simp only [reduceCtorEq, if_false, List.count_nil] at hclosed herased ⊢
    rw [hcount]
    change _ + w.waits _ + w.history.count _ + 0 = if i < w.accepted.length then 1 else 0
    by_cases hlt : i < w.accepted.length
    · rw [if_pos hlt]
      by_cases hnot : .erased i ∉ w.history
      · rw [if_pos ⟨hlt, hnot⟩]
        rw [List.count_eq_zero.mpr hnot] at herased
        omega
      · rw [if_neg fun hboth => hnot hboth.2]
        have hpos := List.count_pos_iff.mpr (not_not.mp hnot)
        omega
    · have hunknown : .erased i ∉ w.history := h.accounts.erased_unknown (by simpa using hlt)
      rw [if_neg hlt, if_neg fun hboth => hlt hboth.1]
      rw [List.count_eq_zero.mpr hunknown] at herased
      omega

theorem Leaving.fails (h : w.Leaving rest none) (hb : w.Begins none) {a : ServerStep n}
    (ha : w.Enabled a) {e : ServerFault} (he : w.step a = .error e) :
    ∃ fault, e = .connection fault := by
  obtain hfault | ⟨k, i, fs, hk, -⟩ | ⟨i, rfl, -⟩ := hb.fails he
  · exact hfault
  · exact Bool.noConfusion (h.quiet.2 k (.removeConnectionInLoop i) (by simp [hk]))
  · have hi : i ∈ w.closing := ha
    simp [h.quiet.1] at hi

/-- The server lives and its books are right, or it is gone without a removal. -/
structure Safe (ipPort name : Bytes) (w : TcpServer n) : Prop where
  begins : w.Begins none
  stands : w.Books ipPort name ∨ ∃ rest, w.Leaving rest none

theorem Safe.step (h : w.Safe ipPort name) (hport : ipPort.length ≤ 51) {a : ServerStep n}
    (ha : (machine.restrict Calm).Allows w a) (hw' : w.step a = .ok w') : w'.Safe ipPort name := by
  have hcalm := ha.2
  rw [Calm, After, hw'] at hcalm
  refine ⟨h.begins.step ha.1.1 hw', ?_⟩
  obtain hbooks | ⟨rest, hleaving⟩ := h.stands
  · by_cases hdestroy : a = .destroy
    · subst hdestroy
      cases hw'
      exact .inr ⟨_, hbooks.destroy (hcalm (by simp [TcpServer.destroy]))⟩
    · exact .inl (hbooks.step hport ha.1 hdestroy hw')
  · refine .inr (hleaving.step h.begins ha.1.1 hw' (hcalm ?_))
    exact step_destroyed (by simp [hleaving.destroying]) ha.1.1 hw'

theorem Safe.fails (h : w.Safe ipPort name) {a : ServerStep n} (ha : w.Enabled a)
    {e : ServerFault} (he : w.step a = .error e) : ∃ fault, e = .connection fault := by
  obtain hbooks | ⟨rest, hleaving⟩ := h.stands
  · exact hbooks.fails ha he
  · exact hleaving.fails h.begins ha he

/-- Removals are queued in the base loop, and destructions by removals and by the rounds of the
destructor. -/
def MayQueue (destroying : Option (List ℕ)) (k : Fin (n + 1)) (f : ServerFunctor) : Prop :=
  (f.isRemoval = true → k = baseLoop n) ∧ (f.isDestruction = true → destroying ≠ some [])

def Fills (destroying : Option (List ℕ)) (w w' : TcpServer n) : Prop :=
  ∀ k, ∀ f ∈ w'.queue k, f ∈ w.queue k ∨ MayQueue destroying k f

variable {destroying : Option (List ℕ)}

theorem fills_of_same (h : w'.queue = w.queue) : Fills destroying w w' :=
  fun k f hf => .inl (by rwa [h] at hf)

theorem Fills.trans {w₁ w₂ w₃ : TcpServer n} (h₁ : Fills destroying w₁ w₂)
    (h₂ : Fills destroying w₂ w₃) : Fills destroying w₁ w₃ := by
  intro k f hf
  rcases h₂ k f hf with hf | hmay
  · exact h₁ k f hf
  · exact .inr hmay

theorem queueInLoop_fills {k : Fin (n + 1)} {f : ServerFunctor} (hf : MayQueue destroying k f) :
    Fills destroying w (w.queueInLoop k f) := by
  intro l g hg
  rcases mem_queueInLoop hg with hg | ⟨rfl, rfl⟩
  · exact .inl hg
  · exact .inr hf

theorem onConnection_fills (hb : w.Begins due) {f : TcpConnection → Except Fault TcpConnection}
    {faultOf : Fault → ServerFault} (ht : ∀ c c', f c = .ok c' → c.Tame c')
    (hw' : w.onConnection i f faultOf = .ok w') : Fills destroying w w' := by
  obtain ⟨-, rfl⟩ | ⟨s, c, hi, hc, rfl⟩ := onConnection_eq_ok hw'
  · exact fills_of_same rfl
  · have hkept := (ht _ _ hc).kept (by simp [hb.flushed i s hi])
    intro k g hg
    rw [store_queue, push, Function.update_apply] at hg
    split_ifs at hg with hk
    · subst hk
      rcases List.mem_append.mp hg with hg | hg
      · exact .inl hg
      · obtain ⟨f, hf, rfl⟩ := List.mem_map.mp hg
        refine .inr ⟨by simp [ServerFunctor.isRemoval], fun hd => ?_⟩
        cases f with
        | connectDestroyed => exact absurd hf hkept
        | _ => cases hd
    · exact .inl hg

theorem connectDestroyed_fills (hb : w.Begins due) {onDown : List (Call WriteAnswer)}
    (hw' : w.connectDestroyed i onDown = .ok w') : Fills destroying w w' :=
  onConnection_fills (w := w.observe (.destroyed i)) (hb.observe (by simp))
    (fun _ _ => TcpConnection.connectDestroyed_tame) hw'

theorem removeConnectionInLoop_fills (hw' : w.removeConnectionInLoop i = .ok w') :
    Fills w.destroying w w' := by
  obtain ⟨hlives, rfl | ⟨s, -, rfl⟩⟩ := removeConnectionInLoop_eq_ok hw'
  · exact fills_of_same rfl
  · have hmay : MayQueue w.destroying s.loop (.connection i .connectDestroyed) :=
      ⟨by simp [ServerFunctor.isRemoval], by simp [hlives]⟩
    exact queueInLoop_fills (w := { w with connections := w.connections.erase s.name }.observe
      (.erased i)) hmay

theorem perform_fills (hb : w.Begins none) {k : Fin (n + 1)} {f : ServerFunctor}
    {fs : List ServerFunctor} (hk : w.queue k = f :: fs) {answer : WriteAnswer}
    {onCallback : List (Call WriteAnswer)}
    (hw' : { w with queue := Function.update w.queue k fs }.perform answer onCallback f = .ok w') :
    Fills w.destroying { w with queue := Function.update w.queue k fs } w' := by
  cases f with
  | connectEstablished i =>
    rw [TcpServer.perform, TcpServer.connectEstablished] at hw'
    exact onConnection_fills
      (w := { w with queue := Function.update w.queue k fs }.observe (.established i))
      (hb.pop hk (some i) (by simp)).observeDue
      (fun _ _ => TcpConnection.connectEstablished_tame) hw'
  | removeConnectionInLoop i =>
    exact removeConnectionInLoop_fills (w := { w with queue := Function.update w.queue k fs }) hw'
  | connection i f =>
    have hbegins := hb.pop hk none (by simp)
    by_cases hf : f = .connectDestroyed
    · subst hf
      exact connectDestroyed_fills hbegins hw'
    · rw [perform_connection hf] at hw'
      exact onConnection_fills hbegins (fun _ _ => TcpConnection.runFunctor_tame) hw'

theorem newConnection_fills (hb : w.Begins none) {onUp : List (Call WriteAnswer)}
    (hw' : w.newConnection onUp = .ok w') : Fills destroying w w' := by
  have hqueue : (w.getNextLoop.2.enter w.getNextLoop.1).queue = w.queue := by
    rw [getNextLoop_same]
    rfl
  refine (fills_of_same hqueue).trans ?_
  obtain hup | hqueued := newConnection_cases hw'
  · exact onConnection_fills
      (w := (w.getNextLoop.2.enter w.getNextLoop.1).observe (.established w.accepted.length))
      hb.enterNext.observeDue (fun _ _ => TcpConnection.connectEstablished_tame) hup
  · cases hqueued
    exact queueInLoop_fills ⟨by simp [ServerFunctor.isRemoval],
      by simp [ServerFunctor.isDestruction]⟩

theorem destroyConnection_fills (hb : w.Begins none) {onDown : List (Call WriteAnswer)}
    (hw' : w.destroyConnection onDown = .ok w') : Fills w.destroying w w' := by
  obtain hsame | ⟨i, is, hrest, hround⟩ := destroyConnection_cases hw'
  · cases hsame
    exact fills_of_same rfl
  · have hbegins : { w with destroying := some is }.Begins none := hb.congr rfl rfl rfl
    obtain ⟨-, hsame⟩ | hdestroyed | ⟨k, hqueued⟩ := hround
    · cases hsame
      exact fills_of_same rfl
    · exact connectDestroyed_fills (w := { w with destroying := some is }) hbegins hdestroyed
    · cases hqueued
      exact queueInLoop_fills (w := { w with destroying := some is })
        ⟨by simp [ServerFunctor.isRemoval], by simp [hrest]⟩

theorem step_fills (hb : w.Begins none) {a : ServerStep n} (hw' : w.step a = .ok w') :
    Fills w.destroying w w' := by
  cases a with
  | accept onUp => exact newConnection_fills hb hw'
  | runFunctor k answer onCallback =>
    obtain hsame | ⟨f, fs, hk, hperformed⟩ := runFunctor_cases hw'
    · cases hsame
      exact fills_of_same rfl
    · exact Fills.trans (fun _ _ hf => .inl (mem_pop hk hf)) (perform_fills hb hk hperformed)
  | handleEvent i revents script =>
    exact onConnection_fills (w := w.observe (.handled i)) (hb.observe (by simp))
      (fun _ _ => TcpConnection.runCallbacks_tame) hw'
  | closeCallback i =>
    obtain hsame | hremoved | hqueued := closeCallback_cases hw'
    · cases hsame
      exact fills_of_same rfl
    · exact removeConnectionInLoop_fills (w := { w with closing := w.closing.erase i }) hremoved
    · cases hqueued
      exact queueInLoop_fills (w := { w with closing := w.closing.erase i })
        ⟨fun _ => rfl, by simp [ServerFunctor.isDestruction]⟩
  | call i a => exact onConnection_fills hb (fun _ _ => TcpConnection.call_tame) hw'
  | foreignCall i a =>
    rw [TcpServer.step] at hw'
    refine onConnection_fills hb (fun c c' hc' => ?_) hw'
    cases hc'
    exact TcpConnection.foreignCall_tame a
  | destroy =>
    cases hw'
    exact fills_of_same rfl
  | destroyConnection onDown => exact destroyConnection_fills hb hw'

def RemovalsAtBase (w : TcpServer n) : Prop :=
  ∀ k, ∀ f ∈ w.queue k, f.isRemoval = true → k = baseLoop n

theorem RemovalsAtBase.step (h : w.RemovalsAtBase) (hb : w.Begins none) {a : ServerStep n}
    (hw' : w.step a = .ok w') : w'.RemovalsAtBase := by
  intro k f hf
  rcases step_fills hb hw' k f hf with hf | hmay
  · exact h k f hf
  · exact hmay.1

end TcpServer
end Muduo
