import Muduo.Server.TcpServer

/-!
# How connections of a server begin

A new connection gets its name and its loop in the base loop and is established in its own
loop, at once if the two are the same. Each connection is established once: this waits in
a queue, or it has happened. Before, the poller does not know the channel, and nobody else
has a pointer to the connection. The number at the end of the name tells the connections
apart, as long as the buffer holds it.
-/

namespace Muduo

open Foundations

namespace TcpConnection

variable {c c' : TcpConnection}

/-- From `c` to `c'` nobody has queued `connectDestroyed`, and the history has grown. -/
structure Tame (c c' : TcpConnection) : Prop where
  kept : .connectDestroyed ∉ c.pendingFunctors → .connectDestroyed ∉ c'.pendingFunctors
  closes : c.closes ≤ c'.closes

theorem Tame.refl (c : TcpConnection) : Tame c c := ⟨id, le_refl _⟩

theorem Tame.trans {c₁ c₂ c₃ : TcpConnection} (h₁ : Tame c₁ c₂) (h₂ : Tame c₂ c₃) : Tame c₁ c₃ :=
  ⟨h₂.kept ∘ h₁.kept, h₁.closes.trans h₂.closes⟩

theorem tame_of_history {es : List Event} (hf : c'.pendingFunctors = c.pendingFunctors)
    (hh : c'.history = c.history ++ es) : Tame c c' :=
  ⟨fun hk => by rwa [hf], by simp [TcpConnection.closes, hh]⟩

theorem tame_of_same (hf : c'.pendingFunctors = c.pendingFunctors)
    (hh : c'.history = c.history) : Tame c c' :=
  ⟨fun hk => by rwa [hf], by rw [TcpConnection.closes, TcpConnection.closes, hh]⟩

theorem Quiet.tame (h : Quiet c c') : Tame c c' := by
  obtain ⟨⟨es, hes, -⟩, ⟨fs, hfs, hf⟩, -⟩ := h
  refine ⟨fun hk => ?_, by simp [TcpConnection.closes, hes]⟩
  rw [hfs, List.mem_append, not_or]
  exact ⟨hk, fun hm => (hf _ hm).2 rfl⟩

theorem startReadInLoop_tame : Tame c c.startReadInLoop := by
  unfold startReadInLoop
  split_ifs
  · exact tame_of_same rfl rfl
  · exact .refl c

theorem call_tame {a : Call WriteAnswer} (h : c.call a = .ok c') : Tame c c' := by
  by_cases ha : a = .startRead
  · subst ha
    cases h
    exact startReadInLoop_tame
  · obtain ⟨c₁, hc₁, hquiet⟩ := c.call_quiet ha
    cases hc₁.symm.trans h
    exact hquiet.tame

theorem calls_tame {as : List (Call WriteAnswer)} (h : c.calls as = .ok c') : Tame c c' := by
  induction as generalizing c with
  | nil =>
    cases h
    exact .refl _
  | cons a as ih =>
    obtain ⟨c₁, hfirst, hrest⟩ := bind_eq_ok.mp h
    exact (call_tame hfirst).trans (ih hrest)

theorem foreignCall_tame (a : Call Unit) : Tame c (c.foreignCall a) := by
  by_cases ha : a = .startRead
  · subst ha
    exact ⟨fun hk => by simp [foreignCall, hk], le_refl _⟩
  · exact (foreignCall_quiet ha).tame

theorem connectEstablished_tame {onUp : List (Call WriteAnswer)}
    (h : c.connectEstablished onUp = .ok c') : Tame c c' := by
  obtain ⟨-, -, hcalls⟩ := bind_eq_ok.mp h
  refine Tame.trans ?_ (calls_tame hcalls)
  exact tame_of_history rfl rfl

theorem handleClose_tame {onDown : List (Call WriteAnswer)}
    (h : c.handleClose onDown = .ok c') : Tame c c' := by
  obtain ⟨-, -, hrest⟩ := bind_eq_ok.mp h
  obtain ⟨c₁, hcalls, hreturn⟩ := bind_eq_ok.mp hrest
  cases hreturn
  have hdown : Tame c c₁ := by
    refine Tame.trans ?_ (calls_tame hcalls)
    exact tame_of_history rfl rfl
  exact hdown.trans (tame_of_history rfl rfl)

theorem removeChannel_tame (h : c.removeChannel = .ok c') : Tame c c' := by
  obtain ⟨-, -, hreturn⟩ := bind_eq_ok.mp h
  cases hreturn
  exact tame_of_same rfl rfl

theorem connectDestroyed_tame {onDown : List (Call WriteAnswer)}
    (h : c.connectDestroyed onDown = .ok c') : Tame c c' := by
  unfold connectDestroyed at h
  dsimp only at h
  split_ifs at h
  · obtain ⟨c₁, hcalls, hremove⟩ := bind_eq_ok.mp h
    have hdown : Tame c c₁ := by
      refine Tame.trans ?_ (calls_tame hcalls)
      exact tame_of_history rfl rfl
    exact hdown.trans (removeChannel_tame hremove)
  · obtain ⟨c₁, hsame, hremove⟩ := bind_eq_ok.mp h
    cases hsame
    exact removeChannel_tame hremove

theorem handleRead_tame {script : Script} (h : c.handleRead script = .ok c') : Tame c c' := by
  obtain ⟨⟨m, errno, b⟩, -, hrest⟩ := bind_eq_ok.mp h
  have hread : Tame c { c with inputBuffer := b } := tame_of_same rfl rfl
  refine hread.trans ?_
  dsimp only at hrest
  split_ifs at hrest
  · obtain ⟨c₁, hcalls, hreturn⟩ := bind_eq_ok.mp hrest
    cases hreturn
    have hmessage : Tame { c with inputBuffer := b } c₁ := by
      refine Tame.trans ?_ (calls_tame hcalls)
      exact tame_of_history rfl rfl
    exact hmessage.trans (tame_of_same rfl rfl)
  · exact handleClose_tame hrest
  · cases hrest
    exact .refl _

theorem handleWrite_tame {answer : WriteAnswer} (h : c.handleWrite answer = .ok c') :
    Tame c c' := by
  obtain ⟨c₁, hc₁, hquiet⟩ := c.handleWrite_quiet answer
  cases hc₁.symm.trans h
  exact hquiet.tame

theorem runCallbacks_tame {script : Script} {ks : List ChannelCallback}
    (h : runCallbacks script c ks = .ok c') : Tame c c' := by
  induction ks generalizing c with
  | nil =>
    cases h
    exact .refl _
  | cons k ks ih =>
    obtain ⟨c₁, hfirst, hrest⟩ := bind_eq_ok.mp h
    have hk : Tame c c₁ := by
      cases k with
      | close => exact handleClose_tame hfirst
      | error =>
        cases hfirst
        exact .refl _
      | read => exact handleRead_tame hfirst
      | write => exact handleWrite_tame hfirst
    exact hk.trans (ih hrest)

theorem runFunctor_tame {answer : WriteAnswer} {onCallback : List (Call WriteAnswer)} {f : Functor}
    (h : c.runFunctor answer onCallback f = .ok c') : Tame c c' := by
  cases f with
  | sendInLoop message =>
    obtain ⟨c₁, hc₁, hquiet⟩ := c.sendInLoop_quiet message answer
    cases hc₁.symm.trans h
    exact hquiet.tame
  | shutdownInLoop =>
    cases h
    exact shutdownInLoop_quiet.tame
  | forceCloseInLoop =>
    simp only [runFunctor, forceCloseInLoop] at h
    split_ifs at h
    · exact handleClose_tame h
    · cases h
      exact .refl c
  | startReadInLoop =>
    cases h
    exact startReadInLoop_tame
  | stopReadInLoop =>
    cases h
    exact stopReadInLoop_quiet.tame
  | connectDestroyed => exact connectDestroyed_tame h
  | writeCompleteCallback => exact calls_tame h
  | highWaterMarkCallback size => exact calls_tame h

end TcpConnection

/-- The functors by which a connection comes and goes. -/
def ServerFunctor.isMilestone : ServerFunctor → Bool
  | connectEstablished _ => true
  | removeConnectionInLoop _ => true
  | connection _ f => f = .connectDestroyed

def ServerStep.accepts {n : ℕ} : ServerStep n → Bool
  | .accept _ => true
  | _ => false

namespace TcpServer

variable {n : ℕ} {w w' : TcpServer n} {i : ℕ}

def waits (w : TcpServer n) (f : ServerFunctor) : ℕ := waiting w.queue f

theorem onConnection_eq_ok {f : TcpConnection → Except Fault TcpConnection}
    {faultOf : Fault → ServerFault} (h : w.onConnection i f faultOf = .ok w') :
    w.accepted[i]? = none ∧ w' = w ∨
      ∃ s c, w.accepted[i]? = some s ∧ f s.conn = .ok c ∧ w' = w.store i s c := by
  unfold onConnection at h
  split at h
  · next hi =>
    cases h
    exact .inl ⟨hi, rfl⟩
  · next s hi =>
    obtain ⟨c, hc, hreturn⟩ := bind_eq_ok.mp h
    cases hreturn
    cases hf : f s.conn with
    | error e => simp [hf, Except.mapError] at hc
    | ok c' =>
      rw [hf] at hc
      cases hc
      exact .inr ⟨s, c, hi, hf, rfl⟩

theorem onConnection_eq_error {f : TcpConnection → Except Fault TcpConnection}
    {faultOf : Fault → ServerFault} {e : ServerFault} (h : w.onConnection i f faultOf = .error e) :
    ∃ fault, e = faultOf fault := by
  unfold onConnection at h
  split at h
  · cases h
  · next s hi =>
    cases hf : f s.conn with
    | error fault =>
      rw [hf] at h
      cases h
      exact ⟨fault, rfl⟩
    | ok c =>
      rw [hf] at h
      cases h

theorem perform_connection {f : Functor} (hf : f ≠ .connectDestroyed) (answer : WriteAnswer)
    (onCallback : List (Call WriteAnswer)) :
    w.perform answer onCallback (.connection i f) =
      w.onConnection i (·.runFunctor answer onCallback f) .connection := by
  cases f with
  | connectDestroyed => exact absurd rfl hf
  | _ => rfl

theorem removeConnectionInLoop_eq_ok (h : w.removeConnectionInLoop i = .ok w') :
    w.destroying = none ∧ (w' = w ∨ ∃ s, w.accepted[i]? = some s ∧
      w' = ({ w with connections := w.connections.erase s.name }.observe (.erased i)).queueInLoop
        s.loop (.connection i .connectDestroyed)) := by
  unfold removeConnectionInLoop at h
  by_cases hgone : w.destroying = none
  · rw [if_neg (by simp [hgone])] at h
    refine ⟨hgone, ?_⟩
    split at h
    · cases h
      exact .inl rfl
    · next s hi =>
      split_ifs at h
      cases h
      exact .inr ⟨s, hi, rfl⟩
  · rw [if_pos hgone] at h
    cases h

theorem closeCallback_cases {x : Except ServerFault (TcpServer n)} (h : w.closeCallback i = x) :
    x = .ok w ∨ { w with closing := w.closing.erase i }.removeConnectionInLoop i = x ∨
      x = .ok ({ w with closing := w.closing.erase i }.queueInLoop 0
        (.removeConnectionInLoop i)) := by
  unfold closeCallback at h
  split at h
  · exact .inl h.symm
  · dsimp only at h
    split_ifs at h
    · exact .inr (.inl h)
    · exact .inr (.inr h.symm)

theorem runFunctor_cases {k : Fin (n + 1)} {answer : WriteAnswer}
    {onCallback : List (Call WriteAnswer)} {x : Except ServerFault (TcpServer n)}
    (h : w.runFunctor k answer onCallback = x) :
    x = .ok w ∨ ∃ f fs, w.queue k = f :: fs ∧
      { w with queue := Function.update w.queue k fs }.perform answer onCallback f = x := by
  unfold runFunctor at h
  split at h
  · exact .inl h.symm
  · next f fs hk => exact .inr ⟨f, fs, hk, h⟩

/-- A round of the destructor, in the base loop or for another one. -/
theorem destroyConnection_cases {onDown : List (Call WriteAnswer)}
    {x : Except ServerFault (TcpServer n)} (h : w.destroyConnection onDown = x) :
    x = .ok w ∨ ∃ i is, w.destroying = some (i :: is) ∧
      (w.accepted[i]? = none ∧ x = .ok { w with destroying := some is } ∨
        { w with destroying := some is }.connectDestroyed i onDown = x ∨
        ∃ k, x = .ok ({ w with destroying := some is }.queueInLoop k
          (.connection i .connectDestroyed))) := by
  unfold destroyConnection at h
  split at h
  · exact .inl h.symm
  · exact .inl h.symm
  · next i is hrest =>
    refine .inr ⟨i, is, hrest, ?_⟩
    dsimp only at h
    split at h
    · next hi => exact .inl ⟨hi, h.symm⟩
    · next s hi =>
      split_ifs at h
      · exact .inr (.inl h)
      · exact .inr (.inr ⟨s.loop, h.symm⟩)

theorem getNextLoop_same (w : TcpServer n) :
    w.getNextLoop.2 = { w with next := w.getNextLoop.2.next } := by
  unfold getNextLoop
  split <;> rfl

theorem newConnection_cases {onUp : List (Call WriteAnswer)}
    {x : Except ServerFault (TcpServer n)} (h : w.newConnection onUp = x) :
    (w.getNextLoop.2.enter w.getNextLoop.1).connectEstablished w.accepted.length onUp = x ∨
      x = .ok ((w.getNextLoop.2.enter w.getNextLoop.1).queueInLoop w.getNextLoop.1
        (.connectEstablished w.accepted.length)) := by
  unfold newConnection at h
  dsimp only at h
  split_ifs at h
  · exact .inl h
  · exact .inr h.symm

@[simp] theorem waits_observe (e : ServerEvent) (f : ServerFunctor) :
    (w.observe e).waits f = w.waits f := rfl

theorem waits_queueInLoop (k : Fin (n + 1)) (f g : ServerFunctor) :
    (w.queueInLoop k f).waits g = w.waits g + if f = g then 1 else 0 := by
  have h := waiting_push w.queue k [f] g
  rw [List.count_singleton] at h
  simp only [beq_iff_eq] at h
  exact h

theorem waits_pop {k : Fin (n + 1)} {f : ServerFunctor} {fs : List ServerFunctor}
    (h : w.queue k = f :: fs) (g : ServerFunctor) :
    w.waits g = { w with queue := Function.update w.queue k fs }.waits g +
      if f = g then 1 else 0 := by
  rw [waits, waiting_pop h, List.count_singleton, waits]
  simp only [beq_iff_eq]

theorem waits_store {i : ℕ} {s : ServedConnection n} {c : TcpConnection}
    (hc : .connectDestroyed ∉ c.pendingFunctors) {g : ServerFunctor} (hg : g.isMilestone = true) :
    (w.store i s c).waits g = w.waits g := by
  have hnone : (c.pendingFunctors.map (ServerFunctor.connection i)).count g = 0 := by
    rw [List.count_eq_zero, List.mem_map]
    rintro ⟨f, hf, rfl⟩
    have hf' : f = .connectDestroyed := by simpa [ServerFunctor.isMilestone] using hg
    exact hc (hf' ▸ hf)
  have h := waiting_push w.queue s.loop (c.pendingFunctors.map (.connection i)) g
  rw [hnone] at h
  exact h

theorem count_observe (e f : ServerEvent) :
    (w.observe e).history.count f = w.history.count f + if e = f then 1 else 0 := by
  rw [observe_history, List.count_append, List.count_singleton]
  simp only [beq_iff_eq]

theorem getElem?_store {i : ℕ} {s t : ServedConnection n} {c : TcpConnection}
    (hi : w.accepted[i]? = some s) {j : ℕ} :
    (w.store i s c).accepted[j]? = some t ↔
      (j = i ∧ t = { s with conn := { c with pendingFunctors := [] } }) ∨
        (j ≠ i ∧ w.accepted[j]? = some t) := by
  have hlt := (List.getElem?_eq_some_iff.mp hi).1
  rw [store_accepted, List.getElem?_set]
  by_cases hj : i = j
  · subst hj
    simp [hlt, eq_comm]
  · simp [hj, Ne.symm hj]

/-- A connection that waits to be established. -/
structure Fresh (c : TcpConnection) : Prop where
  state : c.state = .kConnecting
  removed : c.channel.addedToLoop = false
  closes : c.closes = 0

/-- Each connection is established once: this waits, or it has happened, or it is about to
happen to the connection `due`. Nobody touches a connection before. -/
structure Begins (w : TcpServer n) (due : Option ℕ) : Prop where
  once : ∀ i, w.waits (.connectEstablished i) + w.history.count (.established i) +
    (if due = some i then 1 else 0) = if i < w.accepted.length then 1 else 0
  fresh : ∀ (i : ℕ) (s : ServedConnection n), w.accepted[i]? = some s →
    .established i ∉ w.history → Fresh s.conn
  flushed : ∀ (i : ℕ) (s : ServedConnection n), w.accepted[i]? = some s →
    s.conn.pendingFunctors = []
  known : ∀ k i f, .connection i f ∈ w.queue k → f ≠ .connectDestroyed →
    .established i ∈ w.history

variable {due : Option ℕ}

theorem begins_init (n : ℕ) (ipPort name : Bytes) (writeComplete : Bool) :
    (init n ipPort name writeComplete).Begins none where
  once i := by simp [init, waits, waiting]
  fresh i s hi := by simp [init] at hi
  flushed i s hi := by simp [init] at hi
  known k i f hf := by simp [init] at hf

theorem Begins.congr (h : w.Begins due) (hq : w'.queue = w.queue) (hh : w'.history = w.history)
    (ha : w'.accepted = w.accepted) : w'.Begins due where
  once i := by
    rw [waits, hq, hh, ha]
    exact h.once i
  fresh i s hi hnot := h.fresh i s (ha ▸ hi) (hh ▸ hnot)
  flushed i s hi := h.flushed i s (ha ▸ hi)
  known k i f hf hne := by
    rw [hh]
    exact h.known k i f (hq ▸ hf) hne

theorem Begins.observe (h : w.Begins due) {e : ServerEvent} (he : ∀ i, e ≠ .established i) :
    (w.observe e).Begins due where
  once i := by
    rw [count_observe, if_neg (he i), Nat.add_zero]
    exact h.once i
  fresh i s hi hnot := h.fresh i s hi fun hm => hnot (by simp [hm])
  flushed := h.flushed
  known k i f hf hne := by simp [h.known k i f hf hne]

theorem mem_queueInLoop {k l : Fin (n + 1)} {f g : ServerFunctor}
    (h : g ∈ (w.queueInLoop k f).queue l) : g ∈ w.queue l ∨ l = k ∧ g = f := by
  unfold TcpServer.queueInLoop push at h
  dsimp only at h
  rw [Function.update_apply] at h
  split_ifs at h with hl
  · subst hl
    simpa using h
  · exact .inl h

theorem Begins.queueInLoop (h : w.Begins due) (k : Fin (n + 1)) {f : ServerFunctor}
    (hm : f.isMilestone = true) {due' : Option ℕ}
    (hdue : ∀ i, (if due = some i then 1 else 0) =
      (if f = .connectEstablished i then 1 else 0) + if due' = some i then 1 else 0) :
    (w.queueInLoop k f).Begins due' where
  once i := by
    have hi := h.once i
    rw [hdue i] at hi
    rw [waits_queueInLoop]
    exact Eq.trans (by simp only [queueInLoop_history]; omega) hi
  fresh := h.fresh
  flushed := h.flushed
  known l i g hg hne := by
    rcases mem_queueInLoop hg with hg | ⟨-, rfl⟩
    · exact h.known l i g hg hne
    · exact absurd (by simpa [ServerFunctor.isMilestone] using hm) hne

theorem mem_pop {k l : Fin (n + 1)} {f g : ServerFunctor} {fs : List ServerFunctor}
    (h : w.queue k = f :: fs) (hg : g ∈ Function.update w.queue k fs l) : g ∈ w.queue l := by
  rw [Function.update_apply] at hg
  split_ifs at hg with hl
  · subst hl
    rw [h]
    exact List.mem_cons_of_mem f hg
  · exact hg

theorem Begins.pop (h : w.Begins none) {k : Fin (n + 1)} {f : ServerFunctor}
    {fs : List ServerFunctor} (hk : w.queue k = f :: fs) (due' : Option ℕ)
    (hdue : ∀ i, f = .connectEstablished i ↔ due' = some i) :
    { w with queue := Function.update w.queue k fs }.Begins due' where
  once i := by
    have hi := h.once i
    rw [waits_pop hk] at hi
    simp only [hdue, reduceCtorEq, if_false] at hi
    dsimp only
    omega
  fresh := h.fresh
  flushed := h.flushed
  known l i g hg hne := h.known l i g (mem_pop hk hg) hne

theorem Begins.store (h : w.Begins due) {s : ServedConnection n} {c : TcpConnection}
    (hi : w.accepted[i]? = some s) (ht : s.conn.Tame c)
    (hknown : .established i ∈ w.history ∨ Fresh c ∧ c.pendingFunctors = []) :
    (w.store i s c).Begins due where
  once j := by
    have hc := ht.kept (by simp [h.flushed i s hi])
    rw [waits_store hc rfl, store_accepted, List.length_set]
    exact h.once j
  fresh j t hj hnot := by
    obtain ⟨rfl, rfl⟩ | ⟨-, hj⟩ := (getElem?_store hi).mp hj
    · have hfresh := (hknown.resolve_left hnot).1
      exact ⟨hfresh.state, hfresh.removed, hfresh.closes⟩
    · exact h.fresh j t hj hnot
  flushed j t hj := by
    obtain ⟨rfl, rfl⟩ | ⟨-, hj⟩ := (getElem?_store hi).mp hj
    · rfl
    · exact h.flushed j t hj
  known l j g hg hne := by
    unfold TcpServer.store push at hg
    dsimp only at hg
    rw [Function.update_apply] at hg
    split_ifs at hg with hl
    · rw [List.mem_append, List.mem_map] at hg
      rcases hg with hg | ⟨f, hf, heq⟩
      · exact h.known s.loop j g hg hne
      · cases heq
        rcases hknown with hknown | ⟨-, hnone⟩
        · exact hknown
        · simp [hnone] at hf
    · exact h.known l j g hg hne

theorem Begins.observeDue (h : w.Begins (some i)) : (w.observe (.established i)).Begins none where
  once j := by
    have hj := h.once j
    rw [count_observe]
    simp only [Option.some.injEq, ServerEvent.established.injEq, reduceCtorEq, if_false,
      waits_observe, observe_accepted] at hj ⊢
    rw [← hj, Nat.add_zero, Nat.add_assoc]
  fresh j s hj hnot := h.fresh j s hj fun hm => hnot (by simp [hm])
  flushed := h.flushed
  known k j f hf hne := by simp [h.known k j f hf hne]

theorem Begins.due_fresh (h : w.Begins (some i)) :
    .established i ∉ w.history ∧ ∃ s, w.accepted[i]? = some s ∧ Fresh s.conn := by
  have hi := h.once i
  rw [if_pos rfl] at hi
  have hlt : i < w.accepted.length := by
    by_contra hnot
    rw [if_neg hnot] at hi
    omega
  rw [if_pos hlt] at hi
  have hnot : .established i ∉ w.history := by
    rw [← List.count_eq_zero]
    omega
  have hget := List.getElem?_eq_getElem hlt
  exact ⟨hnot, _, hget, h.fresh i _ hget hnot⟩

theorem connectEstablished_begins (h : w.Begins (some i)) (onUp : List (Call WriteAnswer)) :
    ∃ s c, w.accepted[i]? = some s ∧ s.conn.Tame c ∧
      w.connectEstablished i onUp = .ok ((w.observe (.established i)).store i s c) ∧
      ((w.observe (.established i)).store i s c).Begins none := by
  obtain ⟨-, s, hi, hfresh⟩ := h.due_fresh
  have hi' : (w.observe (.established i)).accepted[i]? = some s := hi
  have hup : ∃ c, s.conn.connectEstablished onUp = .ok c := by
    unfold TcpConnection.connectEstablished
    rw [assertThat_pos hfresh.state, ok_bind]
    obtain ⟨c, hc, -⟩ := TcpConnection.calls_keepsStream onUp
    exact ⟨c, hc⟩
  obtain ⟨c, hc⟩ := hup
  have ht := TcpConnection.connectEstablished_tame hc
  refine ⟨s, c, hi, ht, ?_, h.observeDue.store hi' ht (.inl (by simp))⟩
  simp only [connectEstablished, onConnection, hi', hc]
  rfl

/-- `connectDestroyed` does nothing to a connection that was not established yet. -/
theorem connectDestroyed_fresh {c c' : TcpConnection} (hf : Fresh c)
    (hp : c.pendingFunctors = []) {onDown : List (Call WriteAnswer)}
    (h : c.connectDestroyed onDown = .ok c') : Fresh c' ∧ c'.pendingFunctors = [] := by
  have hs : c.state ≠ .kConnected := by simp [hf.state]
  unfold TcpConnection.connectDestroyed at h
  rw [if_neg hs, ok_bind] at h
  obtain ⟨-, -, hreturn⟩ := bind_eq_ok.mp h
  cases hreturn
  exact ⟨⟨hf.state, rfl, hf.closes⟩, hp⟩

/-- A connection step of which the connection has heard before. -/
theorem Begins.onConnection (h : w.Begins due) {f : TcpConnection → Except Fault TcpConnection}
    {faultOf : Fault → ServerFault} (hknown : .established i ∈ w.history)
    (ht : ∀ c c', f c = .ok c' → c.Tame c') (hw' : w.onConnection i f faultOf = .ok w') :
    w'.Begins due := by
  obtain ⟨-, rfl⟩ | ⟨s, c, hi, hc, rfl⟩ := onConnection_eq_ok hw'
  · exact h
  · exact h.store hi (ht _ _ hc) (.inl hknown)

theorem Begins.connectDestroyed (h : w.Begins due) {onDown : List (Call WriteAnswer)}
    (hw' : w.connectDestroyed i onDown = .ok w') : w'.Begins due := by
  have h₁ : (w.observe (.destroyed i)).Begins due := h.observe (by simp)
  obtain ⟨-, rfl⟩ | ⟨s, c, hi, hc, rfl⟩ := onConnection_eq_ok hw'
  · exact h₁
  · refine h₁.store hi (TcpConnection.connectDestroyed_tame hc) ?_
    by_cases hknown : .established i ∈ w.history
    · exact .inl (by simp [hknown])
    · exact .inr (connectDestroyed_fresh (h.fresh i s hi hknown) (h.flushed i s hi) hc)

theorem Begins.removeConnectionInLoop (h : w.Begins none)
    (hw' : w.removeConnectionInLoop i = .ok w') : w'.Begins none := by
  obtain ⟨-, rfl | ⟨s, -, rfl⟩⟩ := removeConnectionInLoop_eq_ok hw'
  · exact h
  · have h₁ : { w with connections := w.connections.erase s.name }.Begins none :=
      h.congr rfl rfl rfl
    exact (h₁.observe (by simp)).queueInLoop s.loop rfl (by simp)

theorem Begins.perform (h : w.Begins none) {k : Fin (n + 1)} {f : ServerFunctor}
    {fs : List ServerFunctor} (hk : w.queue k = f :: fs) {answer : WriteAnswer}
    {onCallback : List (Call WriteAnswer)}
    (hw' : { w with queue := Function.update w.queue k fs }.perform answer onCallback f = .ok w') :
    w'.Begins none := by
  cases f with
  | connectEstablished i =>
    obtain ⟨s, c, -, -, hc, hbegins⟩ :=
      connectEstablished_begins (h.pop hk (some i) (by simp)) onCallback
    cases hc.symm.trans hw'
    exact hbegins
  | removeConnectionInLoop i => exact (h.pop hk none (by simp)).removeConnectionInLoop hw'
  | connection i f =>
    have hpop := h.pop hk none (by simp)
    by_cases hf : f = .connectDestroyed
    · subst hf
      exact hpop.connectDestroyed hw'
    · have hknown : .established i ∈ w.history := h.known k i f (by simp [hk]) hf
      rw [perform_connection hf] at hw'
      exact hpop.onConnection hknown (fun _ _ => TcpConnection.runFunctor_tame) hw'

theorem Begins.enter (h : w.Begins none) (k : Fin (n + 1)) :
    (w.enter k).Begins (some w.accepted.length) where
  once i := by
    have hi := h.once i
    simp only [reduceCtorEq, if_false, Nat.add_zero] at hi
    have hsame : (w.enter k).waits (.connectEstablished i) +
        (w.enter k).history.count (.established i) = if i < w.accepted.length then 1 else 0 := hi
    have hlength : (w.enter k).accepted.length = w.accepted.length + 1 := by simp [TcpServer.enter]
    rw [hsame, hlength]
    simp only [Option.some.injEq]
    split_ifs <;> omega
  fresh i s hi hnot := by
    simp only [TcpServer.enter, List.getElem?_append] at hi
    split_ifs at hi with hlt
    · exact h.fresh i s hi hnot
    · rw [List.getElem?_singleton] at hi
      split_ifs at hi
      cases hi
      exact ⟨rfl, rfl, rfl⟩
  flushed i s hi := by
    simp only [TcpServer.enter, List.getElem?_append] at hi
    split_ifs at hi with hlt
    · exact h.flushed i s hi
    · rw [List.getElem?_singleton] at hi
      split_ifs at hi
      cases hi
      rfl
  known l i f hf hne := h.known l i f hf hne

theorem Begins.enterNext (h : w.Begins none) :
    (w.getNextLoop.2.enter w.getNextLoop.1).Begins (some w.accepted.length) := by
  have hnext : w.getNextLoop.2.Begins none := by
    rw [getNextLoop_same]
    exact h.congr rfl rfl rfl
  have hlength : w.getNextLoop.2.accepted.length = w.accepted.length := by
    rw [getNextLoop_same]
  have henter := hnext.enter w.getNextLoop.1
  rwa [hlength] at henter

theorem Begins.newConnection (h : w.Begins none) (onUp : List (Call WriteAnswer)) :
    ∃ w', w.newConnection onUp = .ok w' ∧ w'.Begins none := by
  obtain hx | hx := newConnection_cases (Eq.refl (w.newConnection onUp))
  · obtain ⟨s, c, -, -, hc, hbegins⟩ := connectEstablished_begins h.enterNext onUp
    exact ⟨_, hx.symm.trans hc, hbegins⟩
  · refine ⟨_, hx, h.enterNext.queueInLoop _ rfl ?_⟩
    simp [eq_comm]

theorem Begins.handled (h : w.Begins none) {s : ServedConnection n} (hi : w.accepted[i]? = some s)
    (hadded : s.conn.channel.addedToLoop = true) : .established i ∈ w.history := by
  by_contra hnot
  have hremoved := (h.fresh i s hi hnot).removed
  simp [hremoved] at hadded

theorem Begins.destroyConnection (h : w.Begins none) {onDown : List (Call WriteAnswer)}
    (hw' : w.destroyConnection onDown = .ok w') : w'.Begins none := by
  obtain hsame | ⟨i, is, -, hround⟩ := destroyConnection_cases hw'
  · cases hsame
    exact h
  · have hrest : { w with destroying := some is }.Begins none := h.congr rfl rfl rfl
    obtain ⟨-, hsame⟩ | hdestroyed | ⟨k, hqueued⟩ := hround
    · cases hsame
      exact hrest
    · exact hrest.connectDestroyed hdestroyed
    · cases hqueued
      exact hrest.queueInLoop _ rfl (by simp)

theorem Begins.closeCallback (h : w.Begins none) (hw' : w.closeCallback i = .ok w') :
    w'.Begins none := by
  have hrest : { w with closing := w.closing.erase i }.Begins none := h.congr rfl rfl rfl
  obtain hsame | hremoved | hqueued := closeCallback_cases hw'
  · cases hsame
    exact h
  · exact hrest.removeConnectionInLoop hremoved
  · cases hqueued
    exact hrest.queueInLoop _ rfl (by simp)

theorem Begins.step (h : w.Begins none) {a : ServerStep n} (ha : w.Enabled a)
    (hw' : w.step a = .ok w') : w'.Begins none := by
  cases a with
  | accept onUp =>
    obtain ⟨w₁, hw₁, hbegins⟩ := h.newConnection onUp
    cases hw₁.symm.trans hw'
    exact hbegins
  | runFunctor k answer onCallback =>
    obtain hsame | ⟨f, fs, hk, hperformed⟩ := runFunctor_cases hw'
    · cases hsame
      exact h
    · exact h.perform hk hperformed
  | handleEvent i revents script =>
    obtain ⟨s, hi, -, hadded⟩ := ha
    have hknown := h.handled hi hadded
    exact (h.observe (by simp)).onConnection (by simp [hknown])
      (fun _ _ => TcpConnection.runCallbacks_tame) hw'
  | closeCallback i => exact h.closeCallback hw'
  | call i a => exact h.onConnection ha (fun _ _ => TcpConnection.call_tame) hw'
  | foreignCall i a =>
    rw [TcpServer.step] at hw'
    refine h.onConnection ha (fun c c' hc' => ?_) hw'
    cases hc'
    exact TcpConnection.foreignCall_tame a
  | destroy =>
    cases hw'
    exact h.congr rfl rfl rfl
  | destroyConnection onDown => exact h.destroyConnection hw'

/-- The connections have been numbered from one, with few enough of them. -/
structure Numbered (ipPort name : Bytes) (w : TcpServer n) : Prop where
  ipPort_eq : w.ipPort = ipPort
  name_eq : w.name = name
  id_eq : w.nextConnId = Int.bmod (w.accepted.length + 1) (2 ^ 32)
  few : w.accepted.length < 2 ^ 31
  names : ∀ (i : ℕ) (s : ServedConnection n), w.accepted[i]? = some s →
    s.name = name ++ connSuffix ipPort (i + 1)

variable {ipPort name : Bytes}

theorem connSuffix_of_nat (m : ℕ) :
    connSuffix ipPort (m : ℤ) = ascii "-" ++ ipPort ++ ascii "#" ++ decimal m := rfl

theorem snprintf_connSuffix (hport : ipPort.length ≤ 51) {m : ℕ} (hm : m < 2 ^ 31) :
    snprintf 64 (connSuffix ipPort (m : ℤ)) = connSuffix ipPort (m : ℤ) := by
  have hdigits : (decimal m).length ≤ 10 := length_decimal_le (k := 9) (by omega)
  apply snprintf_of_lt
  rw [connSuffix_of_nat]
  have hdash : (ascii "-").length = 1 := rfl
  have hhash : (ascii "#").length = 1 := rfl
  simp only [List.length_append, hdash, hhash]
  omega

theorem connSuffix_inj {i j : ℕ}
    (h : connSuffix ipPort ((i : ℤ) + 1) = connSuffix ipPort ((j : ℤ) + 1)) : i = j := by
  have hcast (k : ℕ) : (k : ℤ) + 1 = ((k + 1 : ℕ) : ℤ) := by push_cast; rfl
  rw [hcast, hcast, connSuffix_of_nat, connSuffix_of_nat] at h
  have := decimal_inj (Nat.succ_pos i) (Nat.succ_pos j) (List.append_cancel_left h)
  omega

theorem Numbered.name_inj (h : w.Numbered ipPort name) {i j : ℕ} {s t : ServedConnection n}
    (hi : w.accepted[i]? = some s) (hj : w.accepted[j]? = some t) (hname : s.name = t.name) :
    i = j := by
  rw [h.names i s hi, h.names j t hj] at hname
  exact connSuffix_inj (List.append_cancel_left hname)

theorem Numbered.enter (h : w.Numbered ipPort name) (hport : ipPort.length ≤ 51)
    (hfew : w.accepted.length + 1 < 2 ^ 31) (k : Fin (n + 1)) :
    (w.enter k).Numbered ipPort name := by
  have hid : w.nextConnId = ((w.accepted.length + 1 : ℕ) : ℤ) := by
    rw [h.id_eq, Int.bmod_eq_of_le (by omega) (by omega)]
    push_cast
    rfl
  have hlength : (w.enter k).accepted.length = w.accepted.length + 1 := by simp [TcpServer.enter]
  refine ⟨h.ipPort_eq, h.name_eq, ?_, by rw [hlength]; exact hfew, fun i s hi => ?_⟩
  · rw [hlength]
    simp only [TcpServer.enter, hid]
  · simp only [TcpServer.enter, List.getElem?_append] at hi
    split_ifs at hi with hlt
    · exact h.names i s hi
    · rw [List.getElem?_singleton] at hi
      split_ifs at hi with hlast
      cases hi
      have hi : i = w.accepted.length := by omega
      subst hi
      simp only [h.name_eq, h.ipPort_eq, hid, snprintf_connSuffix hport hfew]
      push_cast
      rfl

/-- From `w` to `w'` no connection was entered. -/
structure SameNames (w w' : TcpServer n) : Prop where
  ipPort : w'.ipPort = w.ipPort
  name : w'.name = w.name
  id : w'.nextConnId = w.nextConnId
  names : w'.accepted.map ServedConnection.name = w.accepted.map ServedConnection.name

theorem SameNames.refl (w : TcpServer n) : SameNames w w := ⟨rfl, rfl, rfl, rfl⟩

theorem SameNames.trans {w₁ w₂ w₃ : TcpServer n} (h₁ : SameNames w₁ w₂) (h₂ : SameNames w₂ w₃) :
    SameNames w₁ w₃ :=
  ⟨h₂.ipPort.trans h₁.ipPort, h₂.name.trans h₁.name, h₂.id.trans h₁.id, h₂.names.trans h₁.names⟩

theorem SameNames.length (h : SameNames w w') : w'.accepted.length = w.accepted.length := by
  simpa using congrArg List.length h.names

theorem Numbered.sameNames (h : w.Numbered ipPort name) (hs : SameNames w w') :
    w'.Numbered ipPort name where
  ipPort_eq := hs.ipPort.trans h.ipPort_eq
  name_eq := hs.name.trans h.name_eq
  id_eq := by rw [hs.id, hs.length, h.id_eq]
  few := by
    rw [hs.length]
    exact h.few
  names i s hi := by
    have hname := congrArg (fun l : List Bytes => l[i]?) hs.names
    simp only [List.getElem?_map, hi, Option.map_some] at hname
    obtain ⟨t, ht, heq⟩ := Option.map_eq_some_iff.mp hname.symm
    rw [← heq]
    exact h.names i t ht

theorem store_sameNames {s : ServedConnection n} {c : TcpConnection}
    (hi : w.accepted[i]? = some s) : SameNames w (w.store i s c) := by
  refine ⟨rfl, rfl, rfl, ?_⟩
  obtain ⟨hlt, rfl⟩ := List.getElem?_eq_some_iff.mp hi
  rw [store_accepted, List.map_set]
  apply List.ext_getElem (by simp)
  intro j hj hj'
  rw [List.getElem_set]
  split_ifs with heq
  · subst heq
    simp
  · rfl

theorem onConnection_sameNames {f : TcpConnection → Except Fault TcpConnection}
    {faultOf : Fault → ServerFault} (h : w.onConnection i f faultOf = .ok w') :
    SameNames w w' := by
  obtain ⟨-, rfl⟩ | ⟨s, c, hi, -, rfl⟩ := onConnection_eq_ok h
  · exact .refl _
  · exact store_sameNames hi

theorem observe_sameNames (e : ServerEvent) : SameNames w (w.observe e) := ⟨rfl, rfl, rfl, rfl⟩

theorem removeConnectionInLoop_sameNames (h : w.removeConnectionInLoop i = .ok w') :
    SameNames w w' := by
  obtain ⟨-, rfl | ⟨s, -, rfl⟩⟩ := removeConnectionInLoop_eq_ok h
  · exact .refl _
  · exact ⟨rfl, rfl, rfl, rfl⟩

theorem connectEstablished_sameNames {onUp : List (Call WriteAnswer)}
    (h : w.connectEstablished i onUp = .ok w') : SameNames w w' :=
  (observe_sameNames _).trans (onConnection_sameNames h)

theorem connectDestroyed_sameNames {onDown : List (Call WriteAnswer)}
    (h : w.connectDestroyed i onDown = .ok w') : SameNames w w' :=
  (observe_sameNames _).trans (onConnection_sameNames h)

theorem perform_sameNames {answer : WriteAnswer} {onCallback : List (Call WriteAnswer)}
    {f : ServerFunctor} (h : w.perform answer onCallback f = .ok w') : SameNames w w' := by
  cases f with
  | connectEstablished i => exact connectEstablished_sameNames h
  | removeConnectionInLoop i => exact removeConnectionInLoop_sameNames h
  | connection i f =>
    by_cases hf : f = .connectDestroyed
    · subst hf
      exact connectDestroyed_sameNames h
    · rw [perform_connection hf] at h
      exact onConnection_sameNames h

theorem step_sameNames {a : ServerStep n} (ha : ∀ onUp, a ≠ .accept onUp)
    (h : w.step a = .ok w') : SameNames w w' := by
  cases a with
  | accept onUp => exact absurd rfl (ha onUp)
  | runFunctor k answer onCallback =>
    obtain hsame | ⟨f, fs, -, hperformed⟩ := runFunctor_cases h
    · cases hsame
      exact .refl w
    · have hrest := perform_sameNames hperformed
      exact ⟨hrest.ipPort, hrest.name, hrest.id, hrest.names⟩
  | handleEvent i revents script =>
    rw [TcpServer.step] at h
    exact (observe_sameNames _).trans (onConnection_sameNames h)
  | closeCallback i =>
    obtain hsame | hremoved | hqueued := closeCallback_cases h
    · cases hsame
      exact .refl w
    · have hrest := removeConnectionInLoop_sameNames hremoved
      exact ⟨hrest.ipPort, hrest.name, hrest.id, hrest.names⟩
    · cases hqueued
      exact ⟨rfl, rfl, rfl, rfl⟩
  | call i a =>
    rw [TcpServer.step] at h
    exact onConnection_sameNames h
  | foreignCall i a =>
    rw [TcpServer.step] at h
    exact onConnection_sameNames h
  | destroy =>
    cases h
    exact ⟨rfl, rfl, rfl, rfl⟩
  | destroyConnection onDown =>
    obtain hsame | ⟨i, is, -, hround⟩ := destroyConnection_cases h
    · cases hsame
      exact .refl w
    · obtain ⟨-, hsame⟩ | hdestroyed | ⟨k, hqueued⟩ := hround
      · cases hsame
        exact ⟨rfl, rfl, rfl, rfl⟩
      · have hrest := connectDestroyed_sameNames hdestroyed
        exact ⟨hrest.ipPort, hrest.name, hrest.id, hrest.names⟩
      · cases hqueued
        exact ⟨rfl, rfl, rfl, rfl⟩

theorem Numbered.enterNext (h : w.Numbered ipPort name) (hport : ipPort.length ≤ 51)
    (hfew : w.accepted.length + 1 < 2 ^ 31) :
    (w.getNextLoop.2.enter w.getNextLoop.1).Numbered ipPort name := by
  have hnext : w.getNextLoop.2.Numbered ipPort name := by
    rw [getNextLoop_same]
    exact h.sameNames ⟨rfl, rfl, rfl, rfl⟩
  have hlength : w.getNextLoop.2.accepted.length = w.accepted.length := by
    rw [getNextLoop_same]
  exact hnext.enter hport (by rwa [hlength]) w.getNextLoop.1

theorem Numbered.newConnection (h : w.Numbered ipPort name) (hport : ipPort.length ≤ 51)
    (hfew : w.accepted.length + 1 < 2 ^ 31) {onUp : List (Call WriteAnswer)}
    (hw' : w.newConnection onUp = .ok w') : w'.Numbered ipPort name := by
  have henter := h.enterNext hport hfew
  obtain hestablished | hqueued := newConnection_cases hw'
  · exact henter.sameNames (connectEstablished_sameNames hestablished)
  · cases hqueued
    exact henter.sameNames ⟨rfl, rfl, rfl, rfl⟩

theorem Numbered.step (h : w.Numbered ipPort name) (hport : ipPort.length ≤ 51)
    {a : ServerStep n} (ha : w.Enabled a) (hw' : w.step a = .ok w') : w'.Numbered ipPort name := by
  by_cases haccept : ∃ onUp, a = .accept onUp
  · obtain ⟨onUp, rfl⟩ := haccept
    exact h.newConnection hport ha.2.2 hw'
  · push Not at haccept
    exact h.sameNames (step_sameNames haccept hw')

theorem newConnection_accepted {onUp : List (Call WriteAnswer)}
    (hw' : w.newConnection onUp = .ok w') : w'.accepted.length = w.accepted.length + 1 := by
  have henter : (w.getNextLoop.2.enter w.getNextLoop.1).accepted.length =
      w.accepted.length + 1 := by
    rw [getNextLoop_same]
    simp [TcpServer.enter]
  obtain hestablished | hqueued := newConnection_cases hw'
  · exact (connectEstablished_sameNames hestablished).length.trans henter
  · cases hqueued
    exact henter

theorem step_accepted {a : ServerStep n} (hw' : w.step a = .ok w') :
    w'.accepted.length = w.accepted.length + [a].countP ServerStep.accepts := by
  by_cases haccept : ∃ onUp, a = .accept onUp
  · obtain ⟨onUp, rfl⟩ := haccept
    exact newConnection_accepted hw'
  · push Not at haccept
    have hno : a.accepts = false := by
      cases a with
      | accept onUp => exact absurd rfl (haccept onUp)
      | _ => rfl
    rw [(step_sameNames haccept hw').length, List.countP_singleton, hno]
    rfl

end TcpServer
end Muduo
