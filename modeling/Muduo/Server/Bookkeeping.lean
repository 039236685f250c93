import Muduo.Foundations.History
import Muduo.Server.Accepting

/-!
# The books of a server

Each close callback of a connection leads to one removal from `connections_`, and each
removal to one destruction, of which every one waits in a queue or has happened. These are
equations between the close callbacks, the queues and the history of the server. They hold
for all connections at once, and a step moves one unit from one place to the next.
-/

namespace Muduo

open Foundations

namespace TcpServer

variable {n : ℕ} {w w' : TcpServer n} {i : ℕ} {due due' owed owed' : Option ℕ}

def closes (w : TcpServer n) (i : ℕ) : ℕ := (w.accepted[i]?).elim 0 (·.conn.closes)

/-- Each close callback is running, or its removal waits or was made, or is about to be made
if it is `due`; each removed connection waits for its destruction or was destroyed, or will
be told next if that is `owed`. The map has the connections that were not removed. -/
structure Accounts (w : TcpServer n) (due owed : Option ℕ) : Prop where
  closed : ∀ i, w.closes i = w.closing.count i + w.waits (.removeConnectionInLoop i) +
    w.history.count (.erased i) + if due = some i then 1 else 0
  erased : ∀ i, w.history.count (.erased i) = w.waits (.connection i .connectDestroyed) +
    w.history.count (.destroyed i) + if owed = some i then 1 else 0
  once : ∀ i, w.closes i ≤ 1
  listed : ∀ nm i, w.connections.lookup nm = some i ↔
    ∃ s, w.accepted[i]? = some s ∧ s.name = nm ∧ .erased i ∉ w.history

theorem accounts_init (n : ℕ) (ipPort name : Bytes) (writeComplete : Bool) :
    (init n ipPort name writeComplete).Accounts none none where
  closed i := by simp [init, waits, waiting, closes]
  erased i := by simp [init, waits, waiting]
  once i := by simp [init, closes]
  listed nm i := by simp [init]

theorem Accounts.congr (h : w.Accounts due owed) (hq : w'.queue = w.queue)
    (hh : w'.history = w.history) (ha : w'.accepted = w.accepted)
    (hc : w'.closing = w.closing) (hm : w'.connections = w.connections) :
    w'.Accounts due owed where
  closed i := by
    rw [closes, ha, hc, waits, hq, hh]
    exact h.closed i
  erased i := by
    rw [waits, hq, hh]
    exact h.erased i
  once i := by
    rw [closes, ha]
    exact h.once i
  listed nm i := by
    rw [hm, ha, hh]
    exact h.listed nm i

theorem Accounts.observe (h : w.Accounts due owed) {e : ServerEvent} (he : ∀ i, e ≠ .erased i)
    (howed : ∀ i, (if owed = some i then 1 else 0) =
      (if e = .destroyed i then 1 else 0) + if owed' = some i then 1 else 0) :
    (w.observe e).Accounts due owed' where
  closed i := by
    rw [count_observe, if_neg (he i), Nat.add_zero]
    exact h.closed i
  erased i := by
    have hi := h.erased i
    rw [howed i] at hi
    rw [count_observe, if_neg (he i), count_observe, waits_observe]
    omega
  once := h.once
  listed nm i := by
    rw [observe_history, List.mem_append, List.mem_singleton, not_or]
    simp only [(he i).symm, not_false_eq_true, and_true]
    exact h.listed nm i

theorem Accounts.queueInLoop (h : w.Accounts due owed) (k : Fin (n + 1)) {f : ServerFunctor}
    (hdue : ∀ i, (if due = some i then 1 else 0) =
      (if f = .removeConnectionInLoop i then 1 else 0) + if due' = some i then 1 else 0)
    (howed : ∀ i, (if owed = some i then 1 else 0) =
      (if f = .connection i .connectDestroyed then 1 else 0) + if owed' = some i then 1 else 0) :
    (w.queueInLoop k f).Accounts due' owed' where
  closed i := by
    have hi := h.closed i
    rw [hdue i] at hi
    rw [waits_queueInLoop]
    refine Eq.trans hi ?_
    simp only [queueInLoop_closing, queueInLoop_history]
    omega
  erased i := by
    have hi := h.erased i
    rw [howed i] at hi
    rw [waits_queueInLoop]
    refine Eq.trans hi ?_
    simp only [queueInLoop_history]
    omega
  once := h.once
  listed := h.listed

theorem Accounts.pop (h : w.Accounts none none) {k : Fin (n + 1)} {f : ServerFunctor}
    {fs : List ServerFunctor} (hk : w.queue k = f :: fs) (due' owed' : Option ℕ)
    (hdue : ∀ i, f = .removeConnectionInLoop i ↔ due' = some i)
    (howed : ∀ i, f = .connection i .connectDestroyed ↔ owed' = some i) :
    { w with queue := Function.update w.queue k fs }.Accounts due' owed' where
  closed i := by
    have hi := h.closed i
    rw [waits_pop hk] at hi
    simp only [hdue, reduceCtorEq, if_false] at hi
    refine Eq.trans hi ?_
    dsimp only
    omega
  erased i := by
    have hi := h.erased i
    rw [waits_pop hk] at hi
    simp only [howed, reduceCtorEq, if_false] at hi
    refine Eq.trans hi ?_
    dsimp only
    omega
  once := h.once
  listed := h.listed

theorem closes_store {s : ServedConnection n} {c : TcpConnection} (hi : w.accepted[i]? = some s)
    (j : ℕ) : (w.store i s c).closes j = if j = i then c.closes else w.closes j := by
  have hlt := (List.getElem?_eq_some_iff.mp hi).1
  rw [closes, store_accepted, List.getElem?_set]
  by_cases hj : i = j
  · subst hj
    simp [hlt, TcpConnection.closes]
  · rw [if_neg hj, if_neg (Ne.symm hj)]
    rfl

theorem closes_of_get {s : ServedConnection n} (hi : w.accepted[i]? = some s) :
    w.closes i = s.conn.closes := by
  rw [closes, hi]
  rfl

theorem ClosedOnce.closes_le (h : w.ClosedOnce) (i : ℕ) : w.closes i ≤ 1 := by
  cases hi : w.accepted[i]? with
  | none => simp [closes, hi]
  | some s =>
    rw [closes_of_get hi]
    exact h s (List.mem_of_getElem? hi)

/-- A connection takes a step, and closes if it comes to its close callback. -/
theorem Accounts.store (h : w.Accounts due owed) {s : ServedConnection n} {c : TcpConnection}
    (hi : w.accepted[i]? = some s) (hp : s.conn.pendingFunctors = []) (ht : s.conn.Tame c)
    (honce : (w.store i s c).ClosedOnce) : (w.store i s c).Accounts due owed where
  closed j := by
    have hc := ht.kept (by simp [hp])
    have hj := h.closed j
    have hmore := ht.closes
    have hle := honce.closes_le i
    rw [closes_store hi, if_pos rfl] at hle
    rw [closes_store hi, waits_store hc rfl, store_history, store_closing]
    by_cases hji : j = i
    · subst hji
      rw [closes_of_get hi] at hj
      rw [if_pos rfl]
      by_cases hgrows : s.conn.closes < c.closes
      · rw [if_pos hgrows, List.count_append, List.count_singleton_self]
        omega
      · rw [if_neg hgrows]
        omega
    · rw [if_neg hji]
      by_cases hgrows : s.conn.closes < c.closes
      · rw [if_pos hgrows, List.count_append, List.count_singleton,
          if_neg (by simpa using Ne.symm hji), Nat.add_zero]
        exact hj
      · rw [if_neg hgrows]
        exact hj
  erased j := by
    rw [waits_store (ht.kept (by simp [hp])) (by simp [ServerFunctor.isMilestone])]
    exact h.erased j
  once := honce.closes_le
  listed nm j := by
    rw [store_connections, h.listed, store_history]
    constructor
    · rintro ⟨t, hj, hname, hnot⟩
      by_cases hji : j = i
      · subst hji
        cases hj.symm.trans hi
        exact ⟨_, (getElem?_store hi).mpr (.inl ⟨rfl, rfl⟩), hname, hnot⟩
      · exact ⟨t, (getElem?_store hi).mpr (.inr ⟨hji, hj⟩), hname, hnot⟩
    · rintro ⟨t, hj, hname, hnot⟩
      obtain ⟨rfl, rfl⟩ | ⟨-, hj⟩ := (getElem?_store hi).mp hj
      · exact ⟨s, hi, hname, hnot⟩
      · exact ⟨t, hj, hname, hnot⟩

theorem Accounts.closeCallback (h : w.Accounts none none) (hi : i ∈ w.closing) :
    { w with closing := w.closing.erase i }.Accounts (some i) none where
  closed j := by
    have hj := h.closed j
    refine Eq.trans hj ?_
    have hcount : w.closing.count j = (w.closing.erase i).count j + if i = j then 1 else 0 := by
      have hperm := (List.perm_cons_erase hi).count_eq j
      rw [List.count_cons] at hperm
      simpa only [beq_iff_eq] using hperm
    simp only [Option.some.injEq, reduceCtorEq, if_false]
    change w.closing.count j + w.waits _ + w.history.count _ + 0 =
      (w.closing.erase i).count j + w.waits _ + w.history.count _ + _
    omega
  erased := h.erased
  once := h.once
  listed := h.listed

theorem Accounts.erased_unknown (h : w.Accounts due owed) (hi : w.accepted[i]? = none) :
    .erased i ∉ w.history := by
  have hclosed := h.closed i
  rw [closes, hi] at hclosed
  rw [← List.count_eq_zero]
  dsimp only [Option.elim] at hclosed
  omega

theorem Accounts.enter (h : w.Accounts none none) {ipPort name : Bytes} (k : Fin (n + 1))
    (hn : (w.enter k).Numbered ipPort name) : (w.enter k).Accounts none none := by
  have hnew : w.accepted[w.accepted.length]? = none := by simp
  have hcloses (i : ℕ) : (w.enter k).closes i = w.closes i := by
    rw [closes, closes, TcpServer.enter, List.getElem?_append]
    split_ifs with hlt
    · rfl
    · have hnone : w.accepted[i]? = none := List.getElem?_eq_none (by omega)
      rw [hnone, List.getElem?_singleton]
      split_ifs
      · rfl
      · rfl
  have hget (i : ℕ) (s : ServedConnection n) (hi : w.accepted[i]? = some s) :
      (w.enter k).accepted[i]? = some s := by
    rw [TcpServer.enter, List.getElem?_append_left (List.getElem?_eq_some_iff.mp hi).1]
    exact hi
  refine ⟨fun i => (hcloses i).trans (h.closed i), h.erased,
    fun i => (hcloses i).le.trans (h.once i), fun nm i => ?_⟩
  have hlast : ∃ s, (w.enter k).accepted[w.accepted.length]? = some s ∧
      s.name = w.name ++ snprintf 64 (connSuffix w.ipPort w.nextConnId) :=
    ⟨_, List.getElem?_concat_length, rfl⟩
  obtain ⟨last, hlast, hname⟩ := hlast
  have hlookup : (w.enter k).connections =
      w.connections.insert last.name w.accepted.length := by
    rw [hname]
    rfl
  rw [hlookup]
  by_cases hnm : nm = last.name
  · subst hnm
    rw [AList.lookup_insert, Option.some.injEq]
    constructor
    · rintro rfl
      exact ⟨last, hlast, rfl, h.erased_unknown hnew⟩
    · rintro ⟨s, hs, hsame, -⟩
      exact (hn.name_inj hs hlast hsame).symm
  · rw [AList.lookup_insert_ne hnm, h.listed]
    constructor
    · rintro ⟨s, hs, hsame, hnot⟩
      exact ⟨s, hget i s hs, hsame, hnot⟩
    · rintro ⟨s, hs, hsame, hnot⟩
      have hlt : i < w.accepted.length := by
        have hlt := (List.getElem?_eq_some_iff.mp hs).1
        have hlength : (w.enter k).accepted.length = w.accepted.length + 1 := by
          simp [TcpServer.enter]
        by_contra hge
        have heq : i = w.accepted.length := by omega
        subst heq
        cases hs.symm.trans hlast
        exact hnm hsame.symm
      rw [TcpServer.enter, List.getElem?_append_left hlt] at hs
      exact ⟨s, hs, hsame, hnot⟩

theorem removeConnectionInLoop_accounts (h : w.Accounts (some i) none) {ipPort name : Bytes}
    (hn : w.Numbered ipPort name) (hlives : w.destroying = none) :
    ∃ w', w.removeConnectionInLoop i = .ok w' ∧ w'.Accounts none none ∧
      w'.destroying = none := by
  have hclosed := h.closed i
  have hle := h.once i
  rw [if_pos rfl] at hclosed
  have hnot : .erased i ∉ w.history := by
    rw [← List.count_eq_zero]
    omega
  cases hi : w.accepted[i]? with
  | none =>
    rw [closes, hi] at hclosed
    dsimp only [Option.elim] at hclosed
    omega
  | some s =>
    have hmem : s.name ∈ w.connections := by
      rw [← AList.lookup_isSome, (h.listed s.name i).mpr ⟨s, hi, rfl, hnot⟩]
      rfl
    unfold removeConnectionInLoop
    rw [if_neg (by simp [hlives])]
    simp only [hi, if_pos hmem]
    refine ⟨_, rfl, ?_, hlives⟩
    have hpaid : ({ w with connections := w.connections.erase s.name }.observe
        (.erased i)).Accounts none (some i) := by
      refine ⟨fun j => ?_, fun j => ?_, h.once, fun nm j => ?_⟩
      · have hj := h.closed j
        rw [count_observe]
        refine Eq.trans hj ?_
        simp only [Option.some.injEq, ServerEvent.erased.injEq, reduceCtorEq, if_false]
        change w.closing.count j + w.waits _ + w.history.count _ + _ =
          w.closing.count j + w.waits _ + (w.history.count _ + _) + 0
        omega
      · have hj := h.erased j
        rw [count_observe, count_observe]
        simp only [Option.some.injEq, ServerEvent.erased.injEq, reduceCtorEq, if_false] at hj ⊢
        change w.history.count _ + _ = w.waits _ + (w.history.count _ + 0) + _
        omega
      · rw [observe_history, List.mem_append, List.mem_singleton, not_or]
        change (w.connections.erase s.name).lookup nm = some j ↔
          ∃ t, w.accepted[j]? = some t ∧ t.name = nm ∧ .erased j ∉ w.history ∧ _
        by_cases hnm : nm = s.name
        · subst hnm
          rw [AList.lookup_erase]
          simp only [reduceCtorEq, false_iff]
          rintro ⟨t, hj, hname, -, hne⟩
          exact hne (by rw [hn.name_inj hj hi hname])
        · rw [AList.lookup_erase_ne hnm, h.listed]
          constructor
          · rintro ⟨t, hj, hname, hjnot⟩
            refine ⟨t, hj, hname, hjnot, fun heq => ?_⟩
            cases heq
            cases hj.symm.trans hi
            exact hnm hname.symm
          · rintro ⟨t, hj, hname, hjnot, -⟩
            exact ⟨t, hj, hname, hjnot⟩
    exact hpaid.queueInLoop s.loop (by simp) (by simp)

/-- The books of a server that lives. -/
structure Books (ipPort name : Bytes) (w : TcpServer n) : Prop where
  begins : w.Begins none
  numbered : w.Numbered ipPort name
  accounts : w.Accounts none none
  lives : w.destroying = none

variable {ipPort name : Bytes}

/-- What a step leaves of the accounts of a server that lives. -/
def Accounted (w : TcpServer n) : Prop := w.Accounts none none ∧ w.destroying = none

theorem Accounts.onConnection (h : w.Accounts none none) (hlives : w.destroying = none)
    (hb : w.Begins due) {f : TcpConnection → Except Fault TcpConnection}
    {faultOf : Fault → ServerFault} (ht : ∀ c c', f c = .ok c' → c.Tame c')
    (hw' : w.onConnection i f faultOf = .ok w') (honce : w'.ClosedOnce) : w'.Accounted := by
  obtain ⟨-, rfl⟩ | ⟨s, c, hi, hc, rfl⟩ := onConnection_eq_ok hw'
  · exact ⟨h, hlives⟩
  · exact ⟨h.store hi (hb.flushed i s hi) (ht _ _ hc) honce, hlives⟩

theorem Accounts.connectDestroyed (h : w.Accounts none (some i)) (hlives : w.destroying = none)
    (hb : w.Begins due) {onDown : List (Call WriteAnswer)}
    (hw' : w.connectDestroyed i onDown = .ok w') (honce : w'.ClosedOnce) : w'.Accounted := by
  have hpaid : (w.observe (.destroyed i)).Accounts none none := h.observe (by simp) (by simp)
  exact hpaid.onConnection hlives (hb.observe (by simp))
    (fun _ _ => TcpConnection.connectDestroyed_tame) hw' honce

theorem Accounts.connectEstablished (h : w.Accounts none none) (hlives : w.destroying = none)
    (hb : w.Begins (some i)) {onUp : List (Call WriteAnswer)}
    (hw' : w.connectEstablished i onUp = .ok w') (honce : w'.ClosedOnce) : w'.Accounted := by
  have hsame : (w.observe (.established i)).Accounts none none := h.observe (by simp) (by simp)
  exact hsame.onConnection hlives hb.observeDue
    (fun _ _ => TcpConnection.connectEstablished_tame) hw' honce

theorem Books.newConnection (h : w.Books ipPort name) (hport : ipPort.length ≤ 51)
    (hfew : w.accepted.length + 1 < 2 ^ 31) {onUp : List (Call WriteAnswer)}
    (hw' : w.newConnection onUp = .ok w') (honce : w'.ClosedOnce) : w'.Accounted := by
  have hnext : w.getNextLoop.2.Accounts none none := by
    rw [getNextLoop_same]
    exact h.accounts.congr rfl rfl rfl rfl rfl
  have hlives : (w.getNextLoop.2.enter w.getNextLoop.1).destroying = none := by
    rw [getNextLoop_same]
    exact h.lives
  have henter := hnext.enter w.getNextLoop.1 (h.numbered.enterNext hport hfew)
  obtain hestablished | hqueued := newConnection_cases hw'
  · exact henter.connectEstablished hlives h.begins.enterNext hestablished honce
  · cases hqueued
    exact ⟨henter.queueInLoop _ (by simp) (by simp), hlives⟩

theorem Books.perform (h : w.Books ipPort name) {k : Fin (n + 1)} {f : ServerFunctor}
    {fs : List ServerFunctor} (hk : w.queue k = f :: fs) {answer : WriteAnswer}
    {onCallback : List (Call WriteAnswer)}
    (hw' : { w with queue := Function.update w.queue k fs }.perform answer onCallback f = .ok w')
    (honce : w'.ClosedOnce) : w'.Accounted := by
  cases f with
  | connectEstablished i =>
    exact (h.accounts.pop hk none none (by simp) (by simp)).connectEstablished h.lives
      (h.begins.pop hk (some i) (by simp)) hw' honce
  | removeConnectionInLoop i =>
    have hnumbered : { w with queue := Function.update w.queue k fs }.Numbered ipPort name :=
      h.numbered.sameNames ⟨rfl, rfl, rfl, rfl⟩
    obtain ⟨w₁, hw₁, haccounts, hlives⟩ := removeConnectionInLoop_accounts
      (h.accounts.pop hk (some i) none (by simp) (by simp)) hnumbered h.lives
    cases hw₁.symm.trans hw'
    exact ⟨haccounts, hlives⟩
  | connection i f =>
    have hbegins := h.begins.pop hk none (by simp)
    by_cases hf : f = .connectDestroyed
    · subst hf
      exact (h.accounts.pop hk none (some i) (by simp) (by simp)).connectDestroyed h.lives
        hbegins hw' honce
    · have hpop := h.accounts.pop hk none none (by simp) (by simp [hf])
      rw [perform_connection hf] at hw'
      exact hpop.onConnection h.lives hbegins (fun _ _ => TcpConnection.runFunctor_tame) hw' honce

theorem Books.closeCallback (h : w.Books ipPort name) (hi : i ∈ w.closing)
    (hw' : w.closeCallback i = .ok w') : w'.Accounted := by
  have hdue := h.accounts.closeCallback hi
  have hnumbered : { w with closing := w.closing.erase i }.Numbered ipPort name :=
    h.numbered.sameNames ⟨rfl, rfl, rfl, rfl⟩
  obtain hsame | hremoved | hqueued := closeCallback_cases hw'
  · cases hsame
    exact ⟨h.accounts, h.lives⟩
  · obtain ⟨w₁, hw₁, haccounts, hlives⟩ := removeConnectionInLoop_accounts hdue hnumbered h.lives
    cases hw₁.symm.trans hremoved
    exact ⟨haccounts, hlives⟩
  · cases hqueued
    exact ⟨hdue.queueInLoop _ (by simp) (by simp), h.lives⟩

theorem Books.step (h : w.Books ipPort name) (hport : ipPort.length ≤ 51) {a : ServerStep n}
    (ha : machine.Allows w a) (hstays : a ≠ .destroy) (hw' : w.step a = .ok w') :
    w'.Books ipPort name := by
  have honce : w'.ClosedOnce := by
    have hafter := ha.2
    rwa [After, hw'] at hafter
  have haccounted : w'.Accounted := by
    cases a with
    | accept onUp => exact h.newConnection hport ha.1.2.2 hw' honce
    | runFunctor k answer onCallback =>
      obtain hsame | ⟨f, fs, hk, hperformed⟩ := runFunctor_cases hw'
      · cases hsame
        exact ⟨h.accounts, h.lives⟩
      · exact h.perform hk hperformed honce
    | handleEvent i revents script =>
      rw [TcpServer.step] at hw'
      have hsame : (w.observe (.handled i)).Accounts none none :=
        h.accounts.observe (by simp) (by simp)
      exact hsame.onConnection h.lives (h.begins.observe (by simp))
        (fun _ _ => TcpConnection.runCallbacks_tame) hw' honce
    | closeCallback i => exact h.closeCallback ha.1 hw'
    | call i a =>
      rw [TcpServer.step] at hw'
      exact h.accounts.onConnection h.lives h.begins (fun _ _ => TcpConnection.call_tame) hw' honce
    | foreignCall i a =>
      rw [TcpServer.step] at hw'
      refine h.accounts.onConnection h.lives h.begins (fun c c' hc' => ?_) hw' honce
      cases hc'
      exact TcpConnection.foreignCall_tame a
    | destroy => exact absurd rfl hstays
    | destroyConnection onDown =>
      rw [TcpServer.step, TcpServer.destroyConnection, h.lives] at hw'
      cases hw'
      exact ⟨h.accounts, h.lives⟩
  exact ⟨h.begins.step ha.1 hw', h.numbered.step hport ha.1 hw', haccounted.1, haccounted.2⟩

/-- Connections are established before their channels have events; they are established,
erased and destroyed at most once, and destroyed when they were erased. -/
def InOrder (before : List ServerEvent) : ServerEvent → Prop
  | .established i => .established i ∉ before
  | .handled i => .established i ∈ before
  | .erased i => .erased i ∉ before
  | .destroyed i => .erased i ∈ before ∧ .destroyed i ∉ before

def Notes (w w' : TcpServer n) : Prop :=
  w'.history = w.history ∨ ∃ e, w'.history = w.history ++ [e] ∧
    ∀ i, e = .handled i → .established i ∈ w.history

theorem onConnection_history {f : TcpConnection → Except Fault TcpConnection}
    {faultOf : Fault → ServerFault} (h : w.onConnection i f faultOf = .ok w') :
    w'.history = w.history := by
  obtain ⟨-, rfl⟩ | ⟨s, c, -, -, rfl⟩ := onConnection_eq_ok h
  · rfl
  · rfl

theorem connectEstablished_notes {onUp : List (Call WriteAnswer)}
    (h : w.connectEstablished i onUp = .ok w') : Notes w w' :=
  .inr ⟨_, onConnection_history h, by simp⟩

theorem connectDestroyed_notes {onDown : List (Call WriteAnswer)}
    (h : w.connectDestroyed i onDown = .ok w') : Notes w w' :=
  .inr ⟨_, onConnection_history h, by simp⟩

theorem removeConnectionInLoop_notes (h : w.removeConnectionInLoop i = .ok w') : Notes w w' := by
  obtain ⟨-, rfl | ⟨s, -, rfl⟩⟩ := removeConnectionInLoop_eq_ok h
  · exact .inl rfl
  · exact .inr ⟨_, rfl, by simp⟩

theorem perform_notes {answer : WriteAnswer} {onCallback : List (Call WriteAnswer)}
    {f : ServerFunctor} (h : w.perform answer onCallback f = .ok w') : Notes w w' := by
  cases f with
  | connectEstablished i => exact connectEstablished_notes h
  | removeConnectionInLoop i => exact removeConnectionInLoop_notes h
  | connection i f =>
    by_cases hf : f = .connectDestroyed
    · subst hf
      exact connectDestroyed_notes h
    · rw [perform_connection hf] at h
      exact .inl (onConnection_history h)

theorem newConnection_notes {onUp : List (Call WriteAnswer)}
    (h : w.newConnection onUp = .ok w') : Notes w w' := by
  have hsame : (w.getNextLoop.2.enter w.getNextLoop.1).history = w.history := by
    rw [getNextLoop_same]
    rfl
  obtain hestablished | hqueued := newConnection_cases h
  · have hnotes := connectEstablished_notes hestablished
    rwa [Notes, hsame] at hnotes
  · cases hqueued
    exact .inl hsame

theorem Books.notes (h : w.Books ipPort name) {a : ServerStep n} (ha : w.Enabled a)
    (hw' : w.step a = .ok w') : Notes w w' := by
  cases a with
  | accept onUp => exact newConnection_notes hw'
  | runFunctor k answer onCallback =>
    obtain hsame | ⟨f, fs, -, hperformed⟩ := runFunctor_cases hw'
    · cases hsame
      exact .inl rfl
    · have hnotes := perform_notes hperformed
      exact hnotes
  | handleEvent i revents script =>
    rw [TcpServer.step] at hw'
    obtain ⟨s, hi, -, hadded⟩ := ha
    refine .inr ⟨_, onConnection_history hw', fun j hj => ?_⟩
    cases hj
    exact h.begins.handled hi hadded
  | closeCallback i =>
    obtain hsame | hremoved | hqueued := closeCallback_cases hw'
    · cases hsame
      exact .inl rfl
    · have hnotes := removeConnectionInLoop_notes hremoved
      exact hnotes
    · cases hqueued
      exact .inl rfl
  | call i a =>
    rw [TcpServer.step] at hw'
    exact .inl (onConnection_history hw')
  | foreignCall i a =>
    rw [TcpServer.step] at hw'
    exact .inl (onConnection_history hw')
  | destroy =>
    cases hw'
    exact .inl rfl
  | destroyConnection onDown =>
    rw [TcpServer.step, TcpServer.destroyConnection, h.lives] at hw'
    cases hw'
    exact .inl rfl

theorem Begins.established_le (h : w.Begins none) (i : ℕ) :
    w.history.count (.established i) ≤ 1 := by
  have hi := h.once i
  split_ifs at hi <;> omega

theorem Accounts.erased_le (h : w.Accounts none none) (i : ℕ) :
    w.history.count (.erased i) ≤ 1 := by
  have hclosed := h.closed i
  have hle := h.once i
  omega

theorem Accounts.destroyed_le (h : w.Accounts none none) (i : ℕ) :
    w.history.count (.destroyed i) ≤ w.history.count (.erased i) := by
  have herased := h.erased i
  omega

/-- What a step notes is in order, as the books behind it are right. -/
theorem Notes.inOrder (h : Notes w w') (hb : w'.Books ipPort name)
    (ho : Obeys InOrder w.history) : Obeys InOrder w'.history := by
  obtain hsame | ⟨e, he, hhandled⟩ := h
  · rwa [hsame]
  · rw [he]
    refine ho.concat ?_
    have hcount (f : ServerEvent) :
        w'.history.count f = w.history.count f + if e = f then 1 else 0 := by
      rw [he, List.count_append, List.count_singleton]
      simp only [beq_iff_eq]
    have herased (i : ℕ) := hb.accounts.erased_le i
    have hdestroyed (i : ℕ) := hb.accounts.destroyed_le i
    have hestablished (i : ℕ) := hb.begins.established_le i
    simp only [hcount] at herased hdestroyed hestablished
    cases e with
    | established i =>
      rw [InOrder, ← List.count_eq_zero]
      simpa using hestablished i
    | handled i => exact hhandled i rfl
    | erased i =>
      rw [InOrder, ← List.count_eq_zero]
      simpa using herased i
    | destroyed i =>
      have hle := herased i
      have hless := hdestroyed i
      simp only [reduceCtorEq, if_false, if_true] at hle hless
      rw [InOrder, ← List.count_eq_zero, ← List.count_pos_iff]
      constructor <;> omega

theorem Books.removes (h : w.Books ipPort name) {k : Fin (n + 1)} {fs : List ServerFunctor}
    (hk : w.queue k = .removeConnectionInLoop i :: fs) :
    ∃ w', { w with queue := Function.update w.queue k fs }.removeConnectionInLoop i = .ok w' := by
  have hnumbered : { w with queue := Function.update w.queue k fs }.Numbered ipPort name :=
    h.numbered.sameNames ⟨rfl, rfl, rfl, rfl⟩
  obtain ⟨w', hw', -⟩ := removeConnectionInLoop_accounts
    (h.accounts.pop hk (some i) none (by simp) (by simp)) hnumbered h.lives
  exact ⟨w', hw'⟩

theorem perform_connection_fails {f : Functor} {answer : WriteAnswer}
    {onCallback : List (Call WriteAnswer)} {e : ServerFault}
    (h : w.perform answer onCallback (.connection i f) = .error e) :
    ∃ fault, e = .connection fault := by
  by_cases hf : f = .connectDestroyed
  · subst hf
    rw [TcpServer.perform, TcpServer.connectDestroyed] at h
    exact onConnection_eq_error h
  · rw [perform_connection hf] at h
    exact onConnection_eq_error h

/-- A step fails in a connection that was established, or when a removal that waits in a loop
or is due finds the server gone or its connection erased. -/
theorem Begins.fails (h : w.Begins none) {a : ServerStep n} {e : ServerFault}
    (he : w.step a = .error e) : (∃ fault, e = .connection fault) ∨
      (∃ k i fs, w.queue k = .removeConnectionInLoop i :: fs ∧
        { w with queue := Function.update w.queue k fs }.removeConnectionInLoop i = .error e) ∨
      ∃ i, a = .closeCallback i ∧
        { w with closing := w.closing.erase i }.removeConnectionInLoop i = .error e := by
  cases a with
  | accept onUp =>
    obtain ⟨w', hw', -⟩ := h.newConnection onUp
    cases hw'.symm.trans he
  | runFunctor k answer onCallback =>
    obtain hsame | ⟨f, fs, hk, hperformed⟩ := runFunctor_cases he
    · cases hsame
    · cases f with
      | connectEstablished i =>
        obtain ⟨s, c, -, -, hc, -⟩ :=
          connectEstablished_begins (h.pop hk (some i) (by simp)) onCallback
        cases hc.symm.trans hperformed
      | removeConnectionInLoop i => exact .inr (.inl ⟨k, i, fs, hk, hperformed⟩)
      | connection i f => exact .inl (perform_connection_fails hperformed)
  | handleEvent i revents script =>
    rw [TcpServer.step] at he
    exact .inl (onConnection_eq_error he)
  | closeCallback i =>
    obtain hsame | hremoved | hqueued := closeCallback_cases he
    · cases hsame
    · exact .inr (.inr ⟨i, rfl, hremoved⟩)
    · cases hqueued
  | call i a =>
    rw [TcpServer.step] at he
    exact .inl (onConnection_eq_error he)
  | foreignCall i a =>
    rw [TcpServer.step] at he
    exact .inl (onConnection_eq_error he)
  | destroy => cases he
  | destroyConnection onDown =>
    obtain hsame | ⟨i, is, -, hround⟩ := destroyConnection_cases he
    · cases hsame
    · obtain ⟨-, hsame⟩ | hdestroyed | ⟨k, hqueued⟩ := hround
      · cases hsame
      · rw [TcpServer.connectDestroyed] at hdestroyed
        exact .inl (onConnection_eq_error hdestroyed)
      · cases hqueued

theorem Books.fails (h : w.Books ipPort name) {a : ServerStep n} (ha : w.Enabled a)
    {e : ServerFault} (he : w.step a = .error e) : ∃ fault, e = .connection fault := by
  obtain hfault | ⟨k, i, fs, hk, hremoved⟩ | ⟨i, rfl, hremoved⟩ := h.begins.fails he
  · exact hfault
  · obtain ⟨w', hw'⟩ := h.removes hk
    cases hw'.symm.trans hremoved
  · have hnumbered : { w with closing := w.closing.erase i }.Numbered ipPort name :=
      h.numbered.sameNames ⟨rfl, rfl, rfl, rfl⟩
    obtain ⟨w', hw', -⟩ :=
      removeConnectionInLoop_accounts (h.accounts.closeCallback ha) hnumbered h.lives
    cases hw'.symm.trans hremoved

theorem books_init (n : ℕ) (ipPort name : Bytes) (writeComplete : Bool) :
    (init n ipPort name writeComplete).Books ipPort name where
  begins := begins_init n ipPort name writeComplete
  numbered := by
    refine ⟨rfl, rfl, ?_, by simp [init], fun i s hi => by simp [init] at hi⟩
    change (1 : ℤ) = Int.bmod (((0 : ℕ) : ℤ) + 1) (2 ^ 32)
    decide
  accounts := accounts_init n ipPort name writeComplete
  lives := rfl

theorem Numbered.names_nodup (h : w.Numbered ipPort name) :
    (w.accepted.map ServedConnection.name).Nodup := by
  rw [List.nodup_iff_getElem?_ne_getElem?]
  intro i j hij hj heq
  rw [List.length_map] at hj
  rw [List.getElem?_map, List.getElem?_map, List.getElem?_eq_getElem hj,
    List.getElem?_eq_getElem (hij.trans hj), Option.map_some, Option.map_some,
    Option.some.injEq] at heq
  have := h.name_inj (List.getElem?_eq_getElem (hij.trans hj)) (List.getElem?_eq_getElem hj) heq
  omega

theorem accepted_run {writeComplete : Bool} {steps : List (ServerStep n)}
    (h : machine.Permits (init n ipPort name writeComplete) steps)
    (hw : machine.run (init n ipPort name writeComplete) steps = .ok w) :
    w.accepted.length = steps.countP ServerStep.accepts := by
  have hstep : ∀ (w : TcpServer n) past a w',
      w.accepted.length = past.countP ServerStep.accepts → machine.Allows w a →
      machine.step w a = .ok w' →
      w'.accepted.length = (past ++ [a]).countP ServerStep.accepts := by
    intro w past a w' hpast _ hw'
    rw [step_accepted hw', hpast, List.countP_append]
  exact machine.run_history hstep rfl h hw

/-- However the loops of a server take turns while it lives: the assertions in
`connectEstablished` and `removeConnectionInLoop` hold; no two connections share a name;
each connection is established once and before its channel has events, and destroyed at
most once and behind its removal; and `connections_` has the connections that were
accepted and not removed. There is one for each `accept`. -/
theorem connections_are_kept (n : ℕ) (ipPort name : Bytes) (writeComplete : Bool)
    (hport : ipPort.length ≤ 51) (steps : List (ServerStep n)) (hlives : .destroy ∉ steps)
    (h : machine.Permits (init n ipPort name writeComplete) steps) :
    (∀ e, machine.run (init n ipPort name writeComplete) steps = .error e →
      ∃ fault, e = .connection fault) ∧
    ∀ w, machine.run (init n ipPort name writeComplete) steps = .ok w →
      (∀ i s, w.accepted[i]? = some s →
        s.name = name ++ (ascii "-" ++ ipPort ++ ascii "#" ++ decimal (i + 1))) ∧
      (w.accepted.map ServedConnection.name).Nodup ∧
      (∀ i < w.accepted.length,
        w.waits (.connectEstablished i) + w.history.count (.established i) = 1) ∧
      Obeys InOrder w.history ∧
      (∀ nm i, w.connections.lookup nm = some i ↔
        ∃ s, w.accepted[i]? = some s ∧ s.name = nm ∧ .erased i ∉ w.history) ∧
      w.accepted.length = steps.countP ServerStep.accepts := by
  have hall : ∀ a ∈ steps, a ≠ .destroy := fun a ha hd => hlives (hd ▸ ha)
  have hbooks : ∀ (w : TcpServer n) a w', a ≠ .destroy → Books ipPort name w → machine.Allows w a →
      machine.step w a = .ok w' → w'.Books ipPort name :=
    fun w a w' hstays hb ha hw' => hb.step hport ha hstays hw'
  have hinit := books_init n ipPort name writeComplete
  refine ⟨fun e he => ?_, fun w hw => ?_⟩
  · exact machine.run_fails_of_forall hbooks (fun w a e _ hb ha he => hb.fails ha.1 he) hinit hall
      h he
  · have hfinal : w.Books ipPort name ∧ Obeys InOrder w.history := by
      have hkeeps : ∀ (w : TcpServer n) a w', a ≠ .destroy →
          (w.Books ipPort name ∧ Obeys InOrder w.history) → machine.Allows w a →
          machine.step w a = .ok w' → w'.Books ipPort name ∧ Obeys InOrder w'.history := by
        intro w a w' hstays ⟨hb, ho⟩ ha hw'
        have hb' := hb.step hport ha hstays hw'
        exact ⟨hb', (hb.notes ha.1 hw').inOrder hb' ho⟩
      exact machine.run_keeps_of_forall hkeeps ⟨hinit, obeys_nil⟩ hall h hw
    obtain ⟨hb, ho⟩ := hfinal
    refine ⟨fun i s hi => ?_, hb.numbered.names_nodup, fun i hi => ?_, ho, hb.accounts.listed,
      accepted_run h hw⟩
    · rw [hb.numbered.names i s hi]
      rfl
    · have hi' := hb.begins.once i
      rw [if_pos hi] at hi'
      simpa using hi'

abbrev threadLoop : Fin (1 + 1) := 1

/-- A server with one thread: its loop runs a functor, and so does the base loop. -/
def threadTurn : ServerStep 1 := .runFunctor threadLoop (.took 0) []

def baseTurn : ServerStep 1 := .runFunctor (baseLoop 1) (.took 0) []

def hangUp (i : ℕ) : ServerStep 1 :=
  .handleEvent i { pollIn := true } ⟨.bytes [], .took 0, [], default, []⟩

/-- Two connections share the loop of the thread, and the first is closed by its peer before
the second is established. -/
def overlapping : List (ServerStep 1) :=
  [.accept [], .accept [], threadTurn, hangUp 0, .closeCallback 0, threadTurn, baseTurn,
    threadTurn]

theorem connections_are_kept_overlapping :
    ∃ w, machine.run (init 1 (ascii "0.0.0.0:7") (ascii "echo") true) overlapping = .ok w ∧
      w.history = [.established 0, .handled 0, .established 1, .erased 0, .destroyed 0] ∧
      (w.accepted.map ServedConnection.name).Nodup ∧
      (∀ nm i, w.connections.lookup nm = some i ↔
        ∃ s, w.accepted[i]? = some s ∧ s.name = nm ∧ .erased i ∉ w.history) ∧
      w.accepted.length = 2 := by
  have hend : (machine.run (init 1 (ascii "0.0.0.0:7") (ascii "echo") true)
      overlapping).toOption.map TcpServer.history =
        some [.established 0, .handled 0, .established 1, .erased 0, .destroyed 0] := by
    decide +kernel
  obtain ⟨w, hw, hhistory⟩ := exists_ok_of_map hend
  have hkept := (connections_are_kept 1 (ascii "0.0.0.0:7") (ascii "echo") true (by decide)
    overlapping (by simp [overlapping, threadTurn, baseTurn, hangUp]) (by decide +kernel)).2 w hw
  exact ⟨w, hw, hhistory, hkept.2.1, hkept.2.2.2.2.1, hkept.2.2.2.2.2⟩

end TcpServer
end Muduo
