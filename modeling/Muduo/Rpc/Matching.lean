import Muduo.Rpc.RpcChannel

/-!
# Replies match calls

A call is at any time in one place: it waits to be sent, travels as a request, is
being served, waits or travels as a reply, or its reply was taken. The numbers of
the calls in all these places are the numbers of the calls that were registered,
each of them once. Whatever is known of a reply by its number is therefore known
of the request it answers.
-/

namespace Muduo

open Foundations

theorem perm_of_find {α : Type*} {p : α → Bool} {l : List α} {a : α} (h : l.find? p = some a) :
    l.Perm (a :: l.eraseP p) := by
  induction l with
  | nil => simp at h
  | cons b l ih =>
    by_cases hb : p b = true
    · rw [List.find?_cons_of_pos hb] at h
      cases h
      rw [List.eraseP_cons_of_pos hb]
    · rw [List.find?_cons_of_neg hb] at h
      rw [List.eraseP_cons_of_neg hb]
      exact ((ih h).cons b).trans (.swap a b _)

def idsOf (messages : List RpcMessage) : Multiset ℤ := (messages.map RpcMessage.id : List ℤ)

@[simp] theorem idsOf_nil : idsOf [] = 0 := rfl

@[simp] theorem idsOf_cons (m : RpcMessage) (ms : List RpcMessage) :
    idsOf (m :: ms) = {m.id} + idsOf ms := by
  rw [Multiset.singleton_add]
  rfl

@[simp] theorem idsOf_append (ms ns : List RpcMessage) :
    idsOf (ms ++ ns) = idsOf ms + idsOf ns := by
  simp [idsOf]

theorem idsOf_perm {ms ns : List RpcMessage} (h : ms.Perm ns) : idsOf ms = idsOf ns :=
  Multiset.coe_eq_coe.mpr (h.map _)

theorem mem_idsOf {n : ℤ} {ms : List RpcMessage} : n ∈ idsOf ms ↔ ∃ m ∈ ms, m.id = n := by
  simp [idsOf]

@[simp] theorem RpcMessage.reply_id (id : ℤ) (answer : Except RpcError (List UInt8)) :
    (RpcMessage.reply id answer).id = id := by
  cases answer <;> rfl

def RpcStep.called {R C : Type} : RpcStep R C → Option (RpcCall R C)
  | .incrementAndGet call => some call
  | _ => none

namespace RpcPair

variable {R C Q : Type} (codec : ProtobufCodecLite RpcMessage)
  (services : String → Option (RpcService Q)) (parseFromString : R → List UInt8 → R)

/-- What a closure finds in its response object when its request had this answer. -/
def found (response : R) : Except RpcError (List UInt8) → R
  | .ok payload => parseFromString response payload
  | .error _ => response

/-- The closure was run for its own call, with the answer to its own request. -/
def Matched (w : RpcPair R C Q) (run : ℤ × C × R) : Prop :=
  ∃ request out answer response, (request, out) ∈ w.issued ∧ request.id = run.1 ∧
    out.done = some run.2.1 ∧ (request, answer) ∈ w.served ∧ out.response = some response ∧
    run.2.2 = found parseFromString response answer

/-- The calls with the numbers that `id_` gives them, and their entries for the table. -/
def entries (calls : List (RpcCall R C)) : List (RpcMessage × OutstandingCall R C) :=
  (calls.zipIdx 1).map fun p => (p.1.message p.2, ⟨some p.1.response, p.1.done⟩)

/-- These calls were made, and the requests and replies that travel are `qs` and `rs`. -/
structure Sound (w : RpcPair R C Q) (calls : List (RpcCall R C)) (qs rs : List RpcMessage) :
    Prop where
  toServer : w.toServer.Carries codec qs
  toClient : w.toClient.Carries codec rs
  count : w.client.id = calls.length
  entered : (w.numbered ++ w.issued).Perm (entries calls)
  places : idsOf (w.issued.map Prod.fst) = idsOf w.sending + idsOf qs +
    idsOf (w.invocations.map RpcInvocation.message) + idsOf w.replies + idsOf rs + idsOf w.taken
  requests : ∀ m ∈ w.numbered.map Prod.fst ++ w.sending ++ qs, m.type = .request
  invoked : ∀ i ∈ w.invocations, findService (some services) i.message = .ok i.request
  known : ∀ m ∈ w.sending ++ qs ++ w.invocations.map RpcInvocation.message,
    m ∈ w.issued.map Prod.fst
  answers : ∀ m ∈ w.replies ++ rs ++ w.taken, ∃ request answer, (request, answer) ∈ w.served ∧
    request ∈ w.issued.map Prod.fst ∧ m = .reply request.id answer
  outstandings : ∀ n out, w.client.outstandings n = some out ↔
    ∃ m, (m, out) ∈ w.issued ∧ m.id = n ∧ n ∉ idsOf w.taken
  completing : ∀ p ∈ w.completing, p.2 ∈ w.taken ∧ ∃ m, (m, p.1) ∈ w.issued ∧ m.id = p.2.id
  once : (w.ran.map Prod.fst ++ w.completing.toList.map (·.2.id)).Nodup
  after : ∀ n ∈ w.ran.map Prod.fst, n ∈ idsOf w.taken
  ran : ∀ r ∈ w.ran, w.Matched parseFromString r

variable {codec services parseFromString} {w : RpcPair R C Q} {calls : List (RpcCall R C)}
  {qs rs : List RpcMessage}

theorem entries_concat (calls : List (RpcCall R C)) (call : RpcCall R C) :
    entries (calls ++ [call]) = entries calls ++
      [(call.message (calls.length + 1), ⟨some call.response, call.done⟩)] := by
  simp [entries, List.zipIdx_append, add_comm]

theorem entries_nodup (calls : List (RpcCall R C)) :
    ((entries calls).map fun e => e.1.id).Nodup := by
  have hids : (entries calls).map (fun e => e.1.id) =
      ((calls.zipIdx 1).map Prod.snd).map fun n : ℕ => (n : ℤ) := by
    rw [entries, List.map_map, List.map_map]
    rfl
  rw [hids, List.zipIdx_map_snd]
  exact (List.nodup_range' 1).map Nat.cast_injective

theorem Matched.mono {w' : RpcPair R C Q} {r : ℤ × C × R} (h : w.Matched parseFromString r)
    (hissued : w.issued ⊆ w'.issued) (hserved : w.served ⊆ w'.served) :
    w'.Matched parseFromString r := by
  obtain ⟨request, out, answer, response, hi, hid, hdone, hs, hrest⟩ := h
  exact ⟨request, out, answer, response, hissued hi, hid, hdone, hserved hs, hrest⟩

theorem sound_init : (init : RpcPair R C Q).Sound codec services parseFromString [] [] [] := by
  constructor
  · exact Wire.init_carries
  · exact Wire.init_carries
  all_goals simp [init, RpcChannel.init, entries]

theorem Sound.numbers (h : w.Sound codec services parseFromString calls qs rs) :
    (idsOf (w.numbered.map Prod.fst) + idsOf (w.issued.map Prod.fst)).Nodup := by
  have hperm := h.entered.map fun e => e.1.id
  rw [← idsOf_append, ← List.map_append, idsOf, Multiset.coe_nodup, List.map_map]
  exact hperm.nodup_iff.mpr (entries_nodup calls)

theorem Sound.issued_nodup (h : w.Sound codec services parseFromString calls qs rs) :
    (idsOf (w.issued.map Prod.fst)).Nodup :=
  (Multiset.nodup_add.mp h.numbers).2.1

theorem Sound.issued_unique (h : w.Sound codec services parseFromString calls qs rs)
    {e e' : RpcMessage × OutstandingCall R C} (he : e ∈ w.issued) (he' : e' ∈ w.issued)
    (hid : e.1.id = e'.1.id) : e = e' := by
  have hnodup : (w.issued.map fun e => e.1.id).Nodup := by
    have := h.issued_nodup
    rwa [idsOf, Multiset.coe_nodup, List.map_map] at this
  exact List.inj_on_of_nodup_map hnodup he he' hid

theorem Sound.taken_of_rs (h : w.Sound codec services parseFromString calls qs rs) {m : RpcMessage}
    (hm : m ∈ rs) : m.id ∉ idsOf w.taken := by
  have hnodup := h.issued_nodup
  rw [h.places] at hnodup
  have hdisj := (Multiset.nodup_add.mp hnodup).2.2
  refine Multiset.disjoint_left.mp hdisj ?_
  exact Multiset.mem_add.mpr (.inr (mem_idsOf.mpr ⟨m, hm, rfl⟩))

theorem Sound.taken_subset (h : w.Sound codec services parseFromString calls qs rs) {n : ℤ}
    (hn : n ∈ idsOf w.taken) : n ∈ idsOf (w.issued.map Prod.fst) := by
  rw [h.places]
  exact Multiset.mem_add.mpr (.inr hn)

theorem Sound.incrementAndGet (h : w.Sound codec services parseFromString calls qs rs)
    (call : RpcCall R C) :
    (w.incrementAndGet call).Sound codec services parseFromString (calls ++ [call]) qs rs := by
  refine { h with count := ?_, entered := ?_, requests := ?_ }
  · simp [RpcPair.incrementAndGet, h.count]
  · rw [entries_concat, ← h.count]
    simp only [RpcPair.incrementAndGet, List.append_assoc]
    exact (List.perm_append_comm.append_left _).trans
      (by rw [← List.append_assoc]; exact h.entered.append_right _)
  · intro m hm
    simp only [RpcPair.incrementAndGet, List.map_append, List.map_cons, List.map_nil,
      List.append_assoc, List.mem_append, List.mem_singleton] at hm
    rcases hm with hm | rfl | hm
    · exact h.requests m (by simp [hm])
    · rfl
    · exact h.requests m (by simp only [List.append_assoc, List.mem_append]; exact .inr hm)

/-- The table behind the registration of a number that is new there. -/
theorem Sound.register_outstandings (h : w.Sound codec services parseFromString calls qs rs)
    {m : RpcMessage} {out : OutstandingCall R C} (hnew : m.id ∉ idsOf (w.issued.map Prod.fst))
    (n : ℤ) (out' : OutstandingCall R C) : (w.register m out).client.outstandings n = some out' ↔
      ∃ m', (m', out') ∈ (w.register m out).issued ∧ m'.id = n ∧ n ∉ idsOf w.taken := by
  by_cases hn : n = m.id
  · subst hn
    have hset : (w.register m out).client.outstandings m.id = some out :=
      Function.update_self _ _ _
    rw [hset]
    constructor
    · rintro ⟨rfl⟩
      exact ⟨m, by simp [RpcPair.register], rfl, fun ht => hnew (h.taken_subset ht)⟩
    · rintro ⟨m', hm', hid, -⟩
      rcases List.mem_append.mp hm' with hm' | hm'
      · exact absurd (mem_idsOf.mpr ⟨m', List.mem_map_of_mem hm', hid⟩) hnew
      · simp only [List.mem_singleton, Prod.mk.injEq] at hm'
        rw [hm'.2]
  · have hset : (w.register m out).client.outstandings n = w.client.outstandings n :=
      Function.update_of_ne hn _ _
    rw [hset, h.outstandings n out']
    constructor
    · rintro ⟨m', hm', hrest⟩
      exact ⟨m', List.mem_append_left _ hm', hrest⟩
    · rintro ⟨m', hm', hid, ht⟩
      rcases List.mem_append.mp hm' with hm' | hm'
      · exact ⟨m', hm', hid, ht⟩
      · simp only [List.mem_singleton, Prod.mk.injEq] at hm'
        exact absurd (hid.symm.trans (congrArg _ hm'.1)) hn

theorem Sound.register (h : w.Sound codec services parseFromString calls qs rs) {m : RpcMessage}
    {out : OutstandingCall R C} (hfind : w.numbered.find? (·.1.id = m.id) = some (m, out)) :
    (w.register m out).Sound codec services parseFromString calls qs rs := by
  have hmem : (m, out) ∈ w.numbered := List.mem_of_find?_eq_some hfind
  have hissued : idsOf ((w.issued ++ [(m, out)]).map Prod.fst) =
      idsOf (w.issued.map Prod.fst) + {m.id} := by
    simp
  have hnew : m.id ∉ idsOf (w.issued.map Prod.fst) :=
    Multiset.disjoint_left.mp (Multiset.nodup_add.mp h.numbers).2.2
      (mem_idsOf.mpr ⟨m, List.mem_map_of_mem hmem, rfl⟩)
  have hsub : w.issued ⊆ (w.register m out).issued := List.subset_append_left _ _
  have hsub' := List.map_subset Prod.fst hsub
  refine { h with
    entered := ?_, places := ?_, requests := ?_, known := ?_, answers := ?_,
    outstandings := h.register_outstandings hnew, completing := ?_, ran := ?_ }
  · refine List.Perm.trans ?_ h.entered
    simp only [RpcPair.register]
    rw [← List.append_assoc]
    exact List.perm_append_comm.trans ((perm_of_find hfind).symm.append_right w.issued)
  · simp only [RpcPair.register, hissued, h.places, idsOf_append, idsOf_cons, idsOf_nil]
    abel
  · intro x hx
    simp only [RpcPair.register, List.append_assoc, List.mem_append, List.mem_singleton] at hx
    rcases hx with hx | hx | rfl | hx
    · exact h.requests x (by
        simp only [List.append_assoc, List.mem_append]
        exact .inl (List.map_subset _ List.eraseP_subset hx))
    · exact h.requests x (by simp [hx])
    · exact h.requests x (by
        simp only [List.append_assoc, List.mem_append]
        exact .inl (List.mem_map_of_mem hmem))
    · exact h.requests x (by simp [hx])
  · intro x hx
    simp only [RpcPair.register, List.append_assoc, List.mem_append, List.mem_singleton] at hx
    rcases hx with hx | rfl | hx
    · exact hsub' (h.known x (by simp [hx]))
    · simp [RpcPair.register]
    · exact hsub' (h.known x (by simp only [List.append_assoc, List.mem_append]; exact .inr hx))
  · intro x hx
    obtain ⟨request, answer, hserved, hrequest, hx⟩ := h.answers x hx
    exact ⟨request, answer, hserved, hsub' hrequest, hx⟩
  · intro p hp
    obtain ⟨htaken, m', hm', hid⟩ := h.completing p hp
    exact ⟨htaken, m', hsub hm', hid⟩
  · exact fun r hr => (h.ran r hr).mono hsub (List.Subset.refl _)

theorem Sound.sendRequest (h : w.Sound codec services parseFromString calls qs rs) {m : RpcMessage}
    (hfind : w.sending.find? (·.id = m.id) = some m) {toServer : Wire}
    (hwire : toServer.Carries codec (qs ++ [m])) :
    Sound codec services parseFromString
      { w with toServer := toServer, sending := w.sending.eraseP (·.id = m.id) }
        calls (qs ++ [m]) rs := by
  have hmem : m ∈ w.sending := List.mem_of_find?_eq_some hfind
  have hids : idsOf w.sending = {m.id} + idsOf (w.sending.eraseP (·.id = m.id)) :=
    (idsOf_perm (perm_of_find hfind)).trans (idsOf_cons _ _)
  have hsub : ∀ x, x ∈ w.sending.eraseP (·.id = m.id) ++ (qs ++ [m]) → x ∈ w.sending ++ qs := by
    intro x hx
    simp only [List.mem_append, List.mem_singleton] at hx ⊢
    rcases hx with hx | hx | rfl
    · exact .inl (List.eraseP_subset hx)
    · exact .inr hx
    · exact .inl hmem
  refine { h with toServer := hwire, places := ?_, requests := ?_, known := ?_ }
  · simp only [h.places, hids, idsOf_append, idsOf_cons, idsOf_nil]
    abel
  · intro x hx
    simp only [List.append_assoc] at hx
    rcases List.mem_append.mp hx with hx | hx
    · exact h.requests x (by simp only [List.append_assoc]; exact List.mem_append_left _ hx)
    · exact h.requests x (by
        simp only [List.append_assoc]
        exact List.mem_append_right _ (hsub x hx))
  · intro x hx
    rcases List.mem_append.mp hx with hx | hx
    · exact h.known x (List.mem_append_left _ (hsub x hx))
    · exact h.known x (List.mem_append_right _ hx)

theorem Sound.answers_concat (h : w.Sound codec services parseFromString calls qs rs)
    {m : RpcMessage} (hm : m ∈ w.issued.map Prod.fst) (answer : Except RpcError (List UInt8))
    (x : RpcMessage)
    (hx : x ∈ w.replies ++ [.reply m.id answer] ++ rs ++ w.taken) :
    ∃ request answer', (request, answer') ∈ w.served ++ [(m, answer)] ∧
      request ∈ w.issued.map Prod.fst ∧ x = .reply request.id answer' := by
  by_cases hold : x ∈ w.replies ++ rs ++ w.taken
  · obtain ⟨request, answer', hserved, hrest⟩ := h.answers x hold
    exact ⟨request, answer', List.mem_append_left _ hserved, hrest⟩
  · have hnew : x = .reply m.id answer := by
      simp only [List.append_assoc, List.mem_append, List.mem_singleton] at hx hold
      tauto
    exact ⟨m, answer, by simp, hm, hnew⟩

/-- A request is served: a service has it, or it has its answer. -/
theorem Sound.serve {m : RpcMessage}
    (h : w.Sound codec services parseFromString calls (m :: qs) rs) {toServer : Wire}
    (hwire : toServer.Carries codec qs) :
    ∃ w', RpcPair.serve services { w with toServer := toServer } m = .ok w' ∧
      w'.Sound codec services parseFromString calls qs rs := by
  have htype : m.type = .request := h.requests m (by simp)
  have hknown : m ∈ w.issued.map Prod.fst := h.known m (by simp)
  have hrequests : ∀ x ∈ w.numbered.map Prod.fst ++ w.sending ++ qs, x.type = .request := by
    intro x hx
    refine h.requests x ?_
    rcases List.mem_append.mp hx with hx | hx
    · exact List.mem_append_left _ hx
    · exact List.mem_append_right _ (List.mem_cons_of_mem m hx)
  cases hservice : findService (some services) m with
  | ok request =>
    refine ⟨{ w with
      toServer := toServer
      invocations := w.invocations ++ [⟨m, request⟩] }, ?_, ?_⟩
    · simp [RpcPair.serve, RpcChannel.onRpcMessage, htype, hservice]
    · refine { h with
        toServer := hwire, places := ?_, requests := hrequests, invoked := ?_, known := ?_ }
      · simp only [h.places, List.map_append, List.map_cons, List.map_nil, idsOf_append, idsOf_cons,
          idsOf_nil]
        abel
      · intro i hi
        obtain hi | hi := List.mem_append.mp hi
        · exact h.invoked i hi
        · rw [List.mem_singleton.mp hi]
          exact hservice
      · intro x hx
        simp only [List.map_append, List.map_cons, List.map_nil, List.append_assoc,
          List.mem_append, List.mem_singleton] at hx
        refine h.known x ?_
        simp only [List.append_assoc, List.mem_append, List.mem_cons]
        tauto
  | error error =>
    refine ⟨{ w with
      toServer := toServer
      replies := w.replies ++ [.reply m.id (.error error)]
      served := w.served ++ [(m, .error error)] }, ?_, ?_⟩
    · simp [RpcPair.serve, RpcChannel.onRpcMessage, htype, hservice]
    · refine { h with
        toServer := hwire, places := ?_, requests := hrequests, known := ?_, answers := ?_,
        ran := ?_ }
      · simp only [h.places, idsOf_append, idsOf_cons, idsOf_nil, RpcMessage.reply_id]
        abel
      · intro x hx
        refine h.known x ?_
        simp only [List.append_assoc, List.mem_append, List.mem_cons] at hx ⊢
        tauto
      · exact h.answers_concat hknown _
      · exact fun r hr => (h.ran r hr).mono (List.Subset.refl _) (List.subset_append_left _ _)

theorem Sound.doneCallback (h : w.Sound codec services parseFromString calls qs rs)
    {i : RpcInvocation Q} (hfind : w.invocations.find? (·.message.id = i.message.id) = some i)
    (payload : List UInt8) :
    (w.doneCallback i payload).Sound codec services parseFromString calls qs rs := by
  have hmem : i ∈ w.invocations := List.mem_of_find?_eq_some hfind
  have hknown : i.message ∈ w.issued.map Prod.fst :=
    h.known _ (List.mem_append_right _ (List.mem_map_of_mem hmem))
  have hids : idsOf (w.invocations.map RpcInvocation.message) = {i.message.id} +
      idsOf ((w.invocations.eraseP (·.message.id = i.message.id)).map RpcInvocation.message) :=
    (idsOf_perm ((perm_of_find hfind).map RpcInvocation.message)).trans (idsOf_cons _ _)
  refine { h with places := ?_, invoked := ?_, known := ?_, answers := ?_, ran := ?_ }
  · simp only [RpcPair.doneCallback, h.places, hids, idsOf_append, idsOf_cons, idsOf_nil,
      RpcMessage.reply_id]
    abel
  · exact fun j hj => h.invoked j (List.eraseP_subset hj)
  · intro x hx
    rcases List.mem_append.mp hx with hx | hx
    · exact h.known x (List.mem_append_left _ hx)
    · exact h.known x (List.mem_append_right _ (List.map_subset _ List.eraseP_subset hx))
  · exact h.answers_concat hknown _
  · exact fun r hr => (h.ran r hr).mono (List.Subset.refl _) (List.subset_append_left _ _)

theorem Sound.sendReply (h : w.Sound codec services parseFromString calls qs rs) {m : RpcMessage}
    (hfind : w.replies.find? (·.id = m.id) = some m) {toClient : Wire}
    (hwire : toClient.Carries codec (rs ++ [m])) :
    Sound codec services parseFromString
      { w with toClient := toClient, replies := w.replies.eraseP (·.id = m.id) }
        calls qs (rs ++ [m]) := by
  have hmem : m ∈ w.replies := List.mem_of_find?_eq_some hfind
  have hids : idsOf w.replies = {m.id} + idsOf (w.replies.eraseP (·.id = m.id)) :=
    (idsOf_perm (perm_of_find hfind)).trans (idsOf_cons _ _)
  refine { h with toClient := hwire, places := ?_, answers := ?_ }
  · simp only [h.places, hids, idsOf_append, idsOf_cons, idsOf_nil]
    abel
  · intro x hx
    refine h.answers x ?_
    simp only [List.append_assoc, List.mem_append, List.mem_singleton] at hx ⊢
    rcases hx with hx | hx | rfl | hx
    · exact .inl (List.eraseP_subset hx)
    · exact .inr (.inl hx)
    · exact .inl hmem
    · exact .inr (.inr hx)

/-- A reply is taken: its call is in the table, and leaves it. -/
theorem Sound.take {m : RpcMessage} (h : w.Sound codec services parseFromString calls qs (m :: rs))
    (hidle : w.completing = none) {toClient : Wire} (hwire : toClient.Carries codec rs) :
    ∃ w', RpcPair.take { w with toClient := toClient } m = .ok w' ∧
      w'.Sound codec services parseFromString calls qs rs := by
  obtain ⟨request, answer, hserved, hrequest, hm⟩ := h.answers m (by simp)
  have hnew : m.id ∉ idsOf w.taken := h.taken_of_rs (by simp)
  obtain ⟨⟨request', out⟩, hissued, rfl⟩ := List.mem_map.mp hrequest
  have hid : request'.id = m.id := by
    rw [hm, RpcMessage.reply_id]
  have hout : w.client.outstandings m.id = some out :=
    (h.outstandings m.id out).mpr ⟨request', hissued, hid, hnew⟩
  have htype : m.type = .response ∧ (m.response.isSome ∨ m.error.isSome) := by
    rw [hm]
    cases answer <;> simp [RpcMessage.reply]
  have htaken : idsOf (w.taken ++ [m]) = idsOf w.taken + {m.id} := by
    simp
  refine ⟨{ w with
    client := { w.client with outstandings := Function.update w.client.outstandings m.id none }
    toClient := toClient
    completing := some (out, m)
    taken := w.taken ++ [m] }, ?_, ?_⟩
  · simp [RpcPair.take, RpcChannel.onRpcMessage, htype.1, assertThat_pos htype.2, hout]
  · refine { h with
      toClient := hwire, places := ?_, answers := ?_, outstandings := ?_, completing := ?_,
      once := ?_, after := ?_ }
    · simp only [h.places, htaken, idsOf_cons]
      abel
    · intro x hx
      refine h.answers x ?_
      simp only [List.append_assoc, List.mem_append, List.mem_cons] at hx ⊢
      tauto
    · intro n out'
      rw [htaken, Multiset.mem_add, Multiset.mem_singleton, not_or]
      show Function.update w.client.outstandings m.id none n = some out' ↔ _
      by_cases hn : n = m.id
      · rw [hn, Function.update_self]
        simp
      · rw [Function.update_of_ne hn, h.outstandings n out']
        simp [hn]
    · rintro p ⟨rfl⟩
      exact ⟨by simp, request', hissued, hid⟩
    · have honce := h.once
      rw [hidle] at honce
      simp only [Option.toList_none, List.map_nil, List.append_nil] at honce
      simp only [Option.toList_some, List.map_cons, List.map_nil]
      refine List.nodup_append.mpr ⟨honce, by simp, ?_⟩
      rintro n hn _ hm' rfl
      rw [List.mem_singleton.mp hm'] at hn
      exact hnew (h.after _ hn)
    · intro n hn
      rw [htaken]
      exact Multiset.mem_add.mpr (.inl (h.after n hn))

/-- The closure is run with the answer to the request of its own call. -/
theorem Sound.run (h : w.Sound codec services parseFromString calls qs rs)
    {out : OutstandingCall R C} {m : RpcMessage} (hc : w.completing = some (out, m)) :
    Sound codec services parseFromString { w with
      completing := none
      ran := w.ran ++ ((out.complete parseFromString m).map (m.id, ·)).toList } calls qs rs := by
  obtain ⟨htaken, request, hissued, hid⟩ := h.completing (out, m) hc
  obtain ⟨request', answer, hserved, hrequest, hm⟩ :=
    h.answers m (List.mem_append_right _ htaken)
  -- the request that was answered is the one of the call in the table
  have hsame : request' = request := by
    obtain ⟨⟨_, out'⟩, hissued', rfl⟩ := List.mem_map.mp hrequest
    refine congrArg Prod.fst (h.issued_unique hissued' hissued ?_)
    rw [hid, hm, RpcMessage.reply_id]
  subst hsame
  have honce := h.once
  rw [hc] at honce
  simp only [Option.toList_some, List.map_cons, List.map_nil] at honce
  cases hcomplete : out.complete parseFromString m with
  | none =>
    refine { h with completing := by simp, once := ?_, after := ?_, ran := ?_ }
    · simpa using honce.sublist (List.sublist_append_left _ _)
    · simpa using h.after
    · intro r hr
      exact h.ran r (by simpa using hr)
  | some found =>
    refine { h with completing := by simp, once := ?_, after := ?_, ran := ?_ }
    · simpa using honce
    · intro n hn
      simp only [Option.map_some, Option.toList_some, List.map_append, List.map_cons, List.map_nil,
        List.mem_append, List.mem_singleton] at hn
      rcases hn with hn | rfl
      · exact h.after n hn
      · exact mem_idsOf.mpr ⟨m, htaken, rfl⟩
    · intro r hr
      rcases List.mem_append.mp hr with hr | hr
      · exact h.ran r hr
      · obtain rfl : r = (m.id, found) := by simpa using hr
        cases hresponse : out.response with
        | none => simp [OutstandingCall.complete, hresponse] at hcomplete
        | some response =>
          simp only [OutstandingCall.complete, hresponse, Option.map_eq_some_iff] at hcomplete
          obtain ⟨done, hdone, rfl⟩ := hcomplete
          refine ⟨request', out, answer, response, hissued, hid, hdone, hserved, hresponse, ?_⟩
          rw [hm]
          cases answer <;> rfl

theorem Sound.step_of_none (hformat : codec.format.Lawful) (hraw : codec.rawCb = none)
    (h : w.Sound codec services parseFromString calls qs rs) {a : RpcStep R C}
    (ha : w.Allows codec a) (hcalled : a.called = none) :
    ∃ w', w.step codec services parseFromString a = .ok w' ∧
      ∃ qs rs, w'.Sound codec services parseFromString calls qs rs := by
  cases a with
  | incrementAndGet call => cases hcalled
  | register id =>
    obtain ⟨⟨m, out⟩, hfind⟩ := Option.isSome_iff_exists.mp ha
    obtain rfl : m.id = id := by simpa using List.find?_some hfind
    exact ⟨w.register m out, by simp [RpcPair.step, hfind], qs, rs, h.register hfind⟩
  | sendRequest id =>
    obtain ⟨m, hfind, hsmall⟩ := ha
    have hfind : w.sending.find? (·.id = id) = some m := hfind
    obtain rfl : m.id = id := by simpa using List.find?_some hfind
    obtain ⟨toServer, hsend, hwire⟩ := h.toServer.send hformat hsmall
    refine ⟨{ w with toServer := toServer, sending := w.sending.eraseP (·.id = m.id) }, ?_, _, _,
      h.sendRequest hfind hwire⟩
    simp [RpcPair.step, hfind, hsend]
  | serverArrive n =>
    obtain ⟨toServer, harrive, hwire⟩ := h.toServer.arrive n
    exact ⟨{ w with toServer := toServer }, by simp [RpcPair.step, harrive], qs, rs,
      { h with toServer := hwire }⟩
  | serverPass =>
    rcases h.toServer.pass hformat hraw with hpass | ⟨m, qs', toServer, rfl, hpass, hwire⟩
    · exact ⟨w, by simp [RpcPair.step, hpass], qs, rs, h⟩
    · obtain ⟨w', hserve, h'⟩ := h.serve hwire
      exact ⟨w', by simp [RpcPair.step, hpass, hserve], qs', rs, h'⟩
  | doneCallback id payload =>
    obtain ⟨i, hfind⟩ := Option.isSome_iff_exists.mp ha
    obtain rfl : i.message.id = id := by simpa using List.find?_some hfind
    exact ⟨w.doneCallback i payload, by simp [RpcPair.step, hfind], qs, rs,
      h.doneCallback hfind payload⟩
  | sendReply id =>
    obtain ⟨m, hfind, hsmall⟩ := ha
    have hfind : w.replies.find? (·.id = id) = some m := hfind
    obtain rfl : m.id = id := by simpa using List.find?_some hfind
    obtain ⟨toClient, hsend, hwire⟩ := h.toClient.send hformat hsmall
    refine ⟨{ w with toClient := toClient, replies := w.replies.eraseP (·.id = m.id) }, ?_, _, _,
      h.sendReply hfind hwire⟩
    simp [RpcPair.step, hfind, hsend]
  | clientArrive n =>
    obtain ⟨toClient, harrive, hwire⟩ := h.toClient.arrive n
    exact ⟨{ w with toClient := toClient }, by simp [RpcPair.step, harrive], qs, rs,
      { h with toClient := hwire }⟩
  | clientPass =>
    rcases h.toClient.pass hformat hraw with hpass | ⟨m, rs', toClient, rfl, hpass, hwire⟩
    · exact ⟨w, by simp [RpcPair.step, hpass], qs, rs, h⟩
    · obtain ⟨w', htake, h'⟩ := h.take (Option.isNone_iff_eq_none.mp ha) hwire
      exact ⟨w', by simp [RpcPair.step, hpass, htake], qs, rs', h'⟩
  | run =>
    obtain ⟨⟨out, m⟩, hc⟩ := Option.isSome_iff_exists.mp ha
    exact ⟨_, by simp [RpcPair.step, hc], qs, rs, h.run hc⟩

theorem Sound.step (hformat : codec.format.Lawful) (hraw : codec.rawCb = none)
    (h : w.Sound codec services parseFromString calls qs rs) {a : RpcStep R C}
    (ha : w.Allows codec a) :
    ∃ w', w.step codec services parseFromString a = .ok w' ∧
      ∃ qs rs, w'.Sound codec services parseFromString (calls ++ a.called.toList) qs rs := by
  cases hcalled : a.called with
  | none =>
    rw [Option.toList_none, List.append_nil]
    exact h.step_of_none hformat hraw ha hcalled
  | some call =>
    obtain rfl : a = .incrementAndGet call := by
      cases a <;> cases hcalled
      rfl
    exact ⟨_, rfl, qs, rs, h.incrementAndGet call⟩

/-- However the threads of both ends and the bytes between them interleave: no
closure is run twice, or before a reply with the number of its call was taken; the
response object it finds was parsed from the payload that the server produced for
the request of this very call, or is untouched when the answer was an error code;
and the table holds the calls that were registered and not answered. The calls that
were registered or are about to be are those that were made, numbered in their order, and
each service at work has the request that was parsed from its message. -/
theorem calls_and_replies_match (hformat : codec.format.Lawful) (hraw : codec.rawCb = none)
    (services : String → Option (RpcService Q)) (parseFromString : R → List UInt8 → R)
    (steps : List (RpcStep R C))
    (h : (machine codec services parseFromString).Permits init steps) :
    ∃ w, (machine codec services parseFromString).run init steps = .ok w ∧
      (w.issued.map (·.1.id)).Nodup ∧ (w.ran.map Prod.fst).Nodup ∧
      (∀ r ∈ w.ran, (∃ m ∈ w.taken, m.type = .response ∧ m.id = r.1) ∧
        w.Matched parseFromString r) ∧
      (∀ n out, w.client.outstandings n = some out ↔
        (∃ m, (m, out) ∈ w.issued ∧ m.id = n) ∧ ∀ m ∈ w.taken, m.id ≠ n) ∧
      (w.numbered ++ w.issued).Perm (entries (steps.filterMap RpcStep.called)) ∧
      ∀ i ∈ w.invocations, findService (some services) i.message = .ok i.request := by
  have hstep : ∀ (w : RpcPair R C Q) calls a,
      (∃ qs rs, Sound codec services parseFromString w calls qs rs) →
      (machine codec services parseFromString).Allows w a →
      ∃ w', (machine codec services parseFromString).step w a = .ok w' ∧
        ∃ qs rs, w'.Sound codec services parseFromString (calls ++ a.called.toList) qs rs := by
    rintro w calls a ⟨qs, rs, hs⟩ ha
    exact hs.step hformat hraw ha
  obtain ⟨w, hw, qs, rs, hs⟩ := Machine.run_refines _
    (fun w calls => ∃ qs rs, Sound codec services parseFromString w calls qs rs)
    (fun calls a => calls ++ a.called.toList) hstep steps init [] ⟨[], [], sound_init⟩ h
  rw [List.foldl_append_eq_append, List.nil_append, ← List.flatMap_def,
    ← List.filterMap_eq_flatMap_toList] at hs
  refine ⟨w, hw, ?_, (List.nodup_append.mp hs.once).1, ?_, ?_, hs.entered, hs.invoked⟩
  · have hnodup := hs.issued_nodup
    rwa [idsOf, Multiset.coe_nodup, List.map_map] at hnodup
  · intro r hr
    refine ⟨?_, hs.ran r hr⟩
    obtain ⟨m, hm, hid⟩ := mem_idsOf.mp (hs.after r.1 (List.mem_map_of_mem hr))
    obtain ⟨request, answer, -, -, hreply⟩ := hs.answers m (List.mem_append_right _ hm)
    refine ⟨m, hm, ?_, hid⟩
    rw [hreply]
    cases answer <;> rfl
  · intro n out
    rw [hs.outstandings n out]
    constructor
    · rintro ⟨m, hm, hid, hn⟩
      exact ⟨⟨m, hm, hid⟩, fun m' hm' heq => hn (mem_idsOf.mpr ⟨m', hm', heq⟩)⟩
    · rintro ⟨⟨m, hm, hid⟩, hn⟩
      refine ⟨m, hm, hid, fun hmem => ?_⟩
      obtain ⟨m', hm', heq⟩ := mem_idsOf.mp hmem
      exact hn m' hm' heq

theorem countable_rpcMessage : Countable RpcMessage := by
  have hchar : Countable Char := Function.Injective.countable fun _ _ => Char.toNat_inj.mp
  have hstring : Countable String := Function.Injective.countable fun _ _ => String.toList_inj.mp
  have hbyte : Countable UInt8 := Function.Injective.countable fun _ _ => UInt8.toNat_inj.mp
  have htype : Countable MessageType := Function.Injective.countable (f := MessageType.ctorIdx)
    fun a b h => by cases a <;> cases b <;> first | rfl | cases h
  have herror : Countable RpcError := Function.Injective.countable (f := RpcError.ctorIdx)
    fun a b h => by cases a <;> cases b <;> first | rfl | cases h
  refine Function.Injective.countable
    (f := fun m => (m.type, m.id, m.service, m.method, m.request, m.response, m.error)) ?_
  rintro ⟨⟩ ⟨⟩ h
  simpa using h

def echoCall : RpcCall (List UInt8) Unit := ⟨"Echo", "echo", [5], [], some ()⟩

/-- The request of the first call: the type, the number, both names and the payload. -/
def echoRequest : List UInt8 :=
  [8, 1] ++ [17, 1, 0, 0, 0, 0, 0, 0, 0] ++ [26, 4, 69, 99, 104, 111] ++
    [34, 4, 101, 99, 104, 111] ++ [42, 1, 5]

/-- Its reply: the type, the number and the payload. -/
def echoReply : List UInt8 := [8, 2] ++ [17, 1, 0, 0, 0, 0, 0, 0, 0] ++ [50, 1, 6]

/-- The protobuf bytes of these two. Every other message is counted, behind a byte with
which no message begins. -/
noncomputable def echoFormat : PayloadFormat RpcMessage :=
  let _ := @Encodable.ofCountable RpcMessage countable_rpcMessage
  let serialize m :=
    if m = echoCall.message 1 then echoRequest
    else if m = .reply 1 (.ok [6]) then echoReply
    else 2 :: List.replicate (Encodable.encode m) 0
  { byteSize := fun m => (serialize m).length
    serialize := serialize
    parse := fun bytes =>
      if bytes = echoRequest then some (echoCall.message 1)
      else if bytes = echoReply then some (.reply 1 (.ok [6]))
      else
        match bytes with
        | 2 :: rest => Encodable.decode rest.length
        | _ => none }

theorem echoFormat_lawful : echoFormat.Lawful where
  byteSize_eq _ := rfl
  parse_serialize m := by
    by_cases hrequest : m = echoCall.message 1
    · simp [echoFormat, hrequest]
    · by_cases hreply : m = .reply 1 (.ok [6])
      · have hne : RpcMessage.reply 1 (.ok [6]) ≠ echoCall.message 1 := by decide
        have hbytes : echoReply ≠ echoRequest := by decide
        simp [echoFormat, hreply, hne, hbytes]
      · simp [echoFormat, hrequest, hreply, echoRequest, echoReply]

noncomputable def echoCodec : ProtobufCodecLite RpcMessage where
  tag := [82, 80, 67, 48]
  format := echoFormat
  adler32 := Muduo.adler32
  rawCb := none

def echoServices (_ : String) : Option (RpcService (List UInt8)) :=
  some ⟨fun _ => some ⟨some⟩⟩

/-- The call is answered while its request comes in two pieces. -/
def echoSteps : List (RpcStep (List UInt8) Unit) :=
  [.incrementAndGet echoCall, .register 1, .sendRequest 1, .serverArrive 9, .serverPass,
    .serverArrive 29, .serverPass, .doneCallback 1 [6], .sendReply 1, .clientArrive 26,
    .clientPass, .run]

theorem calls_and_replies_match_echo :
    ∃ w, (machine echoCodec echoServices fun _ payload => payload).run init echoSteps = .ok w ∧
      w.ran = [(1, (), [6])] ∧ w.Matched (fun _ payload => payload) (1, (), [6]) ∧
      (w.numbered ++ w.issued).Perm [(echoCall.message 1, ⟨some [], some ()⟩)] := by
  have hran : ((machine echoCodec echoServices fun _ payload => payload).run init
      echoSteps).toOption.map RpcPair.ran = some [(1, (), [6])] := by
    decide +kernel
  have hpermits : (machine echoCodec echoServices fun _ payload => payload).Permits init
      echoSteps := by
    decide +kernel
  have hraw : echoCodec.rawCb = none := rfl
  obtain ⟨w, hw, -, -, hmatched, -, hentered, -⟩ := calls_and_replies_match echoFormat_lawful hraw
    echoServices (fun _ payload => payload) echoSteps hpermits
  obtain ⟨w', hw', hlog⟩ := exists_ok_of_map hran
  obtain rfl := Except.ok.inj (hw.symm.trans hw')
  exact ⟨w, hw, hlog, (hmatched _ (by simp [hlog])).2, hentered⟩

end RpcPair
end Muduo
