import Muduo.Foundations.Incremental
import Muduo.Memcached.Session

/-!
# The stream of a memcached session

How the bytes of a client are cut into pieces does not matter, as long as no more than 1024 of
them wait for the end of their line. A value is copied as it arrives, so that the session takes
a different number of bytes with each piece. The parser below takes the value byte by byte.
-/

namespace Muduo
namespace Memcached

open Foundations

/-- The items and the session; a failed assertion ends everything. -/
abbrev Core := Except Fault (MemcacheServer × Session)

section Parser

variable (hash : Bytes → ℕ) (startTime : ℤ)

/-- A part of the loop that has taken something, or failed. -/
def verdictOf (taken : ℕ) : Except Fault Outcome → Verdict Core Effect
  | .error fault => .halt (.error fault) taken []
  | .ok outcome => .next (.ok (outcome.server, outcome.session)) taken outcome.effects

def readLine (server : MemcacheServer) (session : Session) (line : Bytes) :
    Except Fault Outcome := do
  let (finished, outcome) ← processRequest hash startTime server session line
  return { outcome with
    session := if finished then outcome.session.resetRequest else outcome.session }

/-- One byte of a value. A session that takes none of it would never come to an end. -/
def readByte (server : MemcacheServer) (session : Session) (b : UInt8) : Except Fault Outcome := do
  let (taken, outcome) ← receiveValue hash server session [b]
  if taken = 0 then throw .endless else return outcome

def skipByte (server : MemcacheServer) (session : Session) (b : UInt8) : Except Fault Outcome := do
  let (taken, session) ← discardValue session [b]
  if taken = 0 then throw .endless else return ⟨server, session, []⟩

def streamStep : Core → Bytes → Verdict Core Effect
  | .error fault, _ => .halt (.error fault) 0 []
  | .ok (server, session), xs =>
    match session.state with
    | .newCommand =>
      match findPair 13 10 xs with
      | none => .wait
      | some n => verdictOf (n + 2) (readLine hash startTime server session (xs.take n))
    | .receiveValue =>
      match xs with
      | [] => .wait
      | b :: _ => verdictOf 1 (readByte hash server session b)
    | .discardValue =>
      match xs with
      | [] => .wait
      | b :: _ => verdictOf 1 (skipByte server session b)

theorem verdictOf_taken {taken n : ℕ} {r : Except Fault Outcome} {s : Core} {out : List Effect}
    (h : verdictOf taken r = .next s n out ∨ verdictOf taken r = .halt s n out) : n = taken := by
  cases r with
  | error fault => simp_all [verdictOf]
  | ok outcome => simp_all [verdictOf]

theorem streamStep_cases (s : Core) (xs : Bytes) :
    streamStep hash startTime s xs = .wait ∨
      (∃ fault, s = .error fault ∧ streamStep hash startTime s xs = .halt (.error fault) 0 []) ∨
      ∃ taken r, 0 < taken ∧ taken ≤ xs.length ∧
        streamStep hash startTime s xs = verdictOf taken r ∧
        ∀ ys, streamStep hash startTime s (xs ++ ys) = verdictOf taken r := by
  cases s with
  | error fault => exact .inr (.inl ⟨fault, rfl, rfl⟩)
  | ok core =>
    obtain ⟨server, session⟩ := core
    cases hstate : session.state with
    | newCommand =>
      cases hfind : findPair 13 10 xs with
      | none => simp [streamStep, hstate, hfind]
      | some n =>
        have hlen := findPair_lt hfind
        refine .inr (.inr ⟨n + 2, readLine hash startTime server session (xs.take n), by omega,
          hlen, by simp only [streamStep, hstate, hfind], fun ys => ?_⟩)
        simp only [streamStep, hstate, findPair_append hfind ys]
        rw [List.take_append_of_le_length (by omega)]
    | receiveValue =>
      cases xs with
      | nil => simp [streamStep, hstate]
      | cons b xs =>
        exact .inr (.inr ⟨1, readByte hash server session b, by omega, by simp,
          by simp only [streamStep, hstate], fun ys => by simp [streamStep, hstate]⟩)
    | discardValue =>
      cases xs with
      | nil => simp [streamStep, hstate]
      | cons b xs =>
        exact .inr (.inr ⟨1, skipByte server session b, by omega, by simp,
          by simp only [streamStep, hstate], fun ys => by simp [streamStep, hstate]⟩)

def stream : Parser Core UInt8 Effect where
  step := streamStep hash startTime
  extends_input s xs ys h := by
    rcases streamStep_cases hash startTime s xs with
      hwait | ⟨fault, rfl, -⟩ | ⟨_, _, -, -, hxs, hys⟩
    · exact absurd hwait h
    · rfl
    · rw [hxs, hys]
  next_takes s xs s' n out h := by
    rcases streamStep_cases hash startTime s xs with
      hwait | ⟨_, -, hhalt⟩ | ⟨_, _, hpos, hle, hxs, -⟩
    · simp [hwait] at h
    · simp [hhalt] at h
    · rw [verdictOf_taken (.inl (hxs.symm.trans h))]
      exact ⟨hpos, hle⟩
  halt_takes s xs s' n out h := by
    rcases streamStep_cases hash startTime s xs with hwait | ⟨_, -, hhalt⟩ | ⟨_, _, -, hle, hxs, -⟩
    · simp [hwait] at h
    · rw [hhalt] at h
      cases h
      exact Nat.zero_le _
    · rw [verdictOf_taken (.inr (hxs.symm.trans h))]
      exact hle

end Parser

/-- A session that waits for a value wants at least one more byte. -/
def Ready (session : Session) : Prop :=
  match session.state with
  | .newCommand => True
  | .receiveValue => ∃ item, session.currItem = some item ∧ 0 < item.neededBytes
  | .discardValue => session.currItem = none ∧ 0 < session.bytesToDiscard

section Ready

variable {hash : Bytes → ℕ} {startTime : ℤ} {server : MemcacheServer} {session : Session}

theorem ready_of_newCommand (h : session.state = .newCommand) : Ready session := by
  simp [Ready, h]

theorem fieldsOf_bytes {policy : UpdatePolicy} {key : Bytes} {args : List Bytes} {fields : Fields}
    (h : fieldsOf policy key args = some fields) : fields.bytes < 2 ^ 31 := by
  simp only [fieldsOf, Option.bind_eq_bind, Option.bind_eq_some_iff, Option.pure_def,
    Option.some.injEq] at h
  obtain ⟨-, -, flags, -, exptime, -, bytes, -, cas, -, rfl⟩ := h
  have hbytes : Int.bmod bytes.1 (2 ^ 32) < 2147483648 := by
    rw [Int.bmod]
    omega
  norm_num
  exact hbytes

theorem doUpdate_ready {policy : UpdatePolicy} {args : List Bytes} {finished : Bool} {o : Outcome}
    (hitem : session.currItem = none) (hstate : session.state = .newCommand)
    (h : doUpdate hash startTime server session policy args = .ok (finished, o)) :
    (finished = true ∧ o.session.state = .newCommand) ∨ (finished = false ∧ Ready o.session) := by
  cases args with
  | nil => cases h
  | cons key args =>
    simp only [doUpdate] at h
    cases hfields : fieldsOf policy key args with
    | none =>
      rw [hfields] at h
      cases h
      exact .inl ⟨rfl, hstate⟩
    | some fields =>
      simp only [hfields] at h
      split_ifs at h with hlarge
      · cases h
        refine .inr ⟨rfl, hitem, ?_⟩
        have hlt := fieldsOf_bytes hfields
        show 0 < (Int.bmod (fields.bytes + 2) (2 ^ 32) % 2 ^ 64).toNat
        rw [Int.bmod]
        omega
      · obtain ⟨item, hmake, h⟩ := bind_eq_ok.mp h
        cases h
        obtain ⟨hlen, rfl⟩ := makeItem_ok hmake
        refine .inr ⟨rfl, _, rfl, ?_⟩
        simp only [Item.neededBytes, List.length_nil]
        omega

theorem dispatch_ready {args : List Bytes} {finished : Bool} {o : Outcome}
    (hitem : session.currItem = none) (hstate : session.state = .newCommand)
    (h : dispatch hash startTime server session args = .ok (finished, o)) :
    (finished = true ∧ o.session.state = .newCommand) ∨ (finished = false ∧ Ready o.session) := by
  rw [dispatch] at h
  cases hpolicy : policyOf session.command with
  | some policy =>
    rw [hpolicy] at h
    exact doUpdate_ready hitem hstate h
  | none =>
    rw [hpolicy] at h
    simp only at h
    split_ifs at h
    · cases h
      refine .inl ⟨rfl, ?_⟩
      simp only [doGet]
      split_ifs <;> exact hstate
    · cases hdelete : doDelete hash server session args with
      | error fault => simp [hdelete, Except.map] at h
      | ok outcome =>
        rw [hdelete] at h
        cases h
        refine .inl ⟨rfl, ?_⟩
        cases args with
        | nil => cases hdelete
        | cons key args =>
          simp only [doDelete] at hdelete
          split_ifs at hdelete <;> cases hdelete <;> exact hstate
    all_goals
      cases h
      exact .inl ⟨rfl, hstate⟩

theorem readLine_ready {line : Bytes} {o : Outcome} (hstate : session.state = .newCommand)
    (h : readLine hash startTime server session line = .ok o) : Ready o.session := by
  obtain ⟨⟨finished, outcome⟩, hprocess, h⟩ := bind_eq_ok.mp h
  cases h
  have hcases : (finished = true ∧ outcome.session.state = .newCommand) ∨
      (finished = false ∧ Ready outcome.session) := by
    simp only [processRequest] at hprocess
    obtain ⟨_, -, hprocess⟩ := bind_eq_ok.mp hprocess
    obtain ⟨_, -, hprocess⟩ := bind_eq_ok.mp hprocess
    obtain ⟨_, -, hprocess⟩ := bind_eq_ok.mp hprocess
    obtain ⟨_, hitem, hprocess⟩ := bind_eq_ok.mp hprocess
    obtain ⟨_, -, hprocess⟩ := bind_eq_ok.mp hprocess
    cases htokens : tokens (stripNoreply line).2 with
    | nil =>
      rw [htokens] at hprocess
      cases hprocess
      exact .inl ⟨rfl, hstate⟩
    | cons command args =>
      rw [htokens] at hprocess
      have hitem' : { session with
          noreply := (stripNoreply line).1, command := command }.currItem = none :=
        of_assertThat hitem
      exact dispatch_ready hitem' hstate hprocess
  rcases hcases with ⟨rfl, hnew⟩ | ⟨rfl, hready⟩
  · exact ready_of_newCommand hnew
  · exact hready

/-- The rest of `receiveValue`, when the bytes are in the item. -/
def finishValue (hash : Bytes → ℕ) (server : MemcacheServer) (session : Session) (item : Item)
    (avail : ℕ) : Except Fault (ℕ × Outcome) :=
  if item.neededBytes = 0 then
    let done := { session.resetRequest with state := .newCommand }
    if item.endsWithCRLF then do
      let (answer, server) ← server.storeItem hash item session.policy
      return ⟨avail, server, done, session.reply (storeReply session.policy answer)⟩
    else return ⟨avail, server, done, session.reply "CLIENT_ERROR bad data chunk\r\n"⟩
  else return ⟨avail, server, { session with currItem := some item }, []⟩

theorem receiveValue_eq {item : Item} (hitem : session.currItem = some item) (buf : Bytes) :
    receiveValue hash server session buf =
      finishValue hash server session
        { item with value := item.value ++ buf.take (min buf.length item.neededBytes) }
        (min buf.length item.neededBytes) := by
  have hlen : (buf.take (min buf.length item.neededBytes)).length ≤ item.neededBytes := by
    rw [List.length_take]
    omega
  simp only [receiveValue, hitem]
  rw [Item.append, assertThat_pos hlen, ok_bind, pure_eq_ok, ok_bind]
  rfl

theorem receiveValue_one {item : Item} (hitem : session.currItem = some item)
    (h : 1 < item.neededBytes) (b : UInt8) :
    receiveValue hash server session [b] =
      .ok ⟨1, server, { session with currItem := some { item with value := item.value ++ [b] } },
        []⟩ := by
  have havail : min [b].length item.neededBytes = 1 := min_eq_left h.le
  have hneeded : { item with value := item.value ++ [b] }.neededBytes ≠ 0 := by
    simp only [Item.neededBytes, List.length_append, List.length_singleton] at h ⊢
    omega
  rw [receiveValue_eq hitem, havail, finishValue]
  exact if_neg hneeded

theorem receiveValue_cons {item : Item} (hitem : session.currItem = some item)
    (h : 1 < item.neededBytes) (b : UInt8) (rest : Bytes) :
    receiveValue hash server session (b :: rest) =
      (receiveValue hash server
        { session with currItem := some { item with value := item.value ++ [b] } } rest).map
        fun r => (r.1 + 1, r.2) := by
  have hneeded : { item with value := item.value ++ [b] }.neededBytes = item.neededBytes - 1 := by
    simp only [Item.neededBytes, List.length_append, List.length_singleton]
    omega
  have havail : min (b :: rest).length item.neededBytes =
      min rest.length (item.neededBytes - 1) + 1 := by
    rw [List.length_cons]
    omega
  rw [receiveValue_eq hitem, receiveValue_eq rfl, havail, hneeded, List.take_succ_cons]
  simp only [List.append_assoc, List.singleton_append]
  simp only [finishValue]
  split_ifs
  · cases server.storeItem hash _ session.policy <;> rfl
  · rfl
  · rfl

theorem receiveValue_last {item : Item} (hitem : session.currItem = some item)
    (h : item.neededBytes = 1) (b : UInt8) (rest : Bytes) :
    receiveValue hash server session (b :: rest) = receiveValue hash server session [b] := by
  rw [receiveValue_eq hitem, receiveValue_eq hitem, h]
  simp

theorem finishValue_ok {item : Item} {avail taken : ℕ} {o : Outcome}
    (h : finishValue hash server session item avail = .ok (taken, o)) :
    taken = avail ∧ (o.session.state = .newCommand ∨
      item.neededBytes ≠ 0 ∧ o.session = { session with currItem := some item }) := by
  rw [finishValue] at h
  split_ifs at h with hneeded
  · obtain ⟨answer, -, h⟩ := bind_eq_ok.mp h
    cases h
    exact ⟨rfl, .inl rfl⟩
  · cases h
    exact ⟨rfl, .inl rfl⟩
  · cases h
    exact ⟨rfl, .inr ⟨hneeded, rfl⟩⟩

theorem receiveValue_ready {item : Item} (hitem : session.currItem = some item)
    (hstate : session.state = .receiveValue) {buf : Bytes} {taken : ℕ} {o : Outcome}
    (h : receiveValue hash server session buf = .ok (taken, o)) :
    taken = min buf.length item.neededBytes ∧ Ready o.session := by
  rw [receiveValue_eq hitem] at h
  obtain ⟨htaken, hnew | ⟨hneeded, hsession⟩⟩ := finishValue_ok h
  · exact ⟨htaken, ready_of_newCommand hnew⟩
  · refine ⟨htaken, ?_⟩
    rw [hsession]
    simp only [Ready, hstate]
    exact ⟨_, rfl, Nat.pos_of_ne_zero hneeded⟩

theorem discardValue_ready (hitem : session.currItem = none)
    (hstate : session.state = .discardValue) (buf : Bytes) :
    ∃ session', discardValue session buf = .ok (min buf.length session.bytesToDiscard, session') ∧
      Ready session' := by
  rw [discardValue, assertThat_pos hitem, ok_bind]
  split_ifs with hlen
  · refine ⟨_, by rw [min_eq_left hlen.le]; rfl, ?_⟩
    simp only [Ready, hstate]
    exact ⟨hitem, by omega⟩
  · exact ⟨_, by rw [min_eq_right (not_lt.mp hlen)]; rfl, ready_of_newCommand rfl⟩

theorem discardValue_cons (hitem : session.currItem = none) (h : 1 < session.bytesToDiscard)
    (b : UInt8) (rest : Bytes) :
    discardValue session (b :: rest) =
      (discardValue { session with bytesToDiscard := session.bytesToDiscard - 1 } rest).map
        fun r => (r.1 + 1, r.2) := by
  rw [discardValue, discardValue, assertThat_pos hitem, ok_bind, ok_bind, List.length_cons]
  by_cases hlen : rest.length < session.bytesToDiscard - 1
  · have hleft : session.bytesToDiscard - (rest.length + 1) =
        session.bytesToDiscard - 1 - rest.length := by omega
    rw [if_pos (by omega), if_pos hlen, hleft]
    rfl
  · have htaken : session.bytesToDiscard = session.bytesToDiscard - 1 + 1 := by omega
    rw [if_neg (by omega), if_neg hlen]
    exact congrArg (fun n => Except.ok (n, _)) htaken

theorem discardValue_last (hitem : session.currItem = none) (h : session.bytesToDiscard = 1)
    (b : UInt8) (rest : Bytes) : discardValue session (b :: rest) = discardValue session [b] := by
  rw [discardValue, discardValue, assertThat_pos hitem, ok_bind, ok_bind, h, if_neg (by simp),
    if_neg (by simp)]

end Ready

/-- What `onMessage` does when the parser waits. -/
def conclude (effects : List Effect) (p : Progress Core UInt8 Effect) : Except Fault Received :=
  match p.state with
  | .error fault => .error fault
  | .ok (server, session) =>
    if 1024 < p.rest.length then
      .ok ⟨server, session.shutdown, p.rest, effects ++ p.out ++ session.shutdownEffects⟩
    else .ok ⟨server, session, p.rest, effects ++ p.out⟩

section Loop

variable {hash : Bytes → ℕ} {startTime : ℤ} {server : MemcacheServer} {session : Session}

theorem conclude_out (effects out : List Effect) (p : Progress Core UInt8 Effect) :
    conclude effects { p with out := out ++ p.out } = conclude (effects ++ out) p := by
  rw [conclude, conclude]
  cases p.state with
  | error fault => rfl
  | ok core => simp only [List.append_assoc]

theorem conclude_step {xs : Bytes} {taken : ℕ} {r : Except Fault Outcome}
    (h : streamStep hash startTime (.ok (server, session)) xs = verdictOf taken r)
    (effects : List Effect) :
    conclude effects ((stream hash startTime).drain (.ok (server, session)) xs) = (do
      let o ← r
      conclude (effects ++ o.effects)
        ((stream hash startTime).drain (.ok (o.server, o.session)) (xs.drop taken))) := by
  cases r with
  | error fault =>
    have hstep : (stream hash startTime).step (.ok (server, session)) xs =
      .halt (.error fault) taken [] := h
    rw [Parser.drain_halt hstep]
    rfl
  | ok o =>
    have hstep : (stream hash startTime).step (.ok (server, session)) xs =
      .next (.ok (o.server, o.session)) taken o.effects := h
    rw [Parser.drain_next hstep, conclude_out]
    rfl

theorem conclude_nil (hash : Bytes → ℕ) (startTime : ℤ) (server : MemcacheServer)
    (session : Session) (effects : List Effect) :
    conclude effects ((stream hash startTime).drain (.ok (server, session)) []) =
      .ok ⟨server, session, [], effects⟩ := by
  have hwait : (stream hash startTime).step (.ok (server, session)) [] = .wait := by
    show streamStep hash startTime (.ok (server, session)) [] = .wait
    cases hstate : session.state <;> simp [streamStep, hstate, findPair]
  rw [Parser.drain_wait hwait]
  simp [conclude]

theorem receive_drain {item : Item} (hitem : session.currItem = some item)
    (hstate : session.state = .receiveValue) (h : 0 < item.neededBytes) {buf : Bytes}
    (hbuf : buf ≠ []) (effects : List Effect) :
    conclude effects ((stream hash startTime).drain (.ok (server, session)) buf) = (do
      let r ← receiveValue hash server session buf
      conclude (effects ++ r.2.effects)
        ((stream hash startTime).drain (.ok (r.2.server, r.2.session)) (buf.drop r.1))) := by
  induction buf generalizing session item with
  | nil => exact absurd rfl hbuf
  | cons b rest ih =>
    have hstep : streamStep hash startTime (.ok (server, session)) (b :: rest) =
        verdictOf 1 (readByte hash server session b) := by
      simp only [streamStep, hstate]
    rw [conclude_step hstep, readByte]
    by_cases hone : item.neededBytes = 1
    · rw [receiveValue_last hitem hone b rest]
      cases hresult : receiveValue hash server session [b] with
      | error fault => rfl
      | ok r =>
        obtain ⟨taken, o⟩ := r
        have htaken : taken = 1 := by
          rw [(receiveValue_ready hitem hstate hresult).1, hone]
          rfl
        subst htaken
        rfl
    · have hmore : 1 < item.neededBytes := by omega
      rw [receiveValue_one hitem hmore]
      cases rest with
      | nil =>
        rw [receiveValue_one hitem hmore]
        rfl
      | cons c rest =>
        rw [receiveValue_cons hitem hmore]
        have hneeded : 0 < { item with value := item.value ++ [b] }.neededBytes := by
          simp only [Item.neededBytes, List.length_append, List.length_singleton] at hmore ⊢
          omega
        have hrest := @ih { session with currItem := some { item with value := item.value ++ [b] } }
          _ rfl hstate hneeded (by simp)
        simp only [ok_bind]
        rw [if_neg (by simp)]
        simp only [pure_eq_ok, ok_bind, List.append_nil, List.drop_succ_cons, List.drop_zero]
        rw [hrest]
        cases receiveValue hash server
          { session with currItem := some { item with value := item.value ++ [b] } }
          (c :: rest) <;> rfl

theorem discard_drain (hitem : session.currItem = none) (hstate : session.state = .discardValue)
    (h : 0 < session.bytesToDiscard) {buf : Bytes} (hbuf : buf ≠ []) (effects : List Effect) :
    conclude effects ((stream hash startTime).drain (.ok (server, session)) buf) = (do
      let r ← discardValue session buf
      conclude effects
        ((stream hash startTime).drain (.ok (server, r.2)) (buf.drop r.1))) := by
  induction buf generalizing session with
  | nil => exact absurd rfl hbuf
  | cons b rest ih =>
    have hstep : streamStep hash startTime (.ok (server, session)) (b :: rest) =
        verdictOf 1 (skipByte server session b) := by
      simp only [streamStep, hstate]
    rw [conclude_step hstep, skipByte]
    obtain ⟨session', hone, -⟩ := discardValue_ready hitem hstate [b]
    rw [List.length_singleton, min_eq_left h] at hone
    rw [hone]
    simp only [ok_bind, one_ne_zero, if_false, pure_eq_ok, List.append_nil]
    by_cases hlast : session.bytesToDiscard = 1
    · rw [discardValue_last hitem hlast b rest, hone]
      rfl
    · have hmore : 1 < session.bytesToDiscard := by omega
      have hsession : session' =
          { session with bytesToDiscard := session.bytesToDiscard - 1 } := by
        rw [discardValue, assertThat_pos hitem, ok_bind, List.length_singleton,
          if_pos hmore] at hone
        cases hone
        rfl
      subst hsession
      cases rest with
      | nil =>
        rw [hone]
        rfl
      | cons c rest =>
        rw [discardValue_cons hitem hmore]
        have hrest := @ih { session with bytesToDiscard := session.bytesToDiscard - 1 }
          hitem hstate (by simp only; omega) (by simp)
        rw [List.drop_succ_cons, List.drop_zero, hrest]
        cases discardValue { session with bytesToDiscard := session.bytesToDiscard - 1 }
          (c :: rest) <;> rfl

theorem messageLoop_eq (hready : Ready session) {buf : Bytes} {fuel : ℕ} (hfuel : buf.length < fuel)
    (effects : List Effect) :
    messageLoop hash startTime fuel server session buf effects =
      conclude effects ((stream hash startTime).drain (.ok (server, session)) buf) := by
  induction fuel generalizing server session buf effects with
  | zero => omega
  | succ fuel ih =>
    by_cases hbuf : buf = []
    · subst hbuf
      rw [messageLoop, if_pos rfl, conclude_nil]
    · have hpos : 0 < buf.length := List.length_pos_of_ne_nil hbuf
      rw [messageLoop, if_neg hbuf]
      cases hstate : session.state with
      | newCommand =>
        cases hfind : findPair 13 10 buf with
        | none =>
          have hwait : (stream hash startTime).step (.ok (server, session)) buf = .wait := by
            show streamStep hash startTime (.ok (server, session)) buf = .wait
            simp only [streamStep, hstate, hfind]
          simp only [Parser.drain_wait hwait, conclude, List.append_nil]
        | some n =>
          have hstep : streamStep hash startTime (.ok (server, session)) buf =
              verdictOf (n + 2) (readLine hash startTime server session (buf.take n)) := by
            simp only [streamStep, hstate, hfind]
          rw [conclude_step hstep]
          cases hline : readLine hash startTime server session (buf.take n) with
          | error fault =>
            rw [readLine] at hline
            cases hprocess : processRequest hash startTime server session (buf.take n) with
            | error fault' =>
              rw [hprocess] at hline
              cases hline
              simp only [hprocess, error_bind]
            | ok r => simp [hprocess] at hline
          | ok o =>
            have hready' := readLine_ready hstate hline
            rw [readLine] at hline
            obtain ⟨r, hprocess, hline⟩ := bind_eq_ok.mp hline
            cases hline
            simp only [hprocess, ok_bind]
            refine ih hready' ?_ _
            rw [List.length_drop]
            omega
      | receiveValue =>
        simp only [Ready, hstate] at hready
        obtain ⟨item, hitem, hneeded⟩ := hready
        rw [receive_drain hitem hstate hneeded hbuf]
        cases hresult : receiveValue hash server session buf with
        | error fault => rfl
        | ok r =>
          obtain ⟨htaken, hready'⟩ := receiveValue_ready hitem hstate hresult
          simp only [ok_bind]
          refine ih hready' ?_ _
          rw [List.length_drop]
          omega
      | discardValue =>
        simp only [Ready, hstate] at hready
        obtain ⟨hitem, hdiscard⟩ := hready
        rw [discard_drain hitem hstate hdiscard hbuf]
        obtain ⟨session', hresult, hready'⟩ := discardValue_ready hitem hstate buf
        rw [hresult]
        simp only [ok_bind]
        refine ih hready' ?_ _
        rw [List.length_drop]
        omega

theorem streamStep_ready (hash : Bytes → ℕ) (startTime : ℤ) (server : MemcacheServer)
    (hready : Ready session) (xs : Bytes) :
    streamStep hash startTime (.ok (server, session)) xs = .wait ∨
      (∃ fault taken,
        streamStep hash startTime (.ok (server, session)) xs = .halt (.error fault) taken []) ∨
      ∃ server' session' taken out, streamStep hash startTime (.ok (server, session)) xs =
        .next (.ok (server', session')) taken out ∧ Ready session' := by
  have hverdict (taken : ℕ) (r : Except Fault Outcome) (h : ∀ o, r = .ok o → Ready o.session) :
      (∃ fault taken', verdictOf taken r = .halt (.error fault) taken' []) ∨
        ∃ server' session' taken' out,
          verdictOf taken r = .next (.ok (server', session')) taken' out ∧ Ready session' := by
    cases r with
    | error fault => exact .inl ⟨fault, taken, rfl⟩
    | ok o => exact .inr ⟨o.server, o.session, taken, o.effects, rfl, h o rfl⟩
  cases hstate : session.state with
  | newCommand =>
    cases hfind : findPair 13 10 xs with
    | none => simp [streamStep, hstate, hfind]
    | some n =>
      simp only [streamStep, hstate, hfind]
      exact .inr (hverdict _ _ fun _ => readLine_ready hstate)
  | receiveValue =>
    simp only [Ready, hstate] at hready
    obtain ⟨item, hitem, -⟩ := hready
    cases xs with
    | nil => simp [streamStep, hstate]
    | cons b xs =>
      simp only [streamStep, hstate]
      refine .inr (hverdict _ _ fun o ho => ?_)
      obtain ⟨⟨taken, o'⟩, hvalue, ho⟩ := bind_eq_ok.mp ho
      simp only at ho
      split_ifs at ho
      cases ho
      exact (receiveValue_ready hitem hstate hvalue).2
  | discardValue =>
    simp only [Ready, hstate] at hready
    cases xs with
    | nil => simp [streamStep, hstate]
    | cons b xs =>
      simp only [streamStep, hstate]
      refine .inr (hverdict _ _ fun o ho => ?_)
      obtain ⟨session', hvalue, hready'⟩ := discardValue_ready hready.1 hstate [b]
      rw [skipByte, hvalue, ok_bind] at ho
      simp only at ho
      split_ifs at ho
      cases ho
      exact hready'

theorem drain_ready (hash : Bytes → ℕ) (startTime : ℤ) (server : MemcacheServer)
    (hready : Ready session) (xs : Bytes) :
    (∃ fault, ((stream hash startTime).drain (.ok (server, session)) xs).state = .error fault ∧
      ((stream hash startTime).drain (.ok (server, session)) xs).halted = true) ∨
    ∃ server' session',
      ((stream hash startTime).drain (.ok (server, session)) xs).state = .ok (server', session') ∧
      Ready session' ∧
      ((stream hash startTime).drain (.ok (server, session)) xs).halted = false := by
  generalize hs : (.ok (server, session) : Core) = s
  induction s, xs using (stream hash startTime).drain_induction generalizing server session with
  | wait s xs hstep =>
    subst hs
    rw [Parser.drain_wait hstep]
    exact .inr ⟨server, session, rfl, hready, rfl⟩
  | halt s xs s' taken out hstep =>
    subst hs
    rw [Parser.drain_halt hstep]
    rcases streamStep_ready hash startTime server hready xs
      with hwait | ⟨fault, _, hhalt⟩ | ⟨_, _, _, _, hnext, -⟩
    · exact absurd (hwait.symm.trans hstep) (by simp)
    · cases hhalt.symm.trans hstep
      exact .inl ⟨fault, rfl, rfl⟩
    · exact absurd (hnext.symm.trans hstep) (by simp)
  | next s xs s' taken out hstep ih =>
    subst hs
    rw [Parser.drain_next hstep]
    rcases streamStep_ready hash startTime server hready xs
      with hwait | ⟨fault, _, hhalt⟩ | ⟨_, _, _, _, hnext, hready'⟩
    · exact absurd (hwait.symm.trans hstep) (by simp)
    · exact absurd (hhalt.symm.trans hstep) (by simp)
    · cases hnext.symm.trans hstep
      exact ih _ hready' rfl

theorem onMessage_eq {r : Received} (hready : Ready r.session) (chunk : Bytes) :
    onMessage hash startTime r chunk =
      conclude r.effects
        ((stream hash startTime).drain (.ok (r.server, r.session)) (r.buf ++ chunk)) :=
  messageLoop_eq hready (Nat.lt_succ_self _) _

theorem conclude_ok {p : Progress Core UInt8 Effect} {effects : List Effect} {r : Received}
    (h : conclude effects p = .ok r) (hbuf : r.buf.length ≤ 1024) :
    p.state = .ok (r.server, r.session) ∧ r.buf = p.rest ∧ r.effects = effects ++ p.out := by
  rw [conclude] at h
  cases hstate : p.state with
  | error fault => simp [hstate] at h
  | ok core =>
    simp only [hstate] at h
    split_ifs at h with hlong
    · cases h
      exact absurd hbuf (not_le.mpr hlong)
    · cases h
      exact ⟨rfl, rfl, rfl⟩

/-- The parser on the pieces: the induction is on the pieces that are still to come. -/
theorem receive_eq (hready : Ready session) {xs : Bytes} {r : Received}
    (hr : conclude [] ((stream hash startTime).drain (.ok (server, session)) xs) = .ok r)
    {chunks : List Bytes}
    (hshort : ∀ i < chunks.length, ∀ r', receive hash startTime r (chunks.take i) = .ok r' →
      r'.buf.length ≤ 1024) :
    receive hash startTime r chunks =
      conclude []
        ((stream hash startTime).drain (.ok (server, session)) (xs ++ chunks.flatten)) := by
  induction chunks generalizing xs r with
  | nil => rw [List.flatten_nil, List.append_nil, hr]; rfl
  | cons chunk chunks ih =>
    have hbuf : r.buf.length ≤ 1024 := hshort 0 (by simp) r rfl
    obtain ⟨hstate, hrest, hout⟩ := conclude_ok hr hbuf
    have hp := drain_ready hash startTime server hready xs
    rw [hstate] at hp
    obtain ⟨_, hfault, -⟩ | ⟨_, _, hcore, hready', hwaits⟩ := hp
    · cases hfault
    cases hcore
    have hmessage : onMessage hash startTime r chunk =
        conclude [] ((stream hash startTime).drain (.ok (server, session)) (xs ++ chunk)) := by
      rw [onMessage_eq hready', Parser.drain_append_of_waiting hwaits, conclude_out, hstate, hrest,
        hout]
    rw [List.flatten_cons, ← List.append_assoc, receive, List.foldlM_cons, hmessage]
    cases hnext : conclude [] ((stream hash startTime).drain (.ok (server, session)) (xs ++ chunk))
      with
    | ok r' =>
      refine ih hnext fun i hi r'' hr'' => hshort (i + 1) (by simpa using hi) r'' ?_
      rw [List.take_succ_cons, receive, List.foldlM_cons, hmessage, hnext]
      exact hr''
    | error fault =>
      have hp := drain_ready hash startTime server hready (xs ++ chunk)
      obtain ⟨fault', hfault, hhalted⟩ | ⟨_, _, hok, -, -⟩ := hp
      · rw [Parser.drain_append_of_halted hhalted]
        rw [conclude, hfault] at hnext
        simp only [conclude, hfault, ← hnext]
        rfl
      · rw [conclude, hok] at hnext
        simp only at hnext
        split_ifs at hnext

end Loop

/-- However the network cuts what a client sends, the items, the session and the answers are the
same, and so is a failed assertion. All but the last piece have to leave at most 1024 bytes of
an unfinished line behind; with more of them the session is shut down. -/
theorem receive_cuts (hash : Bytes → ℕ) (startTime : ℤ) (server : MemcacheServer)
    (chunks : List Bytes)
    (hshort : ∀ i < chunks.length, ∀ r,
      receive hash startTime ⟨server, Session.new, [], []⟩ (chunks.take i) = .ok r →
        r.buf.length ≤ 1024) :
    receive hash startTime ⟨server, Session.new, [], []⟩ chunks =
      receive hash startTime ⟨server, Session.new, [], []⟩ [chunks.flatten] := by
  have hready : Ready Session.new := ready_of_newCommand rfl
  have hstart := conclude_nil hash startTime server Session.new []
  rw [receive_eq hready hstart hshort, receive_eq hready hstart]
  · simp
  · intro i hi r hr
    rw [Nat.lt_one_iff.mp hi] at hr
    cases hr
    exact Nat.zero_le _

theorem receive_cuts_get :
    receive List.length 0 ⟨⟨fun _ => [], 0⟩, Session.new, [], []⟩ [ascii "ge", ascii "t a\r\n"] =
      .ok ⟨⟨fun _ => [], 0⟩, Session.new, [], [.send (ascii "END\r\n")]⟩ := by
  rw [receive_cuts List.length 0 ⟨fun _ => [], 0⟩ [ascii "ge", ascii "t a\r\n"]]
  · rfl
  · intro i hi r hr
    have hi : i = 0 ∨ i = 1 := by
      simp only [List.length_cons, List.length_nil] at hi
      omega
    rcases hi with rfl | rfl
    · cases hr
      decide
    · have hline : receive List.length 0 ⟨⟨fun _ => [], 0⟩, Session.new, [], []⟩ [ascii "ge"] =
          .ok ⟨⟨fun _ => [], 0⟩, Session.new, ascii "ge", []⟩ := rfl
      cases hline.symm.trans hr
      decide

end Memcached
end Muduo
