import Muduo.Memcached.Protocol

/-!
# What a client of a memcached server sees

A client prints its commands one behind the other. Whatever they are and however the network
cuts them, the session answers as one table does that carries out the commands in their order.
-/

namespace Muduo
namespace Memcached

open Foundations

def lineOf (words : List Bytes) : Bytes := [32].intercalate words

/-- A word: no blanks, no control characters, and not empty. -/
def Plain (word : Bytes) : Prop := word ≠ [] ∧ ∀ b ∈ word, 32 < b

instance (word : Bytes) : Decidable (Plain word) :=
  @instDecidableAnd _ _ inferInstance (List.decidableBAll (fun b : UInt8 => 32 < b) word)

section Words

variable {words : List Bytes} {word : Bytes}

theorem Plain.blank_not_mem (h : Plain word) : (32 : UInt8) ∉ word := fun hmem =>
  absurd (h.2 32 hmem) (by decide)

theorem lineOf_singleton (word : Bytes) : lineOf [word] = word := by
  simp [lineOf, List.intercalate]

theorem lineOf_cons (word : Bytes) (h : words ≠ []) :
    lineOf (word :: words) = word ++ 32 :: lineOf words := by
  cases words with
  | nil => exact absurd rfl h
  | cons other words => simp [lineOf, List.intercalate, List.intersperse]

theorem lineOf_concat (h : words ≠ []) (word : Bytes) :
    lineOf (words ++ [word]) = lineOf words ++ 32 :: word := by
  induction words with
  | nil => exact absurd rfl h
  | cons first words ih =>
    cases words with
    | nil => rw [lineOf_singleton, List.singleton_append, lineOf_cons _ (by simp), lineOf_singleton]
    | cons second words =>
      rw [List.cons_append, lineOf_cons first (by simp), ih (by simp), lineOf_cons first (by simp)]
      simp

theorem le_of_mem_lineOf (h : ∀ w ∈ words, Plain w) : ∀ b ∈ lineOf words, 32 ≤ b := by
  induction words with
  | nil => simp [lineOf, List.intercalate]
  | cons first words ih =>
    have hfirst : ∀ b ∈ first, 32 ≤ b := fun b hb =>
      UInt8.le_of_lt ((h first (by simp)).2 b hb)
    cases words with
    | nil =>
      rw [lineOf_singleton]
      exact hfirst
    | cons second words =>
      intro b hb
      rw [lineOf_cons first (by simp), List.mem_append, List.mem_cons] at hb
      rcases hb with hb | rfl | hb
      · exact hfirst b hb
      · exact UInt8.le_refl 32
      · exact ih (fun w hw => h w (List.mem_cons_of_mem _ hw)) b hb

theorem tokensFrom_word (h : (32 : UInt8) ∉ word) (token text : Bytes) :
    tokensFrom token (word ++ text) = tokensFrom (token ++ word) text := by
  induction word generalizing token with
  | nil => simp
  | cons b word ih =>
    rw [List.mem_cons, not_or] at h
    rw [List.cons_append, tokensFrom, if_neg (Ne.symm h.1), ih h.2, List.append_assoc]
    rfl

theorem tokens_lineOf (h : ∀ w ∈ words, Plain w) : tokens (lineOf words) = words := by
  induction words with
  | nil => rfl
  | cons first words ih =>
    have hfirst := h first (by simp)
    cases words with
    | nil =>
      have hword := tokensFrom_word hfirst.blank_not_mem [] []
      simp only [List.append_nil, List.nil_append] at hword
      rw [lineOf_singleton, tokens, hword, tokensFrom, if_neg hfirst.1]
    | cons second words =>
      have hrest := ih fun w hw => h w (List.mem_cons_of_mem _ hw)
      rw [tokens] at hrest ⊢
      rw [lineOf_cons first (by simp), tokensFrom_word hfirst.blank_not_mem, List.nil_append,
        tokensFrom, if_pos rfl, if_neg hfirst.1, hrest]
      rfl

theorem lineOf_ends (hne : words ≠ []) (hword : (32 : UInt8) ∉ word) {text : Bytes}
    (htext : (32 : UInt8) ∉ text) (h : 32 :: text <:+ lineOf (words ++ [word])) : text = word := by
  rw [lineOf_concat hne] at h
  have hlast : 32 :: word <:+ lineOf words ++ 32 :: word := List.suffix_append _ _
  rcases Nat.le_total (32 :: text).length (32 :: word).length with hle | hle
  · rcases List.suffix_cons_iff.mp (List.suffix_of_suffix_length_le h hlast hle) with heq | hin
    · exact (List.cons.inj heq).2
    · exact absurd (hin.subset (by simp)) hword
  · rcases List.suffix_cons_iff.mp (List.suffix_of_suffix_length_le hlast h hle) with heq | hin
    · exact (List.cons.inj heq).2.symm
    · exact absurd (hin.subset (by simp)) htext

end Words

/-- A request with the words of a command, and `noreply` when the client wants no answer. -/
def request (words : List Bytes) (noreply : Bool) : Bytes :=
  lineOf (if noreply then words ++ [ascii "noreply"] else words)

section Requests

variable {words : List Bytes} {noreply : Bool}

theorem plain_noreply : Plain (ascii "noreply") := by decide

theorem request_plain (h : ∀ w ∈ words, Plain w) (noreply : Bool) :
    ∀ b ∈ request words noreply, 32 ≤ b := by
  refine le_of_mem_lineOf fun w hw => ?_
  cases noreply with
  | false => exact h w hw
  | true =>
    rcases List.mem_append.mp hw with hw | hw
    · exact h w hw
    · exact (List.mem_singleton.mp hw) ▸ plain_noreply

/-- The mark is found where the client put it, unless the last word looks like it. -/
theorem stripNoreply_request (h : ∀ w ∈ words, Plain w) (hne : words ≠ [])
    (hlast : noreply = false → words.tail.getLast? ≠ some (ascii "noreply")) :
    stripNoreply (request words noreply) = (noreply, lineOf words) := by
  cases noreply with
  | true =>
    have hline : request words true = lineOf words ++ ascii " noreply" := lineOf_concat hne _
    have hlen : (lineOf words ++ ascii " noreply").length - 8 = (lineOf words).length := by
      rw [List.length_append]
      exact Nat.add_sub_cancel _ _
    rw [hline, stripNoreply, hlen, List.drop_left, List.take_left, if_pos]
    refine ⟨?_, rfl⟩
    rw [List.length_append]
    exact Nat.le_add_left _ _
  | false =>
    show stripNoreply (lineOf words) = (false, lineOf words)
    rw [stripNoreply, if_neg]
    rintro ⟨-, hends⟩
    have hsuffix : ascii " noreply" <:+ lineOf words := hends ▸ List.drop_suffix _ _
    obtain ⟨init, last, rfl⟩ := (List.eq_nil_or_concat' words).resolve_left hne
    cases init with
    | nil =>
      rw [List.nil_append, lineOf_singleton] at hsuffix
      have hblank : (32 : UInt8) ∈ ascii " noreply" := by decide
      exact (h last (by simp)).blank_not_mem (hsuffix.subset hblank)
    | cons first init =>
      have heq := lineOf_ends (by simp) (h last (by simp)).blank_not_mem
        plain_noreply.blank_not_mem hsuffix
      exact hlast rfl (by simp [heq])

theorem processRequest_request {hash : Bytes → ℕ} {startTime : ℤ} {server : MemcacheServer}
    {command : Bytes} {args : List Bytes} (h : ∀ w ∈ command :: args, Plain w)
    (hlast : noreply = false → args.getLast? ≠ some (ascii "noreply")) :
    processRequest hash startTime server Session.new (request (command :: args) noreply) =
      dispatch hash startTime server
        { Session.new with noreply := noreply, command := command } args := by
  have hstrip := stripNoreply_request h (List.cons_ne_nil _ _) hlast
  simp only [processRequest, hstrip, tokens_lineOf h]
  rfl

end Requests

section Numbers

variable {n : ℕ}

theorem ofNat_digit {d : ℕ} (h : d < 10) : (UInt8.ofNat (48 + d)).toNat = 48 + d := by
  rw [UInt8.toNat_ofNat']
  omega

theorem digitValue_ofNat (d : ℕ) (h : d < 10) : digitValue (UInt8.ofNat (48 + d)) = some d := by
  rw [digitValue, if_pos]
  · rw [ofNat_digit h, Nat.add_sub_cancel_left]
  · rw [UInt8.le_iff_toNat_le, UInt8.le_iff_toNat_le, ofNat_digit h]
    exact ⟨Nat.le_add_right 48 d, by show 48 + d ≤ 57; omega⟩

theorem plain_decimal (n : ℕ) : Plain (decimal n) := by
  rw [decimal_eq_numeral]
  refine ⟨by simp [numeral_ne_nil], fun b hb => ?_⟩
  obtain ⟨d, hd, rfl⟩ := List.mem_map.mp hb
  rw [UInt8.lt_iff_toNat_lt, ofNat_digit (lt_of_mem_numeral (by decide) hd)]
  show 32 < 48 + d
  omega

theorem strtoull_decimal (h : n < 2 ^ 64) : strtoull (decimal n) = some n := by
  have hread : readNumeral 10 digitValue (decimal n) = some n := by
    rw [decimal_eq_numeral]
    exact readNumeral_numeral (by decide) digitValue_ofNat n
  have hunsigned : unsignedOf false (decimal n) = some n := by
    rw [unsignedOf, hread, Option.map_some, if_neg (not_le.mpr h), if_neg (by simp)]
  obtain ⟨d, ds, hnumeral⟩ := List.exists_cons_of_ne_nil (numeral_ne_nil (b := 10) (by decide) n)
  have hd : d < 10 := lt_of_mem_numeral (n := n) (by decide) (hnumeral ▸ List.mem_cons_self)
  obtain ⟨c, hc, hcons⟩ : ∃ c : UInt8, c.toNat = 48 + d ∧
      decimal n = c :: ds.map fun d => UInt8.ofNat (48 + d) :=
    ⟨_, ofNat_digit hd, by rw [decimal_eq_numeral, hnumeral, List.map_cons]⟩
  have hne : ∀ b : UInt8, b.toNat < 48 → c ≠ b := by
    rintro b hb rfl
    omega
  have hspace : isSpace c = false := by
    have hgt : ¬c ≤ 13 := by
      rw [UInt8.le_iff_toNat_le, hc]
      show ¬48 + d ≤ 13
      omega
    rw [isSpace, decide_eq_false_iff_not]
    exact fun h => h.elim (hne 32 (by decide)) fun h => hgt h.2
  rw [strtoull, hcons, List.dropWhile_cons_of_neg (by simp [hspace])]
  rw [hcons] at hunsigned
  split
  · next heq => exact absurd (List.cons.inj heq).1 (hne 45 (by decide))
  · next heq => exact absurd (List.cons.inj heq).1 (hne 43 (by decide))
  · exact hunsigned

theorem readNumber_decimal (h : n < 2 ^ 64) (args : List Bytes) :
    readNumber (decimal n :: args) = some (n, args) := by
  rw [readNumber, strtoull_decimal h, Option.map_some]

end Numbers

/-- A key that the session takes. -/
structure Key where
  bytes : Bytes
  plain : Plain bytes
  short : bytes.length ≤ kLongestKeySize

/-- A command that stores an item. `value` is what the client sends behind the line, with the two
bytes at its end that should be CRLF. -/
structure StoreCommand where
  policy : UpdatePolicy
  key : Key
  flags : ℕ
  exptime : ℕ
  cas : ℕ
  value : Bytes
  noreply : Bool
  policy_valid : policy ≠ .invalid
  flags_lt : flags < 2 ^ 32
  exptime_lt : exptime < 2 ^ 63
  cas_lt : cas < 2 ^ 64
  two_le_value : 2 ≤ value.length
  value_lt : value.length < 2 ^ 31

/-- What a client can ask for. A last key `noreply` would be taken for the mark. -/
inductive Command
  | store (c : StoreCommand)
  | get (needCas : Bool) (keys : List Key)
      (h : (keys.map Key.bytes).getLast? ≠ some (ascii "noreply"))
  | delete (key : Key) (noreply : Bool) (h : noreply = false → key.bytes ≠ ascii "noreply")

def verb : UpdatePolicy → Bytes
  | .invalid => []
  | .set => ascii "set"
  | .add => ascii "add"
  | .replace => ascii "replace"
  | .append => ascii "append"
  | .prepend => ascii "prepend"
  | .cas => ascii "cas"

namespace StoreCommand

variable (c : StoreCommand)

def args : List Bytes :=
  c.key.bytes :: decimal c.flags :: decimal c.exptime :: decimal (c.value.length - 2) ::
    if c.policy = .cas then [decimal c.cas] else []

/-- The number that `cas` compares; the other commands do not send one. -/
def casSent : ℕ := if c.policy = .cas then c.cas else 0

def item (startTime : ℤ) : Item :=
  ⟨c.key.bytes, c.flags, relExptimeOf startTime c.exptime, c.value.length, c.value, c.casSent⟩

def large : Prop := 1024 * 1024 < c.value.length - 2

instance : Decidable c.large := inferInstanceAs (Decidable (_ < _))

end StoreCommand

namespace Command

def command : Command → Bytes
  | .store c => verb c.policy
  | .get needCas _ _ => ascii (if needCas then "gets" else "get")
  | .delete _ _ _ => ascii "delete"

def args : Command → List Bytes
  | .store c => c.args
  | .get _ keys _ => keys.map Key.bytes
  | .delete key _ _ => [key.bytes]

def noreply : Command → Bool
  | .store c => c.noreply
  | .get _ _ _ => false
  | .delete _ noreply _ => noreply

def line (c : Command) : Bytes := request (c.command :: c.args) c.noreply

def value : Command → Bytes
  | .store c => c.value
  | _ => []

def wire (c : Command) : Bytes := c.line ++ 13 :: 10 :: c.value

end Command

/-- What the client is told, unless it wants no answer. -/
def told (noreply : Bool) (text : Bytes) : List Effect := if noreply then [] else [.send text]

/-- An answer as it is printed. Behind a crash nobody is told anything. -/
def Answer.text (policy : UpdatePolicy) (needCas : Bool) : Answer → Bytes
  | .store done existed => ascii (storeReply policy (done, existed))
  | .item found => found.elim [] (·.output needCas)
  | .deleted done => ascii (if done then "DELETED\r\n" else "NOT_FOUND\r\n")
  | .crash _ => []

/-- How the commands are answered with operations on the items, wherever these are kept. -/
def Command.serve {σ : Type} (perform : σ → Op → σ × Answer) (startTime : ℤ) (s : σ) :
    Command → Except Fault (σ × List Effect)
  | .store c =>
    if c.large then
      .ok ((perform s (.delete c.key.bytes)).1,
        told c.noreply (ascii "SERVER_ERROR object too large for cache\r\n"))
    else if (c.item startTime).endsWithCRLF then
      match perform s (.store (c.item startTime) c.policy) with
      | (_, .crash fault) => .error fault
      | (s', answer) => .ok (s', told c.noreply (answer.text c.policy false))
    else .ok (s, told c.noreply (ascii "CLIENT_ERROR bad data chunk\r\n"))
  | .get needCas keys _ =>
    let items := keys.flatMap fun key => (perform s (.get key.bytes)).2.text .invalid needCas
    .ok (s, [.send (items ++ ascii "END\r\n")])
  | .delete key noreply _ =>
    .ok ((perform s (.delete key.bytes)).1,
      told noreply ((perform s (.delete key.bytes)).2.text .invalid false))

def serveAll {σ : Type} (perform : σ → Op → σ × Answer) (startTime : ℤ) :
    σ → List Command → Except Fault (σ × List Effect)
  | s, [] => .ok (s, [])
  | s, c :: cs => do
    let (s', out) ← c.serve perform startTime s
    let (s'', outs) ← serveAll perform startTime s' cs
    return (s'', out ++ outs)

section Serve

variable {hash : Bytes → ℕ} {startTime : ℤ} {server : MemcacheServer}

theorem words_plain (c : Command) : ∀ w ∈ c.command :: c.args, Plain w := by
  cases c with
  | store c =>
    have hverb : Plain (verb c.policy) := by
      have hvalid := c.policy_valid
      cases hpolicy : c.policy
      case invalid => exact absurd hpolicy hvalid
      all_goals decide
    simp only [Command.command, Command.args, StoreCommand.args, List.forall_mem_cons]
    refine ⟨hverb, c.key.plain, plain_decimal _, plain_decimal _, plain_decimal _, ?_⟩
    split_ifs
    · simpa using plain_decimal c.cas
    · simp
  | get needCas keys h =>
    simp only [Command.command, Command.args, List.forall_mem_cons, List.forall_mem_map]
    exact ⟨by cases needCas <;> decide, fun key _ => key.plain⟩
  | delete key noreply h =>
    simp only [Command.command, Command.args, List.forall_mem_cons, List.not_mem_nil, false_implies,
      implies_true, and_true]
    exact ⟨by decide, key.plain⟩

theorem fieldsOf_args (c : StoreCommand) :
    fieldsOf c.policy c.key.bytes c.args.tail =
      some ⟨c.flags, c.exptime, (c.value.length : ℤ) - 2, c.casSent⟩ := by
  have htwo := c.two_le_value
  have hvalue := c.value_lt
  have hexptime := c.exptime_lt
  have hcas : readCas c.policy (if c.policy = .cas then [decimal c.cas] else []) =
      some c.casSent := by
    rw [readCas, StoreCommand.casSent]
    split_ifs
    · rw [readNumber_decimal c.cas_lt]
      rfl
    · rfl
  have hflags : c.flags < 2 ^ 64 := c.flags_lt.trans (by decide)
  have hexp : Int.bmod (c.exptime : ℤ) (2 ^ 64) = c.exptime := by
    rw [Int.bmod]
    omega
  have hbytes : Int.bmod ((c.value.length - 2 : ℕ) : ℤ) (2 ^ 32) = (c.value.length : ℤ) - 2 := by
    rw [Int.bmod]
    omega
  simp only [fieldsOf, StoreCommand.args, List.tail_cons, c.key.short, guard_true,
    readNumber_decimal hflags, readNumber_decimal (hexptime.trans (by decide)),
    readNumber_decimal (show c.value.length - 2 < 2 ^ 64 by omega), hcas, Option.pure_def,
    Option.bind_eq_bind, Option.bind_some, Nat.mod_eq_of_lt c.flags_lt, hexp, hbytes]

theorem policyOf_verb {policy : UpdatePolicy} (h : policy ≠ .invalid) :
    policyOf (verb policy) = some policy := by
  cases policy
  case invalid => exact absurd rfl h
  all_goals decide

theorem getItems_keys (needCas : Bool) (keys : List Key) (buf : Bytes) :
    getItems hash server needCas (keys.map Key.bytes) buf =
      (true, buf ++ keys.flatMap fun key =>
        (server.getItem hash key.bytes).elim [] (·.output needCas)) := by
  induction keys generalizing buf with
  | nil => simp [getItems]
  | cons key keys ih =>
    rw [List.map_cons, getItems, if_pos key.short, ih, List.flatMap_cons, List.append_assoc]

/-- The session that waits for the end of a value that is too large. -/
def discarding (c : StoreCommand) : Session :=
  ⟨.discardValue, verb c.policy, c.noreply, c.policy, none, c.value.length, [], true⟩

def receiving (startTime : ℤ) (c : StoreCommand) : Session :=
  ⟨.receiveValue, verb c.policy, c.noreply, c.policy, some { c.item startTime with value := [] }, 0,
    [], true⟩

/-- The last word does not look like the mark; numbers never do. -/
theorem args_last (c : Command) (hnoreply : c.noreply = false) :
    c.args.getLast? ≠ some (ascii "noreply") := by
  have hnumber : ∀ n < 2 ^ 64, decimal n ≠ ascii "noreply" := by
    intro n hn heq
    have hread := strtoull_decimal hn
    have hnone : strtoull (ascii "noreply") = none := by decide
    rw [heq, hnone] at hread
    cases hread
  cases c with
  | store c =>
    intro h
    have hvalue := c.value_lt
    by_cases hcas : c.policy = .cas
    · refine hnumber c.cas c.cas_lt ?_
      simpa [Command.args, StoreCommand.args, hcas] using h
    · refine hnumber (c.value.length - 2) (by omega) ?_
      simpa [Command.args, StoreCommand.args, hcas] using h
  | get needCas keys h => exact h
  | delete key noreply h => exact fun heq => h hnoreply (by simpa [Command.args] using heq)

theorem readLine_line (c : Command) : readLine hash startTime server Session.new c.line = (do
    let (finished, outcome) ← dispatch hash startTime server
      { Session.new with noreply := c.noreply, command := c.command } c.args
    return { outcome with
      session := if finished then outcome.session.resetRequest else outcome.session }) := by
  rw [readLine, Command.line, processRequest_request (words_plain c) (args_last c)]

theorem reply_eq {session : Session} (h : session.connected = true) (msg : String) :
    session.reply msg = told session.noreply (ascii msg) := by
  rw [Session.reply, Session.send, h, if_pos rfl, told]

theorem readLine_store (c : StoreCommand) :
    readLine hash startTime server Session.new (Command.store c).line =
      .ok (if c.large then
        ⟨(server.deleteItem hash c.key.bytes).2, discarding c,
          told c.noreply (ascii "SERVER_ERROR object too large for cache\r\n")⟩
        else ⟨server, receiving startTime c, []⟩) := by
  have htwo := c.two_le_value
  have hvalue := c.value_lt
  have hshort : c.key.bytes.length ≤ 250 := c.key.short
  have hlarge : c.large ↔ (1024 * 1024 : ℤ) < (c.value.length : ℤ) - 2 := by
    rw [StoreCommand.large]
    omega
  rw [readLine_line]
  simp only [Command.command, Command.args, Command.noreply, dispatch, policyOf_verb c.policy_valid]
  rw [show c.args = c.key.bytes :: c.args.tail from rfl, doUpdate]
  simp only [fieldsOf_args, ← hlarge]
  by_cases h : c.large
  · have hdiscard : (Int.bmod ((c.value.length : ℤ) - 2 + 2) (2 ^ 32) % 2 ^ 64).toNat =
        c.value.length := by
      rw [Int.bmod]
      omega
    simp only [if_pos h, ok_bind, hdiscard]
    rfl
  · have hmake : Item.makeItem c.key.bytes c.flags (relExptimeOf startTime c.exptime)
        ((c.value.length : ℤ) - 2 + 2) c.casSent = .ok { c.item startTime with value := [] } := by
      rw [hlarge] at h
      have htotal :
          0 < Int.bmod (c.key.bytes.length + ((c.value.length : ℤ) - 2 + 2)) (2 ^ 32) := by
        rw [Int.bmod]
        omega
      rw [Item.makeItem, assertThat_pos (by omega), ok_bind, assertThat_pos htotal]
      simp [StoreCommand.item]
    simp only [if_neg h, hmake, ok_bind]
    rfl

theorem readLine_get (needCas : Bool) (keys : List Key)
    (h : (keys.map Key.bytes).getLast? ≠ some (ascii "noreply")) :
    readLine hash startTime server Session.new (Command.get needCas keys h).line =
      .ok ⟨server, Session.new, [.send (keys.flatMap (fun key =>
        (server.getItem hash key.bytes).elim [] (·.output needCas)) ++ ascii "END\r\n")]⟩ := by
  rw [readLine_line]
  have hdispatch : dispatch hash startTime server { Session.new with
      noreply := (Command.get needCas keys h).noreply
      command := (Command.get needCas keys h).command } (Command.get needCas keys h).args =
      .ok (true, doGet hash server { Session.new with
        noreply := false, command := (Command.get needCas keys h).command } needCas
          (keys.map Key.bytes)) := by
    cases needCas <;> rfl
  rw [hdispatch, ok_bind]
  simp only [doGet, getItems_keys, if_true]
  rfl

theorem readLine_delete (key : Key) (noreply : Bool)
    (h : noreply = false → key.bytes ≠ ascii "noreply") :
    readLine hash startTime server Session.new (Command.delete key noreply h).line =
      .ok ⟨(server.deleteItem hash key.bytes).2, Session.new,
        told noreply (ascii (if (server.deleteItem hash key.bytes).1 then "DELETED\r\n"
          else "NOT_FOUND\r\n"))⟩ := by
  have hshort : ¬kLongestKeySize < key.bytes.length := not_lt.mpr key.short
  rw [readLine_line]
  have hdispatch : ∀ session : Session, session.command = ascii "delete" →
      dispatch hash startTime server session [key.bytes] =
        (doDelete hash server session [key.bytes]).map (true, ·) := by
    intro session hcommand
    rw [dispatch, hcommand]
    rfl
  simp only [Command.command, Command.args, Command.noreply]
  rw [hdispatch _ rfl, doDelete, if_neg hshort, if_neg (by simp), reply_eq rfl]
  rfl

theorem line_plain (c : Command) : (10 : UInt8) ∉ c.line := fun hmem =>
  absurd (request_plain (words_plain c) _ 10 hmem) (by decide)

theorem drain_line (c : Command) (effects : List Effect) (rest : Bytes) :
    conclude effects ((stream hash startTime).drain (.ok (server, Session.new))
      (c.line ++ 13 :: 10 :: rest)) = (do
      let o ← readLine hash startTime server Session.new c.line
      conclude (effects ++ o.effects)
        ((stream hash startTime).drain (.ok (o.server, o.session)) rest)) := by
  have hfind : findPair 13 10 (c.line ++ 13 :: 10 :: rest) = some c.line.length :=
    findPair_line (by decide) (findPair_eq_none (line_plain c)) rest
  have hstep : streamStep hash startTime (.ok (server, Session.new)) (c.line ++ 13 :: 10 :: rest) =
      verdictOf (c.line.length + 2) (readLine hash startTime server Session.new c.line) := by
    simp only [streamStep, Session.new, hfind, List.take_left]
  have hdrop : (c.line ++ 13 :: 10 :: rest).drop (c.line.length + 2) = rest := by
    rw [← List.drop_drop, List.drop_left]
    rfl
  rw [conclude_step hstep, hdrop]

theorem drain_discarding (c : StoreCommand) (effects : List Effect) (rest : Bytes) :
    conclude effects ((stream hash startTime).drain (.ok (server, discarding c))
      (c.value ++ rest)) =
      conclude effects ((stream hash startTime).drain (.ok (server, Session.new)) rest) := by
  have htwo := c.two_le_value
  have hne : c.value ++ rest ≠ [] :=
    List.append_ne_nil_of_left_ne_nil (List.ne_nil_of_length_pos (by omega)) _
  have hpos : 0 < (discarding c).bytesToDiscard := by
    show 0 < c.value.length
    omega
  have hdiscard : discardValue (discarding c) (c.value ++ rest) =
      .ok (c.value.length, Session.new) := by
    have hlen : ¬(c.value ++ rest).length < (discarding c).bytesToDiscard := by
      show ¬(c.value ++ rest).length < c.value.length
      simp
    have hitem : (discarding c).currItem = none := rfl
    rw [discardValue, assertThat_pos hitem, ok_bind, if_neg hlen]
    rfl
  rw [discard_drain rfl rfl hpos hne, hdiscard, ok_bind, List.drop_left]

def stored (hash : Bytes → ℕ) (startTime : ℤ) (server : MemcacheServer) (c : StoreCommand) :
    Except Fault (MemcacheServer × List Effect) :=
  if (c.item startTime).endsWithCRLF then do
    let (answer, server) ← server.storeItem hash (c.item startTime) c.policy
    return (server, told c.noreply (ascii (storeReply c.policy answer)))
  else return (server, told c.noreply (ascii "CLIENT_ERROR bad data chunk\r\n"))

theorem drain_receiving (c : StoreCommand) (effects : List Effect) (rest : Bytes) :
    conclude effects ((stream hash startTime).drain (.ok (server, receiving startTime c))
      (c.value ++ rest)) = (do
      let (server', out) ← stored hash startTime server c
      conclude (effects ++ out)
        ((stream hash startTime).drain (.ok (server', Session.new)) rest)) := by
  have htwo := c.two_le_value
  have hne : c.value ++ rest ≠ [] :=
    List.append_ne_nil_of_left_ne_nil (List.ne_nil_of_length_pos (by omega)) _
  have hneeded : { c.item startTime with value := [] }.neededBytes = c.value.length := rfl
  have htake : (c.value ++ rest).take (min (c.value ++ rest).length c.value.length) = c.value := by
    rw [min_eq_right (by simp), List.take_left]
  have hwhole : { c.item startTime with value := [] ++ c.value } = c.item startTime := rfl
  have hfull : (c.item startTime).neededBytes = 0 := Nat.sub_self _
  rw [receive_drain rfl rfl (by rw [hneeded]; omega) hne, receiveValue_eq rfl, hneeded, htake,
    min_eq_right (by simp), hwhole, finishValue, if_pos hfull, stored]
  simp only [reply_eq (show (receiving startTime c).connected = true from rfl),
    show (receiving startTime c).policy = c.policy from rfl,
    show (receiving startTime c).noreply = c.noreply from rfl]
  split_ifs
  · cases server.storeItem hash (c.item startTime) c.policy with
    | error fault => rfl
    | ok r =>
      simp only [ok_bind, pure_eq_ok, List.drop_left]
      rfl
  · simp only [ok_bind, pure_eq_ok, List.drop_left]
    rfl

/-- A command on the session is the command on the items of the server. -/
theorem drain_command (c : Command) (effects : List Effect) (rest : Bytes) :
    conclude effects ((stream hash startTime).drain (.ok (server, Session.new)) (c.wire ++ rest)) =
      (do
        let (server', out) ← c.serve (MemcacheServer.perform hash) startTime server
        conclude (effects ++ out)
          ((stream hash startTime).drain (.ok (server', Session.new)) rest)) := by
  rw [Command.wire, List.append_assoc, List.cons_append, List.cons_append, drain_line]
  cases c with
  | store c =>
    rw [readLine_store, ok_bind, Command.serve, Command.value]
    split_ifs with hlarge hend
    · exact drain_discarding c _ rest
    · rw [List.append_nil, drain_receiving, stored, if_pos hend]
      simp only [MemcacheServer.perform]
      cases server.storeItem hash (c.item startTime) c.policy <;> rfl
    · rw [List.append_nil, drain_receiving, stored, if_neg hend]
      rfl
  | get needCas keys h =>
    rw [readLine_get, ok_bind]
    rfl
  | delete key noreply h =>
    rw [readLine_delete, ok_bind]
    rfl

theorem drain_commands (cs : List Command) (effects : List Effect) :
    conclude effects ((stream hash startTime).drain (.ok (server, Session.new))
      (cs.flatMap Command.wire)) =
      (serveAll (MemcacheServer.perform hash) startTime server cs).map fun a =>
        ⟨a.1, Session.new, [], effects ++ a.2⟩ := by
  induction cs generalizing server effects with
  | nil =>
    rw [List.flatMap_nil, conclude_nil, serveAll]
    simp [Except.map]
  | cons c cs ih =>
    rw [List.flatMap_cons, drain_command, serveAll]
    cases c.serve (MemcacheServer.perform hash) startTime server with
    | error fault => rfl
    | ok a =>
      simp only [ok_bind, ih]
      cases serveAll (MemcacheServer.perform hash) startTime a.1 cs with
      | error fault => rfl
      | ok b => simp [Except.map]

theorem discarding_part (c : StoreCommand) {part : Bytes} (hpart : part.length ≤ c.value.length)
    {effects : List Effect} {r : Received}
    (hr : conclude effects ((stream hash startTime).drain (.ok (server, discarding c)) part) =
      .ok r) : r.buf = [] := by
  have htwo := c.two_le_value
  by_cases hnil : part = []
  · subst hnil
    rw [conclude_nil] at hr
    cases hr
    rfl
  · have hitem : (discarding c).currItem = none := rfl
    obtain ⟨session', hdiscard, -⟩ := discardValue_ready hitem rfl part
    rw [show (discarding c).bytesToDiscard = c.value.length from rfl, min_eq_left hpart]
      at hdiscard
    have hpos : 0 < (discarding c).bytesToDiscard := show 0 < c.value.length by omega
    rw [discard_drain rfl rfl hpos hnil, hdiscard, ok_bind, List.drop_length, conclude_nil] at hr
    cases hr
    rfl

theorem receiving_part (c : StoreCommand) {part : Bytes} (hpart : part.length ≤ c.value.length)
    {effects : List Effect} {r : Received}
    (hr : conclude effects ((stream hash startTime).drain (.ok (server, receiving startTime c))
      part) = .ok r) : r.buf = [] := by
  have htwo := c.two_le_value
  have hneeded : { c.item startTime with value := [] }.neededBytes = c.value.length := rfl
  by_cases hnil : part = []
  · subst hnil
    rw [conclude_nil] at hr
    cases hr
    rfl
  · rw [receive_drain rfl rfl (by rw [hneeded]; omega) hnil] at hr
    obtain ⟨⟨taken, o⟩, hvalue, hr⟩ := bind_eq_ok.mp hr
    have htaken := (receiveValue_ready rfl rfl hvalue).1
    rw [hneeded, min_eq_left hpart] at htaken
    rw [htaken, List.drop_length, conclude_nil] at hr
    cases hr
    rfl

theorem value_part (c : Command) {part : Bytes} (hpart : part.length ≤ c.value.length)
    {effects : List Effect} {r : Received}
    (hr : conclude effects ((stream hash startTime).drain (.ok (server, Session.new))
      (c.line ++ 13 :: 10 :: part)) = .ok r) : r.buf = [] := by
  rw [drain_line] at hr
  obtain ⟨o, ho, hvalue⟩ := bind_eq_ok.mp hr
  clear hr
  cases c with
  | store c =>
    rw [readLine_store] at ho
    split_ifs at ho
    · cases ho
      exact discarding_part c hpart hvalue
    · cases ho
      exact receiving_part c hpart hvalue
  | get needCas keys h =>
    rw [List.eq_nil_of_length_eq_zero (Nat.le_zero.mp hpart), conclude_nil] at hvalue
    cases hvalue
    rfl
  | delete key noreply h =>
    rw [List.eq_nil_of_length_eq_zero (Nat.le_zero.mp hpart), conclude_nil] at hvalue
    cases hvalue
    rfl

theorem line_part (c : Command) (hline : c.line.length ≤ 1023) {part : Bytes}
    (hpart : part <+: c.line ++ [13]) {effects : List Effect} {r : Received}
    (hr : conclude effects ((stream hash startTime).drain (.ok (server, Session.new)) part) =
      .ok r) : r.buf.length ≤ 1024 := by
  have hlen : part.length ≤ 1024 := by
    have hle := hpart.length_le
    rw [List.length_append, List.length_singleton] at hle
    omega
  have hfind : findPair 13 10 part = none := by
    refine findPair_eq_none fun hmem => ?_
    rcases List.mem_append.mp (hpart.subset hmem) with hmem | hmem
    · exact line_plain c hmem
    · exact absurd (List.mem_singleton.mp hmem) (by decide)
  have hwait : (stream hash startTime).step (.ok (server, Session.new)) part = .wait := by
    show streamStep hash startTime (.ok (server, Session.new)) part = .wait
    simp only [streamStep, Session.new, hfind]
  rw [Parser.drain_wait hwait, conclude] at hr
  simp only [if_neg (not_lt.mpr hlen)] at hr
  cases hr
  exact hlen

/-- Wherever the network cuts the commands, not much is left in the buffer. The induction is on
the commands; the cut is in the first one or behind it. -/
theorem commands_part {cs : List Command} (hline : ∀ c ∈ cs, c.line.length ≤ 1023) {part : Bytes}
    (hpart : part <+: cs.flatMap Command.wire) {effects : List Effect} {r : Received}
    (hr : conclude effects ((stream hash startTime).drain (.ok (server, Session.new)) part) =
      .ok r) : r.buf.length ≤ 1024 := by
  induction cs generalizing part server effects with
  | nil =>
    rw [List.prefix_nil.mp hpart, conclude_nil] at hr
    cases hr
    exact Nat.zero_le _
  | cons c cs ih =>
    rw [List.forall_mem_cons] at hline
    rw [List.flatMap_cons] at hpart
    have hwire : c.wire = c.line ++ [13] ++ 10 :: c.value := by
      rw [Command.wire, List.append_assoc]
      rfl
    rcases List.prefix_or_prefix_of_prefix hpart (List.prefix_append _ _) with hin | ⟨more, rfl⟩
    · rw [hwire] at hin
      rcases List.prefix_or_prefix_of_prefix hin (List.prefix_append _ _) with hin' | ⟨more, rfl⟩
      · exact line_part c hline.1 hin' hr
      · have hmore := (List.prefix_append_right_inj _).mp hin
        cases more with
        | nil =>
          refine line_part c hline.1 ?_ hr
          rw [List.append_nil]
        | cons b value =>
          obtain ⟨rfl, hvalue⟩ := List.cons_prefix_cons.mp hmore
          rw [List.append_assoc] at hr
          rw [value_part c hvalue.length_le hr]
          exact Nat.zero_le _
    · rw [drain_command] at hr
      obtain ⟨a, -, hr⟩ := bind_eq_ok.mp hr
      exact ih hline.2 ((List.prefix_append_right_inj _).mp hpart) hr

end Serve

section Tables

variable {σ τ : Type} {perform : σ → Op → σ × Answer} {perform' : τ → Op → τ × Answer}
variable {startTime : ℤ}

theorem serve_map (startTime : ℤ) {f : σ → τ} {s : σ}
    (hf : ∀ op, (perform s op).map f id = perform' (f s) op) (c : Command) :
    (c.serve perform startTime s).map (Prod.map f id) = c.serve perform' startTime (f s) := by
  cases c with
  | store c =>
    simp only [Command.serve, ← hf]
    split_ifs
    · rfl
    · cases perform s (.store (c.item startTime) c.policy) with
      | mk s' answer => cases answer <;> rfl
    · rfl
  | get needCas keys h =>
    simp only [Command.serve, ← hf]
    rfl
  | delete key noreply h =>
    simp only [Command.serve, ← hf]
    rfl

theorem serve_keeps {P : σ → Prop} {s s' : σ} (hs : P s) (hP : ∀ op, P (perform s op).1)
    {c : Command} {out : List Effect} (h : c.serve perform startTime s = .ok (s', out)) : P s' := by
  cases c with
  | store c =>
    simp only [Command.serve] at h
    split_ifs at h
    · cases h
      exact hP _
    · have hstore := hP (.store (c.item startTime) c.policy)
      cases hperform : perform s (.store (c.item startTime) c.policy) with
      | mk t answer =>
        rw [hperform] at h hstore
        cases answer <;> cases h <;> exact hstore
    · cases h
      exact hs
  | get needCas keys hkeys =>
    cases h
    exact hs
  | delete key noreply hkey =>
    cases h
    exact hP _

theorem perform_tableOf (hash : Bytes → ℕ) {server : MemcacheServer} (hd : Distinct server.whole)
    (op : Op) :
    (server.perform hash op).map (fun s => tableOf hash s.whole) id =
        (tableOf hash server.whole).perform op ∧
      Distinct (server.perform hash op).1.whole := by
  obtain ⟨htable, hanswer, hd'⟩ := atomic_tableOf hash hd op
  rw [atomic_perform] at htable hanswer hd'
  exact ⟨Prod.ext htable hanswer, hd'⟩

theorem serveAll_tableOf {hash : Bytes → ℕ} {server : MemcacheServer} (hd : Distinct server.whole)
    (cs : List Command) :
    (serveAll (MemcacheServer.perform hash) startTime server cs).map
        (Prod.map (fun s => tableOf hash s.whole) id) =
      serveAll Table.perform startTime (tableOf hash server.whole) cs := by
  induction cs generalizing server with
  | nil => rfl
  | cons c cs ih =>
    have hserve := serve_map startTime (f := fun s : MemcacheServer => tableOf hash s.whole)
      (fun op => (perform_tableOf hash hd op).1) c
    rw [serveAll, serveAll, ← hserve]
    cases hc : c.serve (MemcacheServer.perform hash) startTime server with
    | error fault => rfl
    | ok a =>
      obtain ⟨server', out⟩ := a
      have hd' := serve_keeps (P := fun s : MemcacheServer => Distinct s.whole) hd
        (fun op => (perform_tableOf hash hd op).2) hc
      simp only [ok_bind, Except.map, Prod.map_apply, id_eq, ← ih hd']
      cases serveAll (MemcacheServer.perform hash) startTime server' cs <;> rfl

end Tables

/-- The commands of a client, with lines that are not too long, cut by the network in any way:
what the client is told, and what is in the shards afterwards, is what one table gives that
carries out the commands in their order. The session is then ready for the next command. -/
theorem session_serves_table (hash : Bytes → ℕ) (startTime : ℤ) (server : MemcacheServer)
    (hd : Distinct server.whole) (cs : List Command) (hline : ∀ c ∈ cs, c.line.length ≤ 1023)
    (chunks : List Bytes) (hwire : chunks.flatten = cs.flatMap Command.wire) :
    (receive hash startTime ⟨server, Session.new, [], []⟩ chunks).map
        (fun r => (tableOf hash r.server.whole, r.session, r.buf, r.effects)) =
      (serveAll Table.perform startTime (tableOf hash server.whole) cs).map
        fun a => (a.1, Session.new, [], a.2) := by
  have hready : Ready Session.new := ready_of_newCommand rfl
  have hstart := conclude_nil hash startTime server Session.new []
  have hshort : ∀ i ≤ chunks.length, ∀ r,
      receive hash startTime ⟨server, Session.new, [], []⟩ (chunks.take i) = .ok r →
        r.buf.length ≤ 1024 := by
    intro i
    induction i using Nat.strong_induction_on with
    | _ i ih =>
      intro hi r hr
      rw [receive_eq hready hstart] at hr
      · refine commands_part hline ?_ hr
        rw [List.nil_append, ← hwire]
        exact (List.take_prefix i chunks).flatten
      · intro j hj r' hr'
        rw [List.length_take_of_le hi] at hj
        rw [List.take_take, min_eq_left hj.le] at hr'
        exact ih j hj (by omega) r' hr'
  rw [receive_eq hready hstart fun i hi => hshort i hi.le, List.nil_append, hwire, drain_commands,
    ← serveAll_tableOf hd]
  cases serveAll (MemcacheServer.perform hash) startTime server cs <;> rfl

/-- A value that looks like a line, cut in the middle. -/
theorem session_serves_table_round_trip :
    let key : Key := ⟨ascii "k", by decide, by decide⟩
    let set : StoreCommand := ⟨.set, key, 7, 0, 0, ascii "get x\r\n\r\n", false, by decide,
      by decide, by decide, by decide, by decide, by decide⟩
    (receive List.length 0 ⟨⟨fun _ => [], 0⟩, Session.new, [], []⟩
        [ascii "set k 7 0 7\r\nget", ascii " x\r\n\r", ascii "\nget k\r\n"]).map
        (fun r => (tableOf List.length r.server.whole, r.session, r.buf, r.effects)) =
      .ok (⟨Function.update (fun _ => none) (ascii "k") (some ((set.item 0).setCas 1)), 1⟩,
        Session.new, [], [.send (ascii "STORED\r\n"),
          .send (ascii "VALUE k 7 7\r\nget x\r\n\r\nEND\r\n")]) := by
  intro key set
  have hserves := session_serves_table List.length 0 ⟨fun _ => [], 0⟩ (fun _ => List.nodup_nil)
    [.store set, .get false [key] (by decide)] (by decide)
    [ascii "set k 7 0 7\r\nget", ascii " x\r\n\r", ascii "\nget k\r\n"] (by decide)
  rw [hserves]
  rfl

end Memcached
end Muduo
