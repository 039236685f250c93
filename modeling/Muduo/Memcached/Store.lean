import Muduo.Base.Text
import Muduo.Foundations.Striped

/-!
# The items of a memcached server

The items are spread over 4096 shards by the hash of their keys. Each shard has its own lock,
and one counter numbers all stores. The sessions of different loops work on the shards at the
same time; what they see is one table, on which the operations are carried out one after the
other.
-/

namespace Muduo
namespace Memcached

open Foundations

inductive UpdatePolicy
  | invalid
  | set
  | add
  | replace
  | append
  | prepend
  | cas
  deriving DecidableEq, Repr

/-- `data_` holds the key and then what has been received of the value, which ends with CRLF. -/
structure Item where
  key : Bytes
  flags : ℕ
  relExptime : ℤ
  valuelen : ℕ
  value : Bytes
  cas : ℕ
  deriving DecidableEq, Repr

namespace Item

variable (item : Item)

/-- The constructor. A total length that an `int` cannot hold comes out negative. -/
def makeItem (key : Bytes) (flags : ℕ) (relExptime valuelen : ℤ) (cas : ℕ) : Except Fault Item := do
  assertThat (2 ≤ valuelen)
  assertThat (0 < Int.bmod (key.length + valuelen) (2 ^ 32))
  return ⟨key, flags, relExptime, valuelen.toNat, [], cas⟩

def setCas (cas : ℕ) : Item := { item with cas := cas }

def neededBytes : ℕ := item.valuelen - item.value.length

def append (data : Bytes) : Except Fault Item := do
  assertThat (data.length ≤ item.neededBytes)
  return { item with value := item.value ++ data }

def endsWithCRLF : Bool :=
  item.value.length = item.valuelen ∧ item.value.drop (item.valuelen - 2) = ascii "\r\n"

/-- What a client gets; the value is printed with its CRLF. -/
def output (needCas : Bool) : Bytes :=
  ascii "VALUE " ++ item.key ++ ascii " " ++ decimal item.flags ++ ascii " " ++
    signedDecimal (item.valuelen - 2) ++ (if needCas then ascii " " ++ decimal item.cas else []) ++
    ascii "\r\n" ++ item.value

end Item

def kShards : ℕ := 4096

/-- `g_cas`, read as an `uint64_t`. -/
def casNumber (n : ℕ) : ℕ := n % 2 ^ 64

structure MemcacheServer where
  shards : ℕ → List Item
  gCas : ℕ

/-- The two parts of the new value, in the order that the policy asks for. -/
def parts (old item : Item) (policy : UpdatePolicy) : Bytes × Bytes :=
  if policy = .append then (old.value.take (old.valuelen - 2), item.value)
  else (item.value.take (item.valuelen - 2), old.value)

/-- The old value and the new one as one item. -/
def joined (old item : Item) (policy : UpdatePolicy) (cas : ℕ) : Except Fault Item := do
  let newLen : ℤ := Int.bmod (item.valuelen + old.valuelen - 2) (2 ^ 32)
  let new ← Item.makeItem item.key old.flags old.relExptime newLen cas
  let new ← new.append (parts old item policy).1
  let new ← new.append (parts old item policy).2
  assertThat (new.neededBytes = 0)
  assertThat (new.endsWithCRLF = true)
  return new

/-- The branches of `storeItem`: the item that goes to the table with the next number, if any
does. -/
def replacement (old : Option Item) (item : Item) (policy : UpdatePolicy) (cas : ℕ) :
    Except Fault (Option Item) :=
  match policy, old with
  | .set, _ => .ok (some (item.setCas cas))
  | .add, some _ => .ok none
  | .add, none => .ok (some (item.setCas cas))
  | .replace, some _ => .ok (some (item.setCas cas))
  | .replace, none => .ok none
  | .append, some old => (joined old item .append cas).map some
  | .prepend, some old => (joined old item .prepend cas).map some
  | .append, none => .ok none
  | .prepend, none => .ok none
  | .cas, some old => if old.cas = item.cas then .ok (some (item.setCas cas)) else .ok none
  | .cas, none => .ok none
  | .invalid, _ => .error .assertion

/-- The same with the assertion that the whole value was received. -/
def attempt (old : Option Item) (item : Item) (policy : UpdatePolicy) (cas : ℕ) :
    Except Fault (Option Item) := do
  assertThat (item.neededBytes = 0)
  replacement old item policy cas

def hasKey (key : Bytes) (item : Item) : Bool := item.key = key

namespace MemcacheServer

variable (hash : Bytes → ℕ) (s : MemcacheServer)

def shardOf (key : Bytes) : ℕ := hash key % kShards

/-- The answers are the return value and `*exists`. -/
def storeItem (item : Item) (policy : UpdatePolicy) :
    Except Fault ((Bool × Bool) × MemcacheServer) := do
  let shard := shardOf hash item.key
  let items := s.shards shard
  let old := items.find? (hasKey item.key)
  match ← attempt old item policy (casNumber (s.gCas + 1)) with
  | none => return ((false, old.isSome), s)
  | some new =>
    return ((true, old.isSome),
      ⟨Function.update s.shards shard (new :: items.eraseP (hasKey item.key)), s.gCas + 1⟩)

def getItem (key : Bytes) : Option Item := (s.shards (shardOf hash key)).find? (hasKey key)

def deleteItem (key : Bytes) : Bool × MemcacheServer :=
  let shard := shardOf hash key
  let items := s.shards shard
  ((items.find? (hasKey key)).isSome,
    { s with shards := Function.update s.shards shard (items.eraseP (hasKey key)) })

end MemcacheServer

inductive Op
  | store (item : Item) (policy : UpdatePolicy)
  | get (key : Bytes)
  | delete (key : Bytes)
  deriving DecidableEq, Repr

/-- A failed assertion ends the process; the others never get an answer then. -/
inductive Answer
  | store (done existed : Bool)
  | item (found : Option Item)
  | deleted (done : Bool)
  | crash (fault : Fault)
  deriving DecidableEq, Repr

namespace Op

def key : Op → Bytes
  | .store item _ => item.key
  | .get key => key
  | .delete key => key

/-- The operation takes a number from `g_cas`; whether it does, does not depend on the number. -/
def numbered (op : Op) (old : Option Item) : Bool :=
  match op with
  | .store item policy =>
    match attempt old item policy 0 with
    | .ok (some _) => true
    | _ => false
  | _ => false

/-- What an operation makes of its shard, with the number `n`. -/
def act (op : Op) (items : List Item) (n : ℕ) : List Item × Answer :=
  let old := items.find? (hasKey op.key)
  match op with
  | .store item policy =>
    match attempt old item policy (casNumber n) with
    | .error fault => (items, .crash fault)
    | .ok none => (items, .store false old.isSome)
    | .ok (some new) => (new :: items.eraseP (hasKey op.key), .store true old.isSome)
  | .get _ => (items, .item old)
  | .delete _ => (items.eraseP (hasKey op.key), .deleted old.isSome)

end Op

def striped (hash : Bytes → ℕ) : Striped ℕ (List Item) Op Answer where
  stripe op := MemcacheServer.shardOf hash op.key
  numbered op items := op.numbered (items.find? (hasKey op.key))
  act := Op.act

namespace MemcacheServer

variable (hash : Bytes → ℕ) (s : MemcacheServer)

def perform : Op → MemcacheServer × Answer
  | .store item policy =>
    match s.storeItem hash item policy with
    | .ok ((done, existed), s') => (s', .store done existed)
    | .error fault => (s, .crash fault)
  | .get key => (s, .item (s.getItem hash key))
  | .delete key => ((s.deleteItem hash key).2, .deleted (s.deleteItem hash key).1)

def whole : Striped.Whole ℕ (List Item) := ⟨s.shards, s.gCas⟩

end MemcacheServer

section Number

variable {old item : Item} {policy : UpdatePolicy}

theorem makeItem_cas (key : Bytes) (flags : ℕ) (relExptime valuelen : ℤ) (cas : ℕ) :
    Item.makeItem key flags relExptime valuelen cas =
      (Item.makeItem key flags relExptime valuelen 0).map (Item.setCas · cas) := by
  rw [Item.makeItem, Item.makeItem]
  cases assertThat (2 ≤ valuelen) <;>
    cases assertThat (0 < Int.bmod (key.length + valuelen) (2 ^ 32)) <;> rfl

@[simp] theorem neededBytes_setCas (i : Item) (cas : ℕ) :
    (i.setCas cas).neededBytes = i.neededBytes := rfl

@[simp] theorem endsWithCRLF_setCas (i : Item) (cas : ℕ) :
    (i.setCas cas).endsWithCRLF = i.endsWithCRLF := rfl

theorem append_setCas (i : Item) (data : Bytes) (cas : ℕ) :
    (i.setCas cas).append data = (i.append data).map (Item.setCas · cas) := by
  rw [Item.append, Item.append, neededBytes_setCas]
  cases assertThat (data.length ≤ i.neededBytes) <;> rfl

/-- A change of the item that the rest of a computation does not notice. -/
theorem bind_map_comm {x : Except Fault Item} {g h : Item → Item} {f f' : Item → Except Fault Item}
    (hf : ∀ i, f' (g i) = (f i).map h) : (x.map g >>= f') = (x >>= f).map h := by
  cases x with
  | error e => rfl
  | ok i => exact hf i

theorem joined_cas (old item : Item) (policy : UpdatePolicy) (cas : ℕ) :
    joined old item policy cas = (joined old item policy 0).map (Item.setCas · cas) := by
  have hcheck : ∀ i : Item,
      (do
        assertThat ((i.setCas cas).neededBytes = 0)
        assertThat ((i.setCas cas).endsWithCRLF = true)
        return i.setCas cas) =
      (do
        assertThat (i.neededBytes = 0)
        assertThat (i.endsWithCRLF = true)
        return i : Except Fault Item).map (Item.setCas · cas) := by
    intro i
    rw [neededBytes_setCas, endsWithCRLF_setCas]
    cases assertThat (i.neededBytes = 0) <;> cases assertThat (i.endsWithCRLF = true) <;> rfl
  rw [joined, joined, makeItem_cas]
  refine bind_map_comm fun i => ?_
  rw [append_setCas]
  refine bind_map_comm fun i => ?_
  rw [append_setCas]
  exact bind_map_comm hcheck

theorem replacement_cas (old : Option Item) (item : Item) (policy : UpdatePolicy) (cas : ℕ) :
    replacement old item policy cas =
      (replacement old item policy 0).map (Option.map (Item.setCas · cas)) := by
  cases policy <;> cases old <;> try rfl
  · simp only [replacement]
    rw [joined_cas]
    cases joined _ item .append 0 <;> rfl
  · simp only [replacement]
    rw [joined_cas]
    cases joined _ item .prepend 0 <;> rfl
  · simp only [replacement]
    split_ifs <;> rfl

theorem attempt_cas (old : Option Item) (item : Item) (policy : UpdatePolicy) (cas : ℕ) :
    attempt old item policy cas =
      (attempt old item policy 0).map (Option.map (Item.setCas · cas)) := by
  rw [attempt, attempt, replacement_cas]
  cases assertThat (item.neededBytes = 0) <;> rfl

theorem makeItem_ok {key : Bytes} {flags : ℕ} {relExptime valuelen : ℤ} {cas : ℕ} {new : Item}
    (h : Item.makeItem key flags relExptime valuelen cas = .ok new) :
    2 ≤ valuelen ∧ new = ⟨key, flags, relExptime, valuelen.toNat, [], cas⟩ := by
  obtain ⟨_, hassert, h⟩ := bind_eq_ok.mp h
  obtain ⟨_, -, h⟩ := bind_eq_ok.mp h
  cases h
  exact ⟨of_assertThat hassert, rfl⟩

theorem append_ok {i new : Item} {data : Bytes} (h : i.append data = .ok new) :
    new = { i with value := i.value ++ data } := by
  obtain ⟨_, -, h⟩ := bind_eq_ok.mp h
  cases h
  rfl

theorem joined_ok {old item new : Item} {policy : UpdatePolicy} {cas : ℕ}
    (h : joined old item policy cas = .ok new) :
    new = ⟨item.key, old.flags, old.relExptime, new.valuelen,
      (parts old item policy).1 ++ (parts old item policy).2, cas⟩ ∧ new.neededBytes = 0 := by
  obtain ⟨i₁, h₁, h⟩ := bind_eq_ok.mp h
  obtain ⟨i₂, h₂, h⟩ := bind_eq_ok.mp h
  obtain ⟨i₃, h₃, h⟩ := bind_eq_ok.mp h
  obtain ⟨_, hneeded, h⟩ := bind_eq_ok.mp h
  obtain ⟨_, -, h⟩ := bind_eq_ok.mp h
  cases h
  refine ⟨?_, of_assertThat hneeded⟩
  rw [append_ok h₃, append_ok h₂, (makeItem_ok h₁).2]
  simp

theorem attempt_ok {old : Option Item} {item new : Item} {policy : UpdatePolicy} {cas : ℕ}
    (h : attempt old item policy cas = .ok (some new)) : new.key = item.key ∧ new.cas = cas := by
  obtain ⟨_, -, h⟩ := bind_eq_ok.mp h
  have hset : ∀ {x : Item}, Except.ok (some (x.setCas cas)) = (.ok (some new) : Except Fault _) →
      new.key = x.key ∧ new.cas = cas := by
    intro x hx
    cases hx
    exact ⟨rfl, rfl⟩
  have hjoined : ∀ {x : Item} {p : UpdatePolicy}, (joined x item p cas).map some = .ok (some new) →
      new.key = item.key ∧ new.cas = cas := by
    intro x p hx
    cases hj : joined x item p cas with
    | error e => simp [hj, Except.map] at hx
    | ok i =>
      rw [hj] at hx
      cases hx
      rw [(joined_ok hj).1]
      exact ⟨rfl, rfl⟩
  cases policy <;> cases old <;> simp only [replacement] at h
  case set.none => exact hset h
  case set.some => exact hset h
  case add.none => exact hset h
  case replace.some => exact hset h
  case append.some => exact hjoined h
  case prepend.some => exact hjoined h
  case cas.some =>
    split_ifs at h
    · exact hset h
    · cases h
  all_goals cases h

end Number

/-- What the shards stand for. -/
@[ext] structure Table where
  items : Bytes → Option Item
  /-- how many items were stored -/
  stores : ℕ

namespace Table

def empty : Table := ⟨fun _ => none, 0⟩

def perform (t : Table) : Op → Table × Answer
  | .store item policy =>
    match attempt (t.items item.key) item policy (casNumber (t.stores + 1)) with
    | .error fault => (t, .crash fault)
    | .ok none => (t, .store false (t.items item.key).isSome)
    | .ok (some new) =>
      (⟨Function.update t.items item.key (some new), t.stores + 1⟩,
        .store true (t.items item.key).isSome)
  | .get key => (t, .item (t.items key))
  | .delete key =>
    ({ t with items := Function.update t.items key none }, .deleted (t.items key).isSome)

/-- Operations one after the other, each with its answer. -/
def performs {τ : Type} (t : Table) : List (τ × Op) → Table × List (τ × Op × Answer)
  | [] => (t, [])
  | (session, op) :: ops =>
    ((performs (t.perform op).1 ops).1,
      (session, op, (t.perform op).2) :: (performs (t.perform op).1 ops).2)

end Table

/-- No two items of a shard have the same key. -/
def Distinct (w : Striped.Whole ℕ (List Item)) : Prop :=
  ∀ shard, ((w.stripes shard).map Item.key).Nodup

/-- Each item is in the shard of its key. -/
def Placed (hash : Bytes → ℕ) (w : Striped.Whole ℕ (List Item)) : Prop :=
  ∀ shard, ∀ item ∈ w.stripes shard, MemcacheServer.shardOf hash item.key = shard

def tableOf (hash : Bytes → ℕ) (w : Striped.Whole ℕ (List Item)) : Table :=
  ⟨fun key => (w.stripes (MemcacheServer.shardOf hash key)).find? (hasKey key), w.counter⟩

section Shards

variable {hash : Bytes → ℕ} {items : List Item} {key : Bytes}

theorem find?_eraseP (hnodup : (items.map Item.key).Nodup) (key key' : Bytes) :
    (items.eraseP (hasKey key)).find? (hasKey key') =
      if key' = key then none else items.find? (hasKey key') := by
  induction items with
  | nil => simp
  | cons item items ih =>
    rw [List.map_cons, List.nodup_cons] at hnodup
    by_cases hkey : item.key = key
    · rw [List.eraseP_cons_of_pos (by simpa [hasKey] using hkey)]
      split_ifs with heq
      · rw [List.find?_eq_none]
        intro other hother
        have hne : other.key ≠ key' := fun h =>
          hnodup.1 (hkey.trans (heq.symm.trans h.symm) ▸ List.mem_map_of_mem hother)
        simpa [hasKey] using hne
      · have hne : item.key ≠ key' := fun h => heq (h.symm.trans hkey)
        rw [List.find?_cons_of_neg (by simpa [hasKey] using hne)]
    · rw [List.eraseP_cons_of_neg (by simpa [hasKey] using hkey)]
      by_cases hkey' : item.key = key'
      · have hne : key' ≠ key := fun h => hkey (hkey'.trans h)
        rw [List.find?_cons_of_pos (by simpa [hasKey] using hkey'), if_neg hne,
          List.find?_cons_of_pos (by simpa [hasKey] using hkey')]
      · rw [List.find?_cons_of_neg (by simpa [hasKey] using hkey'), ih hnodup.2,
          List.find?_cons_of_neg (by simpa [hasKey] using hkey')]

theorem nodup_eraseP (hnodup : (items.map Item.key).Nodup) (key : Bytes) :
    ((items.eraseP (hasKey key)).map Item.key).Nodup ∧
      key ∉ (items.eraseP (hasKey key)).map Item.key := by
  refine ⟨hnodup.sublist ((List.eraseP_sublist).map _), fun hmem => ?_⟩
  obtain ⟨item, hitem, rfl⟩ := List.mem_map.mp hmem
  have hnone := find?_eraseP hnodup item.key item.key
  rw [if_pos rfl, List.find?_eq_none] at hnone
  exact hnone item hitem (by simp [hasKey])

theorem mem_iff_find? (hnodup : (items.map Item.key).Nodup) (item : Item) :
    item ∈ items ↔ items.find? (hasKey item.key) = some item := by
  refine ⟨fun hitem => ?_, List.mem_of_find?_eq_some⟩
  have hsome : (items.find? (hasKey item.key)).isSome := by
    rw [List.find?_isSome]
    exact ⟨item, hitem, by simp [hasKey]⟩
  obtain ⟨other, hother⟩ := Option.isSome_iff_exists.mp hsome
  have hkey : other.key = item.key := by simpa [hasKey] using List.find?_some hother
  rw [hother, List.inj_on_of_nodup_map hnodup (List.mem_of_find?_eq_some hother) hitem hkey]

theorem find?_insert (item : Item) (hnodup : (items.map Item.key).Nodup) (key' : Bytes) :
    (item :: items.eraseP (hasKey item.key)).find? (hasKey key') =
      if key' = item.key then some item else items.find? (hasKey key') := by
  by_cases hkey : key' = item.key
  · rw [if_pos hkey, List.find?_cons_of_pos (by simp [hasKey, hkey])]
  · rw [if_neg hkey, List.find?_cons_of_neg (by simpa [hasKey] using Ne.symm hkey),
      find?_eraseP hnodup, if_neg hkey]

theorem act_tableOf (hash : Bytes → ℕ) {w : Striped.Whole ℕ (List Item)} (hd : Distinct w)
    (op : Op) :
    let shard := MemcacheServer.shardOf hash op.key
    let n := if op.numbered ((w.stripes shard).find? (hasKey op.key)) then w.counter + 1
      else w.counter
    let result := op.act (w.stripes shard) n
    (∀ key', result.1.find? (hasKey key') =
        if key' = op.key then ((tableOf hash w).perform op).1.items key'
        else (w.stripes shard).find? (hasKey key')) ∧
      (∀ key' ≠ op.key, ((tableOf hash w).perform op).1.items key' = (tableOf hash w).items key') ∧
      n = ((tableOf hash w).perform op).1.stores ∧
      result.2 = ((tableOf hash w).perform op).2 ∧ (result.1.map Item.key).Nodup := by
  intro shard n result
  have hnodup := hd shard
  have hold : (tableOf hash w).items op.key = (w.stripes shard).find? (hasKey op.key) := rfl
  have hself : ∀ key', (w.stripes shard).find? (hasKey key') =
      if key' = op.key then (tableOf hash w).items key'
      else (w.stripes shard).find? (hasKey key') := by
    intro key'
    split_ifs with hkey
    · rw [hkey, hold]
    · rfl
  cases op with
  | get key => exact ⟨hself, fun _ _ => rfl, rfl, rfl, hnodup⟩
  | delete key =>
    refine ⟨fun key' => ?_, fun key' hkey => Function.update_of_ne hkey _ _, rfl, rfl,
      (nodup_eraseP hnodup key).1⟩
    refine (find?_eraseP hnodup key key').trans (if_ctx_congr Iff.rfl (fun hkey => ?_) fun _ => rfl)
    rw [hkey]
    exact (Function.update_self (β := fun _ => Option Item) _ _ _).symm
  | store item policy =>
    obtain ⟨old, holdEq⟩ : ∃ old, (w.stripes shard).find? (hasKey item.key) = old := ⟨_, rfl⟩
    have hperform : (tableOf hash w).perform (.store item policy) =
        match attempt old item policy (casNumber (w.counter + 1)) with
        | .error fault => (tableOf hash w, .crash fault)
        | .ok none => (tableOf hash w, .store false old.isSome)
        | .ok (some new) =>
          (⟨Function.update (tableOf hash w).items item.key (some new), w.counter + 1⟩,
            .store true old.isSome) := by
      rw [← holdEq]
      rfl
    have hresult : result =
        match attempt old item policy (casNumber n) with
        | .error fault => (w.stripes shard, .crash fault)
        | .ok none => (w.stripes shard, .store false old.isSome)
        | .ok (some new) =>
          (new :: (w.stripes shard).eraseP (hasKey item.key), .store true old.isSome) := by
      rw [← holdEq]
      rfl
    have hn : n = if (Op.store item policy).numbered old then w.counter + 1 else w.counter := by
      rw [← holdEq]
      rfl
    rw [attempt_cas] at hperform hresult
    cases hattempt : attempt old item policy 0 with
    | error fault =>
      have hn : n = w.counter := by rw [hn, Op.numbered, hattempt]; rfl
      rw [hattempt] at hperform hresult
      rw [hperform, hresult, hn]
      exact ⟨hself, fun _ _ => rfl, rfl, rfl, hnodup⟩
    | ok found =>
      cases found with
      | none =>
        have hn : n = w.counter := by rw [hn, Op.numbered, hattempt]; rfl
        rw [hattempt] at hperform hresult
        rw [hperform, hresult, hn]
        exact ⟨hself, fun _ _ => rfl, rfl, rfl, hnodup⟩
      | some new =>
        have hn : n = w.counter + 1 := by rw [hn, Op.numbered, hattempt]; rfl
        have hkey : new.key = item.key := (attempt_ok hattempt).1
        rw [hattempt, hn] at hresult
        rw [hattempt] at hperform
        rw [hperform, hresult, hn]
        refine ⟨fun key' => ?_, fun key' hne => Function.update_of_ne hne _ _, rfl, rfl, ?_⟩
        · have hinsert := find?_insert (new.setCas (casNumber (w.counter + 1))) hnodup key'
          rw [show (new.setCas (casNumber (w.counter + 1))).key = item.key from hkey] at hinsert
          refine hinsert.trans (if_ctx_congr Iff.rfl (fun heq => ?_) fun _ => rfl)
          rw [heq]
          exact (Function.update_self (β := fun _ => Option Item) _ _ _).symm
        · obtain ⟨herase, hnot⟩ := nodup_eraseP hnodup item.key
          exact List.nodup_cons.mpr ⟨hkey ▸ hnot, herase⟩

theorem atomic_tableOf (hash : Bytes → ℕ) {w : Striped.Whole ℕ (List Item)} (hd : Distinct w)
    (op : Op) :
    tableOf hash ((striped hash).atomic w op).1 = ((tableOf hash w).perform op).1 ∧
      ((striped hash).atomic w op).2 = ((tableOf hash w).perform op).2 ∧
      Distinct ((striped hash).atomic w op).1 := by
  obtain ⟨hfind, hother, hstores, hanswer, hnodup⟩ := act_tableOf hash hd op
  refine ⟨Table.ext (funext fun key' => ?_) hstores, hanswer, fun shard => ?_⟩
  · show (Function.update w.stripes (MemcacheServer.shardOf hash op.key) _
      (MemcacheServer.shardOf hash key')).find? (hasKey key') = _
    by_cases hkey : key' = op.key
    · rw [hkey, Function.update_self]
      exact (hfind op.key).trans (if_pos rfl)
    · rw [hother key' hkey]
      by_cases hshard : MemcacheServer.shardOf hash key' = MemcacheServer.shardOf hash op.key
      · rw [hshard, Function.update_self]
        refine (hfind key').trans ((if_neg hkey).trans ?_)
        rw [← hshard]
        rfl
      · rw [Function.update_of_ne hshard]
        rfl
  · show ((Function.update w.stripes (MemcacheServer.shardOf hash op.key) _ shard).map
      Item.key).Nodup
    by_cases hshard : shard = MemcacheServer.shardOf hash op.key
    · rw [hshard, Function.update_self]
      exact hnodup
    · rw [Function.update_of_ne hshard]
      exact hd shard

/-- An operation leaves only items with its own key in a shard, beside those that were there. -/
theorem mem_act {op : Op} {n : ℕ} {item : Item} (h : item ∈ (op.act items n).1) :
    item.key = op.key ∨ item ∈ items := by
  cases op with
  | get key => exact .inr h
  | delete key => exact .inr (List.mem_of_mem_eraseP h)
  | store new policy =>
    rw [Op.act] at h
    split at h
    · exact .inr h
    · exact .inr h
    · next hattempt =>
      obtain rfl | hold := List.mem_cons.mp h
      · exact .inl (attempt_ok hattempt).1
      · exact .inr (List.mem_of_mem_eraseP hold)

theorem atomic_placed {w : Striped.Whole ℕ (List Item)} (hp : Placed hash w) (op : Op) :
    Placed hash ((striped hash).atomic w op).1 := by
  intro shard item hitem
  have hitem : item ∈ Function.update w.stripes (MemcacheServer.shardOf hash op.key) _ shard :=
    hitem
  by_cases hshard : shard = MemcacheServer.shardOf hash op.key
  · rw [hshard, Function.update_self] at hitem
    obtain hkey | hold := mem_act hitem
    · rw [hkey, hshard]
    · exact (hp _ item hold).trans hshard.symm
  · rw [Function.update_of_ne hshard] at hitem
    exact hp shard item hitem

theorem atomics_tableOf (hash : Bytes → ℕ) {τ : Type} {w : Striped.Whole ℕ (List Item)}
    (hd : Distinct w) (hp : Placed hash w) (ops : List (τ × Op)) :
    tableOf hash ((striped hash).atomics w ops).1 = ((tableOf hash w).performs ops).1 ∧
      ((striped hash).atomics w ops).2 = ((tableOf hash w).performs ops).2 ∧
      Distinct ((striped hash).atomics w ops).1 ∧ Placed hash ((striped hash).atomics w ops).1 := by
  induction ops generalizing w with
  | nil => exact ⟨rfl, rfl, hd, hp⟩
  | cons op ops ih =>
    obtain ⟨htable, hanswer, hd'⟩ := atomic_tableOf hash hd op.2
    obtain ⟨hrest, hanswers, hkept⟩ := ih hd' (atomic_placed hp op.2)
    rw [Striped.atomics, Table.performs, ← htable, ← hanswer, hrest, hanswers]
    exact ⟨rfl, rfl, hkept⟩

/-- The functions of the server are the operations on its shards. -/
theorem atomic_perform (s : MemcacheServer) (op : Op) :
    (striped hash).atomic s.whole op = ((s.perform hash op).1.whole, (s.perform hash op).2) := by
  have hsame : ∀ shard n, (⟨Function.update s.shards shard (s.shards shard), n⟩ :
      Striped.Whole ℕ (List Item)) = ⟨s.shards, n⟩ := by
    intro shard n
    rw [Function.update_eq_self]
  cases op with
  | get key => exact Prod.ext (hsame _ _) rfl
  | delete key => rfl
  | store item policy =>
    obtain ⟨old, hold⟩ : ∃ old, (s.shards (MemcacheServer.shardOf hash item.key)).find?
      (hasKey item.key) = old := ⟨_, rfl⟩
    cases hattempt : attempt old item policy 0 with
    | error fault =>
      have hcas : ∀ cas, attempt old item policy cas = .error fault := fun cas => by
        rw [attempt_cas, hattempt]
        rfl
      simp [Striped.atomic, striped, Op.numbered, Op.act, MemcacheServer.perform,
        MemcacheServer.storeItem, MemcacheServer.whole, Op.key, hold, hcas]
    | ok found =>
      have hcas : ∀ cas, attempt old item policy cas = .ok (found.map (Item.setCas · cas)) :=
        fun cas => by
          rw [attempt_cas, hattempt]
          rfl
      cases found with
      | none =>
        simp [Striped.atomic, striped, Op.numbered, Op.act, MemcacheServer.perform,
          MemcacheServer.storeItem, MemcacheServer.whole, Op.key, hold, hcas]
      | some new =>
        simp [Striped.atomic, striped, Op.numbered, Op.act, MemcacheServer.perform,
          MemcacheServer.storeItem, MemcacheServer.whole, Op.key, hold, hcas]

end Shards

/-- A server without items, and no session in `storeItem`, `getItem` or `deleteItem`. -/
def idle : Striped.Locking ℕ ℕ (List Item) Op Answer := ⟨⟨fun _ => [], 0⟩, fun _ => none, []⟩

/-- Whatever the hash function and the order in which the sessions take the locks of the shards,
the numbers and the items: when all have finished, each of them has got the answer that one
table gives when the operations are carried out one after the other, and the shards hold exactly
the items of that table, each in the shard of its key and each key once. -/
theorem sessions_see_one_table (hash : Bytes → ℕ) (moves : List (Striped.Move ℕ ℕ Op))
    {t : Striped.Locking ℕ ℕ (List Item) Op Answer}
    (hp : (striped hash).threads.Permits idle moves)
    (hr : (striped hash).threads.run idle moves = .ok t) (hend : ∀ shard, t.held shard = none) :
    tableOf hash t.whole = (Table.empty.performs ((striped hash).order idle moves)).1 ∧
      t.answers.Perm (Table.empty.performs ((striped hash).order idle moves)).2 ∧
      (∀ shard, ((t.whole.stripes shard).map Item.key).Nodup) ∧
      ∀ shard item, item ∈ t.whole.stripes shard ↔
        MemcacheServer.shardOf hash item.key = shard ∧
        (Table.empty.performs ((striped hash).order idle moves)).1.items item.key = some item := by
  obtain ⟨hwhole, hanswers⟩ := Striped.linearizable (fun _ => rfl) rfl hp hr hend
  have hdistinct : Distinct idle.whole := fun _ => List.nodup_nil
  have hplaced : Placed hash idle.whole := fun _ _ => nofun
  obtain ⟨htable, hlist, hdistinct, hplaced⟩ :=
    atomics_tableOf hash hdistinct hplaced ((striped hash).order idle moves)
  rw [← hwhole] at htable hdistinct hplaced
  refine ⟨htable, hlist ▸ hanswers, hdistinct, fun shard item => ?_⟩
  have hfind : (Table.empty.performs ((striped hash).order idle moves)).1.items item.key =
      (t.whole.stripes (MemcacheServer.shardOf hash item.key)).find? (hasKey item.key) :=
    congrFun (congrArg Table.items htable.symm) item.key
  rw [hfind, ← mem_iff_find? (hdistinct _)]
  constructor
  · intro hitem
    have hshard := hplaced shard item hitem
    exact ⟨hshard, by rwa [hshard]⟩
  · rintro ⟨rfl, hitem⟩
    exact hitem

/-- Two sessions whose keys are in different shards. The second one takes its number first. -/
theorem sessions_see_one_table_overlapping :
    let a : Item := ⟨ascii "a", 0, 0, 3, ascii "1\r\n", 0⟩
    let b : Item := ⟨ascii "bb", 0, 0, 3, ascii "2\r\n", 0⟩
    let moves : List (Striped.Move ℕ ℕ Op) :=
      [.lock 0 (.store a .set), .lock 1 (.store b .add), .number 2, .number 1, .finish 1, .finish 2]
    ∃ t, (striped List.length).threads.run idle moves = .ok t ∧
      t.answers.Perm (Table.empty.performs [(1, .store b .add), (0, .store a .set)]).2 ∧
      (t.whole.stripes 1 = [a.setCas 2] ∧ t.whole.stripes 2 = [b.setCas 1]) := by
  intro a b moves
  refine ⟨_, rfl, (sessions_see_one_table List.length moves ?_ rfl ?_).2.1, rfl, rfl⟩
  · exact ⟨rfl, rfl, ⟨_, rfl, rfl, by decide⟩, ⟨_, rfl, rfl, by decide⟩, ⟨_, rfl, nofun⟩,
      ⟨_, rfl, nofun⟩, trivial⟩
  · intro shard
    by_cases h₁ : shard = 1
    · subst h₁
      rfl
    · by_cases h₂ : shard = 2
      · subst h₂
        rfl
      · have hlocked : ∀ {f : ℕ → Option (Striped.Held ℕ Op)} {k v}, f shard = none →
            k ≠ shard → Function.update f k v shard = none := fun hf hk =>
          (Function.update_of_ne (Ne.symm hk) _ _).trans hf
        exact hlocked (hlocked (hlocked (hlocked (hlocked (hlocked rfl (Ne.symm h₁)) (Ne.symm h₂))
          (Ne.symm h₂)) (Ne.symm h₁)) (Ne.symm h₁)) (Ne.symm h₂)

/-- The operation has changed what the table holds for the key. -/
def changes {τ : Type} (key : Bytes) : τ × Op × Answer → Bool
  | (_, op, .store done _) => op.key = key ∧ done
  | (_, op, .deleted done) => op.key = key ∧ done
  | _ => false

section Cas

variable {τ : Type} {t : Table} {key : Bytes}

theorem casNumber_of_lt {n : ℕ} (h : n < 2 ^ 64) : casNumber n = n := Nat.mod_eq_of_lt h

/-- One operation, seen from one key: the table has the same item as before, or it has none or
one with the latest number. -/
theorem perform_cases (t : Table) (session : τ) (op : Op) (key : Bytes) :
    t.stores ≤ (t.perform op).1.stores ∧
      if changes key (session, op, (t.perform op).2) then
        ∀ item, (t.perform op).1.items key = some item →
          t.stores < (t.perform op).1.stores ∧ item.cas = casNumber (t.perform op).1.stores
      else (t.perform op).1.items key = t.items key := by
  cases op with
  | get key' => simp [Table.perform, changes]
  | delete key' =>
    by_cases hkey : key' = key
    · subst hkey
      cases hold : t.items key' <;> simp [Table.perform, changes, Op.key, hold]
    · simp [Table.perform, changes, Op.key, hkey, Function.update_of_ne (Ne.symm hkey)]
  | store item policy =>
    cases hattempt : attempt (t.items item.key) item policy (casNumber (t.stores + 1)) with
    | error fault => simp [Table.perform, hattempt, changes]
    | ok found =>
      cases found with
      | none => simp [Table.perform, hattempt, changes]
      | some new =>
        by_cases hkey : item.key = key
        · subst hkey
          simp [Table.perform, hattempt, changes, Op.key, (attempt_ok hattempt).2]
        · simp [Table.perform, hattempt, changes, Op.key, hkey,
            Function.update_of_ne (Ne.symm hkey)]

theorem performs_cases (t : Table) (ops : List (τ × Op)) (key : Bytes) :
    t.stores ≤ (t.performs ops).1.stores ∧
      if ∀ entry ∈ (t.performs ops).2, changes key entry = false then
        (t.performs ops).1.items key = t.items key
      else ∀ item, (t.performs ops).1.items key = some item →
        ∃ n, t.stores < n ∧ n ≤ (t.performs ops).1.stores ∧ item.cas = casNumber n := by
  induction ops generalizing t with
  | nil => simp [Table.performs]
  | cons op ops ih =>
    obtain ⟨session, op⟩ := op
    obtain ⟨hle, hstep⟩ := perform_cases t session op key
    obtain ⟨hle', hrest⟩ := ih (t.perform op).1
    refine ⟨hle.trans hle', ?_⟩
    simp only [Table.performs, List.forall_mem_cons]
    by_cases hall : ∀ entry ∈ ((t.perform op).1.performs ops).2, changes key entry = false
    · rw [if_pos hall] at hrest
      by_cases hfirst : changes key (session, op, (t.perform op).2) = false
      · rw [hfirst, if_neg (by simp)] at hstep
        rw [if_pos ⟨hfirst, hall⟩, hrest, hstep]
      · rw [Bool.not_eq_false] at hfirst
        rw [if_pos hfirst] at hstep
        rw [if_neg (by simp [hfirst]), hrest]
        intro item hitem
        exact ⟨_, (hstep item hitem).1, hle', (hstep item hitem).2⟩
    · rw [if_neg hall] at hrest
      rw [if_neg fun h => hall h.2]
      intro item hitem
      obtain ⟨n, hlt, hn, hcas⟩ := hrest item hitem
      exact ⟨n, hle.trans_lt hlt, hn, hcas⟩

/-- A `cas` with the number that an item got when it was stored succeeds exactly if nothing has
changed the key since, by any session, as long as the counter has not come round. -/
theorem cas_succeeds_iff_unchanged (t : Table) {item item' : Item} (policy : UpdatePolicy)
    (existed : Bool) (ops : List (τ × Op))
    (hstore : (t.perform (.store item policy)).2 = .store true existed)
    (hkey : item'.key = item.key)
    (hcas : item'.cas = casNumber (t.perform (.store item policy)).1.stores)
    (hvalue : item'.neededBytes = 0)
    (hfew : ((t.perform (.store item policy)).1.performs ops).1.stores < 2 ^ 64) :
    (((t.perform (.store item policy)).1.performs ops).1.perform (.store item' .cas)).2 =
        .store true true ↔
      ∀ entry ∈ ((t.perform (.store item policy)).1.performs ops).2,
        changes item.key entry = false := by
  obtain ⟨new, hnew, hitems⟩ : ∃ new : Item,
      new.cas = casNumber (t.perform (.store item policy)).1.stores ∧
      (t.perform (.store item policy)).1.items item.key = some new := by
    cases hattempt : attempt (t.items item.key) item policy (casNumber (t.stores + 1)) with
    | error fault => simp [Table.perform, hattempt] at hstore
    | ok found =>
      cases found with
      | none => simp [Table.perform, hattempt] at hstore
      | some new =>
        refine ⟨new, ?_, ?_⟩
        · simp [Table.perform, hattempt, (attempt_ok hattempt).2]
        · simp [Table.perform, hattempt]
  set u := (t.perform (.store item policy)).1
  obtain ⟨hle, hcases⟩ := performs_cases u ops item.key
  -- the outcome is decided by the number of the item that is there
  have hattempt : ∀ old : Option Item,
      attempt old item' .cas (casNumber ((u.performs ops).1.stores + 1)) =
        .ok (if (old.map Item.cas) = some item'.cas then
          some (item'.setCas (casNumber ((u.performs ops).1.stores + 1))) else none) := by
    intro old
    rw [attempt, assertThat_pos hvalue, ok_bind]
    cases old with
    | none => rfl
    | some old =>
      simp only [replacement, Option.map_some, Option.some.injEq]
      split_ifs <;> rfl
  have hresult : ((u.performs ops).1.perform (.store item' .cas)).2 = .store true true ↔
      ((u.performs ops).1.items item.key).map Item.cas = some item'.cas := by
    simp only [Table.perform, hattempt, hkey]
    cases hold : (u.performs ops).1.items item.key with
    | none => simp
    | some old =>
      simp only [Option.map_some, Option.some.injEq, Option.isSome_some]
      split_ifs with heq <;> simp [heq]
  rw [hresult]
  constructor
  · intro heq
    by_contra hchanged
    rw [if_neg hchanged] at hcases
    cases hold : (u.performs ops).1.items item.key with
    | none => simp [hold] at heq
    | some old =>
      obtain ⟨n, hlt, hn, hnumber⟩ := hcases old hold
      rw [hold, Option.map_some, Option.some.injEq, hnumber, hcas,
        casNumber_of_lt (hn.trans_lt hfew), casNumber_of_lt (hle.trans_lt hfew)] at heq
      omega
  · intro hall
    rw [if_pos hall] at hcases
    rw [hcases, hitems, Option.map_some, hnew, hcas]

/-- The item is replaced before the `cas` arrives. -/
theorem cas_succeeds_iff_unchanged_replaced :
    let a : Item := ⟨ascii "a", 0, 0, 3, ascii "1\r\n", 0⟩
    ((((Table.empty.perform (.store a .set)).1.performs [((), .store a .set)]).1.perform
        (.store { a with cas := 1 } .cas)).2 = .store true true) ↔
      ∀ entry ∈ ((Table.empty.perform (.store a .set)).1.performs [((), .store a .set)]).2,
        changes (ascii "a") entry = false :=
  cas_succeeds_iff_unchanged Table.empty .set false
    [((), .store ⟨ascii "a", 0, 0, 3, ascii "1\r\n", 0⟩ .set)] (by decide) rfl (by decide)
    (by decide) (by decide)

end Cas
end Memcached
end Muduo
