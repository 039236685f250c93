import Muduo.Foundations.OrderedMap
import Muduo.Http.HttpServer
import Muduo.Inspect.Path

/-!
# The inspector

Modules register commands with a callback and a line of help, and a request for
`/module/command/args` is answered by the callback. Callbacks and help are kept in two maps.
What they stand for is one table of the registered commands; `/` lists it, and every other
request is answered from it.
-/

namespace Muduo

open Foundations

namespace Inspector

abbrev ArgList := List Bytes

/-- A `boost::function` may be empty. -/
abbrev Callback := Option (HttpRequest.Method → ArgList → Bytes)

end Inspector

open Inspector in
structure Inspector where
  modules : OrderedMap Bytes (OrderedMap Bytes Callback)
  helps : OrderedMap Bytes (OrderedMap Bytes Bytes)

namespace Inspector

def init : Inspector := ⟨.empty, .empty⟩

variable (s : Inspector)

def add (module command : Bytes) (cb : Callback) (help : Bytes) : Inspector where
  modules := s.modules.assign module (((s.modules.find module).getD .empty).assign command cb)
  helps := s.helps.assign module (((s.helps.find module).getD .empty).assign command help)

def remove (module command : Bytes) : Inspector :=
  match s.modules.find module with
  | none => s
  | some commands =>
    { modules := s.modules.assign module (commands.erase command)
      helps := s.helps.assign module (((s.helps.find module).getD .empty).erase command) }

def helpLine (module command help : Bytes) : Bytes :=
  let len := module.length + command.length
  ascii "/" ++ module ++ ascii "/" ++ command ++
    List.replicate (if 25 ≤ len then 1 else 25 - len) 32 ++ help ++ ascii "\n"

def helpPage : Bytes :=
  s.helps.entries.flatMap fun helpList =>
    helpList.2.entries.flatMap fun it => helpLine helpList.1 it.1 it.2

/-- The setters called for a request that is answered. -/
def respond (resp : HttpResponse) (contentType body : Bytes) : HttpResponse :=
  { resp with
    statusCode := .k200Ok
    statusMessage := ascii "OK"
    headers := mapSet (ascii "Content-Type") contentType resp.headers
    body := body }

def notFound (resp : HttpResponse) : HttpResponse :=
  { resp with statusCode := .k404NotFound, statusMessage := ascii "Not Found" }

/-- `favicon` is the picture of the source. -/
def onRequest (favicon : Bytes) (req : HttpRequest) (resp : HttpResponse) : HttpResponse :=
  if req.path = ascii "/" then respond resp (ascii "text/plain") s.helpPage
  else
    match split req.path with
    | [] => notFound resp
    | [module] =>
      if module = ascii "favicon.ico" then respond resp (ascii "image/png") favicon
      else notFound resp
    | module :: command :: args =>
      match s.modules.find module with
      | none => notFound resp
      | some commList =>
        match commList.find command with
        | some (some cb) => respond resp (ascii "text/plain") (cb req.method args)
        | some none | none => notFound resp

inductive Op where
  | add (module command : Bytes) (cb : Callback) (help : Bytes)
  | remove (module command : Bytes)

def step : Op → Inspector
  | .add module command cb help => s.add module command cb help
  | .remove module command => s.remove module command

def run (ops : List Op) : Inspector := ops.foldl step init

abbrev Registry := Bytes → Bytes → Option (Callback × Bytes)

def Registry.step (r : Registry) : Op → Registry
  | .add module command cb help =>
    fun m c => if m = module ∧ c = command then some (cb, help) else r m c
  | .remove module command => fun m c => if m = module ∧ c = command then none else r m c

def Registry.run (ops : List Op) : Registry := ops.foldl Registry.step fun _ _ => none

/-- The type and the body of an answer to a request other than `/`, by the parts of its
path. -/
def Registry.answer (r : Registry) (favicon : Bytes) (method : HttpRequest.Method) :
    List Bytes → Option (Bytes × Bytes)
  | [] => none
  | [module] => if module = ascii "favicon.ico" then some (ascii "image/png", favicon) else none
  | module :: command :: args =>
    (r module command).bind fun entry =>
      entry.1.map fun cb => (ascii "text/plain", cb method args)

def find₂ {ν : Type} (m : OrderedMap Bytes (OrderedMap Bytes ν)) (module command : Bytes) :
    Option ν :=
  (m.find module).bind (·.find command)

/-- Both maps hold the table. -/
structure Holds (s : Inspector) (r : Registry) : Prop where
  callback : ∀ m c, find₂ s.modules m c = (r m c).map Prod.fst
  help : ∀ m c, find₂ s.helps m c = (r m c).map Prod.snd

section Maps

variable {ν : Type} (m : OrderedMap Bytes (OrderedMap Bytes ν)) (module command : Bytes)

theorem find₂_update {change : OrderedMap Bytes ν → OrderedMap Bytes ν} {value : Option ν}
    (hchange : ∀ commands c, (change commands).find c =
      if c = command then value else commands.find c) (k c : Bytes) :
    find₂ (m.assign module (change ((m.find module).getD .empty))) k c =
      if k = module ∧ c = command then value else find₂ m k c := by
  rw [find₂, OrderedMap.find_assign]
  by_cases hk : k = module
  · subst hk
    rw [if_pos rfl, Option.bind_some, hchange, find₂]
    cases m.find k with
    | none => simp
    | some commands => simp
  · rw [if_neg hk, if_neg fun h => hk h.1]
    rfl

theorem find₂_assign (value : ν) (k c : Bytes) :
    find₂ (m.assign module (((m.find module).getD .empty).assign command value)) k c =
      if k = module ∧ c = command then some value else find₂ m k c :=
  find₂_update m module command (fun commands c => commands.find_assign command c value) k c

theorem find₂_erase (k c : Bytes) :
    find₂ (m.assign module (((m.find module).getD .empty).erase command)) k c =
      if k = module ∧ c = command then none else find₂ m k c :=
  find₂_update m module command (fun commands c => commands.find_erase command c) k c

end Maps

theorem holds_init : Holds init fun _ _ => none := ⟨fun _ _ => rfl, fun _ _ => rfl⟩

variable {s} {r : Registry}

theorem Holds.step (h : Holds s r) (op : Op) : Holds (s.step op) (r.step op) := by
  cases op with
  | add module command cb help =>
    constructor
    · intro m c
      rw [Inspector.step, add, find₂_assign, h.callback]
      simp only [Registry.step]
      split_ifs <;> rfl
    · intro m c
      rw [Inspector.step, add, find₂_assign, h.help]
      simp only [Registry.step]
      split_ifs <;> rfl
  | remove module command =>
    cases hfind : s.modules.find module with
    | none =>
      have hnone : ∀ c, r module c = none := by
        intro c
        have hc := h.callback module c
        rw [find₂, hfind] at hc
        exact Option.map_eq_none_iff.mp hc.symm
      have hsame : r.step (.remove module command) = r := by
        funext m c
        simp only [Registry.step]
        split_ifs with hmc
        · rw [hmc.1, hnone]
        · rfl
      rw [hsame, Inspector.step, remove, hfind]
      exact h
    | some commands =>
      have hcommands : commands = (s.modules.find module).getD .empty := by rw [hfind]; rfl
      rw [Inspector.step, remove, hfind]
      constructor
      · intro m c
        show find₂ (s.modules.assign module (commands.erase command)) m c = _
        rw [hcommands, find₂_erase, h.callback]
        simp only [Registry.step]
        split_ifs <;> rfl
      · intro m c
        show find₂ (s.helps.assign module _) m c = _
        rw [find₂_erase, h.help]
        simp only [Registry.step]
        split_ifs <;> rfl

theorem holds_run (ops : List Op) : Holds (run ops) (Registry.run ops) := by
  induction ops using List.reverseRecOn with
  | nil => exact holds_init
  | append_singleton ops op ih =>
    rw [run, Registry.run, List.foldl_append, List.foldl_append]
    exact ih.step op

theorem Holds.onRequest (h : Holds s r) (favicon : Bytes) (req : HttpRequest)
    (resp : HttpResponse) (hpath : req.path ≠ ascii "/") :
    s.onRequest favicon req resp =
      match r.answer favicon req.method (split req.path) with
      | some (contentType, body) => respond resp contentType body
      | none => notFound resp := by
  rw [Inspector.onRequest, if_neg hpath]
  match split req.path with
  | [] => rfl
  | [module] =>
    simp only [Registry.answer]
    split_ifs <;> rfl
  | module :: command :: args =>
    have hcallback := h.callback module command
    simp only [Registry.answer]
    rw [find₂] at hcallback
    cases hmodule : s.modules.find module with
    | none =>
      rw [hmodule] at hcallback
      rw [Option.map_eq_none_iff.mp hcallback.symm]
      rfl
    | some commands =>
      rw [hmodule, Option.bind_some] at hcallback
      simp only [hcallback]
      cases r module command with
      | none => rfl
      | some entry =>
        obtain ⟨cb, help⟩ := entry
        cases cb <;> rfl

/-- The list has every registered command once, ordered by module and command. -/
theorem Holds.helpPage (h : Holds s r) :
    ∃ lines : List ((Bytes × Bytes) × Bytes),
      (lines.Pairwise fun x y => x.1.1 < y.1.1 ∨ x.1.1 = y.1.1 ∧ x.1.2 < y.1.2) ∧
      (∀ m c help, ((m, c), help) ∈ lines ↔ ∃ cb, r m c = some (cb, help)) ∧
      s.helpPage = lines.flatMap fun line => helpLine line.1.1 line.1.2 line.2 := by
  refine ⟨s.helps.entries.flatMap fun helpList =>
    helpList.2.entries.map fun it => ((helpList.1, it.1), it.2), ?_, ?_, ?_⟩
  · rw [List.pairwise_flatMap]
    constructor
    · intro helpList _
      exact helpList.2.sorted.map _ fun _ _ hlt => .inr ⟨rfl, hlt⟩
    · refine s.helps.sorted.imp fun hlt x hx y hy => ?_
      obtain ⟨it, -, rfl⟩ := List.mem_map.mp hx
      obtain ⟨it', -, rfl⟩ := List.mem_map.mp hy
      exact .inl hlt
  · intro m c help
    have hmem : ((m, c), help) ∈ (s.helps.entries.flatMap fun helpList =>
        helpList.2.entries.map fun it => ((helpList.1, it.1), it.2)) ↔
          find₂ s.helps m c = some help := by
      rw [find₂, Option.bind_eq_some_iff, List.mem_flatMap]
      constructor
      · rintro ⟨⟨module, list⟩, hmodule, hline⟩
        obtain ⟨⟨command, text⟩, hcommand, heq⟩ := List.mem_map.mp hline
        cases heq
        exact ⟨list, OrderedMap.mem_entries_iff.mp hmodule, OrderedMap.mem_entries_iff.mp hcommand⟩
      · rintro ⟨list, hmodule, hcommand⟩
        exact ⟨(m, list), OrderedMap.mem_entries_iff.mpr hmodule,
          List.mem_map.mpr ⟨(c, help), OrderedMap.mem_entries_iff.mpr hcommand, rfl⟩⟩
    rw [hmem, h.help, Option.map_eq_some_iff]
    constructor
    · rintro ⟨⟨cb, text⟩, hentry, rfl⟩
      exact ⟨cb, hentry⟩
    · rintro ⟨cb, hentry⟩
      exact ⟨(cb, help), hentry, rfl⟩
  · simp only [Inspector.helpPage, List.flatMap_assoc, List.flatMap_map]

/-- However commands were added and removed, requests are answered from the table of those
that are registered then. -/
theorem requests_are_answered_from_registry (ops : List Op) (favicon : Bytes) (req : HttpRequest)
    (resp : HttpResponse) :
    (req.path = ascii "/" → ∃ lines : List ((Bytes × Bytes) × Bytes),
      (lines.Pairwise fun x y => x.1.1 < y.1.1 ∨ x.1.1 = y.1.1 ∧ x.1.2 < y.1.2) ∧
      (∀ m c help, ((m, c), help) ∈ lines ↔ ∃ cb, Registry.run ops m c = some (cb, help)) ∧
      (run ops).onRequest favicon req resp = respond resp (ascii "text/plain")
        (lines.flatMap fun line => helpLine line.1.1 line.1.2 line.2)) ∧
    (req.path ≠ ascii "/" → (run ops).onRequest favicon req resp =
      match (Registry.run ops).answer favicon req.method (split req.path) with
      | some (contentType, body) => respond resp contentType body
      | none => notFound resp) := by
  constructor
  · intro hpath
    obtain ⟨lines, hsorted, hmem, hpage⟩ := (holds_run ops).helpPage
    refine ⟨lines, hsorted, hmem, ?_⟩
    rw [Inspector.onRequest, if_pos hpath, hpage]
  · exact (holds_run ops).onRequest favicon req resp

end Inspector
end Muduo
