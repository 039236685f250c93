import Mathlib.Tactic

/-!
# Machines whose steps may fault

A machine takes one action at a time from its environment. An action is
admissible or not in the present state, and an admissible action may still
fault: an assertion of the modelled program fails, an exception leaves it, it
touches memory outside an array, or one of its loops never ends. The rules below
package the induction over a run once, so that each safety result is a fact
about a single step.
-/

namespace Foundations

universe u

/-- The ways in which a modelled call fails to return. -/
inductive Fault where
  | assertion
  | exception
  | outOfBounds
  | endless
  deriving DecidableEq, Repr

/-- An assertion of the program text. -/
def assertThat (p : Prop) [Decidable p] : Except Fault Unit :=
  if p then .ok () else .error .assertion

@[simp] theorem assertThat_pos {p : Prop} [Decidable p] (h : p) : assertThat p = .ok () :=
  if_pos h

@[simp] theorem assertThat_neg {p : Prop} [Decidable p] (h : ¬ p) :
    assertThat p = .error .assertion :=
  if_neg h

theorem of_assertThat {p : Prop} [Decidable p] {u : Unit} (h : assertThat p = .ok u) : p := by
  by_contra hp
  rw [assertThat_neg hp] at h
  cases h

section Bind

variable {ε : Type*} {α β : Type u}

@[simp] theorem ok_bind (a : α) (f : α → Except ε β) :
    (Except.ok a >>= f) = f a := rfl

@[simp] theorem error_bind (e : ε) (f : α → Except ε β) :
    (Except.error e >>= f) = .error e := rfl

@[simp] theorem pure_eq_ok (a : α) : (pure a : Except ε α) = .ok a := rfl

theorem bind_eq_ok {x : Except ε α} {f : α → Except ε β} {b : β} :
    (x >>= f) = .ok b ↔ ∃ a, x = .ok a ∧ f a = .ok b := by
  cases x with
  | error e => simp
  | ok a => simp

theorem exists_ok_of_map {γ : Type*} {x : Except ε α} {f : α → γ} {b : γ}
    (h : x.toOption.map f = some b) : ∃ a, x = .ok a ∧ f a = b := by
  cases x with
  | error e => cases h
  | ok a => exact ⟨a, rfl, Option.some.inj h⟩

def faultOf : Except ε α → Option ε
  | .ok _ => none
  | .error e => some e

theorem eq_error_of_faultOf {x : Except ε α} {e : ε} (h : faultOf x = some e) : x = .error e := by
  cases x with
  | ok a => cases h
  | error e' => rw [Option.some.inj h]

end Bind

/-- States, actions, the actions the environment may take, and their effect. -/
structure Machine (σ α ε : Type*) where
  Allows : σ → α → Prop
  step : σ → α → Except ε σ

namespace Machine

variable {σ α ε τ : Type*} (M : Machine σ α ε)

def run (s : σ) : List α → Except ε σ
  | [] => .ok s
  | a :: as =>
    match M.step s a with
    | .ok t => run t as
    | .error e => .error e

/-- Every action is admissible in the state in which it is taken. Nothing is
asked of the actions behind a fault, and no step is assumed to succeed. -/
def Permits (s : σ) : List α → Prop
  | [] => True
  | a :: as => M.Allows s a ∧
    match M.step s a with
    | .ok t => Permits t as
    | .error _ => True

instance decidablePermits [∀ s a, Decidable (M.Allows s a)] (s : σ) :
    (as : List α) → Decidable (M.Permits s as)
  | [] => .isTrue trivial
  | a :: as =>
    have : Decidable (match M.step s a with
        | .ok t => M.Permits t as
        | .error _ => True) :=
      match M.step s a with
      | .ok t => decidablePermits t as
      | .error _ => .isTrue trivial
    inferInstanceAs (Decidable (M.Allows s a ∧ _))

@[simp] theorem run_nil (s : σ) : M.run s [] = .ok s := rfl

theorem run_cons_ok {s t : σ} {a : α} (as : List α) (h : M.step s a = .ok t) :
    M.run s (a :: as) = M.run t as := by
  simp [run, h]

theorem permits_cons_ok {s t : σ} {a : α} {as : List α} (h : M.step s a = .ok t) :
    M.Permits s (a :: as) ↔ M.Allows s a ∧ M.Permits t as := by
  simp [Permits, h]

theorem permits_singleton {s : σ} {a : α} : M.Permits s [a] ↔ M.Allows s a := by
  simp only [Permits, and_iff_left_iff_imp]
  intro _
  split <;> trivial

theorem permits_of_allows (h : ∀ s a, M.Allows s a) (s : σ) (as : List α) : M.Permits s as := by
  induction as generalizing s with
  | nil => trivial
  | cons a as ih =>
    refine ⟨h s a, ?_⟩
    cases M.step s a with
    | ok t => exact ih t
    | error e => trivial

theorem run_append {s t : σ} {as : List α} (bs : List α) (h : M.run s as = .ok t) :
    M.run s (as ++ bs) = M.run t bs := by
  induction as generalizing s with
  | nil =>
    cases h
    rfl
  | cons a as ih =>
    cases hstep : M.step s a with
    | error e => simp [run, hstep] at h
    | ok s₁ =>
      rw [M.run_cons_ok as hstep] at h
      rw [List.cons_append, M.run_cons_ok _ hstep, ih h]

theorem permits_append {s : σ} {as bs : List α} :
    M.Permits s (as ++ bs) ↔ M.Permits s as ∧ ∀ t, M.run s as = .ok t → M.Permits t bs := by
  induction as generalizing s with
  | nil => simp [Permits]
  | cons a as ih =>
    cases hstep : M.step s a with
    | error e => simp [Permits, run, hstep]
    | ok s₁ => simp only [List.cons_append, M.permits_cons_ok hstep, M.run_cons_ok as hstep, ih,
        and_assoc]

/-- Some run leads from one state to the other. -/
def Leads (s t : σ) : Prop := ∃ as, M.Permits s as ∧ M.run s as = .ok t

theorem Leads.refl (s : σ) : M.Leads s s := ⟨[], trivial, rfl⟩

variable {M} in
theorem Leads.head {s s₁ t : σ} {a : α} (ha : M.Allows s a) (hs : M.step s a = .ok s₁)
    (h : M.Leads s₁ t) : M.Leads s t := by
  obtain ⟨as, hp, hr⟩ := h
  exact ⟨a :: as, (M.permits_cons_ok hs).mpr ⟨ha, hp⟩, (M.run_cons_ok as hs).trans hr⟩

variable {M} in
theorem Leads.trans {s t u : σ} (h : M.Leads s t) (h' : M.Leads t u) : M.Leads s u := by
  obtain ⟨as, hp, hr⟩ := h
  obtain ⟨bs, hp', hr'⟩ := h'
  refine ⟨as ++ bs, M.permits_append.mpr ⟨hp, ?_⟩, (M.run_append bs hr).trans hr'⟩
  intro t' ht'
  cases hr.symm.trans ht'
  exact hp'

/-- A step-by-step simulation of an abstract function carries over to runs:
no run faults, and its end is related to the end of the abstract run. -/
theorem run_refines (R : σ → τ → Prop) (next : τ → α → τ)
    (hstep : ∀ s t a, R s t → M.Allows s a → ∃ s', M.step s a = .ok s' ∧ R s' (next t a)) :
    ∀ as s t, R s t → M.Permits s as →
      ∃ s', M.run s as = .ok s' ∧ R s' (as.foldl next t) := by
  intro as
  induction as with
  | nil => intro s t hR _; exact ⟨s, rfl, hR⟩
  | cons a as ih =>
    intro s t hR hp
    obtain ⟨s', hs, hR'⟩ := hstep s t a hR hp.1
    rw [M.permits_cons_ok hs] at hp
    rw [M.run_cons_ok as hs]
    exact ih s' (next t a) hR' hp.2

/-- An invariant under which no admissible step faults: no run faults either. -/
theorem run_safe {Inv : σ → Prop}
    (hstep : ∀ s a, Inv s → M.Allows s a → ∃ s', M.step s a = .ok s' ∧ Inv s')
    {s : σ} (hs : Inv s) {as : List α} (hp : M.Permits s as) :
    ∃ s', M.run s as = .ok s' ∧ Inv s' := by
  apply M.run_refines (fun s (_ : Unit) => Inv s) (fun _ _ => ()) ?_ as s () hs hp
  intro s _ a hi ha
  exact hstep s a hi ha

/-- What every step of some kind keeps if it returns, a run of such steps keeps. -/
theorem run_keeps_of_forall {Inv : σ → Prop} {P : α → Prop}
    (hstep : ∀ s a s', P a → Inv s → M.Allows s a → M.step s a = .ok s' → Inv s')
    {s t : σ} (hs : Inv s) {as : List α} (hall : ∀ a ∈ as, P a) (hp : M.Permits s as)
    (hr : M.run s as = .ok t) : Inv t := by
  induction as generalizing s with
  | nil =>
    cases hr
    exact hs
  | cons a as ih =>
    rw [List.forall_mem_cons] at hall
    cases h : M.step s a with
    | error e => simp [run, h] at hr
    | ok s₁ =>
      rw [M.permits_cons_ok h] at hp
      rw [M.run_cons_ok as h] at hr
      exact ih (hstep s a s₁ hall.1 hs hp.1 h) hall.2 hp.2 hr

/-- The faults of single steps, under an invariant, are the faults of runs. -/
theorem run_fails_of_forall {Inv : σ → Prop} {P : α → Prop} {Q : ε → Prop}
    (hstep : ∀ s a s', P a → Inv s → M.Allows s a → M.step s a = .ok s' → Inv s')
    (hfails : ∀ s a e, P a → Inv s → M.Allows s a → M.step s a = .error e → Q e)
    {s : σ} (hs : Inv s) {as : List α} (hall : ∀ a ∈ as, P a) (hp : M.Permits s as) {e : ε}
    (hr : M.run s as = .error e) : Q e := by
  induction as generalizing s with
  | nil => cases hr
  | cons a as ih =>
    rw [List.forall_mem_cons] at hall
    cases h : M.step s a with
    | error e' =>
      simp only [run, h] at hr
      cases hr
      exact hfails s a e hall.1 hs hp.1 h
    | ok s₁ =>
      rw [M.permits_cons_ok h] at hp
      rw [M.run_cons_ok as h] at hr
      exact ih (hstep s a s₁ hall.1 hs hp.1 h) hall.2 hp.2 hr

/-- What every step that returns keeps, a run that returns keeps. -/
theorem run_keeps {Inv : σ → Prop}
    (hstep : ∀ s a s', Inv s → M.Allows s a → M.step s a = .ok s' → Inv s')
    {s t : σ} (hs : Inv s) {as : List α} (hp : M.Permits s as) (hr : M.run s as = .ok t) :
    Inv t := by
  have hany : ∀ s a s', True → Inv s → M.Allows s a → M.step s a = .ok s' → Inv s' :=
    fun s a s' _ => hstep s a s'
  exact M.run_keeps_of_forall hany hs (fun _ _ => trivial) hp hr

/-- What is tied to the actions so far by every step that returns, a run ties to all of them. -/
theorem run_history {R : σ → List α → Prop}
    (hstep : ∀ s past a s', R s past → M.Allows s a → M.step s a = .ok s' → R s' (past ++ [a]))
    {s t : σ} (hs : R s []) {as : List α} (hp : M.Permits s as) (hr : M.run s as = .ok t) :
    R t as := by
  have hrest : ∀ past s, R s past → M.Permits s as → M.run s as = .ok t → R t (past ++ as) := by
    clear hs hp hr
    induction as with
    | nil =>
      intro past s hs _ hr
      cases hr
      rwa [List.append_nil]
    | cons a as ih =>
      intro past s hs hp hr
      cases h : M.step s a with
      | error e => simp [run, h] at hr
      | ok s₁ =>
        rw [M.permits_cons_ok h] at hp
        rw [M.run_cons_ok as h] at hr
        have hend := ih (past ++ [a]) s₁ (hstep s past a s₁ hs hp.1 h) hp.2 hr
        rwa [List.append_assoc] at hend
  exact hrest [] s hs hp hr

/-- The same machine in an environment that is asked for more. -/
def restrict (P : σ → α → Prop) : Machine σ α ε where
  Allows s a := M.Allows s a ∧ P s a
  step := M.step

theorem run_restrict (P : σ → α → Prop) (s : σ) (as : List α) :
    (M.restrict P).run s as = M.run s as := by
  induction as generalizing s with
  | nil => rfl
  | cons a as ih =>
    cases h : M.step s a with
    | error e => simp [run, restrict, h]
    | ok t =>
      have hrestrict : (M.restrict P).step s a = .ok t := h
      rw [M.run_cons_ok as h, (M.restrict P).run_cons_ok as hrestrict, ih]

end Machine
end Foundations
