import Muduo.Foundations.Machine

/-!
# Guards that are exact

A property that fails in some runs often has a guard: a condition on single
actions, in terms of an abstract state, under which it holds at every moment.
The guard is exact when the first action that violates it also violates the
property. The induction over the run is done here once.
-/

namespace Foundations
namespace Machine

variable {σ τ α ε : Type*}

/-- A machine that never faults, given by its next state. -/
def ofNext (Allows : τ → α → Prop) (next : τ → α → τ) : Machine τ α ε where
  Allows := Allows
  step t a := .ok (next t a)

section OfNext

variable {Allows Calm Quiet : τ → α → Prop} {next : τ → α → τ}

theorem permits_ofNext_cons (t : τ) (a : α) (as : List α) :
    (ofNext Allows next : Machine τ α ε).Permits t (a :: as) ↔
      Allows t a ∧ (ofNext Allows next : Machine τ α ε).Permits (next t a) as :=
  Iff.rfl

theorem permits_ofNext_and (as : List α) (t : τ) :
    (ofNext (fun t a => Calm t a ∧ Quiet t a) next : Machine τ α ε).Permits t as ↔
      (ofNext Calm next : Machine τ α ε).Permits t as ∧
        (ofNext Quiet next : Machine τ α ε).Permits t as := by
  induction as generalizing t with
  | nil => exact ⟨fun _ => ⟨trivial, trivial⟩, fun _ => trivial⟩
  | cons a as ih =>
    rw [permits_ofNext_cons, permits_ofNext_cons, permits_ofNext_cons, ih]
    tauto

end OfNext

/-- An exact guard: while it is kept, no step faults and the property holds, and
a step that breaks it does not return to a state with the property. -/
theorem holds_at_prefixes_iff (M : Machine σ α ε) {Allows Calm : τ → α → Prop}
    {next : τ → α → τ} {R Good : σ → τ → Prop} (hgood : ∀ s t, R s t → Good s t)
    (hcalm : ∀ s t a, R s t → Allows t a → Calm t a →
      ∃ s', M.step s a = .ok s' ∧ R s' (next t a))
    (hrash : ∀ s t a s', R s t → Allows t a → ¬ Calm t a → M.step s a = .ok s' →
      ¬ Good s' (next t a)) (as : List α) :
    ∀ s t, R s t → (ofNext Allows next : Machine τ α ε).Permits t as →
      ((∀ done, done <+: as → ∃ s', M.run s done = .ok s' ∧ Good s' (done.foldl next t)) ↔
        (ofNext Calm next : Machine τ α ε).Permits t as) := by
  induction as with
  | nil =>
    intro s t hR _
    refine ⟨fun _ => trivial, fun _ done hdone => ?_⟩
    rw [List.prefix_nil.mp hdone]
    exact ⟨s, rfl, hgood s t hR⟩
  | cons a as ih =>
    intro s t hR hp
    rw [permits_ofNext_cons] at hp
    rw [permits_ofNext_cons]
    constructor
    · intro hall
      have hfirst : [a] <+: a :: as := ⟨as, rfl⟩
      have hc : Calm t a := by
        by_contra hnot
        obtain ⟨s', hrun, hs'⟩ := hall [a] hfirst
        cases hstep : M.step s a with
        | error e => simp [run, hstep] at hrun
        | ok s₁ =>
          rw [M.run_cons_ok [] hstep] at hrun
          cases hrun
          exact hrash s t a s' hR hp.1 hnot hstep hs'
      obtain ⟨s₁, hstep, hR₁⟩ := hcalm s t a hR hp.1 hc
      refine ⟨hc, (ih s₁ (next t a) hR₁ hp.2).mp ?_⟩
      intro done hdone
      obtain ⟨s', hrun, hs'⟩ := hall (a :: done) (List.cons_prefix_cons.mpr ⟨rfl, hdone⟩)
      rw [M.run_cons_ok done hstep] at hrun
      exact ⟨s', hrun, hs'⟩
    · rintro ⟨hc, hrest⟩ done hdone
      obtain ⟨s₁, hstep, hR₁⟩ := hcalm s t a hR hp.1 hc
      cases done with
      | nil => exact ⟨s, rfl, hgood s t hR⟩
      | cons b done =>
        obtain ⟨rfl, htail⟩ := List.cons_prefix_cons.mp hdone
        rw [M.run_cons_ok done hstep]
        exact (ih s₁ (next t b) hR₁ hp.2).mpr hrest done htail

/-- A guard for one kind of fault, under an invariant: when exactly the steps that break
it end in such a fault, exactly the runs that keep it never end in one. -/
theorem run_avoids_iff (M : Machine σ α ε) {Inv : σ → Prop} (Bad : ε → Prop)
    (Calm : σ → α → Prop)
    (hkeep : ∀ s a t, Inv s → M.Allows s a → M.step s a = .ok t → Inv t)
    (hstep : ∀ s a, Inv s → M.Allows s a → ((∃ e, M.step s a = .error e ∧ Bad e) ↔ ¬ Calm s a))
    (as : List α) : ∀ s, Inv s → M.Permits s as →
      ((∀ e, M.run s as = .error e → ¬ Bad e) ↔ (M.restrict Calm).Permits s as) := by
  induction as with
  | nil =>
    intro s _ _
    exact ⟨fun _ => trivial, fun _ e he => by cases he⟩
  | cons a as ih =>
    intro s hs hp
    have hfirst := hstep s a hs hp.1
    cases h : M.step s a with
    | ok t =>
      have hcalm : Calm s a := by
        by_contra hnot
        obtain ⟨e, he, -⟩ := hfirst.mpr hnot
        cases h.symm.trans he
      have hrestrict : (M.restrict Calm).step s a = .ok t := h
      have ht := hkeep s a t hs hp.1 h
      rw [M.permits_cons_ok h] at hp
      rw [M.run_cons_ok as h, ih t ht hp.2, (M.restrict Calm).permits_cons_ok hrestrict]
      exact ⟨fun hrest => ⟨⟨hp.1, hcalm⟩, hrest⟩, fun hrest => hrest.2⟩
    | error e =>
      have hrun : M.run s (a :: as) = .error e := by simp [run, h]
      have hpermits : (M.restrict Calm).Permits s (a :: as) ↔ M.Allows s a ∧ Calm s a := by
        simp [Permits, restrict, h]
      rw [hpermits]
      constructor
      · intro hgood
        refine ⟨hp.1, ?_⟩
        by_contra hnot
        obtain ⟨e', he', hbad⟩ := hfirst.mpr hnot
        cases h.symm.trans he'
        exact hgood e hrun hbad
      · rintro ⟨-, hcalm⟩ e' he' hbad
        cases hrun.symm.trans he'
        exact hfirst.mp ⟨e, h, hbad⟩ hcalm

/-- A guard for faults of any kind, under an invariant: when exactly the steps that keep
the guard return, exactly the runs that keep it return. -/
theorem run_returns_iff (M : Machine σ α ε) {Inv : σ → Prop} (Calm : σ → α → Prop)
    (hstep : ∀ s a, Inv s → M.Allows s a →
      Calm s a ∧ (∃ t, M.step s a = .ok t ∧ Inv t) ∨ ¬ Calm s a ∧ ∃ e, M.step s a = .error e)
    (as : List α) : ∀ s, Inv s → M.Permits s as →
      ((∃ t, M.run s as = .ok t) ↔ (M.restrict Calm).Permits s as) := by
  induction as with
  | nil =>
    intro s _ _
    exact ⟨fun _ => trivial, fun _ => ⟨s, rfl⟩⟩
  | cons a as ih =>
    intro s hs hp
    obtain ⟨hcalm, t, ht, hinv⟩ | ⟨hrash, e, he⟩ := hstep s a hs hp.1
    · have hrestrict : (M.restrict Calm).step s a = .ok t := ht
      rw [M.permits_cons_ok ht] at hp
      rw [M.run_cons_ok as ht, ih t hinv hp.2, (M.restrict Calm).permits_cons_ok hrestrict]
      exact ⟨fun hrest => ⟨⟨hp.1, hcalm⟩, hrest⟩, fun hrest => hrest.2⟩
    · refine iff_of_false ?_ (fun hrest => hrash hrest.1.2)
      rintro ⟨t, ht⟩
      simp [run, he] at ht

/-- A guard whose violation cannot be undone, under an invariant that it keeps: a run that ends
well has kept it. -/
theorem permits_of_not_doomed (M : Machine σ α ε) {Calm : σ → α → Prop} {Inv Doomed : σ → Prop}
    (hkeep : ∀ s a s', Inv s → (M.restrict Calm).Allows s a → M.step s a = .ok s' → Inv s')
    (hrash : ∀ s a s', Inv s → M.Allows s a → ¬ Calm s a → M.step s a = .ok s' → Doomed s')
    (hdoomed : ∀ s a s', Doomed s → M.Allows s a → M.step s a = .ok s' → Doomed s')
    (as : List α) : ∀ s t, Inv s → M.Permits s as → M.run s as = .ok t → ¬ Doomed t →
      (M.restrict Calm).Permits s as := by
  induction as with
  | nil => exact fun _ _ _ _ _ _ => trivial
  | cons a as ih =>
    intro s t hs hp hr hend
    cases h : M.step s a with
    | error e => simp [run, h] at hr
    | ok s₁ =>
      have hrestrict : (M.restrict Calm).step s a = .ok s₁ := h
      rw [M.permits_cons_ok h] at hp
      rw [M.run_cons_ok as h] at hr
      have hcalm : Calm s a := by
        by_contra hnot
        exact hend (M.run_keeps hdoomed (hrash s a s₁ hs hp.1 hnot h) hp.2 hr)
      rw [(M.restrict Calm).permits_cons_ok hrestrict]
      exact ⟨⟨hp.1, hcalm⟩, ih s₁ t (hkeep s a s₁ hs ⟨hp.1, hcalm⟩ h) hp.2 hr hend⟩

end Machine
end Foundations
