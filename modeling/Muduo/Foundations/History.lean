import Mathlib.Tactic

/-!
# Histories

A history lists what has been observed of a system, the latest event last. Many
safety properties speak of one event and of what stands before it: this event
happens at most once, that one never after the other. A history obeys such a
rule when each of its events does, so it is enough to look at the event that is
added last.
-/

namespace Foundations

variable {ε : Type*}

/-- Every event obeys the rule, given the events before it. -/
def Obeys (rule : List ε → ε → Prop) (history : List ε) : Prop :=
  ∀ before e after, history = before ++ e :: after → rule before e

variable {rule : List ε → ε → Prop} {history : List ε}

theorem obeys_nil : Obeys rule [] := by
  intro before e after h
  simp at h

theorem obeys_concat {e : ε} :
    Obeys rule (history ++ [e]) ↔ Obeys rule history ∧ rule history e := by
  constructor
  · intro h
    constructor
    · intro before f after hf
      exact h before f (after ++ [e]) (by simp [hf])
    · exact h history e [] rfl
  · rintro ⟨hall, he⟩ before f after hf
    rcases List.append_eq_append_iff.mp hf with ⟨mid, hbefore, hlast⟩ | ⟨mid, hhist, hlast⟩
    · cases mid with
      | nil =>
        cases hlast
        simpa [hbefore] using he
      | cons g mid => simp at hlast
    · cases mid with
      | nil =>
        cases hlast
        simpa [hhist] using he
      | cons g mid =>
        cases hlast
        exact hall before f mid hhist

theorem Obeys.concat {e : ε} (h : Obeys rule history) (he : rule history e) :
    Obeys rule (history ++ [e]) :=
  obeys_concat.mpr ⟨h, he⟩

end Foundations
