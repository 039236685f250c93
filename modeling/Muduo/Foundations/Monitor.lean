import Mathlib.Tactic

/-!
# Condition variables

The threads that wait on a condition variable, and those that were woken and have not
got the mutex back yet. A signal wakes at least one waiter if there is any; which ones,
and how many more, is left open, and waiters may wake up without a signal.

The rule for the use of such a variable: what the waiters wait for comes in units, a
thread that waits does so because there is none, and every new unit is followed by a
signal. Then no unit is left without a thread that was woken for it.
-/

namespace Foundations

structure Condition (τ : Type*) where
  waiting : List τ
  woken : List τ
  deriving DecidableEq

namespace Condition

variable {τ : Type*}

def init : Condition τ := ⟨[], []⟩

variable (c : Condition τ)

def wait (t : τ) : Condition τ := { c with waiting := c.waiting ++ [t] }

/-- Some of the waiters wake up. -/
def wake (p : τ → Bool) : Condition τ where
  waiting := c.waiting.filter (!p ·)
  woken := c.woken ++ c.waiting.filter p

def notifyAll : Condition τ where
  waiting := []
  woken := c.woken ++ c.waiting

def resume [DecidableEq τ] (t : τ) : Condition τ := { c with woken := c.woken.erase t }

def Signals (p : τ → Bool) : Prop := c.waiting ≠ [] → c.waiting.any p = true

instance [DecidableEq τ] (p : τ → Bool) : Decidable (c.Signals p) :=
  inferInstanceAs (Decidable (_ → _))

/-- The threads in `wait`. -/
def threads : List τ := c.waiting ++ c.woken

/-- While somebody waits, each of `n` units has a thread that was woken. -/
def Served (n : ℕ) : Prop := c.waiting ≠ [] → n ≤ c.woken.length

variable {c} {n m : ℕ}

theorem threads_wait (t : τ) : (c.wait t).threads.Perm (t :: c.threads) := by
  rw [threads, threads, wait, List.append_assoc, List.singleton_append]
  exact List.perm_middle

theorem threads_wake (p : τ → Bool) : (c.wake p).threads.Perm c.threads := by
  rw [threads, threads, wake, ← List.append_assoc]
  refine (List.perm_append_comm.trans ?_).trans (List.perm_append_right_iff c.woken |>.mpr
    (List.filter_append_perm p c.waiting))
  rw [← List.append_assoc]

theorem threads_notifyAll : c.notifyAll.threads.Perm c.threads := by
  show (c.woken ++ c.waiting).Perm (c.waiting ++ c.woken)
  exact List.perm_append_comm

theorem threads_resume [DecidableEq τ] (h : c.threads.Nodup) {t : τ} (ht : t ∈ c.woken) :
    (c.resume t).threads = c.threads.erase t := by
  have hnot : t ∉ c.waiting := fun hwaiting => (List.nodup_append.mp h).2.2 t hwaiting t ht rfl
  exact (List.erase_append_right c.woken hnot).symm

theorem served_init (n : ℕ) : (init : Condition τ).Served n := fun h => absurd rfl h

theorem served_zero : c.Served 0 := fun _ => Nat.zero_le _

theorem Served.mono (h : c.Served n) (hm : m ≤ n) : c.Served m := fun hw => hm.trans (h hw)

theorem waiting_of_wake {p : τ → Bool} (h : (c.wake p).waiting ≠ []) : c.waiting ≠ [] := by
  intro hempty
  simp [wake, hempty] at h

theorem Served.wake (h : c.Served n) (p : τ → Bool) : (c.wake p).Served n := by
  intro hw
  have := h (waiting_of_wake hw)
  simp only [Condition.wake, List.length_append]
  omega

theorem Served.notify (h : c.Served n) {p : τ → Bool} (hp : c.Signals p) :
    (c.wake p).Served (n + 1) := by
  intro hw
  have hwaiting := waiting_of_wake hw
  have hn := h hwaiting
  have hsome : c.waiting.filter p ≠ [] := by
    obtain ⟨t, ht, hpt⟩ := List.any_eq_true.mp (hp hwaiting)
    exact List.ne_nil_of_mem (List.mem_filter.mpr ⟨ht, hpt⟩)
  have hpos := List.length_pos_iff.mpr hsome
  simp only [Condition.wake, List.length_append]
  omega

theorem Served.resume [DecidableEq τ] (h : c.Served n) {t : τ} (ht : t ∈ c.woken) :
    (c.resume t).Served (n - 1) := by
  intro hw
  have := h hw
  simp only [Condition.resume, List.length_erase_of_mem ht]
  omega

end Condition
end Foundations
