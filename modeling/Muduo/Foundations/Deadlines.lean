import Mathlib.Tactic

/-!
# One job at each tick

The jobs `0, …, n - 1` become ready in this order, job `i` at time `ready i`. At
each tick at most one job is done: the next one, if it is ready. All jobs are
done in the end exactly when for each job enough ticks come late enough for it
and for the jobs behind it.
-/

namespace Foundations

/-- The number of jobs done after the ticks, when `done` were done before. -/
def jobsDone (ready : ℕ → ℕ) (n : ℕ) : ℕ → List ℕ → ℕ
  | done, [] => done
  | done, tick :: ticks =>
    jobsDone ready n (if done < n ∧ ready done ≤ tick then done + 1 else done) ticks

variable {ready : ℕ → ℕ} {n : ℕ}

theorem jobsDone_le (ready : ℕ → ℕ) {done : ℕ} (h : done ≤ n) (ticks : List ℕ) :
    jobsDone ready n done ticks ≤ n := by
  induction ticks generalizing done with
  | nil => exact h
  | cons tick ticks ih =>
    apply ih
    split_ifs <;> omega

theorem jobsDone_all (ticks : List ℕ) : jobsDone ready n n ticks = n := by
  induction ticks with
  | nil => rfl
  | cons tick ticks ih => simpa [jobsDone] using ih

theorem countP_ready_anti (hready : Monotone ready) (ticks : List ℕ) {i j : ℕ} (hij : i ≤ j) :
    ticks.countP (ready j ≤ ·) ≤ ticks.countP (ready i ≤ ·) := by
  apply List.countP_mono_left
  intro tick _ h
  have := hready hij
  simp only [decide_eq_true_eq] at h ⊢
  omega

theorem enough_cons_of_ready (hready : Monotone ready) {tick : ℕ} {ticks : List ℕ} {done : ℕ}
    (hsorted : ∀ t ∈ ticks, tick ≤ t) (hdone : done < n) (htick : ready done ≤ tick) :
    (∀ i, done ≤ i → i < n → n - i ≤ (tick :: ticks).countP (ready i ≤ ·)) ↔
      ∀ i, done + 1 ≤ i → i < n → n - i ≤ ticks.countP (ready i ≤ ·) := by
  constructor
  · intro h i hi hin
    by_cases hlate : ready i ≤ tick
    · have hall : ticks.countP (ready i ≤ ·) = ticks.length := by
        rw [List.countP_eq_length]
        intro t ht
        have := hsorted t ht
        simp only [decide_eq_true_eq]
        omega
      have hcount := h done le_rfl hdone
      have hle := List.countP_le_length (p := (ready done ≤ ·)) (l := tick :: ticks)
      rw [List.length_cons] at hle
      omega
    · have := h i (by omega) hin
      rwa [List.countP_cons_of_neg (by simpa using hlate)] at this
  · intro h i hi hin
    rcases hi.eq_or_lt with rfl | hi
    · rw [List.countP_cons_of_pos (by simpa using htick)]
      by_cases hlast : done + 1 < n
      · have := h (done + 1) le_rfl hlast
        have := countP_ready_anti hready ticks (show done ≤ done + 1 by omega)
        omega
      · omega
    · have := h i hi hin
      rw [List.countP_cons]
      omega

theorem enough_cons_of_early (hready : Monotone ready) {tick : ℕ} {ticks : List ℕ} {done : ℕ}
    (htick : tick < ready done) :
    (∀ i, done ≤ i → i < n → n - i ≤ (tick :: ticks).countP (ready i ≤ ·)) ↔
      ∀ i, done ≤ i → i < n → n - i ≤ ticks.countP (ready i ≤ ·) := by
  have hskip : ∀ i, done ≤ i →
      (tick :: ticks).countP (ready i ≤ ·) = ticks.countP (ready i ≤ ·) := by
    intro i hi
    have := hready hi
    exact List.countP_cons_of_neg (by simp only [decide_eq_true_eq]; omega)
  constructor
  · intro h i hi hin
    rw [← hskip i hi]
    exact h i hi hin
  · intro h i hi hin
    rw [hskip i hi]
    exact h i hi hin

theorem jobsDone_eq_iff (hready : Monotone ready) {ticks : List ℕ} (hticks : ticks.Pairwise (· ≤ ·))
    {done : ℕ} (hdone : done ≤ n) :
    jobsDone ready n done ticks = n ↔
      ∀ i, done ≤ i → i < n → n - i ≤ ticks.countP (ready i ≤ ·) := by
  induction ticks generalizing done with
  | nil =>
    constructor
    · intro h i hi hin
      simp only [jobsDone] at h
      omega
    · intro h
      by_contra hne
      simp only [jobsDone] at hne
      have := h done le_rfl (by omega)
      simp only [List.countP_nil] at this
      omega
  | cons tick ticks ih =>
    obtain ⟨hsorted, hticks⟩ := List.pairwise_cons.mp hticks
    rcases hdone.eq_or_lt with rfl | hlt
    · rw [jobsDone_all]
      exact iff_of_true rfl fun i hi hin => absurd hin (by omega)
    by_cases htick : ready done ≤ tick
    · rw [jobsDone, if_pos ⟨hlt, htick⟩, ih hticks hlt,
        enough_cons_of_ready hready hsorted hlt htick]
    · rw [jobsDone, if_neg (fun h => htick h.2), ih hticks hdone,
        enough_cons_of_early hready (by omega)]

end Foundations
