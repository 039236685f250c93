import Muduo.Foundations.Machine
import Muduo.Foundations.Ring

/-!
# Loops over linked nodes

A loop that goes from node to node through a pointer of the present state, until it comes to
the node at which it stops. Its body may change the state, and with it the pointers. The rule
below asks for the nodes that the loop visits, and that they stay linked in this order. Rules for
loops over lists follow.
-/

namespace Foundations

variable {σ α : Type} [DecidableEq α]

/-- `for (a = start->next; a != stop; a = a->next) body`, from `a` on. Without fuel it did
not end. -/
def forEach (next : σ → α → α) (body : σ → α → Except Fault σ) (stop : α) :
    ℕ → σ → α → Except Fault σ
  | 0, _, _ => .error .endless
  | fuel + 1, s, a =>
    if a = stop then .ok s
    else do
      let s' ← body s a
      forEach next body stop fuel s' (next s' a)

/-- `I done s` holds when the nodes `done` are behind the loop. -/
theorem forEach_spec (next : σ → α → α) (body : σ → α → Except Fault σ) (start stop : α)
    (xs : List α) {I : List α → σ → Prop} (hnot : stop ∉ xs)
    (hvisits : ∀ done s, I done s → Visits (next s) start xs stop)
    (hbody : ∀ done a s, (∃ rest, xs = done ++ a :: rest) → I done s →
      ∃ s', body s a = .ok s' ∧ I (done ++ [a]) s')
    {fuel : ℕ} (hfuel : xs.length < fuel) {s : σ} (hs : I [] s) :
    ∃ s', forEach next body stop fuel s (next s start) = .ok s' ∧ I xs s' := by
  have hsuffix : ∀ (rest done : List α) (a : α) (fuel : ℕ) (s : σ), xs = done ++ rest →
      Visits (next s) a rest stop → rest.length < fuel → I done s →
      ∃ s', forEach next body stop fuel s (next s a) = .ok s' ∧ I xs s' := by
    intro rest
    induction rest with
    | nil =>
      intro done a fuel s hxs hway hlen hdone
      obtain ⟨fuel, rfl⟩ : ∃ k, fuel = k + 1 := ⟨fuel - 1, by simp at hlen; omega⟩
      rw [List.append_nil] at hxs
      refine ⟨s, ?_, hxs ▸ hdone⟩
      rw [show next s a = stop from hway, forEach, if_pos rfl]
    | cons b rest ih =>
      intro done a fuel s hxs hway hlen hdone
      obtain ⟨fuel, rfl⟩ : ∃ k, fuel = k + 1 := ⟨fuel - 1, by simp at hlen; omega⟩
      have hstop : b ≠ stop := fun heq => hnot (heq ▸ by simp [hxs])
      obtain ⟨s₁, hs₁, hI⟩ := hbody done b s ⟨rest, hxs⟩ hdone
      have hbehind : Visits (next s₁) b rest stop := by
        have := hvisits _ s₁ hI
        rw [hxs] at this
        exact (visits_append.mp this).2
      obtain ⟨s', hs', hI'⟩ := ih (done ++ [b]) b fuel s₁ (by simp [hxs]) hbehind
        (by simpa using hlen) hI
      refine ⟨s', ?_, hI'⟩
      rw [hway.1, forEach, if_neg hstop, hs₁, ok_bind]
      exact hs'
  exact hsuffix xs [] start fuel s rfl (hvisits [] s hs) hfuel hs

theorem foldlM_spec {α σ : Type} (xs : List α) (body : σ → α → Except Fault σ)
    {I : List α → σ → Prop} (hbody : ∀ done a s, (∃ rest, xs = done ++ a :: rest) → I done s →
      ∃ s', body s a = .ok s' ∧ I (done ++ [a]) s') {s : σ} (hs : I [] s) :
    ∃ s', xs.foldlM body s = .ok s' ∧ I xs s' := by
  have hsuffix : ∀ (rest done : List α) (s : σ), xs = done ++ rest → I done s →
      ∃ s', rest.foldlM body s = .ok s' ∧ I xs s' := by
    intro rest
    induction rest with
    | nil =>
      intro done s hxs hdone
      rw [List.append_nil] at hxs
      exact ⟨s, rfl, hxs ▸ hdone⟩
    | cons a rest ih =>
      intro done s hxs hdone
      obtain ⟨s₁, hs₁, hI⟩ := hbody done a s ⟨rest, hxs⟩ hdone
      obtain ⟨s', hs', hI'⟩ := ih (done ++ [a]) s₁ (by simp [hxs]) hI
      exact ⟨s', by rw [List.foldlM_cons, hs₁, ok_bind, hs'], hI'⟩
  exact hsuffix xs [] s rfl hs

theorem foldlM_flatMap {α β σ : Type} (f : α → List β) (body : σ → β → Except Fault σ)
    (xs : List α) (s : σ) :
    (xs.flatMap f).foldlM body s = xs.foldlM (fun s a => (f a).foldlM body s) s := by
  induction xs generalizing s with
  | nil => rfl
  | cons a xs ih =>
    rw [List.flatMap_cons, List.foldlM_append, List.foldlM_cons]
    exact bind_congr ih

/-- Each member of a family goes its own way through a loop that updates all of them. -/
theorem foldl_pointwise {ι β τ : Type*} (next : ι → τ → β → τ) (bs : List β) (s : ι → τ) (i : ι) :
    bs.foldl (fun s b j => next j (s j) b) s i = bs.foldl (fun t b => next i t b) (s i) := by
  induction bs generalizing s with
  | nil => rfl
  | cons b bs ih => exact ih _

end Foundations
