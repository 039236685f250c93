import Mathlib.Tactic

/-!
# Incremental parsers

An incremental parser looks at the input it has not consumed and either waits
for more, takes a part of it and goes on, or halts for good. When it does not
wait, its decision depends on a prefix of the input only, and stays the same
when more input arrives. Then it does not matter how the input was cut: feeding
the pieces one after the other ends where one look at the whole input ends.
-/

namespace Foundations

/-- What a parser does next. `taken` counts the consumed input. -/
inductive Verdict (σ ω : Type*) where
  | wait
  | next (state : σ) (taken : ℕ) (out : List ω)
  | halt (state : σ) (taken : ℕ) (out : List ω)

def Verdict.map {σ τ ω : Type*} (f : σ → τ) : Verdict σ ω → Verdict τ ω
  | .wait => .wait
  | .next s n out => .next (f s) n out
  | .halt s n out => .halt (f s) n out

structure Parser (σ ι ω : Type*) where
  step : σ → List ι → Verdict σ ω
  extends_input : ∀ s xs ys, step s xs ≠ .wait → step s (xs ++ ys) = step s xs
  next_takes : ∀ s xs s' n out, step s xs = .next s' n out → 0 < n ∧ n ≤ xs.length
  halt_takes : ∀ s xs s' n out, step s xs = .halt s' n out → n ≤ xs.length

/-- How far a parser has come. -/
structure Progress (σ ι ω : Type*) where
  state : σ
  rest : List ι
  out : List ω
  halted : Bool

def Progress.map {σ τ ι ω : Type*} (f : σ → τ) (p : Progress σ ι ω) : Progress τ ι ω :=
  ⟨f p.state, p.rest, p.out, p.halted⟩

namespace Parser

variable {σ ι ω : Type*} (P : Parser σ ι ω)

/-- Go on until more input is needed or the parser halts. -/
def drain (s : σ) (xs : List ι) : Progress σ ι ω :=
  match _h : P.step s xs with
  | .wait => ⟨s, xs, [], false⟩
  | .halt s' n out => ⟨s', xs.drop n, out, true⟩
  | .next s' n out =>
    let p := drain s' (xs.drop n)
    { p with out := out ++ p.out }
termination_by xs.length
decreasing_by
  have := P.next_takes s xs s' n out _h
  rw [List.length_drop]
  omega

/-- More input arrives. Behind a halt it is kept and not looked at. -/
def feed (p : Progress σ ι ω) (chunk : List ι) : Progress σ ι ω :=
  if p.halted then { p with rest := p.rest ++ chunk }
  else
    let q := P.drain p.state (p.rest ++ chunk)
    { q with out := p.out ++ q.out }

variable {P} {s s' : σ} {xs : List ι} {n : ℕ} {out : List ω}

theorem drain_wait (h : P.step s xs = .wait) : P.drain s xs = ⟨s, xs, [], false⟩ := by
  rw [drain]
  split <;> simp_all

theorem drain_halt (h : P.step s xs = .halt s' n out) :
    P.drain s xs = ⟨s', xs.drop n, out, true⟩ := by
  rw [drain]
  split <;> simp_all

theorem drain_next (h : P.step s xs = .next s' n out) :
    P.drain s xs = { P.drain s' (xs.drop n) with out := out ++ (P.drain s' (xs.drop n)).out } := by
  rw [drain]
  split <;> simp_all

theorem drain_induction {motive : σ → List ι → Prop}
    (wait : ∀ s xs, P.step s xs = .wait → motive s xs)
    (halt : ∀ s xs s' n out, P.step s xs = .halt s' n out → motive s xs)
    (next : ∀ s xs s' n out, P.step s xs = .next s' n out → motive s' (xs.drop n) → motive s xs)
    (s : σ) (xs : List ι) : motive s xs := by
  induction hlen : xs.length using Nat.strong_induction_on generalizing s xs with
  | _ len ih =>
    cases h : P.step s xs with
    | wait => exact wait s xs h
    | halt s' n out => exact halt s xs s' n out h
    | next s' n out =>
      apply next s xs s' n out h
      have := P.next_takes s xs s' n out h
      refine ih (xs.drop n).length ?_ s' _ rfl
      rw [List.length_drop]
      omega

theorem feed_drain (s : σ) (xs ys : List ι) : P.feed (P.drain s xs) ys = P.drain s (xs ++ ys) := by
  induction s, xs using P.drain_induction with
  | wait s xs h => simp [drain_wait h, feed]
  | halt s xs s' n out h =>
    have hext : P.step s (xs ++ ys) = .halt s' n out := by
      rw [P.extends_input s xs ys (by simp [h]), h]
    rw [drain_halt h, drain_halt hext, List.drop_append_of_le_length (P.halt_takes s xs s' n out h)]
    rfl
  | next s xs s' n out h ih =>
    have hext : P.step s (xs ++ ys) = .next s' n out := by
      rw [P.extends_input s xs ys (by simp [h]), h]
    rw [drain_next h, drain_next hext,
      List.drop_append_of_le_length (P.next_takes s xs s' n out h).2, ← ih]
    simp only [feed]
    split_ifs <;> simp

/-- A loop that acts on what the parser finds, with enough fuel. It has to follow the parser on
what is good only. -/
theorem drain_loop {α ρ : Type*} (loop : ℕ → α → σ → List ι → ρ) (act : α → ω → α)
    (done : α → σ → List ι → Bool → ρ) (good : ω → Prop)
    (wait : ∀ fuel a s xs, P.step s xs = .wait → loop (fuel + 1) a s xs = done a s xs false)
    (halt : ∀ fuel a s xs s' n out, P.step s xs = .halt s' n out → (∀ o ∈ out, good o) →
      loop (fuel + 1) a s xs = done (out.foldl act a) s' (xs.drop n) true)
    (next : ∀ fuel a s xs s' n out, P.step s xs = .next s' n out → (∀ o ∈ out, good o) →
      loop (fuel + 1) a s xs = loop fuel (out.foldl act a) s' (xs.drop n))
    {fuel : ℕ} {s : σ} {xs : List ι} (hfuel : xs.length < fuel)
    (hgood : ∀ o ∈ (P.drain s xs).out, good o) (a : α) :
    loop fuel a s xs = done ((P.drain s xs).out.foldl act a) (P.drain s xs).state
      (P.drain s xs).rest (P.drain s xs).halted := by
  induction fuel generalizing a s xs with
  | zero => omega
  | succ fuel ih =>
    cases hstep : P.step s xs with
    | wait =>
      rw [wait fuel a s xs hstep, drain_wait hstep]
      rfl
    | halt s' n out =>
      rw [drain_halt hstep] at hgood ⊢
      exact halt fuel a s xs s' n out hstep hgood
    | next s' n out =>
      rw [drain_next hstep] at hgood ⊢
      obtain ⟨hpos, hle⟩ := P.next_takes s xs s' n out hstep
      have hlen : (xs.drop n).length < fuel := by
        rw [List.length_drop]
        omega
      rw [next fuel a s xs s' n out hstep fun o ho => hgood o (List.mem_append_left _ ho),
        ih hlen fun o ho => hgood o (List.mem_append_right _ ho), List.foldl_append]

/-- A map between the states of two parsers that each step respects. -/
theorem drain_map {τ : Type*} {Q : Parser τ ι ω} {f : σ → τ}
    (h : ∀ s xs, Q.step (f s) xs = (P.step s xs).map f) (s : σ) (xs : List ι) :
    Q.drain (f s) xs = (P.drain s xs).map f := by
  induction s, xs using P.drain_induction with
  | wait s xs hstep =>
    have hQ : Q.step (f s) xs = .wait := by rw [h, hstep]; rfl
    rw [drain_wait hstep, drain_wait hQ]
    rfl
  | halt s xs s' n out hstep =>
    have hQ : Q.step (f s) xs = .halt (f s') n out := by rw [h, hstep]; rfl
    rw [drain_halt hstep, drain_halt hQ]
    rfl
  | next s xs s' n out hstep ih =>
    have hQ : Q.step (f s) xs = .next (f s') n out := by rw [h, hstep]; rfl
    rw [drain_next hstep, drain_next hQ, ih]
    rfl

theorem drain_append_of_waiting (h : (P.drain s xs).halted = false) (ys : List ι) :
    P.drain s (xs ++ ys) =
      { P.drain (P.drain s xs).state ((P.drain s xs).rest ++ ys) with
        out := (P.drain s xs).out ++
          (P.drain (P.drain s xs).state ((P.drain s xs).rest ++ ys)).out } := by
  rw [← feed_drain]
  simp [feed, h]

/-- A parser that halted leaves what arrives later where it is. -/
theorem drain_append_of_halted (h : (P.drain s xs).halted = true) (ys : List ι) :
    P.drain s (xs ++ ys) = { P.drain s xs with rest := (P.drain s xs).rest ++ ys } := by
  rw [← feed_drain]
  simp [feed, h]

theorem foldl_feed_halted {p : Progress σ ι ω} (h : p.halted = true) (chunks : List (List ι)) :
    chunks.foldl P.feed p = { p with rest := p.rest ++ chunks.flatten } := by
  induction chunks generalizing p with
  | nil => simp
  | cons chunk chunks ih =>
    have hfeed : P.feed p chunk = { p with rest := p.rest ++ chunk } := by
      simp [feed, h]
    have hrest := ih (p := P.feed p chunk) (by rw [hfeed]; exact h)
    rw [List.foldl_cons, hrest, hfeed, List.flatten_cons, List.append_assoc]

theorem not_halted_of_foldl {p : Progress σ ι ω} {chunks : List (List ι)}
    (h : (chunks.foldl P.feed p).halted = false) : p.halted = false := by
  cases hp : p.halted with
  | false => rfl
  | true =>
    rw [foldl_feed_halted hp chunks] at h
    exact hp.symm.trans h

theorem foldl_feed_drain (s : σ) (xs : List ι) (chunks : List (List ι)) :
    chunks.foldl P.feed (P.drain s xs) = P.drain s (xs ++ chunks.flatten) := by
  induction chunks generalizing xs with
  | nil => simp
  | cons chunk chunks ih =>
    rw [List.foldl_cons, feed_drain, ih, List.flatten_cons, List.append_assoc]

end Parser
end Foundations
