import Mathlib.Tactic

/-!
# Readers

A reader takes a value off the front of its input, or fails. It is exact for an encoding
when it succeeds on what starts with the encoding of a value, and on nothing else. Being
exact carries over to the reading of several values in a row.
-/

namespace Foundations

variable {α β : Type*}

def Reads (read : List β → Option (α × List β)) (encode : α → List β) : Prop :=
  ∀ {input x rest}, read input = some (x, rest) ↔ input = encode x ++ rest

/-- The next `n` elements of the input. -/
def readBlock (n : ℕ) (input : List β) : Option (List β × List β) :=
  if n ≤ input.length then some (input.take n, input.drop n) else none

theorem readBlock_eq_some {n : ℕ} {input block rest : List β} :
    readBlock n input = some (block, rest) ↔ block.length = n ∧ input = block ++ rest := by
  unfold readBlock
  constructor
  · intro h
    split_ifs at h with hle
    cases h
    exact ⟨List.length_take_of_le hle, (List.take_append_drop n input).symm⟩
  · rintro ⟨rfl, rfl⟩
    simp

theorem exists_block {n : ℕ} {input : List β} (h : n ≤ input.length) :
    ∃ block rest : List β, block.length = n ∧ input = block ++ rest :=
  ⟨input.take n, input.drop n, List.length_take_of_le h, (List.take_append_drop n input).symm⟩

/-- Reads `n` values. -/
def readMany (read : List β → Option (α × List β)) : ℕ → List β → Option (List α × List β)
  | 0, input => some ([], input)
  | n + 1, input => do
    let (x, input) ← read input
    let (xs, input) ← readMany read n input
    return (x :: xs, input)

/-- Reads `n` values, and keeps those read in front of a failure. -/
def readUpTo (read : List β → Option (α × List β)) : ℕ → List β → List α × Option (List β)
  | 0, input => ([], some input)
  | n + 1, input =>
    match read input with
    | some (x, input) => ((readUpTo read n input).1.cons x, (readUpTo read n input).2)
    | none => ([], none)

variable {read : List β → Option (α × List β)} {encode : α → List β}

theorem Reads.many (h : Reads read encode) {n : ℕ} {input rest : List β} {xs : List α} :
    readMany read n input = some (xs, rest) ↔
      xs.length = n ∧ input = xs.flatMap encode ++ rest := by
  induction n generalizing input xs with
  | zero =>
    simp only [readMany, Option.some.injEq, Prod.mk.injEq, List.length_eq_zero_iff]
    constructor
    · rintro ⟨rfl, rfl⟩
      exact ⟨rfl, rfl⟩
    · rintro ⟨rfl, rfl⟩
      exact ⟨rfl, rfl⟩
  | succ n ih =>
    rw [readMany]
    simp only [Option.bind_eq_bind, Option.bind_eq_some_iff, Option.pure_def, Option.some.injEq,
      Prod.mk.injEq, Prod.exists]
    constructor
    · rintro ⟨x, input', hx, ys, rest', hys, rfl, rfl⟩
      obtain ⟨hlen, rfl⟩ := ih.mp hys
      rw [h.mp hx, List.length_cons, hlen, List.flatMap_cons, List.append_assoc]
      exact ⟨rfl, rfl⟩
    · rintro ⟨hlen, rfl⟩
      cases xs with
      | nil => simp at hlen
      | cons x xs =>
        rw [List.flatMap_cons, List.append_assoc]
        exact ⟨x, _, h.mpr rfl, xs, rest, ih.mpr ⟨Nat.succ.inj hlen, rfl⟩, rfl, rfl⟩

theorem readUpTo_eq_iff {n : ℕ} {input rest : List β} {xs : List α} :
    readUpTo read n input = (xs, some rest) ↔ readMany read n input = some (xs, rest) := by
  induction n generalizing input xs with
  | zero => simp [readUpTo, readMany]
  | succ n ih =>
    rw [readUpTo, readMany]
    cases hread : read input with
    | none => simp
    | some p =>
      obtain ⟨x, input'⟩ := p
      simp only [Prod.mk.injEq, Option.bind_eq_bind, Option.bind_some, Option.bind_eq_some_iff,
        Option.pure_def, Option.some.injEq, Prod.exists]
      constructor
      · rintro ⟨rfl, hrest⟩
        exact ⟨_, rest, ih.mp (Prod.ext rfl hrest), rfl, rfl⟩
      · rintro ⟨ys, rest', hys, rfl, rfl⟩
        rw [ih.mpr hys]
        exact ⟨rfl, rfl⟩

end Foundations
