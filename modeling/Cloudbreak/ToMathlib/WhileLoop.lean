import Mathlib

/-! # While loops

A loop is run with a bound on its turns, and has no result where they do not suffice. It ends within a bound that a
measure gives when every turn lowers it, and what every turn keeps holds at the end.
-/

namespace Cloudbreak.ToMathlib

section Returns

variable {α : Type*} {run : ℕ → Option α} {result other : α}

/-- From some bound on, the bounded runs end with this result. -/
def Returns (run : ℕ → Option α) (result : α) : Prop := ∃ bound, ∀ turns, bound ≤ turns → run turns = some result

theorem Returns.of_eq (same : ∀ turns, run turns = some result) : Returns run result := ⟨0, fun turns _ => same turns⟩

/-- There is at most one result. -/
theorem Returns.unique (first : Returns run result) (second : Returns run other) : result = other := by
  obtain ⟨bound, ends⟩ := first
  obtain ⟨bound', ends'⟩ := second
  have same := (ends _ (le_max_left bound bound')).symm.trans (ends' _ (le_max_right bound bound'))
  exact Option.some.inj same

end Returns

variable {σ : Type*} {condition : σ → Bool} {body : σ → σ}

/-- `WHILE condition LOOP body END LOOP`, with a bound on the turns. -/
def whileLoop (condition : σ → Bool) (body : σ → σ) : ℕ → σ → Option σ
  | 0, _ => none
  | turns + 1, state => if condition state then whileLoop condition body turns (body state) else some state

/-- A loop whose turns keep an invariant and lower a measure ends within the measure, with the invariant. -/
theorem exists_whileLoop (keeps : σ → Prop) (measure : σ → ℕ)
    (kept : ∀ state, condition state = true → keeps state → keeps (body state))
    (lowers : ∀ state, condition state = true → measure (body state) < measure state) {turns : ℕ} {state : σ}
    (holds : keeps state) (enough : measure state < turns) :
    ∃ last, whileLoop condition body turns state = some last ∧ condition last = false ∧ keeps last := by
  induction turns generalizing state with
  | zero => exact absurd enough (Nat.not_lt_zero _)
  | succ turns ih =>
    rw [whileLoop]
    cases again : condition state with
    | true =>
      have lower := lowers state again
      rw [if_pos rfl]
      exact ih (kept state again holds) (by omega)
    | false =>
      rw [if_neg Bool.false_ne_true]
      exact ⟨state, rfl, again, holds⟩

end Cloudbreak.ToMathlib
