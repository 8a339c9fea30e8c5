import Mathlib.Tactic.Common
import Mathlib.Data.Nat.Notation

/-!
# Loops that leave by a condition

A `for` loop with a condition is a body which, at every state, either continues
with a new state or leaves with a result. `Loop.run` executes it for a bounded
number of iterations; the total-correctness rule `Loop.run_spec` asks for an
invariant and a measure which decreases along every continuing iteration, and
then the bound is never reached.
-/

namespace Themisy.Loop

variable {State Result : Type}

/-- At most `fuel` iterations of a loop body. -/
def run (body : State → State ⊕ Result) : ℕ → State → Option Result
  | 0, _ => none
  | fuel + 1, state =>
    match body state with
    | .inl next => run body fuel next
    | .inr result => some result

variable {body : State → State ⊕ Result} {state : State}

/--
Total correctness of a loop: an invariant kept by every continuing iteration,
a measure which every such iteration decreases, and a postcondition reached by
every leaving one.
-/
theorem run_spec (invariant : State → Prop) (measure : State → ℕ) (post : Result → Prop)
    (continues : ∀ state next, invariant state → body state = .inl next →
      invariant next ∧ measure next < measure state)
    (leaves : ∀ state result, invariant state → body state = .inr result → post result) {fuel : ℕ}
    (start : invariant state) (enough : measure state < fuel) :
    ∃ result, run body fuel state = some result ∧ post result := by
  induction fuel generalizing state with
  | zero => omega
  | succ fuel ih =>
    unfold run
    split
    · next next continued =>
      obtain ⟨kept, smaller⟩ := continues state next start continued
      exact ih kept (by omega)
    · next result left => exact ⟨result, rfl, leaves state result start left⟩

/-- A loop with a decreasing measure returns within the bound the measure gives. -/
theorem isSome_run (invariant : State → Prop) (measure : State → ℕ)
    (continues : ∀ state next, invariant state → body state = .inl next →
      invariant next ∧ measure next < measure state) (start : invariant state) :
    (run body (measure state + 1) state).isSome := by
  obtain ⟨result, returned, -⟩ := run_spec invariant measure (fun _ => True) continues
    (fun _ _ _ _ => trivial) start (Nat.lt_succ_self _)
  rw [returned]
  rfl

/-- Partial correctness: whatever a bounded run returns satisfies the postcondition. -/
theorem run_sound (invariant : State → Prop) (post : Result → Prop)
    (continues : ∀ state next, invariant state → body state = .inl next → invariant next)
    (leaves : ∀ state result, invariant state → body state = .inr result → post result) {fuel : ℕ}
    {result : Result} (start : invariant state) (returned : run body fuel state = some result) :
    post result := by
  induction fuel generalizing state with
  | zero => simp [run] at returned
  | succ fuel ih =>
    unfold run at returned
    split at returned
    · next next continued => exact ih (continues state next start continued) returned
    · next final left =>
      cases returned
      exact leaves state _ start left

/-- Two loops which stay related, and leave together with the same result, return the same. -/
theorem run_eq_of_related {Other : Type} {again : Other → Other ⊕ Result}
    (related : State → Other → Prop) (steps : ∀ state other, related state other →
      (∃ result, body state = .inr result ∧ again other = .inr result) ∨
      ∃ next after, body state = .inl next ∧ again other = .inl after ∧ related next after)
    (fuel : ℕ) {other : Other} (start : related state other) :
    run body fuel state = run again fuel other := by
  induction fuel generalizing state other with
  | zero => rfl
  | succ fuel ih =>
    rcases steps state other start with ⟨result, left, leftToo⟩ |
      ⟨next, after, continued, continuedToo, kept⟩
    · simp only [run, left, leftToo]
    · simp only [run, continued, continuedToo]
      exact ih kept

/-- Two loops which stay related until both have returned return related results. -/
theorem related_of_run {Other OtherResult : Type} {again : Other → Other ⊕ OtherResult}
    (related : State → Other → Prop) (post : Result → OtherResult → Prop)
    (steps : ∀ state other, related state other →
      (∃ result otherResult, body state = .inr result ∧ again other = .inr otherResult ∧
        post result otherResult) ∨
      ∃ next after, body state = .inl next ∧ again other = .inl after ∧ related next after)
    {fuel otherFuel : ℕ} {other : Other} {result : Result} {otherResult : OtherResult}
    (start : related state other) (returned : run body fuel state = some result)
    (returnedToo : run again otherFuel other = some otherResult) : post result otherResult := by
  induction fuel generalizing state other otherFuel with
  | zero => cases returned
  | succ fuel ih =>
    cases otherFuel with
    | zero => cases returnedToo
    | succ otherFuel =>
      rcases steps state other start with ⟨_, _, left, leftToo, holds⟩ |
        ⟨next, after, continued, continuedToo, kept⟩
      · simp only [run, left, leftToo, Option.some.injEq] at returned returnedToo
        rwa [← returned, ← returnedToo]
      · simp only [run, continued, continuedToo] at returned returnedToo
        exact ih kept returned returnedToo

end Themisy.Loop
