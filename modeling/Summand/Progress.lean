import Summand.Failure

/-!
# Work that may end early

Steps change a state one after another. The first step that fails ends the work, and the state
stays as the steps before it left it.
-/

namespace Summand

/-- How far a sequence of steps came. -/
structure Progress (σ : Type) where
  state : σ
  /-- The number of steps that got as far as to change the state. -/
  steps : Nat
  /-- Why the next step failed, if it did. -/
  failure : Option Failure := none

namespace Progress

variable {σ β : Type}

/-- Does a step for each item in order, up to the first one that fails. -/
def run (step : σ → β → Except Failure σ) : σ → List β → Progress σ
  | state, [] => { state, steps := 0 }
  | state, item :: rest =>
    match step state item with
    | .error failure => { state, steps := 0, failure }
    | .ok state =>
      let progress := run step state rest
      { progress with steps := progress.steps + 1 }

/-- Does a single step. -/
def once (step : σ → Except Failure σ) (state : σ) : Progress σ :=
  run (fun state _ ↦ step state) state [()]

/-- Does a single step that fails, if it does, no sooner than in changing the state. -/
def attempt (step : σ → Except Failure σ) (state : σ) : Progress σ :=
  { once step state with steps := 1 }

/-- The same progress with a function of the state. -/
def map {τ : Type} (f : σ → τ) (p : Progress σ) : Progress τ :=
  { state := f p.state, steps := p.steps, failure := p.failure }

/-- The state, unless a step failed. -/
def complete (p : Progress σ) : Except Failure σ :=
  match p.failure with
  | none => .ok p.state
  | some failure => .error failure

end Progress

end Summand
