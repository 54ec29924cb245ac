import Summand.Term.Polynomial

/-!
# Terms with faults

Terms for trying out what an objective does with terms that fail, that return something else than a
number, that lack second derivatives, or that have a wrong gradient.
-/

namespace Summand.Term

/-- What a term is asked for. -/
inductive Request where
  | value
  | gradient
  | hessian
  | interval
  deriving Repr, DecidableEq

namespace Request

def name : Request → String
  | .value => "value"
  | .gradient => "gradient"
  | .hessian => "hessian"
  | .interval => "interval"

def all : List Request := [.value, .gradient, .hessian, .interval]

/-- The requests with the given names. -/
def named (names : List String) : List Request := all.filter fun r ↦ names.contains r.name

end Request

/-- Whether a number is greater than another one, exactly. -/
def exceeds (x : Float) : Number → Bool
  | .real limit => limit < x
  | .int limit => (Binary64.compareInt? x limit).any Ordering.isGT

/-- A sum of squares that fails on the given requests, everywhere or where the first entry is above
a limit. Derivatives are written before it fails. -/
def failing (id : Nat) (dimension : Int) (failure : Failure) (requests : List Request)
    (limit : Option Number) : Term Float :=
  let check (request : Request) (entry : Float) : Except Failure Unit :=
    if requests.contains request && limit.all (exceeds entry) then .error failure else .ok ()
  let value (request : Request) (arguments : List (List Float)) :
      Except Failure (Outcome Float) := do
    check request (first arguments 0)
    return .real (squareValue arguments)
  { id
    name := "FailingTerm"
    dimensions := [dimension]
    value := value .value
    firstOrder := fun arguments _ ↦ ⟨squareGradient arguments, value .gradient arguments⟩
    secondOrder := fun arguments _ _ ↦
      ⟨squareGradient arguments, [[diagonal dimension.toNat 2.0]], value .hessian arguments⟩
    enclosure := fun box ↦ do
      check .interval (← side box 0 0).upper
      squareEnclosure box }

/-- A sum of squares whose gradient has a wrong factor, unless it is asked for with the Hessian. -/
def wrongGradient (id : Nat) (dimension : Int) (factor : Number) : Term Float :=
  let gradient (arguments : List (List Float)) : Except Failure (List Float) :=
    (arguments.headD []).mapM fun t ↦ do return (← factor.double) * t
  { square id dimension with
    name := "WrongGradientTerm"
    firstOrder := fun arguments buffers ↦
      match gradient arguments with
      | .error failure => ⟨buffers, .error failure⟩
      | .ok g => ⟨[g], .ok (.real (squareValue arguments))⟩ }

/-- Twice a number, without second derivatives and without an interval form. -/
def gradientOnly (id : Nat) : Term Float :=
  let name := "GradientOnlyTerm"
  { total id name [1] (fun arguments ↦ first arguments 0 + first arguments 0) (fun _ ↦ [[2.0]])
      (fun _ ↦ []) (fun _ ↦ noEnclosure name) with
    secondOrder := fun _ gradient blocks ↦ noSecondOrder name gradient blocks }

/-- A term that returns the same on every request; its slope is one. -/
def returning (id : Nat) (outcome : Outcome Float) : Term Float :=
  let enclosed : Enclosed :=
    match outcome with
    | .real x => .number (.real x)
    | .integer n => .number (.int n)
    | .nothing => .nothing
  { id
    name := "ReturnsTerm"
    dimensions := [1]
    value := fun _ ↦ .ok outcome
    firstOrder := fun _ _ ↦ ⟨[[1.0]], .ok outcome⟩
    secondOrder := fun _ _ blocks ↦ ⟨[[1.0]], blocks, .ok outcome⟩
    enclosure := fun _ ↦ .ok enclosed }

end Summand.Term
