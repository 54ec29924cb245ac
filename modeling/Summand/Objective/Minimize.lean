import Summand.Objective.Evaluation
import Summand.Solution.Basic

/-!
# Minimizing objectives

A minimizer asks for values, gradients and Hessians at points of its choice and ends with a result
or a failure. It never sees the caller's blocks: questions are answered from the flat point alone,
into arrays of the minimization's own. The caller's blocks are read once for the start and written
once at the end, and only when the minimizer ended with a result.
-/

namespace Summand

/-! ### Minimizers -/

/-- What a minimizer ends with. -/
structure MinimizerResult where
  success : Bool
  /-- The point, which is read last. -/
  x : GivenPoint Float
  /-- The value at the point. -/
  value : Number
  message : Json := .text ""
  iterations : Json := .null

/-- A minimizer as a dialogue: it asks a question, goes on with the answer, and ends at last. An
answer may be a failure, which a minimizer may handle or end with. -/
inductive Minimizer where
  /-- Ends with a result. -/
  | finish (result : MinimizerResult)
  /-- Ends with a failure. -/
  | fail (failure : Failure)
  /-- Asks for the value and the gradient at a point. -/
  | askValue (point : Grid Number) (next : Except Failure (Float × List Float) → Minimizer)
  /-- Asks for the Hessian at a point. -/
  | askHessian (point : Grid Number) (next : Except Failure (Hessian Float) → Minimizer)

namespace Minimizer

/-- Hands a failure on and goes on with any other answer. -/
def onAnswer {β : Type} (next : β → Minimizer) : Except Failure β → Minimizer
  | .error failure => .fail failure
  | .ok answer => next answer

/-- A minimizer that asks at given points in turn, for the value and then for the Hessian if one is
on offer. It ends with the first failure, or in a given way at the last point and value. -/
def scripted (withHessian : Bool) (finish : Grid Number → Float → Minimizer) :
    List (Except Failure (Grid Number)) → Grid Number → Float → Minimizer
  | [], point, value => finish point value
  | .error failure :: _, _, _ => .fail failure
  | .ok point :: rest, _, _ =>
    .askValue point <| onAnswer fun (value, _) ↦
      if withHessian then
        .askHessian point <| onAnswer fun _ ↦ scripted withHessian finish rest point value
      else scripted withHessian finish rest point value

end Minimizer

/-- What a minimization is asked for. -/
structure MinimizeOptions where
  /-- The name of the minimizer's method. -/
  method : Json := .text "L-BFGS-B"
  /-- The start; that of the caller's blocks unless it is given. -/
  start : Option (Start Float) := none
  /-- The tolerance, as the minimizer gets it. -/
  tolerance : Json := .null
  /-- The limit on iterations, as the minimizer gets it. -/
  iterationLimit : Json := .null
  /-- Whether a sparse Hessian is preferred. -/
  sparse : Bool := false
  /-- Whether the last point is written to the caller's blocks. -/
  writeBack : Bool := true
  /-- Further settings, as the minimizer gets them. -/
  extra : List (String × Json) := []

namespace MinimizeOptions

/-- The methods that use a Hessian. -/
def hessianMethods : List String :=
  ["newton-cg", "dogleg", "trust-ncg", "trust-krylov", "trust-exact", "trust-constr"]

/-- The methods among them that can do with a sparse one. -/
def sparseMethods : List String := ["newton-cg", "trust-constr"]

/-- The name of the method, which has to be a text. -/
def methodName (o : MinimizeOptions) : Except Failure String :=
  match o.method with
  | .text name => .ok name
  | other => .error (.missingAttribute other "lower")

/-- The form of the Hessian that a method is offered, if it is offered one. -/
def hessianForm (o : MinimizeOptions) (methodName : String) (enabled : Bool) :
    Option HessianForm :=
  let word := String.ofList (Text.lower methodName.toList)
  if enabled && hessianMethods.contains word then
    some (if o.sparse && sparseMethods.contains word then .sparse else .dense)
  else none

/-- The name of what is minimized. -/
def ownNames : List String := ["function"]

/-- The names of what is added to the settings in a minimizer's request. -/
def requestNames : List String := ["fun", "jac", "hess", "options"]

/-- The failure of giving a setting twice. -/
def repeatedName (name : String) : Failure :=
  .raised "TypeError" ("multiple values for " ++ name)

/-- Fails if a further setting has one of the given names. -/
def checkExtra (o : MinimizeOptions) (names : List String) : Except Failure Unit :=
  match o.extra.find? fun entry ↦ names.contains entry.1 with
  | some (name, _) => .error (repeatedName name)
  | none => .ok ()

/-- The request that a minimizer gets. -/
def request (o : MinimizeOptions) (methodName : String) (start : Start Float)
    (form : Option HessianForm) : MinimizeRequest Float where
  start
  method := methodName
  hessianForm := form
  tolerance := o.tolerance
  iterationLimit := o.iterationLimit
  extra := o.extra

end MinimizeOptions

namespace Objective

open Summand.Action

/-! ### Answers -/

/-- The value and the gradient at a point, for a minimizer. -/
def answerValue (point : Grid Number) : Action Float (Float × List Float) := do
  let (value, gradient) ← valueAndGradient point.doubles
  emit [.valueAnswered point value gradient]
  return (value, gradient)

/-- The Hessian at a point in a form. -/
def hessianAt (form : HessianForm) (point : Grid Number) : Action Float (Hessian Float) := do
  let n := (← objective).totalScalars
  if form = .dense then Allocation.check .real [n, n]
  checkOpen "evaluate"
  let _ ← evaluateFresh .hessian point.doubles
  let o ← objective
  match form with
  | .dense => return .dense (assembleDense .float64 o)
  | .sparse => return .sparse ((← assembleTarget (blockValues o)).matrix.getD .empty)

/-- The Hessian at a point, for a minimizer. -/
def answerHessian (form : HessianForm) (point : Grid Number) : Action Float (Hessian Float) := do
  let hessian ← hessianAt form point
  emit [.hessianAnswered hessian]
  return hessian

/-- The failure of asking for a Hessian that was not offered. -/
def hessianNotOffered : Failure := .raised "TypeError" "no Hessian is offered"

/-- Answers the questions of a minimizer until it ends. -/
def converse (form : Option HessianForm) : Minimizer → Action Float MinimizerResult
  | .finish result => return result
  | .fail failure => throw failure
  | .askValue point next => do
    let answer ← observe (answerValue point)
    converse form (next answer)
  | .askHessian point next => do
    let answer ← observe
      (match form with
      | some form => answerHessian form point
      | none => throw hessianNotOffered)
    converse form (next answer)

/-! ### Results -/

/-- Whether a message tells that a limit on iterations was reached. -/
def tellsIterationLimit (message : String) : Bool :=
  let mentions (word : String) : Bool := Text.occursIn word.toList (Text.lower message.toList)
  mentions "iteration" && (mentions "maximum" || mentions "limit")

/-- The status that a minimizer's result stands for. -/
def statusOf (result : MinimizerResult) : Status :=
  if result.success then .optimal
  else if tellsIterationLimit result.message.plain then .maxIterations
  else .failed

/-- The solution of an objective without variables. -/
def noVariables : Solution :=
  { status := .failed, message := .text "Function has no variables" }

/-- The start at the point whose user-space value the caller's blocks hold. -/
def startFromBlocks : Action Float (Start Float) := do
  let x ← copyBlocksToPoint
  return ⟨.list (x.map .real), .ok (.vector x)⟩

/-- Minimizes an objective. A failure of the library during the dialogue becomes a failed solution;
any other failure is passed on. The duration is that of the dialogue, which the caller measures. -/
def solve (options : MinimizeOptions) (minimizer : MinimizeRequest Float → Minimizer)
    (duration : Float) : Action Float Solution := do
  options.checkExtra MinimizeOptions.ownNames
  let o ← objective
  if o.totalScalars = 0 then return noVariables
  let start ← options.start.getDM startFromBlocks
  let methodName ← options.methodName
  let form := options.hessianForm methodName o.settings.allowsHessian
  if form.isSome then Allocation.check .real [o.totalScalars]
  options.checkExtra MinimizeOptions.requestNames
  let request := options.request methodName start form
  emit [.minimizeStarted request]
  match ← observe (converse form (minimizer request)) with
  | .error failure =>
    if !failure.isOwn then throw failure
    log .warning .solver ("Solve failed: " ++ failure.message)
    return { status := .failed, message := .text failure.message, solveTime := .real duration }
  | .ok result =>
    let status := statusOf result
    if options.writeBack then copyPointToBlocks result.x
    log .debug .solver ("Solve finished: " ++ status.name)
    let value ← result.value.double
    return {
      status
      objectiveValue := .real value
      x := (← result.x).map .real
      iterations := result.iterations
      message := .text result.message.plain
      solveTime := .real duration }

end Objective

end Summand
