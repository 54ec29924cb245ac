import Summand.Grid
import Summand.Log
import Summand.Sparse

/-!
# Events

What an operation lets others see besides its result: log messages, the release of terms and
transforms, and the dialogue with a minimizer. Events are kept in the order in which they occur.
-/

namespace Summand

/-- How a minimizer gets Hessians. -/
inductive HessianForm where
  | dense
  | sparse
  deriving Repr, DecidableEq

/-- A Hessian as a minimizer gets it. -/
inductive Hessian (α : Type) where
  | dense (rows : List (List α))
  | sparse (matrix : SparseMatrix α)

/-- A start of a minimization. -/
structure Start (α : Type) where
  /-- The start as it was given. -/
  given : Json
  /-- The point that it denotes, if it denotes one. -/
  point : Except Failure (Grid α)

/-- What a minimizer is asked to do. -/
structure MinimizeRequest (α : Type) where
  start : Start α
  method : String
  /-- The form of the Hessian on offer, if one is. -/
  hessianForm : Option HessianForm
  /-- The tolerance, null if it is left to the minimizer. -/
  tolerance : Json
  /-- The limit on iterations, null if it is left to the minimizer. -/
  iterationLimit : Json
  /-- Further settings by name. -/
  extra : List (String × Json)

/-- Something that an operation lets others see. -/
inductive Event (α : Type) where
  /-- A message was logged. -/
  | logged (level : Log.Level) (topic : Log.Topic) (text : String)
  /-- A term was told to release what it holds. -/
  | termReleased (id : Nat)
  /-- A transform was told to release what it holds. -/
  | transformReleased (id : Nat)
  /-- A minimizer was started. -/
  | minimizeStarted (request : MinimizeRequest α)
  /-- A minimizer was told the value and the gradient at a point. -/
  | valueAnswered (point : Grid Number) (value : α) (gradient : List α)
  /-- A minimizer was told the Hessian at a point. -/
  | hessianAnswered (hessian : Hessian α)

/-- A computation that may fail and leaves events behind either way. -/
abbrev Traced (α β : Type) := ExceptT Failure (StateM (List (Event α))) β

namespace Traced

variable {α : Type}

/-- Adds an event to the trace. -/
def emit (event : Event α) : Traced α Unit := modify fun events ↦ events ++ [event]

/-- Logs a message. -/
def log (level : Log.Level) (topic : Log.Topic) (text : String) : Traced α Unit :=
  emit (.logged level topic text)

end Traced

end Summand
