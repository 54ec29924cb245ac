import Summand.Allocation
import Summand.Registry
import Summand.Term.Basic

/-!
# The graph of terms

A binding ties a term to the variables of its arguments. Bindings are kept in the order in which
they were added. The distinct terms are remembered beside them, so that a term in several bindings
is released once.
-/

namespace Summand

variable {α : Type}

/-- A term with the variables it is evaluated on. -/
structure Binding (α : Type) where
  term : Term α
  /-- The index of each argument's variable. -/
  indices : List Nat
  /-- The second derivatives of the last Hessian evaluation, if Hessians are computed at all. -/
  hessianBlocks : Option (HessianBlocks α)

namespace Binding

def arity (b : Binding α) : Nat := b.indices.length

end Binding

/-- The bindings and the distinct terms among them, both in the order of addition. -/
structure Graph (α : Type) where
  bindings : List (Binding α) := []
  terms : List (Term α) := []

namespace Graph

/-! ### Views -/

/-- The number of bindings. -/
def size (g : Graph α) : Nat := g.bindings.length

/-- The greatest number of arguments, one if there are no bindings. -/
def maxArity (g : Graph α) : Nat :=
  match g.bindings with
  | [] => 1
  | b :: rest => rest.foldl (fun n c ↦ max n c.arity) b.arity

/-- The text of a graph in messages. -/
def shown (g : Graph α) : String :=
  "TermGraph(bindings=" ++ toString g.bindings.length ++ ", terms=" ++ toString g.terms.length ++
    ")"

/-- The variables that a binding's arguments refer to. -/
def argumentVariables (r : Registry α) (b : Binding α) : List (Variable α) :=
  b.indices.filterMap (r.entries[·]?)

/-- The variables of all bindings, one for each argument. -/
def boundVariables (g : Graph α) (r : Registry α) : List (Variable α) :=
  g.bindings.flatMap (argumentVariables r)

/-! ### Addition -/

/-- The variables for a term's arguments from position `k` on, or the failure of the first argument
that has none or one of another dimension. -/
def bindArguments (r : Registry α) (k : Nat) : List Handle → List Int → Except Failure (List Nat)
  | handle :: handles, expected :: dimensions =>
    match r.lookup handle with
    | none => .error (.unknownVariable k)
    | some v =>
      if ↑v.userDimension ≠ expected then
        .error (.argumentMismatch k expected v.userDimension)
      else (bindArguments r (k + 1) handles dimensions).map (v.index :: ·)
  | _, _ => .ok []

/-- Blocks of zeros for every pair of arguments. -/
def zeroBlocks [Zero α] (dimensions : List Nat) : HessianBlocks α :=
  dimensions.map fun rows ↦ dimensions.map fun columns ↦ Buffer.zeroMatrix rows columns

/-- Fails if the blocks for every pair of arguments cannot be allocated. -/
def checkBlocks (dimensions : List Nat) : Except Failure Unit := do
  let total : Nat := dimensions.foldl (· + ·) 0
  for rows in dimensions do
    for columns in dimensions do
      Allocation.checkOr (.storage "Hessian blocks" [total, total]) [rows, columns]

/-- The distinct terms after one more, which is new unless one of the same identity is there. -/
def noteTerm (terms : List (Term α)) (term : Term α) : List (Term α) :=
  if terms.any fun t ↦ t.id == term.id then terms else terms ++ [term]

/-- Binds a term to the variables of the given blocks. -/
def add [Zero α] (g : Graph α) (r : Registry α) (term : Term α) (handles : List Handle)
    (withHessian : Bool) : Except Failure (Graph α) := do
  if handles.length ≠ term.arity then
    throw (.arityMismatch term.arity handles.length)
  let indices ← bindArguments r 0 handles term.dimensions
  if withHessian then checkBlocks term.sizes
  let hessianBlocks := if withHessian then some (zeroBlocks term.sizes) else none
  return ⟨g.bindings ++ [⟨term, indices, hessianBlocks⟩], noteTerm g.terms term⟩

/-! ### Release -/

/-- Releases terms in order, up to the first one that cannot be released. -/
def releaseTerms : List (Term α) → List (Event α) × Option Failure
  | [] => ([], none)
  | t :: rest =>
    match t.closeFailure with
    | some failure => ([.termReleased t.id], some failure)
    | none =>
      let (events, failure) := releaseTerms rest
      (.termReleased t.id :: events, failure)

/-- A graph after the release of its terms, the events of that, and its failure. The distinct terms
are forgotten once all of them are released. -/
def close (g : Graph α) : Graph α × List (Event α) × Option Failure :=
  let (events, failure) := releaseTerms g.terms
  (if failure.isNone then { g with terms := [] } else g, events, failure)

end Graph

end Summand
