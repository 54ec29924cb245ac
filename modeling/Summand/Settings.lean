import Summand.Choice

/-!
# Settings

An objective is built with three settings: whether it can compute Hessians, how many workers
evaluate it, and whether it releases its terms when it is closed. The first two are kept as they
were given: any value can stand for a yes or a no, and the number of workers is checked only when
it is used.
-/

namespace Summand

/-- Whether an objective releases its terms. -/
inductive Ownership where
  | owned
  | borrowed
  deriving Repr, DecidableEq

namespace Ownership

def name : Ownership → String
  | .owned => "owned"
  | .borrowed => "borrowed"

/-- Both choices. -/
def all : List Ownership := [.owned, .borrowed]

/-- The choice that a value names. -/
def ofJson (given : Json) : Except Failure Ownership :=
  Choice.ofJson "TermOwnership" name all given

end Ownership

/-- The settings of an objective. A null number of workers means one for each processor. -/
structure Settings where
  hessianEnabled : Json := .bool true
  workerCount : Json := .null
  /-- Whether terms are released; without a choice they are not. -/
  ownership : Option Ownership := some .owned
  deriving Inhabited

/-- New values for some of the settings; null leaves a setting as it is. -/
structure Overrides where
  hessianEnabled : Json := .null
  workerCount : Json := .null
  ownership : Option Ownership := none

/-- The number of workers that a value denotes: a positive integer, and no truth value. -/
def validateWorkerCount : Json → Except Failure Nat
  | .int n =>
    if n < 1 then .error (.invalidSetting "worker_count" (.int n) "must be at least 1")
    else .ok n.toNat
  | value => .error (.invalidSetting "worker_count" value "must be an integer")

namespace Settings

/-- The settings with the given ones replaced. -/
def withOverrides (s : Settings) (o : Overrides) : Settings where
  hessianEnabled := if o.hessianEnabled.isNull then s.hessianEnabled else o.hessianEnabled
  workerCount := if o.workerCount.isNull then s.workerCount else o.workerCount
  ownership := o.ownership.or s.ownership

/-- The names of the settings. -/
def names : List String := ["hessian_enabled", "worker_count", "term_ownership"]

/-- The failure of giving a setting that there is not. -/
def unknownName : Failure := .raised "TypeError" "there is no such setting"

/-- Fails unless all given names are those of settings. -/
def checkNames (given : List String) : Except Failure Unit :=
  if given.all names.contains then .ok () else .error unknownName

/-- The name of the choice about releasing terms, if it has been made. -/
def ownershipName (s : Settings) : Except Failure String :=
  match s.ownership with
  | some choice => .ok choice.name
  | none => .error (.missingAttribute .null "value")

/-- Whether Hessians can be computed. -/
def allowsHessian (s : Settings) : Bool := s.hessianEnabled.isTruthy

/-- The number of workers in effect, on a machine with the given number of processors. -/
def resolvedWorkerCount (processors : Nat) (s : Settings) : Except Failure Nat :=
  match s.workerCount with
  | .null => .ok (max 1 processors)
  | value => validateWorkerCount value

end Settings

end Summand
