import Summand.Graph
import Summand.Interleaving
import Summand.Settings
import Summand.Statistics

/-!
# Objectives

An objective is a sum of terms over registered variables. Beside the registry and the graph it
keeps what evaluations reuse: the storage of the workers, the coordinates of the Hessian, and
whether a pool of threads has been started. None of these shows in a result; building operations
drop the first two, and the next evaluation that needs them makes them anew.

Operations run in a scene, which is the objective with the caller's memory, the events so far and
the platform, which makes the choices that are not the objective's own. An operation that fails
leaves the scene as far as it has come.
-/

namespace Summand

variable {α : Type}

/-- The buffers of one worker. -/
structure WorkerStorage (α : Type) where
  /-- The gradient accumulated over the worker's bindings. -/
  gradient : List α
  /-- A row for each argument of the binding at hand. -/
  scratch : List (List α)

/-- A sum of terms over registered variables. -/
structure Objective (α : Type) where
  settings : Settings
  workerCount : Nat
  registry : Registry α := {}
  graph : Graph α := {}
  statistics : Statistics := {}
  storage : Option (List (WorkerStorage α)) := none
  coordinates : Option (List (Int × Int)) := none
  /-- The number of threads in the pool, once it has been started. -/
  pool : Option Nat := none
  closed : Bool := false

namespace Objective

/-- A new objective, on a machine with the given number of processors. -/
def create (processors : Nat) (settings : Settings) : Except Failure (Objective α) := do
  return { settings, workerCount := ← settings.resolvedWorkerCount processors }

/-- The length of the flat vector. -/
def totalScalars (o : Objective α) : Int := o.registry.totalScalars

/-- The text of an objective in messages. -/
def shown (o : Objective α) : String :=
  "Function(variables=" ++ toString o.registry.count ++ ", scalars=" ++ toString o.totalScalars ++
    ", terms=" ++ toString o.graph.size ++ ", workers=" ++ toString o.workerCount ++ ")"

/-- Drops what evaluations keep for reuse. -/
def invalidate (o : Objective α) : Objective α := { o with storage := none, coordinates := none }

end Objective

/-! ### Operations -/

/-- What is left to the machine. -/
structure Platform (α : Type) where
  /-- The order in which the workers take their turns. -/
  interleaving : Interleaving := .sequential
  /-- How the entries of the columns of a sparse matrix are arranged before they are sorted. -/
  arrangement : List (List (Nat × α)) → List (List (Nat × α)) := Arrangement.arrangeAll

/-- What an operation can read and change; it never changes the platform. -/
structure Scene (α : Type) where
  objective : Objective α
  memory : Memory α := {}
  events : List (Event α) := []
  platform : Platform α := {}

/-- An operation on an objective. -/
abbrev Action (α β : Type) := ExceptT Failure (StateM (Scene α)) β

namespace Action

/-- Runs an operation in a scene. -/
def run {β : Type} (action : Action α β) (scene : Scene α) : Except Failure β × Scene α :=
  (ExceptT.run action).run scene

/-- A traced computation as an operation. -/
def ofTraced {β : Type} (computation : Traced α β) : Action α β := do
  let scene ← get
  let (result, events) := (ExceptT.run computation).run scene.events
  set { scene with events }
  MonadExcept.ofExcept result

/-- An operation whose failure is made its result. -/
def observe {β : Type} (action : Action α β) : Action α (Except Failure β) :=
  ExceptT.lift (ExceptT.run action)

/-- The objective at this point. -/
def objective : Action α (Objective α) := return (← get).objective

/-- Changes the objective. -/
def modifyObjective (f : Objective α → Objective α) : Action α Unit :=
  modify fun scene ↦ { scene with objective := f scene.objective }

/-- The caller's memory at this point. -/
def memory : Action α (Memory α) := return (← get).memory

/-- The platform. -/
def platform : Action α (Platform α) := return (← get).platform

/-- Changes the caller's memory. -/
def modifyMemory (f : Memory α → Memory α) : Action α Unit :=
  modify fun scene ↦ { scene with memory := f scene.memory }

/-- Adds events to the trace. -/
def emit (events : List (Event α)) : Action α Unit :=
  modify fun scene ↦ { scene with events := scene.events ++ events }

/-- Logs a message. -/
def log (level : Log.Level) (topic : Log.Topic) (text : String) : Action α Unit :=
  emit [.logged level topic text]

/-- Fails if the objective has been closed. -/
def checkOpen (operation : String) : Action α Unit := do
  if (← objective).closed then throw (.closed operation)

end Action

end Summand
