import Summand.Proofs.QuerySteps
import Summand.Proofs.Release

/-!
# What an objective holds

An objective holds its terms and transforms, in the variables and bindings that it has been given
(`Objective.holdings`). No query changes them or releases any of them, whether it fails or not
(`keepsHoldings_perform`): evaluations fill buffers, count themselves and log messages.
-/

namespace Summand

variable {α : Type}

/-- What an objective has been made with and given. -/
structure Holdings (α : Type) where
  settings : Settings
  closed : Bool
  terms : List (Term α)
  /-- The number of bindings. -/
  size : Nat
  /-- The transform of each variable, if it carries one. -/
  transforms : List (Option (Transform α))
  /-- The length of the flat vector. -/
  scalars : Int

/-- What an objective holds. -/
def Objective.holdings (o : Objective α) : Holdings α where
  settings := o.settings
  closed := o.closed
  terms := o.graph.terms
  size := o.graph.size
  transforms := o.registry.entries.map Variable.transform
  scalars := o.totalScalars

theorem Registry.willing_iff {r : Registry α} :
    r.Willing ↔ ∀ t, some t ∈ r.entries.map Variable.transform → t.closeFailure = none := by
  simp only [Willing, List.mem_map]
  exact ⟨fun h t ⟨v, hv, ht⟩ ↦ h v hv t ht, fun h v hv t ht ↦ h t ⟨v, hv, ht⟩⟩

/-! ### Workers -/

section Workers

variable [Zero α] [Add α] [Storable α]

/-- Workers change bindings, but make no new ones. -/
theorem Crew.length_bindings_run (mode : Mode) (registry : Registry α) (x : List α)
    (turns : List Nat) (crew : Crew α) :
    (crew.run mode registry x turns).bindings.length = crew.bindings.length := by
  have hstep (crew : Crew α) (position : Nat) :
      (crew.step mode registry x position).bindings.length = crew.bindings.length := by
    unfold step
    split
    · rfl
    split
    · rfl
    split
    · rfl
    exact List.length_set
  induction turns generalizing crew with
  | nil => rfl
  | cons position turns ih => exact (ih _).trans (hstep crew position)

end Workers

/-! ### Operations -/

namespace Objective

open Summand.Action

variable {h : Holdings α} {l : List Release}

/-- An operation changes nothing that the objective holds, and releases nothing. -/
abbrev KeepsHoldings {β : Type} (h : Holdings α) (l : List Release) (a : Action α β) : Prop :=
  Keeps (fun s ↦ s.objective.holdings = h ∧ s.releases = l) a

theorem keepsHoldings_modifyObjective {f : Objective α → Objective α}
    (hf : ∀ o, (f o).holdings = o.holdings) : KeepsHoldings h l (modifyObjective f) :=
  ⟨fun s hs ↦ ⟨(hf s.objective).trans hs.1, hs.2⟩⟩

theorem keepsHoldings_log (level : Log.Level) (topic : Log.Topic) (text : String) :
    KeepsHoldings h l (log level topic text : Action α Unit) := by
  refine ⟨fun s hs ↦ ⟨hs.1, ?_⟩⟩
  show releasesOf (s.events ++ [_]) = l
  rw [releasesOf_append, releasesOf_logged, List.append_nil]
  exact hs.2

theorem keepsHoldings_setVariables {entries : List (Variable α)}
    (hentries : entries.map Variable.transform = h.transforms) :
    KeepsHoldings h l (setVariables entries) := by
  constructor
  rintro s ⟨rfl, rfl⟩
  have htransforms : entries.map Variable.transform =
      s.objective.registry.entries.map Variable.transform := hentries
  refine ⟨?_, rfl⟩
  show Holdings.mk _ _ _ _ (entries.map Variable.transform) _ = s.objective.holdings
  rw [htransforms]
  rfl

/-- Scratch values that are made of those of the variables are put into the same variables. -/
theorem map_transform_scratchedAt (x : List α) (entries : List (Variable α)) :
    (scratchedAt x entries).1.map Variable.transform = entries.map Variable.transform := by
  induction entries with
  | nil => rfl
  | cons v rest ih =>
    rw [scratchedAt]
    dsimp only
    split
    · rfl
    · rw [List.map_cons, List.map_cons, ih]

theorem keepsHoldings_copyPointToScratch (x : List α) :
    KeepsHoldings h l (copyPointToScratch x) := by
  constructor
  rintro s ⟨rfl, rfl⟩
  rw [copyPointToScratch, run_objective_bind]
  refine (Keeps.bind (keepsHoldings_setVariables (map_transform_scratchedAt x _)) fun _ ↦ ?_).of_run
    s ⟨rfl, rfl⟩
  split
  · exact .throw _
  · exact .pure _

section Evaluation

variable [Zero α]

theorem keepsHoldings_ensureStorage : KeepsHoldings h l (ensureStorage : Action α _) := by
  rw [ensureStorage]
  refine .bind .objective fun o ↦ ?_
  split
  · exact .pure _
  · refine .bind (.liftM _) fun _ ↦ .bind (keepsHoldings_log _ _ _) fun _ ↦ ?_
    exact .bind (keepsHoldings_modifyObjective fun _ ↦ rfl) fun _ ↦ .pure _

theorem keepsHoldings_copyBlocksToScratch :
    KeepsHoldings h l (copyBlocksToScratch : Action α Unit) := by
  constructor
  rintro s ⟨rfl, rfl⟩
  exact (keepsHoldings_setVariables (List.map_map ..)).of_run s ⟨rfl, rfl⟩

variable [Add α] [Storable α]

theorem keepsHoldings_runWorkers (mode : Mode) (x : List α) :
    KeepsHoldings h l (runWorkers mode x) := by
  rw [runWorkers]
  refine .bind keepsHoldings_ensureStorage fun storage ↦ ?_
  constructor
  rintro s ⟨rfl, rfl⟩
  rw [run_objective_bind, run_platform_bind, run_modifyObjective_bind]
  refine (show KeepsHoldings s.objective.holdings s.releases _ from ?_).of_run _ ⟨?_, rfl⟩
  · split
    · exact .pure _
    · exact .bind (keepsHoldings_log _ _ _) fun _ ↦ .throw _
  · show Holdings.mk _ _ _ (Crew.bindings _).length _ _ = s.objective.holdings
    rw [Crew.length_bindings_run]
    rfl

theorem keepsHoldings_evaluateValue (x : Option (GivenPoint α)) :
    KeepsHoldings h l (evaluateValue x) := by
  rw [evaluateValue]
  refine .bind keepsHoldings_ensureStorage fun _ ↦ ?_
  have hrest : KeepsHoldings h l (do
      modifyObjective (countPlain : Objective α → _); runWorkers .value []) :=
    .bind (keepsHoldings_modifyObjective fun _ ↦ rfl) fun _ ↦ keepsHoldings_runWorkers .value []
  rcases x with - | x
  · exact .bind keepsHoldings_copyBlocksToScratch fun _ ↦ hrest
  · refine .bind (keeps_checkPoint x) fun point ↦ ?_
    exact .bind (keepsHoldings_copyPointToScratch point) fun _ ↦ hrest

theorem keepsHoldings_evaluateWorkers (mode : Mode) (x : List α) :
    KeepsHoldings h l (evaluateWorkers mode x) := by
  rw [evaluateWorkers]
  refine .bind keepsHoldings_ensureStorage fun _ ↦
    .bind (keepsHoldings_copyPointToScratch x) fun _ ↦ ?_
  refine .bind (keepsHoldings_modifyObjective fun _ ↦ rfl) fun _ ↦ ?_
  refine .bind (keepsHoldings_modifyObjective fun _ ↦ rfl) fun _ ↦ ?_
  exact .bind (keepsHoldings_runWorkers mode x) fun _ ↦ .bind .objective fun _ ↦ .pure _

/-- Evaluations change nothing that the objective holds, and nothing else that queries change is
part of that. -/
theorem lasting_holdings : Lasting fun s : Scene α ↦ s.objective.holdings = h ∧ s.releases = l where
  memory _ _ hs := hs
  coordinates _ _ hs := hs
  statistics _ _ hs := hs
  logged s level topic text hs := (keepsHoldings_log level topic text).of_run s hs
  value := keepsHoldings_evaluateValue
  workers := keepsHoldings_evaluateWorkers

/-- A query changes nothing that the objective holds, and releases nothing. -/
theorem keepsHoldings_perform [OfNat α 1] (q : Query α) : KeepsHoldings h l q.perform :=
  lasting_holdings.perform q

end Evaluation

end Objective

end Summand
