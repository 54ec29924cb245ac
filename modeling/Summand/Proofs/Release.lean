import Mathlib.Data.List.Count
import Summand.Objective.Building
import Summand.Proofs.Action

/-!
# What is released

The events tell which terms and transforms have released what they hold, in which order and how
often (`Scene.releases`). Closing goes through the distinct terms, if the objective owns its terms,
and then through the variables that carry a transform; a transform that several variables carry
comes up once for each of them (`Registry.installed`). As long as nothing fails to be released,
nothing is left out (`Objective.run_close`).
-/

namespace Summand

variable {α : Type}

/-- A term or a transform that releases what it holds. -/
inductive Release where
  | term (id : Nat)
  | transform (id : Nat)
  deriving DecidableEq

/-- The release that an event tells of. -/
def Event.release? : Event α → Option Release
  | .termReleased id => some (.term id)
  | .transformReleased id => some (.transform id)
  | _ => none

/-- The releases among events. -/
def releasesOf (events : List (Event α)) : List Release := events.filterMap Event.release?

/-- The releases so far. -/
def Scene.releases (s : Scene α) : List Release := releasesOf s.events

@[simp] theorem releasesOf_nil : releasesOf ([] : List (Event α)) = [] := rfl

@[simp] theorem releasesOf_append (events added : List (Event α)) :
    releasesOf (events ++ added) = releasesOf events ++ releasesOf added :=
  List.filterMap_append

@[simp] theorem releasesOf_logged (level : Log.Level) (topic : Log.Topic) (text : String) :
    releasesOf [(.logged level topic text : Event α)] = [] := rfl

@[simp] theorem releasesOf_transformReleased (id : Nat) :
    releasesOf [(.transformReleased id : Event α)] = [.transform id] := rfl

theorem releasesOf_map_termReleased (ids : List Nat) :
    releasesOf (ids.map (Event.termReleased (α := α))) = ids.map Release.term := by
  rw [releasesOf, List.filterMap_map]
  exact congrFun (List.filterMap_eq_map (f := Release.term)) ids

theorem releasesOf_map_transformReleased (ids : List Nat) :
    releasesOf (ids.map (Event.transformReleased (α := α))) = ids.map Release.transform := by
  rw [releasesOf, List.filterMap_map]
  exact congrFun (List.filterMap_eq_map (f := Release.transform)) ids

namespace Release

@[simp] theorem count_transform_map_transform (ids : List Nat) (id : Nat) :
    (ids.map Release.transform).count (.transform id) = ids.count id :=
  List.count_map_of_injective ids _ (fun _ _ h ↦ Release.transform.inj h) id

@[simp] theorem count_term_map_term (ids : List Nat) (id : Nat) :
    (ids.map Release.term).count (.term id) = ids.count id :=
  List.count_map_of_injective ids _ (fun _ _ h ↦ Release.term.inj h) id

@[simp] theorem count_transform_map_term (ids : List Nat) (id : Nat) :
    (ids.map Release.term).count (.transform id) = 0 :=
  List.count_eq_zero.2 (by simp)

@[simp] theorem count_term_map_transform (ids : List Nat) (id : Nat) :
    (ids.map Release.transform).count (.term id) = 0 :=
  List.count_eq_zero.2 (by simp)

end Release

/-! ### What an objective holds -/

/-- The identity of a transform, if there is one. -/
def carried (transform : Option (Transform α)) : List Nat := (transform.map Transform.id).toList

/-- The transforms of the variables, one for each variable that carries one. -/
def Registry.installed (r : Registry α) : List Nat := r.entries.flatMap fun v ↦ carried v.transform

/-- The distinct terms that are still held. -/
def Graph.held (g : Graph α) : List Nat := g.terms.map Term.id

/-- No transform fails to be released. -/
def Registry.Willing (r : Registry α) : Prop :=
  ∀ v ∈ r.entries, ∀ t, v.transform = some t → t.closeFailure = none

/-- No term fails to be released. -/
def Graph.Willing (g : Graph α) : Prop := ∀ t ∈ g.terms, t.closeFailure = none

/-- A registry without transforms. -/
def Registry.cleared (r : Registry α) : Registry α :=
  { r with entries := r.entries.map fun v ↦ { v with transform := none } }

@[simp] theorem Registry.installed_cleared (r : Registry α) : r.cleared.installed = [] := by
  simp [cleared, installed, carried]

/-! ### Closing -/

theorem Registry.releaseTransforms_eq {vars : List (Variable α)}
    (h : ∀ v ∈ vars, ∀ t, v.transform = some t → t.closeFailure = none) :
    releaseTransforms vars =
      (vars.map fun v ↦ { v with transform := none },
        (vars.flatMap fun v ↦ carried v.transform).map .transformReleased, none) := by
  induction vars with
  | nil => rfl
  | cons v rest ih =>
    have hrest := ih fun w hw ↦ h w (List.mem_cons_of_mem v hw)
    rw [releaseTransforms, hrest]
    rcases hv : v.transform with - | t
    · -- A variable without a transform is left as it is.
      have hsame : { v with transform := none } = v := by rw [← hv]
      simp [carried, hv, hsame]
    · simp [h v List.mem_cons_self t hv, carried, hv]

theorem Registry.Willing.close_eq {r : Registry α} (h : r.Willing) :
    r.close = (r.cleared, r.installed.map .transformReleased, none) := by
  rw [close, releaseTransforms_eq h]
  rfl

theorem Graph.Willing.close_eq {g : Graph α} (h : g.Willing) :
    g.close = ({ g with terms := [] }, g.held.map .termReleased, none) := by
  have hterms {terms : List (Term α)} (h : ∀ t ∈ terms, t.closeFailure = none) :
      releaseTerms terms = ((terms.map Term.id).map .termReleased, none) := by
    induction terms with
    | nil => rfl
    | cons t rest ih =>
      rw [releaseTerms, h t List.mem_cons_self, ih fun u hu ↦ h u (List.mem_cons_of_mem t hu)]
      rfl
  rw [close, hterms h]
  rfl

namespace Objective

open Summand.Action

variable {s : Scene α}

/-- The terms that an objective releases when it is closed. -/
def owed (o : Objective α) : List Nat :=
  if o.settings.ownership = some .owned then o.graph.held else []

/-- An objective after it has been closed. -/
def afterClose (o : Objective α) : Objective α :=
  { o.invalidate with
    closed := true
    pool := none
    graph := if o.settings.ownership = some .owned then { o.graph with terms := [] } else o.graph
    registry := o.registry.cleared }

theorem run_close_of_closed (h : s.objective.closed = true) :
    (close : Action α Unit).run s = (.ok (), s) := by
  rw [close, run_objective_bind, h]
  rfl

theorem run_releaseTerms (h : s.objective.graph.Willing) :
    (releaseTerms : Action α Unit).run s =
      (.ok (), { s with
        objective := { s.objective with graph := { s.objective.graph with terms := [] } }
        events := s.events ++ s.objective.graph.held.map .termReleased }) := by
  rw [releaseTerms, run_objective_bind, h.close_eq]
  rfl

theorem run_releaseTransforms (h : s.objective.registry.Willing) :
    (releaseTransforms : Action α Unit).run s =
      (.ok (), { s with
        objective := { s.objective with registry := s.objective.registry.cleared }
        events := s.events ++ s.objective.registry.installed.map .transformReleased }) := by
  rw [releaseTransforms, run_objective_bind, h.close_eq]
  rfl

/-- Closing releases all that is owed, once for each distinct term and once for each variable that
carries a transform. -/
theorem run_close (hopen : s.objective.closed = false) (hterms : s.objective.graph.Willing)
    (htransforms : s.objective.registry.Willing) :
    (close : Action α Unit).run s =
      (.ok (), { s with
        objective := s.objective.afterClose
        events := s.events ++ s.objective.owed.map .termReleased ++
          s.objective.registry.installed.map .transformReleased }) := by
  rw [close, run_objective_bind, hopen]
  simp only [Bool.false_eq_true, if_false]
  rw [run_modifyObjective_bind, run_objective_bind, owed, afterClose]
  dsimp only [invalidate]
  by_cases howned : s.objective.settings.ownership = some .owned
  · simp only [howned, if_true]
    refine (run_bind_of_ok (run_releaseTerms ?_)).trans ((run_releaseTransforms ?_).trans rfl)
    · exact hterms
    · exact htransforms
  · simp only [howned, if_false]
    refine (run_releaseTransforms ?_).trans ?_
    · exact htransforms
    · rw [List.map_nil, List.append_nil]

end Objective

end Summand
