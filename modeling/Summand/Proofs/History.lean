import Summand.Proofs.Building
import Summand.Proofs.Exact
import Summand.Proofs.Query

/-!
# Histories

An objective is created, and from then on its owner calls operations in any order. Every call may
fail; between calls the owner may change the contents of the memory, and the machine may change its
ways. `Scene.Reached` holds of all scenes that come about like this.

An open objective is sound in all of them (`Scene.Reached.kept`). Building operations keep it sound
because they drop what could go stale, and queries because they only fill buffers. The latter is an
instance of the agreement of two evaluations (`Scene.Agree.of_direct`): a scene agrees with itself.
-/

namespace Summand

variable {α : Type}

/-! ### Agreement with equal computations -/

section Agreement

variable [Zero α] [Add α] [Storable α] {m m' : Memory α} {s t : Scene α}
  {E : Failure → Failure → Scene α → Scene α → Prop}

namespace Objective

omit [Add α] [Storable α] in
/-- The Hessian blocks after an evaluation do not depend on those before it. -/
theorem map_afterward_hessian_eq_of_bare {o o' : Objective α} (h : o.bare = o'.bare)
    (registry : Registry α) :
    o.graph.bindings.map (Binding.afterward .hessian registry) =
      o'.graph.bindings.map (Binding.afterward .hessian registry) := by
  have key (bindings : List (Binding α)) :
      bindings.map (Binding.afterward .hessian registry) =
        (bindings.map Binding.bare).map (Binding.afterward .hessian registry) := by
    rw [List.map_map]
    exact List.map_congr_left fun b _ ↦ (Binding.afterward_hessian_bare registry b).symm
  rw [key, bindings_eq_of_bare h, ← key]

end Objective

namespace Scene

open Objective

omit [Add α] in
/-- What is alike stays so in evaluations of both objectives. -/
theorem Alike.evaluated (h : Alike m m' s t) {s' t' : Scene α} (hs : Evaluated s s')
    (ht : Evaluated t t') : Alike m m' s' t' where
  bare := hs.bare.symm.trans (h.bare.trans ht.bare)
  kept := .inr hs.sound
  kept' := .inr ht.sound
  arrangement := by rw [hs.platform, ht.platform, h.arrangement]
  memory := by rw [hs.memory, ht.memory]; exact h.memory

/-- Evaluations agree that have the same number of workers and the same sums to compute. -/
theorem Agree.of_direct (hE : ∀ failure s t, Alike m m' s t → E failure failure s t)
    (h : Alike m m' s t) (hopen : s.objective.closed = false)
    (hworkers : s.objective.workerCount = t.objective.workerCount)
    (hdirect : ∀ mode x, s.objective.direct mode x = t.objective.direct mode x)
    (hvalue : ∀ x, (x = none → m = m') →
      s.objective.directValue s.memory x = t.objective.directValue t.memory x) :
    Agree E m m' s t := by
  have hs := h.kept.sound hopen
  have ht := h.kept'.sound (closed_eq_of_bare h.bare ▸ hopen)
  constructor
  · intro mode hmode x
    refine .of_realizes (realizes_evaluateWorkers hs hmode x)
      (hdirect mode x ▸ realizes_evaluateWorkers ht hmode x)
      (fun failure s' t' hs' ht' ↦ hE _ _ _ (h.evaluated hs' ht')) ?_
    intro sums r r' s' t' hr hr'
    have hgradients : r.2 = r'.2 := by
      rw [hr.gradients, hr'.gradients, hworkers, h.totalScalars]
    refine ⟨hr.value.trans hr'.value.symm, (totalScalars_eq_of_bare hr.evaluated.bare).symm,
      fun element ↦ by rw [hgradients], hr.registry.trans hr'.registry.symm, ?_,
      h.evaluated hr.evaluated hr'.evaluated, ?_⟩
    · -- The blocks before the evaluations may differ, but nothing of them is left.
      intro hm
      subst hm
      rw [hr.bindings, hr'.bindings, map_afterward_hessian_eq_of_bare h.bare]
    · rw [← closed_eq_of_bare hr.evaluated.bare, hopen]
  · intro x hx
    exact .of_realizes (realizes_evaluateValue hs x) (hvalue x hx ▸ realizes_evaluateValue ht x)
      (fun failure s' t' hs' ht' ↦ hE _ _ _ (h.evaluated hs' ht'))
      fun sums r r' s' t' hr hr' ↦ ⟨hr.2.trans hr'.2.symm, h.evaluated hr.1 hr'.1⟩

end Scene

end Agreement

/-! ### Calls -/

/-- What the owner of an objective can call. -/
inductive Call (α : Type) where
  | register (handle : Handle) (dimension : Json) (transform : Option (Transform α))
  | addTerm (term : Term α) (handles : List Handle)
  | setWorkerCount (given : Json)
  | copyPointToBlocks (x : GivenPoint α)
  | copyBlocksToPoint
  | query (q : Query α)
  | timingReport
  | resetStatistics
  | close

section Calls

variable [Zero α] [Add α] [OfNat α 1] [Storable α]

/-- Carries a call out. What it returns does not matter here. -/
def Call.perform : Call α → Action α Unit
  | .register handle dimension transform => Objective.register handle dimension transform
  | .addTerm term handles => Objective.addTerm term handles
  | .setWorkerCount given => Objective.setWorkerCount given
  | .copyPointToBlocks x => Objective.copyPointToBlocks x
  | .copyBlocksToPoint => do let _ ← Objective.copyBlocksToPoint
  | .query q => do let _ ← q.perform
  | .timingReport => do let _ ← Objective.timingReport
  | .resetStatistics => Objective.resetStatistics
  | .close => Objective.close

open Summand.Action Objective

/-- A query keeps an objective sound, whether it fails or not. -/
theorem keeps_query (q : Query α) : Keeps KeptIn q.perform := by
  constructor
  intro s hs
  -- A scene is alike to itself, and a query leaves alike scenes, which are kept.
  have halike : Scene.Alike s.memory s.memory s s := ⟨rfl, hs, hs, rfl, .refl _ _⟩
  have hrelated := halike.related_perform
    (E := fun _ _ s' t' ↦ Scene.Alike s.memory s.memory s' t') (fun _ _ _ h ↦ h)
    (fun hopen ↦ .of_direct (fun _ _ _ h ↦ h) halike hopen rfl (fun _ _ ↦ rfl) fun _ _ ↦ rfl)
    q fun _ ↦ rfl
  generalize q.perform.run s = m at hrelated
  cases hrelated with
  | error h => exact h.kept
  | ok h => exact h.2.kept

omit [Add α] [OfNat α 1] [Storable α] in
/-- Statistics are no part of what has to be sound. -/
theorem kept_statistics {o : Objective α} (h : o.Kept) (statistics : Statistics) :
    ({ o with statistics } : Objective α).Kept :=
  h.imp id fun h ↦ h.of_bare rfl rfl h.storage h.coordinates

theorem keeps_call (call : Call α) : Keeps KeptIn call.perform := by
  cases call with
  | register handle dimension transform => exact keeps_register handle dimension transform
  | addTerm term handles => exact keeps_addTerm term handles
  | setWorkerCount given => exact keeps_setWorkerCount given
  | copyPointToBlocks x => exact keeps_copyPointToBlocks (fun _ _ h ↦ h) x
  | copyBlocksToPoint => exact .bind keeps_copyBlocksToPoint fun _ ↦ .pure _
  | query q => exact .bind (keeps_query q) fun _ ↦ .pure _
  | timingReport => exact ⟨fun s hs ↦ hs⟩
  | resetStatistics => exact ⟨fun s hs ↦ kept_statistics hs {}⟩
  | close => exact keeps_close

/-! ### Reached scenes -/

/-- A scene that some history leads to. -/
inductive Scene.Reached : Scene α → Prop
  | created {processors : Nat} {settings : Settings} {objective : Objective α}
    (h : Objective.create processors settings = .ok objective) (memory : Memory α)
    (events : List (Event α)) (platform : Platform α) :
    Reached { objective, memory, events, platform }
  /-- A call, whether it fails or not. -/
  | called {s : Scene α} (h : Reached s) (call : Call α) : Reached (call.perform.run s).2
  /-- Between calls the memory and the platform may change. -/
  | moved {s : Scene α} (h : Reached s) (memory : Memory α) (platform : Platform α) :
    Reached { s with memory, platform }

/-- Whatever has been done with an objective, it is sound as long as it is open. -/
theorem Scene.Reached.kept {s : Scene α} (h : s.Reached) : s.objective.Kept := by
  induction h with
  | created h => exact .inr (sound_create h)
  | called _ call ih => exact (keeps_call call).of_run _ ih
  | moved _ _ _ ih => exact ih

theorem Scene.Reached.sound {s : Scene α} (h : s.Reached) (hopen : s.objective.closed = false) :
    s.objective.Sound := h.kept.sound hopen

/-- The scene after some calls, whether they fail or not. -/
def Scene.after (s : Scene α) (calls : List (Call α)) : Scene α :=
  calls.foldl (fun s call ↦ (call.perform.run s).2) s

theorem Scene.Reached.after {s : Scene α} (h : s.Reached) (calls : List (Call α)) :
    (s.after calls).Reached := by
  induction calls generalizing s with
  | nil => exact h
  | cons call calls ih => exact ih (h.called call)

end Calls

/-! ### A small history

Three variables of two numbers and of one, with a term of the first and a term of the first two in
which the first is repeated. The point of one query is too short, and the next query leaves its
results behind.
-/

namespace Small

def pair : Block := { id := 1, shape := [2], cells := [0, 1] }

def single : Block := { id := 2, shape := [1], cells := [2] }

/-- The block of a variable that no term is bound to. -/
def spare : Block := { id := 3, shape := [1], cells := [3] }

/-- An array for a gradient. -/
def gradient : Block := { id := 4, shape := [4], cells := List.range' 4 4 }

/-- Another array for a gradient. -/
def gradient' : Block := { id := 5, shape := [4], cells := List.range' 8 4 }

/-- An array for a Hessian. -/
def hessian : Block := { id := 6, shape := [4, 4], cells := List.range' 12 16 }

/-- A memory that holds no zeros, with one target for sparse Hessians. -/
def memory : Memory Int := { cells := Array.replicate 28 7, targets := #[{}] }

/-- The sum of the squares of a pair. -/
def squares : Term Int :=
  .total 1 "Squares" [2] (fun arguments ↦ (arguments.flatten.map fun t ↦ t * t).sum)
    (fun arguments ↦ arguments.map fun argument ↦ argument.map fun t ↦ 2 * t)
    (fun _ ↦ [[[[2, 0], [0, 2]]]]) fun _ ↦ Term.noEnclosure "Squares"

/-- The first entry of a pair times a single number times the second entry of another pair. -/
def product : Term Int :=
  .total 2 "Product" [2, 1, 2]
    (fun arguments ↦ first arguments * middle arguments * last arguments)
    (fun arguments ↦ [[middle arguments * last arguments, 0], [first arguments * last arguments],
      [0, first arguments * middle arguments]])
    (fun arguments ↦
      [[[[0, 0], [0, 0]], [[last arguments], [0]], [[0, middle arguments], [0, 0]]],
        [[[last arguments, 0]], [[0]], [[0, first arguments]]],
        [[[0, 0], [middle arguments, 0]], [[0], [first arguments]], [[0, 0], [0, 0]]]])
    fun _ ↦ Term.noEnclosure "Product"
where
  entry (arguments : List (List Int)) (k i : Nat) : Int := (arguments.getD k []).getD i 0
  first (arguments : List (List Int)) : Int := entry arguments 0 0
  middle (arguments : List (List Int)) : Int := entry arguments 1 0
  last (arguments : List (List Int)) : Int := entry arguments 2 1

/-- The scalar map that multiplies by three. -/
def tripling : Elementwise Int := ⟨"Tripled", 1, (3 * ·), (· / 3), fun _ ↦ 3⟩

/-- The transform of a single number that multiplies it by three. -/
def tripled : Transform Int := tripling.toTransform 1

def objective : Objective Int := { settings := { workerCount := .int 2 }, workerCount := 2 }

/-- Columns are not rearranged before they are sorted. -/
def platform : Platform Int := { arrangement := id }

/-- The scene after the variables have been registered, the second one with a transform or without,
the terms have been added, and there have been two queries. -/
def scene (transform : Option (Transform Int)) : Scene Int :=
  Scene.after { objective, memory, events := [], platform }
    [.register (.array pair) .null none, .register (.array single) .null transform,
      .register (.array spare) .null (some tripled), .addTerm squares [.array pair],
      .addTerm product [.array pair, .array single, .array pair],
      .query (.valueAndGradient (.ok (.vector [1, 2]))),
      .query (.valueAndGradient (.ok (.vector [1, 2, 3, 4])))]

theorem reached_after (calls : List (Call Int)) :
    (Scene.after { objective, memory, events := [], platform } calls).Reached :=
  have hcreate : Objective.create 1 { workerCount := .int 2 } = .ok objective := rfl
  (Scene.Reached.created hcreate memory [] platform).after calls

theorem reached_scene (transform : Option (Transform Int)) : (scene transform).Reached :=
  reached_after _

/-- What holds of the one transform that there is holds of all of them. -/
theorem of_transform {P : Transform Int → Prop} (hP : P tripled)
    {transform : Option (Transform Int)} (h : transform = none ∨ transform = some tripled) :
    ∀ v ∈ (scene transform).objective.registry.entries, ∀ t, v.transform = some t → P t := by
  have htransforms : (scene transform).objective.registry.entries.map Variable.transform =
      [none, transform, some tripled] := by rcases h with rfl | rfl <;> rfl
  intro v hv t ht
  have hmem := Registry.some_mem_of_map_transform htransforms v hv t ht
  obtain rfl : t = tripled := by rcases h with rfl | rfl <;> simpa using hmem
  exact hP

end Small

end Summand
