import Summand.Proofs.History
import Summand.Proofs.Slices

/-!
# Registrations in any order

Blocks are registered, known ones get other transforms, and some of these calls fail. Whatever the
sequence, the variables stay in order (`Registry.Orderly`): their slices tile the flat vector, no
block has two of them, and every one fits its block and its transform. A later call changes nothing
but transforms and scratch values (`Variable.fixed`), and a call that fails changes nothing at all.

A call that fails may still have released a transform: the one that was to be replaced, if it is the
release that failed (`Small.released_of_failed`).
-/

namespace Summand

variable {α : Type}

/-! ### Orderly registries -/

/-- What stays as it is once a variable is registered. -/
def Variable.fixed (v : Variable α) : Block × Nat × Nat × Int × Int :=
  (v.block, v.index, v.userDimension, v.solverDimension, v.offset)

namespace Registry

/-- The variables are in order of their registration, side by side, and fit their blocks and their
transforms. -/
structure Orderly (r : Registry α) : Prop where
  index : r.entries.map Variable.index = List.range r.count
  offset : ∀ earlier v later, r.entries = earlier ++ v :: later →
    v.offset = (earlier.map Variable.solverDimension).sum
  total : r.totalScalars = (r.entries.map Variable.solverDimension).sum
  /-- Slices lie in the flat vector. -/
  within : ∀ v ∈ r.entries, 0 ≤ v.offset ∧ 0 ≤ v.solverDimension ∧
    v.offset + v.solverDimension ≤ r.totalScalars
  /-- Each place of the flat vector is in one slice. -/
  tiled : ∀ p : Int, 0 ≤ p → p < r.totalScalars →
    ∃! v, v ∈ r.entries ∧ v.offset ≤ p ∧ p < v.offset + v.solverDimension
  ids : (r.entries.map fun v ↦ v.block.id).Nodup
  lookup : ∀ handle v, r.lookup handle = some v ↔
    ∃ block, handle = .array block ∧ v ∈ r.entries ∧ v.block.id = block.id
  user : ∀ v ∈ r.entries, 1 ≤ v.userDimension ∧ v.userDimension ≤ v.block.size ∧
    v.scratch.length = v.userDimension
  untransformed : ∀ v ∈ r.entries, v.transform = none → v.solverDimension = v.userDimension
  transformed : ∀ v ∈ r.entries, ∀ t, v.transform = some t →
    t.outputDimension = v.userDimension ∧ t.inputDimension = v.solverDimension

/-- A place in front of the end of a row of slices is in one of them. -/
theorem exists_covering (vars : List (Variable α)) {p : Int} (hp : 0 ≤ p)
    (hlt : p < (vars.map Variable.solverDimension).sum) :
    ∃ earlier v later, vars = earlier ++ v :: later ∧
      (earlier.map Variable.solverDimension).sum ≤ p ∧
      p < (earlier.map Variable.solverDimension).sum + v.solverDimension := by
  induction vars generalizing p with
  | nil => exact absurd hlt (by simpa using hp)
  | cons v vars ih =>
    rw [List.map_cons, List.sum_cons] at hlt
    by_cases hv : p < v.solverDimension
    · exact ⟨[], v, vars, rfl, hp, by simpa using hv⟩
    · obtain ⟨earlier, w, later, rfl, hle, hlt⟩ := ih (p := p - v.solverDimension) (by omega)
        (by omega)
      refine ⟨v :: earlier, w, later, rfl, ?_, ?_⟩
      · rw [List.map_cons, List.sum_cons]
        omega
      · rw [List.map_cons, List.sum_cons]
        omega

variable {r : Registry α}

theorem Laid.existsUnique_covering (h : r.Laid) (hnatural : r.Natural) {p : Int} (hp : 0 ≤ p)
    (hlt : p < r.totalScalars) :
    ∃! v, v ∈ r.entries ∧ v.offset ≤ p ∧ p < v.offset + v.solverDimension := by
  obtain ⟨earlier, v, later, hr, hle, hlt⟩ := exists_covering r.entries hp (h.total ▸ hlt)
  obtain ⟨-, hoffset, -⟩ := h.split hr
  have hv : v ∈ r.entries := by simp [hr]
  refine ⟨v, ⟨hv, by omega, by omega⟩, ?_⟩
  rintro w ⟨hw, hwle, hwlt⟩
  -- Two slices with a place in common are those of one variable.
  by_contra hne
  have hindex : w.index ≠ v.index := by
    intro heq
    have hget := h.getElem?_index hw
    rw [heq, h.getElem?_index hv] at hget
    exact hne (Option.some.inj hget).symm
  rcases h.disjoint hnatural hw hv hindex with hdisjoint | hdisjoint <;> omega

theorem Laid.orderly (h : r.Laid) (hnatural : r.Natural) : r.Orderly where
  index := h.index
  offset _ _ _ hr := (h.split hr).2.1
  total := h.total
  within v hv := by
    obtain ⟨hoffset, hdimension, hle⟩ := h.liesIn hnatural hv
    have htotal := h.totalScalars_nonneg hnatural
    exact ⟨hoffset, hdimension, by omega⟩
  tiled _ hp hlt := h.existsUnique_covering hnatural hp hlt
  ids := h.ids
  lookup handle v := by
    rcases handle with block | typeName
    · constructor
      · intro hfind
        obtain ⟨hv, hid⟩ := find?_eq_some hfind
        exact ⟨block, rfl, hv, hid⟩
      · rintro ⟨block', hblock, hv, hid⟩
        cases hblock
        show r.find? block.id = some v
        rw [← hid]
        exact h.find?_eq hv
    · constructor
      · intro hnone
        cases hnone
      · rintro ⟨block, hblock, -, -⟩
        cases hblock
  user v hv := ⟨(h.fits v hv).pos, (h.fits v hv).le, (h.fits v hv).scratch⟩
  untransformed v hv ht := (h.fits v hv).solverDimension_eq ht
  transformed v hv _ ht := (h.fits v hv).transform_dimensions ht

/-! ### One registration -/

/-- No transform asks for a negative dimension. -/
def Sized (r : Registry α) : Prop :=
  ∀ v ∈ r.entries, ∀ t, v.transform = some t → 0 ≤ t.inputDimension

theorem Laid.sized (h : r.Laid) (hnatural : r.Natural) : r.Sized := by
  intro v hv t ht
  rw [((h.fits v hv).transform_dimensions ht).2]
  exact hnatural v hv

theorem isSome_find?_iff {id : Nat} :
    (r.find? id).isSome ↔ id ∈ r.entries.map fun v ↦ v.block.id := by
  rw [Option.isSome_iff_ne_none, ne_eq, find?_eq_none_iff, not_not]

section Registering

variable [Zero α] {s : Registry α} {handle : Handle} {transform : Option (Transform α)}
  {index : Nat} {added : List (Event α)}

/-- Afterwards a transform of a variable is one that was there or the one that has been passed. -/
theorem Registering.forall_transforms {P : Transform α → Prop}
    (h : ∀ v ∈ r.entries, ∀ t, v.transform = some t → P t)
    (htransform : ∀ t, transform = some t → P t)
    (hs : Registering r handle transform (.ok (s, index)) added) :
    ∀ v ∈ s.entries, ∀ t, v.transform = some t → P t := by
  cases hs with
  | replaced _ _ _ =>
    intro w hw
    rcases List.mem_or_eq_of_mem_set hw with hw | rfl
    · exact h w hw
    · exact htransform
  | added _ _ _ =>
    intro w hw
    rcases List.mem_append.1 hw with hw | hw
    · exact h w hw
    · rw [List.mem_singleton.1 hw]
      exact htransform

theorem Registering.sized (h : r.Sized)
    (htransform : ∀ t, transform = some t → 0 ≤ t.inputDimension)
    (hs : Registering r handle transform (.ok (s, index)) added) : s.Sized :=
  hs.forall_transforms h htransform

/-- Variables keep what is fixed, and a new one comes behind the others. -/
theorem Registering.fixed_isPrefix (h : r.Laid)
    (hs : Registering r handle transform (.ok (s, index)) added) :
    r.entries.map Variable.fixed <+: s.entries.map Variable.fixed := by
  cases hs with
  | replaced _ hv _ =>
    have hfixed := h.map_setVariable (f := Variable.fixed) (find?_eq_some hv).1 transform rfl
    exact hfixed.symm ▸ List.prefix_refl _
  | added _ _ _ =>
    rw [List.map_append]
    exact List.prefix_append _ _

/-- Afterwards the block is known, and the others are if they were. -/
theorem Registering.isSome_find?_iff (h : r.Laid)
    (hs : Registering r handle transform (.ok (s, index)) added) (id : Nat) :
    (s.find? id).isSome ↔ (r.find? id).isSome ∨ ∃ block, handle = .array block ∧ block.id = id := by
  rw [Registry.isSome_find?_iff, Registry.isSome_find?_iff]
  cases hs with
  | @replaced block v hhandle hv _ =>
    rw [h.map_setVariable (find?_eq_some hv).1 transform rfl]
    refine ⟨.inl, ?_⟩
    rintro (hid | ⟨block', hblock, rfl⟩)
    · exact hid
    · cases hhandle.symm.trans hblock
      exact Registry.isSome_find?_iff.1 (by rw [hv]; rfl)
  | @added block user solver _ hhandle _ _ =>
    rw [List.map_append, List.mem_append, List.map_singleton, List.mem_singleton]
    refine or_congr_right ⟨fun hid ↦ ⟨block, hhandle, hid.symm⟩, ?_⟩
    rintro ⟨block', hblock, rfl⟩
    cases hhandle.symm.trans hblock
    rfl

end Registering

end Registry

/-! ### Registrations as calls -/

/-- What a caller asks of a registry. -/
structure Registration (α : Type) where
  handle : Handle
  dimension : Json
  transform : Option (Transform α)

/-- A registration is about a block. -/
def Registration.Names (g : Registration α) (block : Block) : Prop :=
  ∃ named, g.handle = .array named ∧ named.id = block.id

open Objective Registry

section Scenes

variable [Zero α]

/-- What a registration makes of a scene. -/
inductive Scene.Registered (s : Scene α) (g : Registration α) :
    Except Failure Unit × Scene α → Prop
  | failed {failure : Failure} {added : List (Event α)}
      (h : Registering s.objective.registry g.handle g.transform (.error failure) added) :
      Registered s g (.error failure,
        { s with objective := s.objective.invalidate, events := s.events ++ added })
  | done {registry : Registry α} {index : Nat} {added : List (Event α)}
      (h : Registering s.objective.registry g.handle g.transform (.ok (registry, index)) added) :
      Registered s g (.ok (),
        { s with
          objective := { s.objective.invalidate with registry }
          events := s.events ++ added })

/-- A registration that fails leaves the registry as it is. It leaves no events either, unless it
fails for the release of the transform that it was to replace. -/
theorem Scene.Registered.of_error {s t : Scene α} {g : Registration α} {failure : Failure}
    (h : s.Registered g (.error failure, t)) :
    t.objective.registry = s.objective.registry ∧ (t.events = s.events ∨
      ∃ block v previous, g.handle = .array block ∧
        s.objective.registry.lookup g.handle = some v ∧ v.transform = some previous ∧
        previous.closeFailure = some failure ∧
        t.events = s.events ++ [.transformReleased previous.id]) := by
  cases h with
  | failed h =>
    refine ⟨rfl, ?_⟩
    cases h with
    | rejected => exact .inl (List.append_nil _)
    | @unreleased block v previous _ hhandle hv hprevious hfailure =>
      exact .inr ⟨block, v, previous, hhandle, by rw [hhandle]; exact hv, hprevious, hfailure, rfl⟩

/-- An open objective whose variables are laid out, none of them with a negative dimension. -/
structure Scene.Registrable (s : Scene α) : Prop where
  opened : s.objective.closed = false
  laid : s.objective.registry.Laid
  sized : s.objective.registry.Sized

end Scenes

/-! ### Sequences of registrations -/

section Sequences

variable [Zero α] [Add α] [OfNat α 1] [Storable α] {s : Scene α}

/-- A registration as a call. -/
def Registration.call (g : Registration α) : Call α := .register g.handle g.dimension g.transform

theorem Registration.registered_run (g : Registration α) (hopen : s.objective.closed = false) :
    s.Registered g (g.call.perform.run s) := by
  show s.Registered g ((register g.handle g.dimension g.transform).run s)
  obtain ⟨result, added, hrun, h⟩ :=
    (ends_register s.objective.registry g.handle g.dimension g.transform).of_run s.events
  rw [run_register hopen, hrun]
  rcases result with failure | ⟨registry, index⟩
  · exact .failed h
  · exact .done h

/-- The scene after registrations, whether they fail or not. -/
def Scene.registered (s : Scene α) (registrations : List (Registration α)) : Scene α :=
  s.after (registrations.map Registration.call)

/-- The registrations of a sequence that succeed. -/
def Scene.accepted (s : Scene α) : List (Registration α) → List (Registration α)
  | [] => []
  | g :: rest =>
    let (result, t) := g.call.perform.run s
    if result.isOk then g :: t.accepted rest else t.accepted rest

/-- One registration keeps what is fixed, and makes its block known if it succeeds. -/
theorem Scene.Registrable.step (h : s.Registrable) (g : Registration α)
    (htransform : ∀ t, g.transform = some t → 0 ≤ t.inputDimension) :
    (g.call.perform.run s).2.Registrable ∧
      s.objective.registry.entries.map Variable.fixed <+:
        (g.call.perform.run s).2.objective.registry.entries.map Variable.fixed ∧
      ∀ block, ((g.call.perform.run s).2.objective.registry.lookup (.array block)).isSome ↔
        (s.objective.registry.lookup (.array block)).isSome ∨
          (g.call.perform.run s).1.isOk ∧ g.Names block := by
  have hrun := g.registered_run h.opened
  generalize g.call.perform.run s = ending at hrun ⊢
  cases hrun with
  | failed hregistering =>
    refine ⟨⟨h.opened, h.laid, h.sized⟩, List.prefix_refl _, fun block ↦ ⟨.inl, ?_⟩⟩
    rintro (hknown | ⟨hok, -⟩)
    · exact hknown
    · cases hok
  | done hregistering =>
    refine ⟨⟨h.opened, (hregistering.laid h.laid).1, hregistering.sized h.sized htransform⟩,
      hregistering.fixed_isPrefix h.laid, fun block ↦ ?_⟩
    exact (hregistering.isSome_find?_iff h.laid block.id).trans
      (or_congr_right ⟨fun hnames ↦ ⟨rfl, hnames⟩, And.right⟩)

/-- So do registrations one after another. -/
theorem Scene.Registrable.run (h : s.Registrable) {registrations : List (Registration α)}
    (htransform : ∀ g ∈ registrations, ∀ t, g.transform = some t → 0 ≤ t.inputDimension) :
    (s.registered registrations).Registrable ∧
      s.objective.registry.entries.map Variable.fixed <+:
        (s.registered registrations).objective.registry.entries.map Variable.fixed ∧
      ∀ block, ((s.registered registrations).objective.registry.lookup (.array block)).isSome ↔
        (s.objective.registry.lookup (.array block)).isSome ∨
          ∃ g ∈ s.accepted registrations, g.Names block := by
  induction registrations generalizing s with
  | nil => exact ⟨h, List.prefix_refl _, fun block ↦ by simp [registered, after, accepted]⟩
  | cons g rest ih =>
    obtain ⟨hstep, hprefix, hknown⟩ := h.step g (htransform g List.mem_cons_self)
    obtain ⟨hrest, hprefix', hknown'⟩ := ih hstep fun g' hg' ↦
      htransform g' (List.mem_cons_of_mem g hg')
    refine ⟨hrest, hprefix.trans hprefix', fun block ↦ ?_⟩
    refine (hknown' block).trans ?_
    rw [hknown block, or_assoc, accepted]
    refine or_congr_right ?_
    dsimp only
    split
    · rename_i hok
      simp [hok]
    · rename_i hfailed
      simp [hfailed]

/-- Whatever has been done with an open objective, registrations in any order, successful or not,
leave its variables in order, if no transform asks for a negative dimension. They change nothing
that is fixed of the variables that are there, and the blocks known afterwards are those known
before and those of the registrations that succeed. The next registration changes nothing if it
fails, and it has released nothing, unless it fails for the release of the transform that it was to
replace. -/
theorem Scene.Reached.orderly_registered (h : s.Reached) (hopen : s.objective.closed = false)
    (hsized : s.objective.registry.Sized) {registrations : List (Registration α)}
    (htransform : ∀ g ∈ registrations, ∀ t, g.transform = some t → 0 ≤ t.inputDimension) :
    (s.registered registrations).objective.registry.Orderly ∧
      s.objective.registry.entries.map Variable.fixed <+:
        (s.registered registrations).objective.registry.entries.map Variable.fixed ∧
      (∀ block, ((s.registered registrations).objective.registry.lookup (.array block)).isSome ↔
        (s.objective.registry.lookup (.array block)).isSome ∨
          ∃ g ∈ s.accepted registrations, g.Names block) ∧
      ∀ (g : Registration α) failure t,
        g.call.perform.run (s.registered registrations) = (.error failure, t) →
          t.objective.registry = (s.registered registrations).objective.registry ∧
            (t.events = (s.registered registrations).events ∨ ∃ block v previous,
              g.handle = .array block ∧
              (s.registered registrations).objective.registry.lookup g.handle = some v ∧
              v.transform = some previous ∧ previous.closeFailure = some failure ∧
              t.events = (s.registered registrations).events ++
                [.transformReleased previous.id]) := by
  have hstart : s.Registrable := ⟨hopen, (h.sound hopen).laid, hsized⟩
  obtain ⟨hend, hprefix, hknown⟩ := hstart.run htransform
  refine ⟨hend.laid.orderly (hend.laid.natural hend.sized), hprefix, hknown, ?_⟩
  intro g failure t hrun
  have hregistered := g.registered_run hend.opened
  rw [hrun] at hregistered
  exact hregistered.of_error

end Sequences

namespace Small

/-- Two variables; the transform of one is given up again, and a third registration does not fit. -/
def registrations : List (Registration Int) :=
  [⟨.array pair, .null, none⟩, ⟨.array single, .null, some tripled⟩, ⟨.array pair, .int 1, none⟩,
    ⟨.array single, .null, none⟩]

/-- An objective that has just been created. -/
def start : Scene Int := Scene.after { objective, memory, events := [], platform } []

/-- The two variables are in order, and another registration that does not fit changes nothing. -/
theorem orderly_of_registrations :
    (start.registered registrations).objective.registry.Orderly ∧
      ((start.registered registrations).objective.registry.lookup (.array single)).isSome ∧
      ∃ failure t,
        (Registration.call ⟨.array spare, .int 2, none⟩).perform.run
          (start.registered registrations) = (.error failure, t) ∧
        t.objective.registry = (start.registered registrations).objective.registry := by
  have hreached : start.Reached := reached_after []
  have hsized : start.objective.registry.Sized := by
    intro v hv
    cases hv
  have htransform : ∀ g ∈ registrations, ∀ t, g.transform = some t → 0 ≤ t.inputDimension := by
    intro g hg t ht
    have htransforms :
        registrations.map Registration.transform = [none, some tripled, none, none] :=
      rfl
    have hmem := List.mem_map_of_mem (f := Registration.transform) hg
    rw [htransforms, ht] at hmem
    obtain rfl : t = tripled := by simpa using hmem
    decide
  obtain ⟨horderly, -, hknown, hfailed⟩ := hreached.orderly_registered rfl hsized htransform
  have hsingle : ⟨.array single, .null, none⟩ ∈ start.accepted registrations := by
    have haccepted : start.accepted registrations =
      [⟨.array pair, .null, none⟩, ⟨.array single, .null, some tripled⟩,
        ⟨.array single, .null, none⟩] := rfl
    simp [haccepted]
  refine ⟨horderly, (hknown single).2 (.inr ⟨_, hsingle, single, rfl, rfl⟩), ?_⟩
  obtain ⟨failure, t, hrun⟩ : ∃ failure t,
      (Registration.call ⟨.array spare, .int 2, none⟩).perform.run
        (start.registered registrations) = (.error failure, t) := ⟨_, _, rfl⟩
  exact ⟨failure, t, hrun, (hfailed _ _ _ hrun).1⟩

/-- A transform that fails to be released. -/
def unwilling : Transform Int :=
  { tripled with closeFailure := some (.raised "RuntimeError" "held") }

/-- A variable with a transform that fails to be released. -/
def unwillingScene : Scene Int := start.registered [⟨.array single, .null, some unwilling⟩]

/-- A registration may fail after it has released a transform. -/
theorem released_of_failed :
    unwillingScene.Reached ∧ unwillingScene.objective.closed = false ∧
      unwillingScene.objective.registry.Sized ∧
      ∃ t, (Registration.call ⟨.array single, .null, none⟩).perform.run unwillingScene =
          (.error (.raised "RuntimeError" "held"), t) ∧
        t.events = unwillingScene.events ++ [.transformReleased unwilling.id] := by
  have htransforms : unwillingScene.objective.registry.entries.map Variable.transform =
      [some unwilling] := rfl
  refine ⟨reached_after _, rfl, ?_, _, rfl, rfl⟩
  intro v hv t ht
  obtain rfl : t = unwilling := by
    simpa using Registry.some_mem_of_map_transform htransforms v hv t ht
  decide

end Small

end Summand
