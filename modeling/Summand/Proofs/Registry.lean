import Mathlib.Algebra.BigOperators.Group.List.Basic
import Mathlib.Algebra.Ring.Int.Defs
import Mathlib.Data.List.Nodup
import Summand.Proofs.Action
import Summand.Proofs.Buffer
import Summand.Proofs.Progress
import Summand.Registry

/-!
# The layout of a registry

Registered variables lie side by side in the flat vector: they are numbered in the order of
registration, no block occurs twice (`Registry.Indexed`), and each slice begins where the one before
it ends (`Registry.Laid`). What a registration can come to is said once, with the events that it
leaves (`Registry.Registering`). One that succeeds keeps the layout (`Registry.Registering.laid`),
and keeps the user dimension of every variable that was there (`Registry.Extends`), so that
arguments bound earlier stay bound.

The scratch values of variables are left over from evaluations. What is said here holds with other
scratch values too: a variable is `bare` once they are forgotten.
-/

namespace Summand

variable {α : Type}

/-! ### Variables -/

namespace Variable

/-- A variable that has forgotten its scratch value. -/
def bare [Zero α] (v : Variable α) : Variable α :=
  { v with scratch := Buffer.zeros v.scratch.length }

/-- What places a variable in a registry. -/
def place (v : Variable α) : Nat × Nat × Int × Int :=
  (v.block.id, v.index, v.offset, v.solverDimension)

/-- A variable fits its block, and its transform fits the variable. -/
structure Fits (v : Variable α) : Prop where
  shape : v.block.shape.length = 1
  floating : v.block.element.isFloating = true
  pos : 0 < v.userDimension
  le : v.userDimension ≤ v.block.size
  scratch : v.scratch.length = v.userDimension
  dimensions : Registry.installedDimensions v v.transform = (↑v.userDimension, v.solverDimension)

section Bare

variable [Zero α]

@[simp] theorem place_bare (v : Variable α) : v.bare.place = v.place := rfl

@[simp] theorem userDimension_bare (v : Variable α) : v.bare.userDimension = v.userDimension := rfl

@[simp] theorem bare_bare (v : Variable α) : v.bare.bare = v.bare := by
  simp [bare]

theorem bare_scratch (v : Variable α) {scratch : List α} (h : scratch.length = v.scratch.length) :
    { v with scratch }.bare = v.bare := by
  simp [bare, h]

@[simp] theorem fits_bare_iff {v : Variable α} : v.bare.Fits ↔ v.Fits := by
  constructor
  · rintro ⟨h₁, h₂, h₃, h₄, h₅, h₆⟩
    exact ⟨h₁, h₂, h₃, h₄, by simpa [bare] using h₅, h₆⟩
  · rintro ⟨h₁, h₂, h₃, h₄, h₅, h₆⟩
    exact ⟨h₁, h₂, h₃, h₄, by simpa [bare] using h₅, h₆⟩

end Bare

/-- A variable without a transform has one dimension. -/
theorem Fits.solverDimension_eq {v : Variable α} (h : v.Fits) (ht : v.transform = none) :
    v.solverDimension = v.userDimension := by
  have := h.dimensions
  rw [ht] at this
  exact (Prod.ext_iff.1 this).2.symm

theorem Fits.transform_dimensions {v : Variable α} (h : v.Fits) {t : Transform α}
    (ht : v.transform = some t) :
    t.outputDimension = v.userDimension ∧ t.inputDimension = v.solverDimension := by
  have := h.dimensions
  rw [ht] at this
  exact Prod.ext_iff.1 this

end Variable

namespace Registry

open Traced

/-! ### Indices -/

/-- Each variable stands at its index, and no two variables have one block. Unlike the layout, this
does not depend on the transforms. -/
structure Indexed (r : Registry α) : Prop where
  ids : (r.entries.map fun v ↦ v.block.id).Nodup
  index : r.entries.map Variable.index = List.range r.count

namespace Indexed

variable {r s : Registry α}

theorem empty : ({} : Registry α).Indexed := ⟨by simp, rfl⟩

/-- The variable at a position has the position for its index. -/
theorem index_eq (h : r.Indexed) {i : Nat} {v : Variable α} (hi : r.entries[i]? = some v) :
    v.index = i := by
  have hlt : i < r.count := (List.getElem?_eq_some_iff.1 hi).1
  have hindex := congrArg (fun l : List Nat ↦ l[i]?) h.index
  simpa [hi, List.getElem?_range hlt] using hindex

/-- A variable stands at its index. -/
theorem getElem?_index (h : r.Indexed) {v : Variable α} (hv : v ∈ r.entries) :
    r.entries[v.index]? = some v := by
  obtain ⟨i, hi⟩ := List.getElem?_of_mem hv
  rwa [h.index_eq hi]

/-- What does not look at a variable's transform is the same with another one. -/
theorem map_setVariable (h : r.Indexed) {v : Variable α} (hv : v ∈ r.entries)
    (transform : Option (Transform α)) {β : Type} {f : Variable α → β}
    (hf : f { v with transform } = f v) :
    (r.setVariable { v with transform }).entries.map f = r.entries.map f := by
  apply List.ext_getElem?
  intro i
  show ((r.entries.set v.index { v with transform }).map f)[i]? = _
  by_cases hi : v.index = i
  · subst hi
    obtain ⟨hlt, heq⟩ := List.getElem?_eq_some_iff.1 (h.getElem?_index hv)
    simp [hlt, heq, hf]
  · simp [List.getElem?_set_ne hi]

/-- Indices are told by the blocks of the variables and their indices. -/
theorem congr (h : r.Indexed)
    (hids : s.entries.map (fun v ↦ v.block.id) = r.entries.map fun v ↦ v.block.id)
    (hindex : s.entries.map Variable.index = r.entries.map Variable.index) : s.Indexed := by
  have hcount : s.count = r.count := by simpa [count] using congrArg List.length hindex
  exact ⟨hids ▸ h.ids, by rw [hindex, hcount, h.index]⟩

end Indexed

/-! ### The layout -/

/-- The variables lie side by side. -/
structure Laid (r : Registry α) : Prop where
  fits : ∀ v ∈ r.entries, v.Fits
  ids : (r.entries.map fun v ↦ v.block.id).Nodup
  index : r.entries.map Variable.index = List.range r.count
  offset : r.entries.map Variable.offset =
    (List.range r.count).map fun i ↦ ((r.entries.map Variable.solverDimension).take i).sum
  total : r.totalScalars = (r.entries.map Variable.solverDimension).sum

theorem Laid.empty : ({} : Registry α).Laid :=
  ⟨by simp, by simp, rfl, rfl, rfl⟩

/-- The layout is told by the places of the variables. -/
theorem Laid.congr {r s : Registry α} (h : r.Laid) (hfits : ∀ v ∈ s.entries, v.Fits)
    (hplaces : s.entries.map Variable.place = r.entries.map Variable.place)
    (htotal : s.totalScalars = r.totalScalars) : s.Laid := by
  -- Each field of the layout is read off the places.
  have project {β : Type} (f : Nat × Nat × Int × Int → β) :
      s.entries.map (fun v ↦ f v.place) = r.entries.map fun v ↦ f v.place := by
    have := congrArg (List.map f) hplaces
    rwa [List.map_map, List.map_map] at this
  have hids := project fun p ↦ p.1
  have hindex := project fun p ↦ p.2.1
  have hoffset := project fun p ↦ p.2.2.1
  have hsolver := project fun p ↦ p.2.2.2
  simp only [Variable.place] at hids hindex hoffset hsolver
  have hcount : s.count = r.count := by simpa [count] using congrArg List.length hids
  refine ⟨hfits, ?_, ?_, ?_, ?_⟩
  · rw [hids]
    exact h.ids
  · rw [hcount]
    exact hindex.trans h.index
  · rw [hcount]
    exact hoffset.trans (h.offset.trans (by rw [← hsolver]))
  · rw [htotal, h.total]
    exact congrArg List.sum hsolver.symm

/-- Registries that differ in scratch values have the same variables otherwise. -/
theorem exists_mem_of_bare [Zero α] {r s : Registry α}
    (hentries : r.entries.map Variable.bare = s.entries.map Variable.bare) {v : Variable α}
    (hv : v ∈ s.entries) : ∃ w ∈ r.entries, w.bare = v.bare :=
  List.mem_map.1 (hentries ▸ List.mem_map_of_mem hv)

/-- They have the same transforms. -/
theorem transforms_of_bare [Zero α] {r s : Registry α}
    (hentries : r.entries.map Variable.bare = s.entries.map Variable.bare) {P : Transform α → Prop}
    (h : ∀ v ∈ r.entries, ∀ t, v.transform = some t → P t) :
    ∀ v ∈ s.entries, ∀ t, v.transform = some t → P t := by
  intro v hv t ht
  obtain ⟨w, hw, hbare⟩ := exists_mem_of_bare hentries hv
  exact h w hw t ((congrArg Variable.transform hbare :).trans ht)

/-- The transforms of the variables are in the list of all transforms. -/
theorem some_mem_of_map_transform {r : Registry α} {transforms : List (Option (Transform α))}
    (h : r.entries.map Variable.transform = transforms) :
    ∀ v ∈ r.entries, ∀ t, v.transform = some t → some t ∈ transforms := by
  rintro v hv t ht
  rw [← h, ← ht]
  exact List.mem_map_of_mem hv

/-- The layout is no matter of scratch values. -/
theorem Laid.of_bare [Zero α] {r s : Registry α} (h : r.Laid)
    (hentries : r.entries.map Variable.bare = s.entries.map Variable.bare)
    (htotal : r.totalScalars = s.totalScalars) : s.Laid := by
  refine h.congr ?_ ?_ htotal.symm
  · intro v hv
    obtain ⟨w, hw, heq⟩ := exists_mem_of_bare hentries hv
    rw [← Variable.fits_bare_iff, ← heq, Variable.fits_bare_iff]
    exact h.fits w hw
  · have := congrArg (List.map Variable.place) hentries
    simpa [List.map_map, Function.comp_def] using this.symm

theorem Laid.indexed {r : Registry α} (h : r.Laid) : r.Indexed := ⟨h.ids, h.index⟩

/-- The variable at a position has the position for its index. -/
theorem Laid.index_eq {r : Registry α} (h : r.Laid) {i : Nat} {v : Variable α}
    (hi : r.entries[i]? = some v) : v.index = i :=
  h.indexed.index_eq hi

/-- A variable stands at its index. -/
theorem Laid.getElem?_index {r : Registry α} (h : r.Laid) {v : Variable α} (hv : v ∈ r.entries) :
    r.entries[v.index]? = some v :=
  h.indexed.getElem?_index hv

/-- A variable stands behind those that were registered before it, and its block is none of
theirs. -/
theorem Laid.split {r : Registry α} (h : r.Laid) {v : Variable α}
    {earlier later : List (Variable α)} (hr : r.entries = earlier ++ v :: later) :
    v.index = earlier.length ∧ v.offset = (earlier.map Variable.solverDimension).sum ∧
      v.block.id ∉ earlier.map fun w ↦ w.block.id := by
  have hlt : earlier.length < r.count := by simp [count, hr]
  refine ⟨?_, ?_, fun hid ↦ ?_⟩
  · have hindex := congrArg (fun l : List Nat ↦ l[earlier.length]?) h.index
    simpa [List.getElem?_range hlt, hr] using hindex
  · have hoffset := congrArg (fun l : List Int ↦ l[earlier.length]?) h.offset
    simpa [List.getElem?_range hlt, hr] using hoffset
  · have hids := h.ids
    rw [hr, List.map_append, List.map_cons] at hids
    exact (List.nodup_append.1 hids).2.2 _ hid _ List.mem_cons_self rfl

/-- A known block is that of a variable. -/
theorem find?_eq_some {r : Registry α} {id : Nat} {v : Variable α} (h : r.find? id = some v) :
    v ∈ r.entries ∧ v.block.id = id :=
  ⟨List.mem_of_find?_eq_some h, by simpa using List.find?_some h⟩

/-- A registered block is known, and it is that of its variable. -/
theorem Indexed.find?_eq {r : Registry α} (h : r.Indexed) {v : Variable α} (hv : v ∈ r.entries) :
    r.find? v.block.id = some v := by
  rcases hfind : r.find? v.block.id with - | w
  · simpa using List.find?_eq_none.1 hfind v hv
  · obtain ⟨hw, hid⟩ := find?_eq_some hfind
    rw [List.inj_on_of_nodup_map h.ids hw hv hid]

/-- A registered block is known, and it is that of its variable. -/
theorem Laid.find?_eq {r : Registry α} (h : r.Laid) {v : Variable α} (hv : v ∈ r.entries) :
    r.find? v.block.id = some v :=
  h.indexed.find?_eq hv

theorem find?_eq_none_iff {r : Registry α} {id : Nat} :
    r.find? id = none ↔ id ∉ r.entries.map fun v ↦ v.block.id := by
  simp [find?, List.find?_eq_none]

/-! ### Growth -/

/-- The variables of a registry are still there in another one, with their user dimensions. -/
def Extends (r s : Registry α) : Prop :=
  ∀ {i : Nat} {v : Variable α}, r.entries[i]? = some v →
    ∃ w, s.entries[i]? = some w ∧ w.userDimension = v.userDimension

/-- A variable of another block can be put behind the others. -/
theorem Indexed.append {r : Registry α} (h : r.Indexed) {v : Variable α}
    (hid : r.find? v.block.id = none) (hindex : v.index = r.count) (total : Int) :
    (⟨r.entries ++ [v], total⟩ : Registry α).Indexed := by
  constructor
  · rw [List.map_append, List.map_singleton, List.nodup_append]
    refine ⟨h.ids, by simp, fun id hids id' hid' ↦ ?_⟩
    rintro rfl
    rw [List.mem_singleton.1 hid'] at hids
    exact find?_eq_none_iff.1 hid hids
  · have hcount : (⟨r.entries ++ [v], total⟩ : Registry α).count = r.count + 1 := by simp [count]
    rw [hcount, List.range_succ, List.map_append, h.index, List.map_singleton, hindex]

/-- A variable can be put behind the others. -/
theorem Laid.append {r : Registry α} (h : r.Laid) {v : Variable α} (hfits : v.Fits)
    (hid : r.find? v.block.id = none) (hindex : v.index = r.count)
    (hoffset : v.offset = r.totalScalars) :
    (⟨r.entries ++ [v], r.totalScalars + v.solverDimension⟩ : Registry α).Laid := by
  have hindexed := h.indexed.append hid hindex (r.totalScalars + v.solverDimension)
  refine ⟨?_, hindexed.ids, hindexed.index, ?_, ?_⟩
  · intro w hw
    rcases List.mem_append.1 hw with hw | hw
    · exact h.fits w hw
    · rw [List.mem_singleton.1 hw]
      exact hfits
  · have hcount : (⟨r.entries ++ [v], r.totalScalars + v.solverDimension⟩ : Registry α).count =
        r.count + 1 := by simp [count]
    have hlength : (r.entries.map Variable.solverDimension).length = r.count := by simp [count]
    rw [hcount, List.range_succ, List.map_append, List.map_append, h.offset, List.map_singleton,
      List.map_singleton, hoffset, h.total, List.map_append]
    refine congrArg₂ _ (List.map_congr_left fun i hi ↦ ?_) ?_
    · rw [List.take_append_of_le_length (hlength ▸ Nat.le_of_lt (List.mem_range.1 hi))]
    · rw [List.take_append_of_le_length (Nat.le_of_eq hlength.symm),
        List.take_of_length_le (Nat.le_of_eq hlength)]
  · simp [h.total]

theorem extends_append (r : Registry α) (v : Variable α) (total : Int) :
    r.Extends ⟨r.entries ++ [v], total⟩ := fun {_ w} hw ↦
  ⟨w, by rw [List.getElem?_append_left (List.getElem?_eq_some_iff.1 hw).1]; exact hw, rfl⟩

/-- What does not look at a variable's transform is the same with another one. -/
theorem Laid.map_setVariable {r : Registry α} (h : r.Laid) {v : Variable α} (hv : v ∈ r.entries)
    (transform : Option (Transform α)) {β : Type} {f : Variable α → β}
    (hf : f { v with transform } = f v) :
    (r.setVariable { v with transform }).entries.map f = r.entries.map f :=
  h.indexed.map_setVariable hv transform hf

/-- Another transform of the right dimensions leaves the layout as it is. -/
theorem Laid.setVariable {r : Registry α} (h : r.Laid) {v : Variable α} (hv : v ∈ r.entries)
    {transform : Option (Transform α)}
    (hdim : installedDimensions v transform = ((v.userDimension : Int), v.solverDimension)) :
    (r.setVariable { v with transform }).Laid ∧ r.Extends (r.setVariable { v with transform }) := by
  have hfits : ({ v with transform } : Variable α).Fits := by
    obtain ⟨h₁, h₂, h₃, h₄, h₅, -⟩ := h.fits v hv
    exact ⟨h₁, h₂, h₃, h₄, h₅, hdim⟩
  refine ⟨h.congr (fun w hw ↦ ?_) (h.map_setVariable hv transform rfl) rfl, fun {i w} hw ↦ ?_⟩
  · rcases List.mem_or_eq_of_mem_set hw with hw | rfl
    · exact h.fits w hw
    · exact hfits
  · have hmap : (r.setVariable { v with transform }).entries.map Variable.userDimension =
        r.entries.map Variable.userDimension := h.map_setVariable hv transform rfl
    have huser := congrArg (fun l : List Nat ↦ l[i]?) hmap
    simp only [List.getElem?_map, hw, Option.map_some] at huser
    obtain ⟨w', hw', heq⟩ := Option.map_eq_some_iff.1 huser
    exact ⟨w', hw', heq⟩

/-! ### Registration -/

/-- The events of taking a transform away from a variable in favor of another one. -/
def released (v : Variable α) (transform : Option (Transform α)) : List (Event α) :=
  match v.transform with
  | none => []
  | some previous =>
    if sameTransform v.transform transform then [] else [.transformReleased previous.id]

/-- What the replacement of a transform can come to, with its events. -/
inductive Replacing (r : Registry α) (v : Variable α) (transform : Option (Transform α)) :
    Except Failure (Registry α) → List (Event α) → Prop
  /-- The dimensions do not fit. -/
  | rejected {failure : Failure} : Replacing r v transform (.error failure) []
  /-- The transform before fails to be released. -/
  | unreleased {previous : Transform α} {failure : Failure}
    (hprevious : v.transform = some previous)
      (hfailure : previous.closeFailure = some failure) :
      Replacing r v transform (.error failure) [.transformReleased previous.id]
  | replaced
    (hdim : installedDimensions v transform = ((v.userDimension : Int), v.solverDimension)) :
      Replacing r v transform (.ok (r.setVariable { v with transform })) (released v transform)

theorem ends_replaceTransform (r : Registry α) (v : Variable α) (transform : Option (Transform α)) :
    Ends (Replacing r v transform) (r.replaceTransform v transform) := by
  rw [replaceTransform]
  rcases hd : installedDimensions v transform with ⟨output, input⟩
  dsimp only
  split
  · exact .throw_bind .rejected
  rename_i hne
  obtain ⟨rfl, rfl⟩ : output = v.userDimension ∧ input = v.solverDimension := by simpa using hne
  have hdone := Replacing.replaced (r := r) hd
  rw [released] at hdone
  rcases hv : v.transform with - | previous
  · rw [hv] at hdone
    exact .pure hdone
  · rw [hv] at hdone
    dsimp only at hdone ⊢
    split
    · rename_i hother
      rw [if_neg (by simpa using hother)] at hdone
      refine .emit_bind ?_
      rcases hfailure : previous.closeFailure with - | failure
      · exact .pure hdone
      · exact .throw_bind (.unreleased hv hfailure)
    · rename_i hsame
      rw [if_pos (by simpa using hsame)] at hdone
      exact .pure hdone

theorem standsFor_int {m n : Int} : standsFor (.int m) n = true ↔ m = n := by
  have : standsFor (.int m) n = (Number.compare? (.int m) (.int n) == some .eq) := rfl
  rw [this, Number.compare?]
  simp

theorem checkDimension_int {n : Int} {size : Nat} :
    checkDimension (.int n) size = .ok () ↔ 0 < n ∧ n ≤ size := by
  have hlt {m k : Int} : (Number.int m < Number.int k) ↔ m < k := by
    show Number.compare? (.int m) (.int k) = some .lt ↔ m < k
    simp only [Number.compare?, Option.some.injEq]
    exact Std.compare_eq_lt
  have heq {m k : Int} : ((Number.int m == Number.int k) = true) ↔ m = k := by
    show (Number.compare? (.int m) (.int k) == some .eq) = true ↔ m = k
    simp [Number.compare?]
  have hzero : (0 : Number) = .int 0 := rfl
  simp only [checkDimension, Number.ofJson?, hzero]
  split
  · rename_i h
    simp only [Bool.or_eq_true, decide_eq_true_eq, hlt, heq] at h
    simp only [reduceCtorEq, false_iff]
    omega
  · rename_i h
    simp only [Bool.or_eq_true, decide_eq_true_eq, hlt, heq] at h
    simp only [true_iff]
    omega

theorem checkBlock_eq_ok {handle : Handle} {block : Block} :
    checkBlock handle = .ok block ↔
      handle = .array block ∧ block.shape.length = 1 ∧ block.element.isFloating = true := by
  cases handle with
  | object typeName => simp [checkBlock]
  | array given =>
    rw [checkBlock]
    split
    · rename_i h
      simp only [reduceCtorEq, Handle.array.injEq, false_iff]
      rintro ⟨rfl, h', -⟩
      exact h h'
    split
    · rename_i h
      simp only [reduceCtorEq, Handle.array.injEq, false_iff]
      rintro ⟨rfl, -, h'⟩
      simp [h'] at h
    · rename_i h₁ h₂
      constructor
      · rintro h
        cases h
        exact ⟨rfl, by simpa using h₁, by simpa using h₂⟩
      · rintro ⟨h, -, -⟩
        cases h
        rfl

theorem newDimensions_eq_ok {dimension : Json} {transform : Option (Transform α)} {user : Nat}
    {solver : Int} (h : newDimensions dimension transform = .ok (user, solver)) :
    ∃ n : Int, dimension = .int n ∧ user = n.toNat ∧
      solver = transform.elim n Transform.inputDimension ∧
      ∀ t, transform = some t → t.outputDimension = n := by
  unfold newDimensions at h
  dsimp only at h
  split at h
  · split at h
    · cases h
    rename_i hstands
    split at h
    · cases h
      refine ⟨_, rfl, rfl, rfl, fun _ ht ↦ ?_⟩
      cases ht
      exact (standsFor_int.1 (by simpa using hstands)).symm
    · cases h
  · rename_i hnone
    split at h
    · cases h
      exact ⟨_, rfl, rfl, rfl, fun t ht ↦ (hnone t ht).elim⟩
    · cases h

/-- The variable that a registry makes for a new block. -/
def newVariable [Zero α] (r : Registry α) (block : Block) (user : Nat) (solver : Int)
    (transform : Option (Transform α)) : Variable α :=
  { block, index := r.count, userDimension := user, solverDimension := solver,
    offset := r.totalScalars, transform, scratch := Buffer.zeros user }

/-- What a registration can come to, with its events. -/
inductive Registering [Zero α] (r : Registry α) (handle : Handle)
    (transform : Option (Transform α)) :
    Except Failure (Registry α × Nat) → List (Event α) → Prop
  /-- The block, the dimension or the transform does not fit. -/
  | rejected {failure : Failure} : Registering r handle transform (.error failure) []
  /-- The block is known, and its transform fails to be released. -/
  | unreleased {block : Block} {v : Variable α} {previous : Transform α} {failure : Failure}
      (hhandle : handle = .array block) (hv : r.find? block.id = some v)
      (hprevious : v.transform = some previous) (hfailure : previous.closeFailure = some failure) :
      Registering r handle transform (.error failure) [.transformReleased previous.id]
  /-- The block is known and gets the transform. -/
  | replaced {block : Block} {v : Variable α} (hhandle : handle = .array block)
      (hv : r.find? block.id = some v)
      (hdim : installedDimensions v transform = ((v.userDimension : Int), v.solverDimension)) :
      Registering r handle transform (.ok (r.setVariable { v with transform }, v.index))
        (released v transform)
  /-- The block is new and gets a variable behind the others. -/
  | added {block : Block} {user : Nat} {solver : Int} {text : String}
      (hhandle : handle = .array block) (hnone : r.find? block.id = none)
      (hfits : (r.newVariable block user solver transform).Fits) :
      Registering r handle transform
        (.ok (⟨r.entries ++ [r.newVariable block user solver transform],
          r.totalScalars + solver⟩, r.count)) [.logged .debug .registry text]

/-- The variable that has been asked for fits its block and its transform. -/
theorem fits_newVariable [Zero α] {r : Registry α} {block : Block} {dimension : Json}
    {transform : Option (Transform α)} {user : Nat} {solver : Int}
    (hshape : block.shape.length = 1) (hfloating : block.element.isFloating = true)
    (hcheck : checkDimension dimension block.size = .ok ())
    (hnew : newDimensions dimension transform = .ok (user, solver)) :
    (r.newVariable block user solver transform).Fits := by
  obtain ⟨n, rfl, rfl, rfl, ht⟩ := newDimensions_eq_ok hnew
  obtain ⟨hpos, hle⟩ := checkDimension_int.1 hcheck
  refine ⟨hshape, hfloating, ?_, ?_, Buffer.length_zeros _, ?_⟩
  · show 0 < n.toNat
    omega
  · show n.toNat ≤ block.size
    omega
  · have htoNat : ((n.toNat : Nat) : Int) = n := by omega
    cases transform with
    | none => exact Prod.ext rfl htoNat
    | some t => exact Prod.ext ((ht t rfl).trans htoNat.symm) rfl

theorem ends_register [Zero α] (r : Registry α) (handle : Handle) (dimension : Json)
    (transform : Option (Transform α)) :
    Ends (Registering r handle transform) (r.register handle dimension transform) := by
  rw [register]
  refine .liftM_bind (fun _ _ ↦ .rejected) fun block hblock ↦ ?_
  obtain ⟨hhandle, hshape, hfloating⟩ := checkBlock_eq_ok.1 hblock
  dsimp only
  generalize (if dimension.isNull then Json.int block.size else dimension) = requested
  split
  · rename_i v hv
    split
    · exact .throw_bind .rejected
    refine .map (ends_replaceTransform r v transform) ?_ ?_
    · intro failure added h
      cases h with
      | rejected => exact .rejected
      | unreleased hprevious hfailure => exact .unreleased hhandle hv hprevious hfailure
    · intro s added h
      cases h with
      | replaced hdim => exact .replaced hhandle hv hdim
  · rename_i hnone
    refine .liftM_bind (fun _ _ ↦ .rejected) fun _ hcheck ↦ ?_
    rw [append]
    refine .liftM_bind (fun _ _ ↦ .rejected) fun ⟨user, solver⟩ hnew ↦ ?_
    exact .emit_bind (.pure (.added hhandle hnone (fits_newVariable hshape hfloating hcheck hnew)))

/-- A registration that succeeds keeps the layout, and the variables with their dimensions. -/
theorem Registering.laid [Zero α] {r s : Registry α} {handle : Handle}
    {transform : Option (Transform α)} {index : Nat} {added : List (Event α)} (h : r.Laid)
    (hs : Registering r handle transform (.ok (s, index)) added) : s.Laid ∧ r.Extends s := by
  cases hs with
  | replaced _ hv hdim => exact h.setVariable (find?_eq_some hv).1 hdim
  | added _ hnone hfits => exact ⟨h.append hfits hnone rfl rfl, extends_append _ _ _⟩

/-- A registration that succeeds keeps every variable at its index. -/
theorem Registering.indexed [Zero α] {r s : Registry α} {handle : Handle}
    {transform : Option (Transform α)} {index : Nat} {added : List (Event α)} (h : r.Indexed)
    (hs : Registering r handle transform (.ok (s, index)) added) : s.Indexed := by
  cases hs with
  | replaced _ hv _ =>
    have hv := (find?_eq_some hv).1
    exact h.congr (h.map_setVariable hv transform rfl) (h.map_setVariable hv transform rfl)
  | added _ hnone _ => exact h.append hnone rfl _

/-- A block that is not known is registered if the dimension and the transform fit. -/
theorem run_register_new [Zero α] {r : Registry α} {block : Block} {user : Nat}
    {transform : Option (Transform α)} (hnone : r.find? block.id = none)
    (hshape : block.shape.length = 1) (hfloating : block.element.isFloating = true)
    (hpos : 0 < user) (hle : user ≤ block.size)
    (ht : ∀ t, transform = some t → t.outputDimension = user) (events : List (Event α)) :
    ((ExceptT.run (r.register (.array block) (.int user) transform)).run events).1 =
      .ok (⟨r.entries ++ [r.newVariable block user (transform.elim ↑user Transform.inputDimension)
          transform], r.totalScalars + transform.elim ↑user Transform.inputDimension⟩,
        r.count) := by
  have hblock := checkBlock_eq_ok.2 ⟨rfl, hshape, hfloating⟩
  have hdimension : checkDimension (.int user) block.size = .ok () :=
    checkDimension_int.2 ⟨by omega, by omega⟩
  have hnew : newDimensions (.int user) transform =
      .ok (user, transform.elim ↑user Transform.inputDimension) := by
    unfold newDimensions
    cases transform with
    | none => rfl
    | some t =>
      have hstands : standsFor (.int user) t.outputDimension = true :=
        standsFor_int.2 (ht t rfl).symm
      simp only [hstands]
      rfl
  rw [register, hblock, Traced.ok_bind]
  simp only [hnone, Json.isNull, Bool.false_eq_true, if_false]
  rw [hdimension, Traced.ok_bind, append, hnew]
  rfl

end Registry

end Summand
