import Summand.Proofs.Copying
import Summand.Proofs.Slices
import Summand.Proofs.Storing

/-!
# Copies there and back

A point can be copied to the caller's blocks, and a point can be made from what the blocks hold. If
each transform takes the points of its size to user space and back again, a point that has been
copied is what is made of the blocks afterwards; if each one takes the value that is stored to
optimization space and back again, the point that is made of the blocks restores them, whatever they
have been overwritten with (`Scene.Reached.copies_roundTrip`).

Both ways a variable's slice of the point goes with the used part of its block
(`Variable.Matches`), and the slices of all variables, one after another, are the point
(`Registry.Laid.flatMap_slice`, `Registry.Laid.slice_flatMap`).

All sizes that transforms ask for must be natural numbers, and there must be room for a point: else
`Small.unreturned_points` has points that are not returned.
-/

namespace Summand

variable {α β γ : Type}

/-! ### Parts of joined vectors -/

namespace Buffer

theorem part_append {offset count : Nat} {u v w : List α} (hoffset : u.length = offset)
    (hcount : v.length = count) : part offset count (u ++ (v ++ w)) = v := by
  rw [part, ← hoffset, List.drop_left, ← hcount, List.take_left]

theorem setPart_append {offset : Nat} {u v v' w : List α} (hoffset : u.length = offset)
    (hlength : v'.length = v.length) : setPart offset v' (u ++ (v ++ w)) = u ++ (v' ++ w) := by
  rw [setPart, ← hoffset, List.take_left, List.drop_left,
    conform_eq_append (by rw [List.length_append]; omega), hlength, List.drop_left]

end Buffer

/-! ### Transforms that are undone -/

/-- A map fills all arrays of a size with one value, whatever they hold. -/
def Fills (fill : List α → Progress (List α)) (size : Nat) (value : List α) : Prop :=
  ∀ held, held.length = size → ((fill held).map (Buffer.conform held)).complete = .ok value

theorem Fills.length_eq [Zero α] {fill : List α → Progress (List α)} {size : Nat} {value : List α}
    (h : Fills fill size value) : value.length = size := by
  have hfill := h (Buffer.zeros size) (Buffer.length_zeros size)
  obtain ⟨-, rfl⟩ := Progress.complete_eq_ok_iff.1 hfill
  exact (Buffer.length_conform _ _).trans (Buffer.length_zeros size)

/-- A transform takes a point to a value in user space and that value to the point. -/
structure Transform.Matches (t : Transform α) (point value : List α) : Prop where
  toUser : Fills (t.userVector · point) t.outputDimension.toNat value
  toOptimization : Fills (t.optimizationVector · value) t.inputDimension.toNat point

/-- A transform takes every point of its size, which is not negative, to user space and back
again. -/
structure Transform.RestoresPoints (t : Transform α) : Prop where
  natural : 0 ≤ t.inputDimension
  exists_value : ∀ point : List α, (point.length : Int) = t.inputDimension →
    ∃ value, t.Matches point value

/-- A transform takes a value to optimization space and back again. -/
structure Transform.RestoresValue (t : Transform α) (value : List α) : Prop where
  natural : 0 ≤ t.inputDimension
  exists_point : ∃ point, t.Matches point value

/-- A vector of the right size is overwritten by the values as they are. -/
theorem Elementwise.complete_overwritten {held values : List α} (h : values.length = held.length) :
    ((Progress.attempt (overwritten · (.vector values)) (.vector held)).map Grid.entries).complete =
      .ok values := by
  have hoverwritten : overwritten (.vector held) (.vector values) =
      .ok ⟨[held.length], values⟩ := by
    simp only [overwritten, Grid.shape_vector, List.isEmpty_cons, Bool.false_eq_true, if_false,
      Grid.stretchTo_vector h]
    rfl
  rw [Progress.complete_map, Progress.complete_attempt, hoverwritten]
  rfl

theorem Elementwise.fills_overwritten {size : Nat} {values : List α} (h : values.length = size) :
    Fills (fun held ↦ (Progress.attempt (overwritten · (.vector values)) (.vector held)).map
      Grid.entries) size values := by
  intro held hheld
  rw [Progress.complete_map, complete_overwritten (h.trans hheld.symm)]
  exact congrArg Except.ok (Buffer.conform_of_length_eq (h.trans hheld.symm))

section Elementwise

variable [Add α] [Mul α] (e : Elementwise α) (id : Nat) {size : Nat}

/-- A transform by scalar maps fills an array with the values of the first map. -/
theorem Elementwise.fills_userVector {point : List α} (h : point.length = size) :
    Fills ((e.toTransform id).userVector · point) size (point.map e.forward) := by
  have hvalues : (point.map e.forward).length = size := by simpa
  have hfills := fills_overwritten hvalues
  simpa [Transform.userVector, toTransform] using hfills

theorem Elementwise.fills_optimizationVector {value : List α} (h : value.length = size) :
    Fills ((e.toTransform id).optimizationVector · value) size (value.map e.inverse) := by
  have hvalues : (value.map e.inverse).length = size := by simpa
  have hfills := fills_overwritten hvalues
  simpa [Transform.optimizationVector, toTransform] using hfills

end Elementwise

/-- The dimensions that are accepted are the positive ones. -/
theorem Elementwise.of_checkDimension_eq_ok {n : Int} {m : Nat}
    (h : checkDimension n = (.ok m : Except (Fault β) Nat)) : (m : Int) = n ∧ 0 < n := by
  rw [checkDimension] at h
  split at h
  · cases h
  · cases h
    omega

/-- Scalar maps that undo each other match points with values, entry by entry. -/
theorem Elementwise.matches_map [Add α] [Mul α] {e : Elementwise α} {point : List α}
    (hinverse : ∀ a ∈ point, e.inverse (e.forward a) = a) (hlength : point.length = e.dimension)
    (id : Nat) : (e.toTransform id).Matches point (point.map e.forward) where
  toUser := e.fills_userVector id hlength
  toOptimization := by
    have hpoint : (point.map e.forward).map e.inverse = point := by
      rw [List.map_map]
      exact (List.map_congr_left hinverse).trans (List.map_id point)
    have hvalues : (point.map e.forward).length = e.dimension := by simpa
    have hfills := e.fills_optimizationVector id hvalues
    rwa [hpoint] at hfills

/-! ### One variable -/

namespace Variable

/-- A slice of a point goes with what the variable's part of its block holds. -/
def Matches (v : Variable α) (point value : List α) : Prop :=
  match v.transform with
  | none => value = point ∧ value.length = v.userDimension
  | some t => t.Matches point value

variable {v : Variable α} {x point value : List α}

/-- A slice of a point goes with some value if the transform takes points to user space and back. -/
theorem exists_matches_slice (hfits : v.Fits)
    (hslice : (v.slice x).length = v.solverDimension.toNat)
    (hrestores : ∀ t, v.transform = some t → t.RestoresPoints) :
    ∃ value, v.Matches (v.slice x) value := by
  unfold Matches
  rcases ht : v.transform with - | t
  · refine ⟨v.slice x, rfl, ?_⟩
    rw [hslice, hfits.solverDimension_eq ht, Int.toNat_natCast]
  · have hnatural := (hrestores t ht).natural
    refine (hrestores t ht).exists_value _ ?_
    rw [hslice, ← (hfits.transform_dimensions ht).2, Int.toNat_of_nonneg hnatural]

/-- A value goes with some slice if the transform takes it to optimization space and back. -/
theorem exists_matches_value (hvalue : value.length = v.userDimension)
    (hrestores : ∀ t, v.transform = some t → t.RestoresValue value) :
    ∃ point, v.Matches point value := by
  unfold Matches
  rcases ht : v.transform with - | t
  · exact ⟨value, rfl, hvalue⟩
  · exact (hrestores t ht).exists_point

variable [Zero α]

theorem Matches.length_value (h : v.Matches point value) (hfits : v.Fits) :
    value.length = v.userDimension := by
  unfold Matches at h
  split at h
  · exact h.2
  · rename_i t ht
    rw [h.toUser.length_eq, (hfits.transform_dimensions ht).1, Int.toNat_natCast]

theorem Matches.length_point (h : v.Matches point value) (hfits : v.Fits) :
    point.length = v.solverDimension.toNat := by
  unfold Matches at h
  split at h
  · rename_i ht
    rw [← h.1, h.2, hfits.solverDimension_eq ht, Int.toNat_natCast]
  · rename_i t ht
    rw [h.toOptimization.length_eq, (hfits.transform_dimensions ht).2]

/-- The flat vector with the variable's slice taken from a value of its block. -/
def gathered (v : Variable α) (value x : List α) : Except Failure (List α) :=
  (match v.transform with
    | none => (Grid.vector value).stretchTo [(v.slice x).length]
    | some t =>
      ((t.optimizationVector (v.slice x) value).map (Buffer.conform (v.slice x))).complete).map
        (v.setSlice · x)

theorem Matches.gathered (h : v.Matches point value) (hfits : v.Fits)
    (hslice : (v.slice x).length = v.solverDimension.toNat) :
    v.gathered value x = .ok (v.setSlice point x) := by
  have hpoint := h.length_point hfits
  rw [Variable.gathered]
  unfold Matches at h
  rcases ht : v.transform with - | t <;> rw [ht] at h
  · obtain ⟨rfl, -⟩ := h
    dsimp only
    rw [Grid.stretchTo_vector (hpoint.trans hslice.symm)]
    rfl
  · dsimp only
    rw [h.toOptimization _ (by rw [hslice, (hfits.transform_dimensions ht).2])]
    rfl

end Variable

/-! ### All variables -/

namespace Registry

variable {r : Registry α} {p value : Variable α → List α}

/-- Slices that are joined are as long as all dimensions together. -/
theorem length_flatMap_slices {vars : List (Variable α)}
    (hnatural : ∀ v ∈ vars, 0 ≤ v.solverDimension)
    (hp : ∀ v ∈ vars, (p v).length = v.solverDimension.toNat) :
    ((vars.flatMap p).length : Int) = (vars.map Variable.solverDimension).sum := by
  induction vars with
  | nil => rfl
  | cons v rest ih =>
    obtain ⟨hdimension, hnatural⟩ := List.forall_mem_cons.1 hnatural
    obtain ⟨hlength, hp⟩ := List.forall_mem_cons.1 hp
    rw [List.flatMap_cons, List.length_append, List.map_cons, List.sum_cons, ← ih hnatural hp,
      hlength]
    omega

/-- What is joined of the slices in front of a variable ends where its own slice begins. -/
theorem Laid.length_flatMap_earlier (h : r.Laid) (hnatural : r.Natural)
    (hp : ∀ v ∈ r.entries, (p v).length = v.solverDimension.toNat) {v : Variable α}
    {earlier later : List (Variable α)} (hr : r.entries = earlier ++ v :: later) :
    (earlier.flatMap p).length = v.offset.toNat := by
  have hmem (w) (hw : w ∈ earlier) : w ∈ r.entries := hr ▸ List.mem_append_left _ hw
  have hlength := length_flatMap_slices (fun w hw ↦ hnatural w (hmem w hw))
    fun w hw ↦ hp w (hmem w hw)
  rw [← (h.split hr).2.1] at hlength
  omega

/-- Slices of the right sizes are joined to a vector in which each variable finds its own. -/
theorem Laid.slice_flatMap (h : r.Laid) (hnatural : r.Natural)
    (hp : ∀ v ∈ r.entries, (p v).length = v.solverDimension.toNat) {v : Variable α}
    (hv : v ∈ r.entries) : v.slice (r.entries.flatMap p) = p v := by
  have hlength := length_flatMap_slices hnatural hp
  rw [← h.total] at hlength
  obtain ⟨earlier, later, hr⟩ := List.append_of_mem hv
  have hearlier := h.length_flatMap_earlier hnatural hp hr
  rw [Variable.slice, ← Int.toNat_natCast (r.entries.flatMap p).length, hlength,
    (h.liesIn hnatural hv).span_eq, hr, List.flatMap_append, List.flatMap_cons]
  exact Buffer.part_append hearlier (hp v hv)

/-- The slices of a vector are the vector when they are joined. -/
theorem Laid.flatMap_slice (h : r.Laid) (hnatural : r.Natural) {x : List α}
    (hx : (x.length : Int) = r.totalScalars) : r.entries.flatMap (·.slice x) = x := by
  have hlength : x.length = r.totalScalars.toNat := by omega
  -- The slices of the first variables are the beginning of the vector.
  have hfront : ∀ earlier later, r.entries = earlier ++ later →
      earlier.flatMap (·.slice x) = x.take (earlier.map Variable.solverDimension).sum.toNat := by
    intro earlier
    induction earlier using List.reverseRecOn with
    | nil => exact fun _ _ ↦ rfl
    | append_singleton earlier v ih =>
      intro later hr
      rw [List.append_assoc, List.singleton_append] at hr
      have hv : v ∈ r.entries := by simp [hr]
      have hlies := h.liesIn hnatural hv
      have hoffset := hlies.offset
      have hdimension := hlies.dimension
      rw [List.flatMap_append, ih _ hr, List.map_append, List.sum_append, ← (h.split hr).2.1]
      simp only [List.flatMap_cons, List.flatMap_nil, List.append_nil, List.map_cons, List.map_nil,
        List.sum_cons, List.sum_nil, Int.add_zero]
      rw [Int.toNat_add hoffset hdimension, List.take_add, Variable.slice, hlength, hlies.span_eq]
      rfl
  rw [hfront r.entries [] (List.append_nil _).symm, ← h.total, ← hlength, List.take_length]

/-- The slices that go with values of the blocks are gathered one after another. -/
theorem Laid.foldlM_gathered [Zero α] (h : r.Laid) (hnatural : r.Natural)
    (hmatches : ∀ v ∈ r.entries, v.Matches (p v) (value v)) :
    r.entries.foldlM (fun x v ↦ v.gathered (value v) x) (Buffer.zeros r.totalScalars.toNat) =
      .ok (r.entries.flatMap p) := by
  have hp (v) (hv : v ∈ r.entries) : (p v).length = v.solverDimension.toNat :=
    (hmatches v hv).length_point (h.fits v hv)
  -- The first variables have filled the beginning, and the rest is zero.
  have hrest : ∀ later earlier, r.entries = earlier ++ later →
      later.foldlM (fun x v ↦ v.gathered (value v) x) (earlier.flatMap p ++
        Buffer.zeros (later.map Variable.solverDimension).sum.toNat) =
          .ok (r.entries.flatMap p) := by
    intro later
    induction later with
    | nil =>
      intro earlier hr
      rw [hr, List.append_nil]
      exact congrArg Except.ok (List.append_nil _)
    | cons v later ih =>
      intro earlier hr
      have hv : v ∈ r.entries := by simp [hr]
      have hlies := h.liesIn hnatural hv
      have hoffset := (h.split hr).2.1
      have hlater := sum_solverDimension_nonneg later fun w hw ↦ hnatural w (by simp [hr, hw])
      have htotal := h.total
      rw [hr, List.map_append, List.map_cons, List.sum_append, List.sum_cons, ← hoffset] at htotal
      have hearlier := h.length_flatMap_earlier hnatural hp hr
      have hdimension := hlies.dimension
      have hzeros : (Buffer.zeros ((v :: later).map Variable.solverDimension).sum.toNat : List α) =
          Buffer.zeros v.solverDimension.toNat ++
            Buffer.zeros (later.map Variable.solverDimension).sum.toNat := by
        rw [List.map_cons, List.sum_cons, Int.toNat_add hdimension hlater]
        exact List.replicate_add _ _ _
      have hlength : (earlier.flatMap p ++ (Buffer.zeros v.solverDimension.toNat ++
          Buffer.zeros (later.map Variable.solverDimension).sum.toNat)).length =
            r.totalScalars.toNat := by
        have hpos := hlies.offset
        simp only [List.length_append, Buffer.length_zeros, hearlier]
        omega
      rw [List.foldlM_cons, hzeros, (hmatches v hv).gathered (h.fits v hv)
        (hlies.length_slice hlength), Variable.setSlice, hlength, hlies.span_eq,
        Buffer.setPart_append hearlier (by rw [hp v hv, Buffer.length_zeros]), ← List.append_assoc]
      have hnext := ih (earlier ++ [v]) (by rw [hr]; simp)
      rwa [List.flatMap_append, List.flatMap_singleton] at hnext
  have hstart := hrest r.entries [] rfl
  rwa [← h.total] at hstart

end Registry

/-! ### Copies -/

/-- Where an array can be stored is no matter of what the memory holds. -/
theorem Block.Takes.of_size {m m' : Memory α} {sizes : List Int} {b : Block}
    (h : b.Takes m sizes) (hsize : m'.cells.size = m.cells.size) : b.Takes m' sizes :=
  ⟨⟨h.proper.nodup, fun a ha ↦ hsize ▸ h.proper.lt a ha, h.proper.volume⟩, h.sizes, h.element,
    h.writeable⟩

/-- A loop whose rounds leave the scene as it is computes what they compute. -/
theorem Action.run_forIn_of_pure {l : List γ} {f : γ → β → Action α (ForInStep β)}
    {g : β → γ → Except Failure β} {s : Scene α}
    (h : ∀ c r, (f c r).run s = ((g r c).map .yield, s)) (r : β) :
    (forIn l r f).run s = (l.foldlM g r, s) := by
  induction l generalizing r with
  | nil => rfl
  | cons c l ih =>
    rw [List.forIn_cons, List.foldlM_cons, run_bind, h c r]
    rcases g r c with failure | next
    · rfl
    · exact ih next

namespace Objective

open Summand.Action

variable [Zero α] {s : Scene α}

/-- The point that is made of what the blocks hold. -/
def gatheredPoint (o : Objective α) (m : Memory α) : Except Failure (List α) := do
  Allocation.check .real [o.totalScalars]
  o.registry.entries.foldlM (fun x v ↦ v.gathered (m.read v.userBlock) x)
    (Buffer.zeros o.totalScalars.toNat)

theorem run_copyBlocksToPoint (hopen : s.objective.closed = false) :
    copyBlocksToPoint.run s = (s.objective.gatheredPoint s.memory, s) := by
  rw [copyBlocksToPoint, run_bind_of_ok (run_checkOpen_of_open _ hopen), run_objective_bind,
    run_memory_bind, gatheredPoint, run_bind, run_liftM]
  rcases Allocation.check .real [s.objective.totalScalars] with failure | ⟨⟨⟩⟩
  · rfl
  dsimp only
  rw [run_bind, run_forIn_of_pure (g := fun x v ↦ v.gathered (s.memory.read v.userBlock) x)]
  · generalize (s.objective.registry.entries.foldlM
      (fun x v ↦ v.gathered (s.memory.read v.userBlock) x)
      (Buffer.zeros s.objective.totalScalars.toNat) : Except Failure (List α)) = gathered
    cases gathered <;> rfl
  · -- A round takes one slice from the variable's block.
    intro v x
    rw [Variable.gathered]
    rcases v.transform with - | t
    · dsimp only
      rw [run_bind, run_liftM]
      rcases (Grid.vector (s.memory.read v.userBlock)).stretchTo [(v.slice x).length] <;> rfl
    · dsimp only
      rw [Progress.complete_map]
      generalize t.optimizationVector (v.slice x) (s.memory.read v.userBlock) = filled
      rcases hfailure : filled.failure with - | failure
      · rw [Progress.complete_of_no_failure hfailure]
        rfl
      · rw [Progress.complete_of_failure hfailure]
        rfl

/-- The point that is made of what the blocks hold is joined of the slices that go with it. -/
theorem run_copyBlocksToPoint_of_matches (hopen : s.objective.closed = false)
    (hlaid : s.objective.registry.Laid) (hnatural : s.objective.registry.Natural)
    (hroom : Allocation.check .real [s.objective.totalScalars] = .ok ())
    {point : Variable α → List α} (hmatches : ∀ v ∈ s.objective.registry.entries,
      v.Matches (point v) (s.memory.read v.userBlock)) :
    copyBlocksToPoint.run s = (.ok (s.objective.registry.entries.flatMap point), s) := by
  rw [run_copyBlocksToPoint hopen, gatheredPoint, hroom]
  exact congrArg (·, s) (hlaid.foldlM_gathered hnatural hmatches)

/-- Making a point of what the blocks hold changes nothing. -/
theorem scene_copyBlocksToPoint (s : Scene α) : (copyBlocksToPoint.run s).2 = s := by
  rcases hopen : s.objective.closed with - | -
  · rw [run_copyBlocksToPoint hopen]
  · rw [copyBlocksToPoint, run_bind_of_error (run_checkOpen_of_closed _ hopen)]

variable [Storable α] {x : List α}

/-- A value that goes with a slice of the point is stored in the variable's block. -/
theorem run_writeBlock_of_matches {v : Variable α} {value : List α} (hfits : v.Fits)
    (htakes : v.userBlock.Takes s.memory [v.userDimension])
    (hmatches : v.Matches (v.slice x) value) :
    (writeBlock v x).run s = (.ok (), { s with memory := s.memory.store v.userBlock value }) := by
  have hsize : v.userBlock.size = v.userDimension :=
    htakes.proper.length_of_sizes htakes.sizes
  have hwriteable := htakes.writeable
  rw [writeBlock]
  dsimp only
  unfold Variable.Matches at hmatches
  rcases ht : v.transform with - | t <;> rw [ht] at hmatches
  · obtain ⟨rfl, hlength⟩ := hmatches
    dsimp only
    rw [hwriteable, hsize, Grid.stretchTo_vector hlength]
    rfl
  · have hheld : (s.memory.read v.userBlock).length = t.outputDimension.toNat := by
      rw [Memory.read, List.length_map, (hfits.transform_dimensions ht).1]
      exact hsize
    obtain ⟨hfailure, hstate⟩ := Progress.complete_eq_ok_iff.1 (hmatches.toUser _ hheld)
    dsimp only
    rw [run_memory_bind, hwriteable, if_pos rfl, run_modifyMemory_bind,
      show (t.userVector (s.memory.read v.userBlock) (v.slice x)).failure = none from hfailure]
    exact congrArg (fun values ↦ ((.ok (), { s with memory := s.memory.store v.userBlock values }) :
      Except Failure Unit × Scene α)) hstate

/-- Blocks that share no cells hold the values that go with the slices of the point after these have
been written. -/
theorem exists_run_writeBlocks {entries : List (Variable α)} {value : Variable α → List α}
    (hfits : ∀ v ∈ entries, v.Fits)
    (htakes : ∀ v ∈ entries, v.userBlock.Takes s.memory [v.userDimension])
    (hdisjoint : entries.Pairwise fun v w ↦ v.userBlock.Disjoint w.userBlock)
    (hmatches : ∀ v ∈ entries, v.Matches (v.slice x) (value v)) :
    ∃ t, (writeBlocks entries x).run s = (.ok (), t) ∧
      ∀ v ∈ entries, t.memory.read v.userBlock = value v := by
  induction entries generalizing s with
  | nil => exact ⟨s, rfl, by simp⟩
  | cons v rest ih =>
    obtain ⟨hfits, hfitsRest⟩ := List.forall_mem_cons.1 hfits
    obtain ⟨htakes, htakesRest⟩ := List.forall_mem_cons.1 htakes
    obtain ⟨hdisjoint, hdisjointRest⟩ := List.pairwise_cons.1 hdisjoint
    obtain ⟨hmatches, hmatchesRest⟩ := List.forall_mem_cons.1 hmatches
    obtain ⟨t, hrun, hread⟩ := ih (s := { s with memory := s.memory.store v.userBlock (value v) })
      hfitsRest (fun w hw ↦ (htakesRest w hw).store) hdisjointRest hmatchesRest
    refine ⟨t, ?_, List.forall_mem_cons.2 ⟨?_, hread⟩⟩
    · rw [run_writeBlocks_cons,
        run_bind_of_ok (run_writeBlock_of_matches hfits htakes hmatches)]
      exact hrun
    · -- The blocks that are written later do not touch this one.
      have houtside := sameOutside_writeBlocks rest x
        { s with memory := s.memory.store v.userBlock (value v) }
      rw [hrun] at houtside
      rw [houtside.read (List.forall_mem_map.2 hdisjoint)]
      exact htakes.read_store (by simpa [Grid.volume] using hmatches.length_value hfits)

omit [Zero α] [Storable α] in
/-- A vector of the right length is a point. -/
theorem pointOf_vector {n : Int} (h : (x.length : Int) = n) :
    pointOf n (.ok (.vector x)) = .ok x := by
  subst h
  exact if_pos rfl

section Copies

variable (hopen : s.objective.closed = false) (hlaid : s.objective.registry.Laid)
  (htakes : ∀ v ∈ s.objective.registry.entries, v.userBlock.Takes s.memory [v.userDimension])
  (hdisjoint : s.objective.registry.entries.Pairwise fun v w ↦ v.userBlock.Disjoint w.userBlock)

include hopen hlaid htakes hdisjoint

/-- A copy succeeds if all slices of the point go with values, and leaves these in the blocks. -/
theorem exists_run_copyPointToBlocks (hx : (x.length : Int) = s.objective.totalScalars)
    {value : Variable α → List α}
    (hmatches : ∀ v ∈ s.objective.registry.entries, v.Matches (v.slice x) (value v)) :
    ∃ t, (copyPointToBlocks (.ok (.vector x))).run s = (.ok (), t) ∧
      t.objective = s.objective ∧
      ∀ v ∈ s.objective.registry.entries, t.memory.read v.userBlock = value v := by
  obtain ⟨t, hrun, hread⟩ := exists_run_writeBlocks hlaid.fits htakes hdisjoint hmatches
  have hcopy : (copyPointToBlocks (.ok (.vector x))).run s = (.ok (), t) := by
    rw [run_copyPointToBlocks hopen, pointOf_vector hx]
    exact hrun
  have houtside := sameOutside_copyPointToBlocks (.ok (.vector x)) s
  rw [hcopy] at houtside
  exact ⟨t, hcopy, houtside.objective_eq, hread⟩

variable (hroom : Allocation.check .real [s.objective.totalScalars] = .ok ())

include hroom

/-- A point that transforms take to user space and back is made again of the blocks to which it has
been copied. -/
theorem exists_run_copyBlocksToPoint_of_copied
    (hrestores : ∀ v ∈ s.objective.registry.entries, ∀ t, v.transform = some t → t.RestoresPoints)
    (hx : (x.length : Int) = s.objective.totalScalars) :
    ∃ t, (copyPointToBlocks (.ok (.vector x))).run s = (.ok (), t) ∧
      copyBlocksToPoint.run t = (.ok x, t) := by
  have hnatural := hlaid.natural fun v hv t ht ↦ (hrestores v hv t ht).natural
  have hlength : x.length = s.objective.totalScalars.toNat := by omega
  have hvalue (v) (hv : v ∈ s.objective.registry.entries) :
      ∃ value, v.Matches (v.slice x) value :=
    Variable.exists_matches_slice (hlaid.fits v hv)
      ((hlaid.liesIn hnatural hv).length_slice hlength) (hrestores v hv)
  choose! value hmatches using hvalue
  obtain ⟨t, hrun, hobjective, hread⟩ :=
    exists_run_copyPointToBlocks hopen hlaid htakes hdisjoint hx hmatches
  refine ⟨t, hrun, ?_⟩
  have hread : ∀ v ∈ t.objective.registry.entries,
      v.Matches (v.slice x) (t.memory.read v.userBlock) := by
    intro v hv
    rw [hobjective] at hv
    rw [hread v hv]
    exact hmatches v hv
  rw [run_copyBlocksToPoint_of_matches (hobjective ▸ hopen) (hobjective ▸ hlaid)
    (hobjective ▸ hnatural) (hobjective ▸ hroom) hread, hobjective,
    hlaid.flatMap_slice hnatural hx]

/-- Values that transforms take to optimization space and back are restored by the point that is
made of them, whatever the blocks hold by then. -/
theorem exists_run_copyPointToBlocks_of_copied
    (hrestores : ∀ v ∈ s.objective.registry.entries, ∀ t, v.transform = some t →
      t.RestoresValue (s.memory.read v.userBlock)) :
    ∃ x, copyBlocksToPoint.run s = (.ok x, s) ∧
      ∀ memory : Memory α, memory.cells.size = s.memory.cells.size →
        ∃ t, (copyPointToBlocks (.ok (.vector x))).run { s with memory } = (.ok (), t) ∧
          ∀ v ∈ s.objective.registry.entries,
            t.memory.read v.userBlock = s.memory.read v.userBlock := by
  have hnatural := hlaid.natural fun v hv t ht ↦ (hrestores v hv t ht).natural
  have hpoint (v) (hv : v ∈ s.objective.registry.entries) :
      ∃ point, v.Matches point (s.memory.read v.userBlock) := by
    refine Variable.exists_matches_value ?_ (hrestores v hv)
    rw [Memory.read, List.length_map]
    exact (htakes v hv).proper.length_of_sizes (htakes v hv).sizes
  choose! point hmatches using hpoint
  have hlengths (v) (hv : v ∈ s.objective.registry.entries) :
      (point v).length = v.solverDimension.toNat :=
    (hmatches v hv).length_point (hlaid.fits v hv)
  refine ⟨_, run_copyBlocksToPoint_of_matches hopen hlaid hnatural hroom hmatches, ?_⟩
  intro memory hsize
  have hlength : ((s.objective.registry.entries.flatMap point).length : Int) =
      s.objective.totalScalars :=
    (Registry.length_flatMap_slices hnatural hlengths).trans hlaid.total.symm
  have hslices : ∀ v ∈ s.objective.registry.entries,
      v.Matches (v.slice (s.objective.registry.entries.flatMap point))
        (s.memory.read v.userBlock) := by
    intro v hv
    rw [hlaid.slice_flatMap hnatural hlengths hv]
    exact hmatches v hv
  obtain ⟨t, hrun, -, hread⟩ := exists_run_copyPointToBlocks (s := { s with memory }) hopen hlaid
    (fun v hv ↦ (htakes v hv).of_size hsize) hdisjoint hlength hslices
  exact ⟨t, hrun, hread⟩

end Copies

end Objective

open Objective

/-- Copying a point to the blocks and making a point of the blocks afterwards comes to the point if
the transforms take points to user space and back. Making a point of the blocks and copying it
restores the blocks, whatever they have been overwritten with, if the transforms take their values
to optimization space and back. A copy to the blocks, whether it fails or not, changes nothing but
the parts of them that the variables use, and a copy from the blocks changes nothing. The blocks are
writeable arrays of doubles that share no cells as far as they are used, and there is room for a
point. -/
theorem Scene.Reached.copies_roundTrip [Zero α] [Add α] [OfNat α 1] [Storable α] {s : Scene α}
    (h : s.Reached) (hopen : s.objective.closed = false)
    (htakes : ∀ v ∈ s.objective.registry.entries, v.userBlock.Takes s.memory [v.userDimension])
    (hdisjoint : s.objective.registry.entries.Pairwise fun v w ↦ v.userBlock.Disjoint w.userBlock)
    (hroom : Allocation.check .real [s.objective.totalScalars] = .ok ()) :
    ((∀ v ∈ s.objective.registry.entries, ∀ t, v.transform = some t → t.RestoresPoints) →
      ∀ x : List α, (x.length : Int) = s.objective.totalScalars →
        ∃ t, (copyPointToBlocks (.ok (.vector x))).run s = (.ok (), t) ∧
          copyBlocksToPoint.run t = (.ok x, t)) ∧
    ((∀ v ∈ s.objective.registry.entries, ∀ t, v.transform = some t →
        t.RestoresValue (s.memory.read v.userBlock)) →
      ∃ x, copyBlocksToPoint.run s = (.ok x, s) ∧
        ∀ memory : Memory α, memory.cells.size = s.memory.cells.size →
          ∃ t, (copyPointToBlocks (.ok (.vector x))).run { s with memory } = (.ok (), t) ∧
            ∀ v ∈ s.objective.registry.entries,
              t.memory.read v.userBlock = s.memory.read v.userBlock) ∧
    (∀ (memory : Memory α) (x : GivenPoint α),
      ({ s with memory } : Scene α).SameOutside
        (s.objective.registry.entries.map Variable.userBlock)
        ((copyPointToBlocks x).run { s with memory }).2) ∧
    (copyBlocksToPoint.run s).2 = s := by
  have hlaid := (h.sound hopen).laid
  refine ⟨fun hrestores x hx ↦ ?_, fun hrestores ↦ ?_, fun memory x ↦ ?_,
    scene_copyBlocksToPoint s⟩
  · exact exists_run_copyBlocksToPoint_of_copied hopen hlaid htakes hdisjoint hroom hrestores hx
  · exact exists_run_copyPointToBlocks_of_copied hopen hlaid htakes hdisjoint hroom hrestores
  · exact sameOutside_copyPointToBlocks x { s with memory }

namespace Small

/-- The scene with multiples of three in the part of the block that is tripled. -/
def filled : Scene Int :=
  { stored with memory := stored.memory.store (wide.front 2) [3, 6] }

theorem reached_filled : filled.Reached := reached_stored.moved _ _

/-- Division by three undoes the transform of the pair on points, and the transform undoes the
division of multiples. -/
theorem tripledPair_matches {point : List Int} (hlength : point.length = 2) :
    tripledPair.Matches point (point.map (3 * ·)) :=
  Elementwise.matches_map (fun a _ ↦ Int.mul_ediv_cancel_left a (by decide)) hlength 2

/-- A point comes back from the blocks, and the blocks, overwritten with zeros in between, from a
point. -/
theorem roundTrip_of_filled :
    (∃ t, (copyPointToBlocks (.ok (.vector [5, 4, 7]))).run filled = (.ok (), t) ∧
      copyBlocksToPoint.run t = (.ok [5, 4, 7], t)) ∧
    ∃ x, copyBlocksToPoint.run filled = (.ok x, filled) ∧
      ∃ t, (copyPointToBlocks (.ok (.vector x))).run
          { filled with memory := { cells := Array.replicate 28 0 } } = (.ok (), t) ∧
        t.memory.read (wide.front 2) = [3, 6] := by
  have hentries : filled.objective.registry.entries.map
      (fun v ↦ (v.userBlock, v.userDimension, v.transform)) =
        [(single.front 1, 1, none), (wide.front 2, 2, some tripledPair)] := rfl
  have hvariable (v) (hv : v ∈ filled.objective.registry.entries) :
      (v.userBlock = single.front 1 ∧ v.userDimension = 1 ∧ v.transform = none) ∨
        (v.userBlock = wide.front 2 ∧ v.userDimension = 2 ∧ v.transform = some tripledPair) := by
    have hmem := List.mem_map_of_mem (f := fun v ↦ (v.userBlock, v.userDimension, v.transform)) hv
    rw [hentries] at hmem
    simpa using hmem
  have htakes (v) (hv : v ∈ filled.objective.registry.entries) :
      v.userBlock.Takes filled.memory [v.userDimension] := by
    rcases hvariable v hv with ⟨hblock, hdimension, -⟩ | ⟨hblock, hdimension, -⟩ <;>
      rw [hblock, hdimension] <;> exact ⟨⟨by decide, by decide, by decide⟩, rfl, rfl, rfl⟩
  have hdisjoint : filled.objective.registry.entries.Pairwise
      fun v w ↦ v.userBlock.Disjoint w.userBlock := by
    have hblocks : (filled.objective.registry.entries.map Variable.userBlock).Pairwise
        Block.Disjoint := show [single.front 1, wide.front 2].Pairwise Block.Disjoint by decide
    exact List.pairwise_map.1 hblocks
  have hroom : Allocation.check .real [filled.objective.totalScalars] = .ok () :=
    Allocation.check_row (n := 3) (by decide)
  obtain ⟨hpoint, hvalue, -⟩ := reached_filled.copies_roundTrip rfl htakes hdisjoint hroom
  have hpoints (v) (hv : v ∈ filled.objective.registry.entries) (t) (ht : v.transform = some t) :
      t.RestoresPoints := by
    rcases hvariable v hv with ⟨-, -, hnone⟩ | ⟨-, -, hsome⟩
    · cases hnone.symm.trans ht
    · cases hsome.symm.trans ht
      exact ⟨by decide, fun point hlength ↦ ⟨_, tripledPair_matches (Int.ofNat.inj hlength)⟩⟩
  have hvalues (v) (hv : v ∈ filled.objective.registry.entries) (t) (ht : v.transform = some t) :
      t.RestoresValue (filled.memory.read v.userBlock) := by
    rcases hvariable v hv with ⟨-, -, hnone⟩ | ⟨hblock, -, hsome⟩
    · cases hnone.symm.trans ht
    · cases hsome.symm.trans ht
      rw [hblock]
      exact ⟨by decide, [1, 2], tripledPair_matches rfl⟩
  obtain ⟨x, hx, hrestored⟩ := hvalue hvalues
  obtain ⟨t, ht, hread⟩ := hrestored { cells := Array.replicate 28 0 } rfl
  refine ⟨hpoint hpoints [5, 4, 7] rfl, x, hx, t, ht, ?_⟩
  have hmem : wide.front 2 ∈ filled.objective.registry.entries.map Variable.userBlock :=
    show _ ∈ [single.front 1, wide.front 2] from List.mem_cons_of_mem _ List.mem_cons_self
  obtain ⟨v, hv, hblock⟩ := List.mem_map.1 hmem
  rw [← hblock, hread v hv, hblock]
  rfl

/-- A transform of a single number that asks for a negative dimension. -/
def inverted : Transform Int := { tripled with inputDimension := -1 }

theorem fills_inverted (a : Int) : Fills (inverted.userVector · [a]) 1 [3 * a] ∧
    Fills (inverted.optimizationVector · [3 * a]) 1 [a] := by
  have hmatches : tripled.Matches [a] ([a].map (3 * ·)) :=
    Elementwise.matches_map (fun a _ ↦ Int.mul_ediv_cancel_left a (by decide)) rfl 1
  exact ⟨hmatches.toUser, hmatches.toOptimization⟩

/-- A block of three numbers. -/
def triple : Block := { id := 9, shape := [3], cells := List.range' 4 3 }

/-- A scene in which the slice of three numbers has room for one. -/
def clippedScene : Scene Int :=
  Scene.after { objective, memory, events := [], platform }
    [.register (.array single) .null (some inverted), .register (.array triple) .null none]

/-- The map of a great many numbers to the first one, and back to as many copies of it. -/
def repeated (n : Nat) : Transform Int where
  id := 3
  name := "Repeated"
  inputDimension := n
  outputDimension := 1
  toUser out point := .once (fun _ ↦ .ok (.vector [point.entries.headD 0])) out
  toOptimization out value :=
    .once (fun _ ↦ .ok (.vector (List.replicate n (value.entries.headD 0)))) out
  projectGradient accumulator _ _ := .once .ok accumulator

theorem repeated_matches (n : Nat) (a : Int) :
    (repeated (n + 1)).Matches (List.replicate (n + 1) a) [a] := by
  have key {size : Nat} {value : List Int} (hsize : value.length = size) :
      Fills (fun held ↦ (Progress.once (fun _ ↦ .ok (.vector value)) (.vector held)).map
        Grid.entries) size value :=
    fun _ hheld ↦ congrArg Except.ok (Buffer.conform_of_length_eq (hsize.trans hheld.symm))
  exact ⟨key rfl, key List.length_replicate⟩

/-- A scene with a point that is too long to be made. -/
def endlessScene : Scene Int :=
  Scene.after { objective, memory, events := [], platform }
    [.register (.array single) .null (some (repeated (2 ^ 45)))]

/-- An open objective whose blocks are as they should be for copies. -/
structure Copyable (s : Scene Int) : Prop where
  reached : s.Reached
  isOpen : s.objective.closed = false
  takes : ∀ v ∈ s.objective.registry.entries, v.userBlock.Takes s.memory [v.userDimension]
  disjoint : s.objective.registry.entries.Pairwise fun v w ↦ v.userBlock.Disjoint w.userBlock

theorem copyable_clippedScene : Copyable clippedScene where
  reached := reached_after _
  isOpen := rfl
  takes := by
    refine List.forall_mem_cons.2 ⟨?_, List.forall_mem_singleton.2 ?_⟩
    · exact ⟨⟨by decide, by decide, by decide⟩, rfl, rfl, rfl⟩
    · exact ⟨⟨by decide, by decide, by decide⟩, rfl, rfl, rfl⟩
  disjoint := List.pairwise_pair.2 (show (single.front 1).Disjoint (triple.front 3) by decide)

theorem copyable_endlessScene : Copyable endlessScene where
  reached := reached_after _
  isOpen := rfl
  takes := List.forall_mem_singleton.2 ⟨⟨by decide, by decide, by decide⟩, rfl, rfl, rfl⟩
  disjoint := List.pairwise_singleton _ _

/-- Although a transform takes single numbers to user space and back, a point that has been copied
is not made again of the blocks if the transform asks for a negative dimension. Although a transform
takes what is stored to optimization space and back, no point can be made of it if it is too
long. -/
theorem unreturned_points :
    (Copyable clippedScene ∧
      clippedScene.objective.registry.entries.map Variable.transform = [some inverted, none] ∧
      (∀ a : Int, Fills (inverted.userVector · [a]) 1 [3 * a] ∧
        Fills (inverted.optimizationVector · [3 * a]) 1 [a]) ∧
      clippedScene.objective.totalScalars = 2 ∧
      ∃ t, (copyPointToBlocks (.ok (.vector [5, 7]))).run clippedScene = (.ok (), t) ∧
        (copyBlocksToPoint.run t).1.isOk = false) ∧
    Copyable endlessScene ∧
      (∀ v ∈ endlessScene.objective.registry.entries, ∀ t, v.transform = some t →
        t.RestoresValue (endlessScene.memory.read v.userBlock)) ∧
      (copyBlocksToPoint.run endlessScene).1.isOk = false := by
  refine ⟨⟨copyable_clippedScene, rfl, fills_inverted, rfl, ?_⟩, copyable_endlessScene, ?_, ?_⟩
  · have hcopied : ((copyPointToBlocks (.ok (.vector [5, 7]))).run clippedScene).1.isOk = true := by
      decide +kernel
    have hfailed : (copyBlocksToPoint.run
        ((copyPointToBlocks (.ok (.vector [5, 7]))).run clippedScene).2).1.isOk = false := by
      decide +kernel
    generalize (copyPointToBlocks (.ok (.vector [5, 7]))).run clippedScene = ending
      at hcopied hfailed ⊢
    obtain ⟨failure | _, t⟩ := ending
    · cases hcopied
    · exact ⟨t, rfl, hfailed⟩
  · refine List.forall_mem_singleton.2 fun t ht ↦ ?_
    cases ht
    exact ⟨by decide, _, repeated_matches (2 ^ 45 - 1) 7⟩
  · decide +kernel

end Small

end Summand
