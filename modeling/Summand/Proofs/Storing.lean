import Summand.Proofs.HistoryIndependence
import Summand.Proofs.SparseDense

/-!
# Storing a point and evaluating the storage

There are two ways to the values of the variables: an evaluation at a point puts them into scratch,
through the transforms, and a copy puts them into the caller's blocks, from where an evaluation of
the storage takes them as they are. If the blocks keep what is stored in them, both ways come to the
same values or to the same failure (`Objective.realizes_copyPointToBlocks`), so that storing a point
and evaluating the storage is evaluating at the point (`Scene.Reached.evaluateUser_of_copied`).
-/

namespace Summand

variable {α : Type}

section Values

variable [Zero α] {v : Variable α} {held : List α}

/-- Any array of the right size can be filled with the value of a point instead of the scratch. -/
theorem Variable.valued_eq_filled (hfits : v.Fits)
    (hoverwrites : ∀ t, v.transform = some t → t.Overwrites) (hheld : held.length = v.userDimension)
    (x : List α) :
    v.valued x = (match v.transform with
      | none => (Grid.vector (v.slice x)).stretchTo [v.userDimension]
      | some t => ((t.userVector held (v.slice x)).map (Buffer.conform held)).complete).map
        fun scratch ↦ { v with scratch } := by
  have hbare : v.bare = ({ v with scratch := held } : Variable α).bare :=
    (v.bare_scratch (hheld.trans hfits.scratch.symm)).symm
  rw [valued_eq_of_bare hbare hfits hoverwrites, valued, Objective.scratchAt]
  dsimp only
  rcases v.transform with - | t
  · dsimp only
    rw [Progress.complete_once, hheld]
    rfl
  · rfl

end Values

namespace Objective

open Summand.Action

variable [Zero α] [Storable α] {s : Scene α} {x : List α}

/-! ### Copying to the blocks -/

/-- A variable's block is given the value that an evaluation puts into scratch. -/
theorem realizes_writeBlock {v : Variable α} (hfits : v.Fits)
    (hoverwrites : ∀ t, v.transform = some t → t.Overwrites)
    (htakes : v.userBlock.Takes s.memory [v.userDimension]) :
    Realizes (fun _ ↦ True)
      (fun w _ t ↦ w = { v with scratch := t.memory.read v.userBlock } ∧
        t = { s with memory := s.memory.store v.userBlock w.scratch })
      (v.valued x) ((writeBlock v x).run s) := by
  have hsize : v.userBlock.cells.length = v.userDimension :=
    htakes.proper.length_of_sizes htakes.sizes
  have hheld : (s.memory.read v.userBlock).length = v.userDimension := by
    rw [Memory.read, List.length_map, hsize]
  have hread {value : List α} (hvalue : value.length = v.userDimension) :
      value = (s.memory.store v.userBlock value).read v.userBlock :=
    (htakes.read_store (by simpa [Grid.volume] using hvalue)).symm
  rw [Variable.valued_eq_filled hfits hoverwrites hheld, writeBlock]
  dsimp only
  rcases v.transform with - | t
  · dsimp only
    rw [htakes.writeable, show v.userBlock.size = v.userDimension from hsize]
    rcases hvalue : (Grid.vector (v.slice x)).stretchTo [v.userDimension] with failure | value
    · exact .error trivial
    · exact .ok ⟨congrArg _ (hread (Grid.length_stretchTo_vector hvalue)), rfl⟩
  · dsimp only
    rw [run_memory_bind, htakes.writeable]
    generalize t.userVector (s.memory.read v.userBlock) (v.slice x) = filled
    have hlength := (Buffer.length_conform (s.memory.read v.userBlock) filled.state).trans hheld
    rw [if_pos rfl, run_modifyMemory_bind, Progress.complete_map]
    rcases hfailure : filled.failure with - | failure
    · rw [Progress.complete_of_no_failure hfailure]
      exact .ok ⟨congrArg _ (hread hlength), rfl⟩
    · rw [Progress.complete_of_failure hfailure]
      exact .error trivial

/-- Blocks that share no cells are given the values that an evaluation puts into scratch. -/
theorem realizes_writeBlocks {entries : List (Variable α)} (hfits : ∀ v ∈ entries, v.Fits)
    (hoverwrites : ∀ v ∈ entries, ∀ t, v.transform = some t → t.Overwrites)
    (htakes : ∀ v ∈ entries, v.userBlock.Takes s.memory [v.userDimension])
    (hdisjoint : entries.Pairwise fun v w ↦ v.userBlock.Disjoint w.userBlock) :
    Realizes (fun _ ↦ True)
      (fun filled _ t ↦
        filled = entries.map (fun v ↦ { v with scratch := t.memory.read v.userBlock }) ∧
        t = { s with memory := t.memory } ∧
        ∀ b : Block, (∀ v ∈ entries, b.Disjoint v.userBlock) → t.memory.read b = s.memory.read b)
      (entries.mapM (Variable.valued · x))
      ((forIn entries () fun v _ ↦ do writeBlock v x; return .yield ()).run s) := by
  induction entries generalizing s with
  | nil => exact .ok ⟨rfl, rfl, fun _ _ ↦ rfl⟩
  | cons v rest ih =>
    obtain ⟨hfits, hfitsRest⟩ := List.forall_mem_cons.1 hfits
    obtain ⟨hoverwrites, hoverwritesRest⟩ := List.forall_mem_cons.1 hoverwrites
    obtain ⟨htakes, htakesRest⟩ := List.forall_mem_cons.1 htakes
    obtain ⟨hdisjoint, hdisjointRest⟩ := List.pairwise_cons.1 hdisjoint
    rw [List.mapM_cons, List.forIn_cons, bind_assoc]
    refine (realizes_writeBlock hfits hoverwrites htakes).bind fun w _ t ⟨hw, ht⟩ ↦ ?_
    rw [pure_bind]
    have hrest := ih (s := t) hfitsRest hoverwritesRest
      (fun u hu ↦ by rw [ht]; exact (htakesRest u hu).store) hdisjointRest
    refine hrest.map fun filled _ u ⟨hfilled, hu, hother⟩ ↦ ⟨?_, ?_, ?_⟩
    · -- The blocks that are filled later do not touch this one.
      rw [List.map_cons, hother _ hdisjoint, ← hw, hfilled]
    · rw [hu, ht]
    · intro b hb
      obtain ⟨hb, hbRest⟩ := List.forall_mem_cons.1 hb
      rw [hother b hbRest, ht, Memory.read_store_of_disjoint hb]

/-- A copy that succeeds leaves the values of the point in the blocks and nothing else behind. It
fails if the values cannot be taken. -/
theorem realizes_copyPointToBlocks (hopen : s.objective.closed = false)
    (hlaid : s.objective.registry.Laid)
    (hoverwrites : ∀ v ∈ s.objective.registry.entries, ∀ t, v.transform = some t → t.Overwrites)
    (htakes : ∀ v ∈ s.objective.registry.entries, v.userBlock.Takes s.memory [v.userDimension])
    (hdisjoint : s.objective.registry.entries.Pairwise fun v w ↦ v.userBlock.Disjoint w.userBlock)
    (x : GivenPoint α) :
    Realizes (fun _ ↦ True)
      (fun registry _ t ↦ registry = s.objective.blockValued t.memory ∧
        t = { s with memory := t.memory })
      (s.objective.valuedAt s.memory (some x)) ((copyPointToBlocks x).run s) := by
  rw [copyPointToBlocks, run_bind_of_ok (run_checkOpen_of_open _ hopen), valuedAt]
  refine Realizes.check (run_checkPoint x s) trivial fun point _ ↦ ?_
  have hvalued : s.objective.registry.valued point = do
      return { s.objective.registry with
        entries := ← s.objective.registry.entries.mapM (Variable.valued · point) } := by
    rw [Registry.valued]
    cases s.objective.registry.entries.mapM (Variable.valued · point) <;> rfl
  rw [run_objective_bind, hvalued]
  refine (realizes_writeBlocks hlaid.fits hoverwrites htakes hdisjoint).bind ?_
  rintro _ _ t ⟨rfl, ht, -⟩
  exact .ok ⟨rfl, ht⟩

/-! ### Evaluating -/

variable [Add α]

/-- An evaluation without derivatives comes to the sum of the values of all chunks. -/
theorem exists_run_evaluateValue (h : s.objective.Sound) (x : Option (GivenPoint α)) :
    ∃ t, (evaluateValue x).run s =
        ((s.objective.directValue s.memory x).map fun sums ↦ total sums.2, t) ∧
      Evaluated s t := by
  have hrealizes := realizes_evaluateValue h x
  generalize s.objective.directValue s.memory x = expected at hrealizes
  generalize (evaluateValue x).run s = run at hrealizes
  cases hrealizes with
  | error ht => exact ⟨_, rfl, ht⟩
  | ok ht => exact ⟨_, by rw [ht.2]; rfl, ht.1⟩

/-- So does an evaluation at a point, which gives no derivatives if there are no arrays for them. -/
theorem fst_run_evaluate (h : s.objective.Sound) (hopen : s.objective.closed = false)
    (x : GivenPoint α) : ((evaluate x none none).run s).1 =
      (s.objective.directValue s.memory (some x)).map fun sums ↦ total sums.2 := by
  obtain ⟨t, hrun, -⟩ := exists_run_evaluateValue h (some x)
  rw [evaluate, Action.run_bind_of_ok (Action.run_checkOpen_of_open _ hopen)]
  exact congrArg Prod.fst hrun

end Objective

open Objective

/-- After a point has been copied to the blocks, an evaluation at what the blocks hold comes to the
value at the point, or to the very failure of that evaluation, whether that one is made before the
copy, after it, or last. If the copy fails, so does the evaluation at the point. The blocks of the
variables are writeable arrays of doubles that share no cells as far as they are used, and
transforms overwrite what they fill. -/
theorem Scene.Reached.evaluateUser_of_copied [Zero α] [Add α] [OfNat α 1] [Storable α]
    {s : Scene α} (h : s.Reached) (hopen : s.objective.closed = false)
    (hoverwrites : ∀ v ∈ s.objective.registry.entries, ∀ t, v.transform = some t → t.Overwrites)
    (htakes : ∀ v ∈ s.objective.registry.entries, v.userBlock.Takes s.memory [v.userDimension])
    (hdisjoint : s.objective.registry.entries.Pairwise fun v w ↦ v.userBlock.Disjoint w.userBlock)
    (x : GivenPoint α) :
    match (copyPointToBlocks x).run s with
    | (.error failure, _) => ((evaluate x none none).run s).1 =
        do checkStorage s.objective; .error failure
    | (.ok _, t) => ∀ u ∈ [s, t, (evaluateUser.run t).2],
        ((evaluate x none none).run u).1 = (evaluateUser.run t).1 := by
  have hsound := h.sound hopen
  -- Evaluations at the point depend neither on what others have left behind nor on the memory.
  have hevaluate (u : Scene α) (hbare : s.objective.bare = u.objective.bare)
      (hworkers : s.objective.workerCount = u.objective.workerCount) (hu : u.objective.Sound) :
      ((evaluate x none none).run u).1 =
        (s.objective.directValue s.memory (some x)).map fun sums ↦ total sums.2 := by
    rw [fst_run_evaluate hu (closed_eq_of_bare hbare ▸ hopen), directValue_eq_of_bare hsound.laid
      hoverwrites hbare hworkers (show some x = none → s.memory = u.memory from nofun)]
  have hcopied := realizes_copyPointToBlocks hopen hsound.laid hoverwrites htakes hdisjoint x
  generalize hvalues : s.objective.valuedAt s.memory (some x) = values at hcopied
  generalize (copyPointToBlocks x).run s = run at hcopied
  cases hcopied with
  | error _ =>
    dsimp only
    rw [hevaluate s rfl rfl hsound, directValue, hvalues]
    cases checkStorage s.objective <;> rfl
  | @ok registry _ t ht =>
    obtain ⟨rfl, ht⟩ := ht
    have hobjective : t.objective = s.objective := by rw [ht]
    -- The blocks hold the values of the point, so the same sums are computed.
    have hdirect : t.objective.directValue t.memory none =
        s.objective.directValue s.memory (some x) := by
      rw [hobjective, directValue, directValue, hvalues]
      rfl
    have hsound' : t.objective.Sound := hobjective ▸ hsound
    obtain ⟨u, hrun, hu⟩ := exists_run_evaluateValue hsound' none
    have huser : evaluateUser.run t = (evaluateValue none).run t := by
      rw [evaluateUser, Action.run_bind_of_ok (Action.run_checkOpen_of_open _ (hobjective ▸ hopen))]
    dsimp only
    rw [huser, hrun, hdirect]
    simp only [List.forall_mem_cons]
    refine ⟨hevaluate s rfl rfl hsound, ?_, ?_, by simp⟩
    · exact hevaluate t (by rw [hobjective]) (by rw [hobjective]) (hobjective ▸ hsound)
    · exact hevaluate u (hobjective ▸ hu.bare) (hobjective ▸ hu.workerCount) hu.sound

namespace Small

/-- A block of three numbers, of which a variable uses two. -/
def wide : Block := { id := 7, shape := [3], cells := [8, 9, 10] }

/-- The transform that multiplies pairs by three. -/
def tripledPair : Transform Int := { tripling with dimension := 2 }.toTransform 2

/-- The scene after a variable has been registered in a part of a block, and a term added. -/
def stored : Scene Int :=
  Scene.after { objective, memory, events := [], platform }
    [.register (.array single) .null none, .register (.array wide) (.int 2) (some tripledPair),
      .addTerm squares [.array wide]]

theorem reached_stored : stored.Reached := reached_after _

/-- After the point has been copied, the block holds three times its numbers, which is what the term
sees; the rest of the block is left alone. -/
theorem evaluateUser_of_stored :
    ∃ t, (copyPointToBlocks (.ok (.vector [5, 1, 2]))).run stored = (.ok (), t) ∧
      t.memory.read wide = [3, 6, 7] ∧ (evaluateUser.run t).1 = .ok 45 := by
  have htransforms : stored.objective.registry.entries.map Variable.transform =
      [none, some tripledPair] := rfl
  have hoverwrites : ∀ v ∈ stored.objective.registry.entries, ∀ t, v.transform = some t →
      t.Overwrites := by
    intro v hv t ht
    have hmem := Registry.some_mem_of_map_transform htransforms v hv t ht
    obtain rfl : t = tripledPair := by simpa using hmem
    exact Elementwise.overwrites _ _
  have hblocks : stored.objective.registry.entries.map Variable.userBlock =
      [single.front 1, wide.front 2] := rfl
  have htakes : ∀ v ∈ stored.objective.registry.entries,
      v.userBlock.Takes stored.memory [v.userDimension] := by
    have hsizes : stored.objective.registry.entries.map
        (fun v ↦ (v.userBlock, [(v.userDimension : Int)])) =
          [(single.front 1, [1]), (wide.front 2, [2])] := rfl
    have htakes : ∀ p ∈ [(single.front 1, [1]), (wide.front 2, [(2 : Int)])],
        p.1.Takes stored.memory p.2 := by
      simp only [List.forall_mem_cons]
      exact ⟨⟨⟨by decide, by decide, by decide⟩, rfl, rfl, rfl⟩,
        ⟨⟨by decide, by decide, by decide⟩, rfl, rfl, rfl⟩, by simp⟩
    rw [← hsizes] at htakes
    exact List.forall_mem_map.1 htakes
  have hdisjoint : stored.objective.registry.entries.Pairwise
      fun v w ↦ v.userBlock.Disjoint w.userBlock := by
    have hdisjoint : [single.front 1, wide.front 2].Pairwise Block.Disjoint := by decide
    rw [← hblocks] at hdisjoint
    exact List.pairwise_map.1 hdisjoint
  have hcopied := reached_stored.evaluateUser_of_copied rfl hoverwrites htakes hdisjoint
    (.ok (.vector [5, 1, 2]))
  obtain ⟨t, hrun, hread⟩ : ∃ t, (copyPointToBlocks (.ok (.vector [5, 1, 2]))).run stored =
      (.ok (), t) ∧ t.memory.read wide = [3, 6, 7] := ⟨_, Prod.ext rfl rfl, rfl⟩
  rw [hrun] at hcopied
  refine ⟨t, hrun, hread, ?_⟩
  rw [← hcopied stored List.mem_cons_self]
  rfl

end Small

end Summand
