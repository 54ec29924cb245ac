import Summand.Proofs.History
import Summand.Proofs.Memory

/-!
# Copies that fail

A point is copied to the caller's blocks one variable after another, and nothing is taken back when
one of them cannot be written: a copy is not all or nothing (`Small.written_of_failed_copy`). What
can be said of a copy that fails is how far it has come (`Scene.reach_of_failed_copy`). Either the
point has been refused, and nothing has been written at all, or the copy ends with one variable. The
variables registered before it have been written in full, those after it not at all, and its own
block has been left alone unless its transform failed with a part of the value filled in.

Writing is confined to the blocks of the variables as far as these are used. Scenes that agree but
for cells of given blocks are compared by `Scene.SameOutside`.
-/

namespace Summand

variable {α : Type}

/-! ### Scenes that differ in some blocks only -/

/-- A scene is another one but for what the cells of some blocks hold. -/
structure Scene.SameOutside [Zero α] (blocks : List Block) (s t : Scene α) : Prop where
  rest : t = { s with memory := { s.memory with cells := t.memory.cells } }
  size : t.memory.cells.size = s.memory.cells.size
  cells : ∀ a, (∀ b ∈ blocks, a ∉ b.cells) → t.memory.cells.getD a 0 = s.memory.cells.getD a 0

namespace Scene.SameOutside

variable [Zero α] {blocks others : List Block} {s t u : Scene α}

theorem refl (blocks : List Block) (s : Scene α) : s.SameOutside blocks s :=
  ⟨rfl, rfl, fun _ _ ↦ rfl⟩

theorem trans (h : s.SameOutside blocks t) (h' : t.SameOutside blocks u) :
    s.SameOutside blocks u where
  rest := by
    rw [h'.rest, h.rest]
  size := h'.size.trans h.size
  cells a ha := (h'.cells a ha).trans (h.cells a ha)

theorem mono (h : s.SameOutside blocks t) (hsubset : blocks ⊆ others) : s.SameOutside others t :=
  ⟨h.rest, h.size, fun a ha ↦ h.cells a fun b hb ↦ ha b (hsubset hb)⟩

theorem objective_eq (h : s.SameOutside blocks t) : t.objective = s.objective := by
  rw [h.rest]

/-- Storing in a block changes nothing outside of it. -/
theorem store [Storable α] (s : Scene α) (b : Block) (values : List α) :
    s.SameOutside [b] { s with memory := s.memory.store b values } where
  rest := rfl
  size := Memory.size_writeCells _ _ _ _
  cells _ ha := Memory.getD_writeCells_of_notMem (ha b List.mem_cons_self) 0

/-- A block that shares no cells with the others holds what it held. -/
theorem read (h : s.SameOutside blocks t) {b : Block} (hb : ∀ c ∈ blocks, b.Disjoint c) :
    t.memory.read b = s.memory.read b :=
  List.map_congr_left fun a ha ↦ h.cells a fun c hc ↦ hb c hc a ha

end Scene.SameOutside

namespace Objective

open Summand.Action

variable [Zero α] [Storable α] {s t u : Scene α} {v : Variable α} {x : List α}

/-! ### The block of one variable -/

/-- How writing the block of a variable may end. -/
inductive BlockWritten (v : Variable α) (s : Scene α) : Except Failure Unit × Scene α → Prop
  | stored (values : List α) (hwriteable : v.block.writeable = true) :
    BlockWritten v s (.ok (), { s with memory := s.memory.store v.userBlock values })
  /-- The transform does not try to change an array that cannot be written. -/
  | spared (t : Transform α) (htransform : v.transform = some t) :
    BlockWritten v s (.ok (), s)
  | refused (failure : Failure) : BlockWritten v s (.error failure, s)
  /-- The transform has failed after it may have changed the array. -/
  | interrupted (t : Transform α) (htransform : v.transform = some t) (failure : Failure)
    (values : List α) (hwriteable : v.block.writeable = true) :
    BlockWritten v s (.error failure, { s with memory := s.memory.store v.userBlock values })

theorem blockWritten_writeBlock (v : Variable α) (x : List α) (s : Scene α) :
    BlockWritten v s ((writeBlock v x).run s) := by
  have hwriteable : v.userBlock.writeable = v.block.writeable := rfl
  rw [writeBlock]
  dsimp only
  rcases htransform : v.transform with - | t
  · dsimp only
    rcases hblock : v.block.writeable with - | -
    · rw [hwriteable, hblock]
      exact .refused Memory.readOnly
    · rw [hwriteable, hblock]
      rcases (Grid.vector (v.slice x)).stretchTo [v.userBlock.size] with failure | values
      · exact .refused failure
      · exact .stored values hblock
  · dsimp only
    rw [run_memory_bind]
    generalize t.userVector (s.memory.read v.userBlock) (v.slice x) = filled
    rcases hblock : v.block.writeable with - | -
    · rw [hwriteable, hblock, if_neg Bool.false_ne_true]
      split
      · exact .refused Memory.readOnly
      · rcases filled.failure with - | failure
        · exact .spared t htransform
        · exact .refused failure
    · rw [hwriteable, hblock, if_pos rfl, run_modifyMemory_bind]
      rcases filled.failure with - | failure
      · exact .stored _ hblock
      · exact .interrupted t htransform failure _ hblock

/-- Only the part of the block that the variable uses is ever written. -/
theorem sameOutside_writeBlock (v : Variable α) (x : List α) (s : Scene α) :
    s.SameOutside [v.userBlock] ((writeBlock v x).run s).2 := by
  have h := blockWritten_writeBlock v x s
  generalize (writeBlock v x).run s = run at h
  cases h with
  | stored values => exact .store s v.userBlock values
  | spared | refused => exact .refl _ s
  | interrupted _ _ _ values => exact .store s v.userBlock values

/-- A write that fails leaves everything alone unless a transform has failed on a block that can be
written. -/
theorem eq_of_writeBlock_failed {failure : Failure}
    (hrun : (writeBlock v x).run s = (.error failure, t))
    (h : v.transform = none ∨ v.block.writeable = false) : t = s := by
  have hwritten := blockWritten_writeBlock v x s
  rw [hrun] at hwritten
  cases hwritten with
  | refused => rfl
  | interrupted _ htransform _ _ hwriteable =>
    rcases h with h | h
    · rw [h] at htransform
      cases htransform
    · rw [h] at hwriteable
      cases hwriteable

/-! ### One block after another -/

/-- Writes the user-space value of a point into the blocks of some variables. -/
def writeBlocks (entries : List (Variable α)) (x : List α) : Action α Unit := do
  for v in entries do
    writeBlock v x

theorem run_writeBlocks_cons (v : Variable α) (rest : List (Variable α)) (x : List α)
    (s : Scene α) :
    (writeBlocks (v :: rest) x).run s = (writeBlock v x >>= fun _ ↦ writeBlocks rest x).run s := by
  rw [writeBlocks, List.forIn_cons]
  simp only [bind_assoc, pure_bind]
  rfl

theorem sameOutside_writeBlocks (entries : List (Variable α)) (x : List α) (s : Scene α) :
    s.SameOutside (entries.map Variable.userBlock) ((writeBlocks entries x).run s).2 := by
  induction entries generalizing s with
  | nil => exact .refl _ s
  | cons v rest ih =>
    have hfirst := (sameOutside_writeBlock v x s).mono
      (List.cons_subset_cons v.userBlock (List.nil_subset (rest.map Variable.userBlock)))
    rw [run_writeBlocks_cons, run_bind]
    rcases hrun : (writeBlock v x).run s with ⟨failure | ⟨⟩, t⟩ <;> rw [hrun] at hfirst
    · exact hfirst
    · exact hfirst.trans ((ih t).mono (List.subset_cons_self _ _))

/-- Writing fails at one of the variables, after those before it have been written. -/
theorem exists_of_writeBlocks_failed {entries : List (Variable α)} {failure : Failure}
    (hrun : (writeBlocks entries x).run s = (.error failure, t)) :
    ∃ before v after u, entries = before ++ v :: after ∧
      (writeBlocks before x).run s = (.ok (), u) ∧
      (writeBlock v x).run u = (.error failure, t) := by
  induction entries generalizing s with
  | nil => cases hrun
  | cons v rest ih =>
    rw [run_writeBlocks_cons, run_bind] at hrun
    rcases hfirst : (writeBlock v x).run s with ⟨failure' | ⟨⟩, u⟩ <;> rw [hfirst] at hrun
    · cases hrun
      exact ⟨[], v, rest, s, rfl, rfl, hfirst⟩
    · obtain ⟨before, w, after, u', hentries, hbefore, hlast⟩ := ih hrun
      refine ⟨v :: before, w, after, u', by rw [hentries]; rfl, ?_, hlast⟩
      rw [run_writeBlocks_cons, run_bind_of_ok hfirst]
      exact hbefore

/-! ### Copies -/

theorem run_copyPointToBlocks (hopen : s.objective.closed = false) (x : GivenPoint α) :
    (copyPointToBlocks x).run s = match pointOf s.objective.totalScalars x with
      | .error failure => (.error failure, s)
      | .ok point => (writeBlocks s.objective.registry.entries point).run s := by
  rw [copyPointToBlocks, run_bind_of_ok (run_checkOpen_of_open _ hopen), run_bind,
    run_checkPoint]
  rcases pointOf s.objective.totalScalars x with failure | point <;> rfl

/-- Whatever becomes of a copy, it changes nothing but the blocks of the variables as far as these
are used. -/
theorem sameOutside_copyPointToBlocks (x : GivenPoint α) (s : Scene α) :
    s.SameOutside (s.objective.registry.entries.map Variable.userBlock)
      ((copyPointToBlocks x).run s).2 := by
  rcases hopen : s.objective.closed with - | -
  · rw [run_copyPointToBlocks hopen]
    rcases pointOf s.objective.totalScalars x with failure | point
    · exact .refl _ s
    · exact sameOutside_writeBlocks _ point s
  · rw [copyPointToBlocks, run_bind_of_error (run_checkOpen_of_closed _ hopen)]
    exact .refl _ s

end Objective

open Objective

/-- A copy that fails has written nothing if the point has been refused. Otherwise it has come to
one of the variables: those registered before it have been written, and what it has left of its own
block is as before unless its transform failed on a block that can be written. All that shares no
cells with these blocks, like the blocks of later variables, holds what it held. -/
theorem Scene.reach_of_failed_copy [Zero α] [Storable α] {s t : Scene α} {failure : Failure}
    (hopen : s.objective.closed = false) (x : GivenPoint α)
    (hrun : (copyPointToBlocks x).run s = (.error failure, t)) :
    (pointOf s.objective.totalScalars x = .error failure ∧ t = s) ∨
    ∃ point before v after u,
      pointOf s.objective.totalScalars x = .ok point ∧
      s.objective.registry.entries = before ++ v :: after ∧
      (writeBlocks before point).run s = (.ok (), u) ∧
      (writeBlock v point).run u = (.error failure, t) ∧
      s.SameOutside (before.map Variable.userBlock) u ∧ u.SameOutside [v.userBlock] t ∧
      (v.transform = none ∨ v.block.writeable = false → t = u) ∧
      ∀ b : Block, (∀ w ∈ before, b.Disjoint w.userBlock) →
        v.transform = none ∨ v.block.writeable = false ∨ b.Disjoint v.userBlock →
        t.memory.read b = s.memory.read b := by
  rw [run_copyPointToBlocks hopen] at hrun
  rcases hpoint : pointOf s.objective.totalScalars x with failure' | point <;> rw [hpoint] at hrun
  · cases hrun
    exact .inl ⟨rfl, rfl⟩
  · obtain ⟨before, v, after, u, hentries, hbefore, hlast⟩ := exists_of_writeBlocks_failed hrun
    have hfirst : s.SameOutside (before.map Variable.userBlock) u := by
      simpa [hbefore] using sameOutside_writeBlocks before point s
    have hown : u.SameOutside [v.userBlock] t := by
      simpa [hlast] using sameOutside_writeBlock v point u
    refine .inr ⟨point, before, v, after, u, rfl, hentries, hbefore, hlast, hfirst, hown,
      eq_of_writeBlock_failed hlast, ?_⟩
    intro b hb hv
    have hread : u.memory.read b = s.memory.read b := hfirst.read (List.forall_mem_map.2 hb)
    rw [← hread]
    rcases hv with hv | hv | hv
    · rw [eq_of_writeBlock_failed hlast (.inl hv)]
    · rw [eq_of_writeBlock_failed hlast (.inr hv)]
    · exact hown.read (List.forall_mem_singleton.2 hv)

namespace Small

/-- An array that cannot be written. -/
def locked : Block := { id := 8, shape := [2], cells := [0, 1], writeable := false }

/-- The scene after two blocks have been registered, the second of which cannot be written. -/
def partlyLocked : Scene Int :=
  Scene.after { objective, memory, events := [], platform }
    [.register (.array single) .null none, .register (.array locked) .null none]

/-- A copy that fails at the second block has written the first one. -/
theorem written_of_failed_copy :
    partlyLocked.Reached ∧ partlyLocked.objective.closed = false ∧
      partlyLocked.objective.registry.entries.map Variable.block = [single, locked] ∧
      ∃ t, (copyPointToBlocks (.ok (.vector [5, 1, 2]))).run partlyLocked =
          (.error Memory.readOnly, t) ∧
        partlyLocked.memory.read single = [7] ∧ t.memory.read single = [5] :=
  ⟨reached_after _, rfl, rfl, _, Prod.ext rfl rfl, rfl, rfl⟩

/-- The copy that fails at the second block has written the first one in full before it came to the
second, and an array that is not registered holds what it held. -/
theorem reach_of_partlyLocked :
    ∃ before v after u t,
      partlyLocked.objective.registry.entries = before ++ v :: after ∧
      (writeBlocks before [5, 1, 2]).run partlyLocked = (.ok (), u) ∧
      (writeBlock v [5, 1, 2]).run u = (.error Memory.readOnly, t) ∧
      (copyPointToBlocks (.ok (.vector [5, 1, 2]))).run partlyLocked =
        (.error Memory.readOnly, t) ∧
      t.memory.read spare = [7] := by
  obtain ⟨t, hrun⟩ : ∃ t, (copyPointToBlocks (.ok (.vector [5, 1, 2]))).run partlyLocked =
      (.error Memory.readOnly, t) := ⟨_, Prod.ext rfl rfl⟩
  rcases partlyLocked.reach_of_failed_copy rfl _ hrun with ⟨hrefused, -⟩ | h
  · cases hrefused
  · obtain ⟨_, before, v, after, u, hpoint, hentries, hbefore, hlast, -, -, -, hread⟩ := h
    cases hpoint
    refine ⟨before, v, after, u, t, hentries, hbefore, hlast, hrun, ?_⟩
    -- The array is none of the registered ones.
    have hblocks : ∀ b ∈ [single.front 1, locked.front 2], spare.Disjoint b := by decide
    have hdisjoint : ∀ w ∈ partlyLocked.objective.registry.entries,
        spare.Disjoint w.userBlock := List.forall_mem_map.1 hblocks
    rw [hentries] at hdisjoint
    rw [hread spare (fun w hw ↦ hdisjoint w (by simp [hw])) (.inr (.inr (hdisjoint v (by simp))))]
    rfl

end Small

end Summand
