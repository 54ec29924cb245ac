import Summand.Proofs.Slices
import Summand.Proofs.Soundness
import Summand.Proofs.SparseMatrix

/-!
# The two assemblies of the Hessian

The Hessian is assembled by adding every block to its place in a full matrix, or from the list of
all coordinates with the entries of all blocks beside it. Each place of the matrix gets the same
values in the same order either way: those that the blocks of the bindings have there, binding by
binding, argument by argument (`Objective.contributions`). So the full matrix of the sparse one is
the dense one (`Objective.Assemblable.toRows_assemble`).

Both need slices that lie within the flat vector and blocks of the sizes of their variables. An
objective has these if Hessians can be computed at all (`Objective.Sound.assemblable`).
-/

namespace Summand

variable {α : Type}

/-! ### What blocks add -/

/-- What a block at a place has at a coordinate, which is one value or none. -/
def blockAt (row column : Nat) (block : List (List α)) (i j : Nat) : List α :=
  (placedAt row block i).elim [] fun line ↦ (placedAt column line j).elim [] fun v ↦ [v]

/-- What the blocks of a binding have at a coordinate, in order. -/
def Binding.contributions (r : Registry α) (b : Binding α) (i j : Nat) : List α :=
  let vars := Graph.argumentVariables r b
  (vars.zip (b.hessianBlocks.getD [])).flatMap fun p ↦ (vars.zip p.2).flatMap fun q ↦
    blockAt p.1.offset.toNat q.1.offset.toNat q.2 i j

/-- What the blocks of all bindings have at a coordinate, in order. -/
def Objective.contributions (o : Objective α) (i j : Nat) : List α :=
  o.graph.bindings.flatMap fun b ↦ b.contributions o.registry i j

/-! ### The dense assembly -/

section Dense

variable [Add α] [Storable α] {n : Nat}

/-- A sum as a cell of an element type keeps it. -/
def storedSum (element : ElementType) (a b : α) : α := Storable.narrow element (a + b)

namespace Objective

/-- A block is added to its place. -/
theorem addBlock_square (element : ElementType) (row column : Nat) (block : List (List α))
    (f : Nat → Nat → α) : addBlock element row column block (square n f) =
      square n fun i j ↦ (blockAt row column block i j).foldl (storedSum element) (f i j) := by
  rw [addBlock, square, combinePart_range]
  refine List.map_congr_left fun i _ ↦ ?_
  simp only [blockAt]
  rcases placedAt row block i with - | line
  · rfl
  · show Buffer.combinePart _ column line ((List.range n).map (f i)) = _
    rw [combinePart_range]
    refine List.map_congr_left fun j _ ↦ ?_
    rw [Option.elim_some]
    rcases placedAt column line j with - | v <;> rfl

/-- The blocks of a binding are added one after another. -/
theorem addBlocks_square (element : ElementType) {r : Registry α} {b : Binding α}
    (h : ∀ v ∈ Graph.argumentVariables r b, v.LiesIn n) (f : Nat → Nat → α) :
    addBlocks element r (square n f) b =
      square n fun i j ↦ (b.contributions r i j).foldl (storedSum element) (f i j) := by
  -- Slices that lie within the vector begin where they are told to.
  have hplace {v : Variable α} (hv : v ∈ Graph.argumentVariables r b) :
      (v.span (square n f).length).1 = v.offset.toNat := by
    rw [(shaped_square n f).rows, (h v hv).span_eq]
  rw [addBlocks]
  refine foldl_square (fun p hp g ↦ ?_) f
  refine foldl_square (fun q hq g ↦ ?_) g
  dsimp only
  rw [hplace (List.of_mem_zip hp).1, hplace (List.of_mem_zip hq).1, addBlock_square]

/-- The dense Hessian has the sums of what the blocks have at its places, each rounded to a cell. -/
theorem assembleDense_eq_square [Zero α] (element : ElementType) {o : Objective α}
    (h : ∀ b ∈ o.graph.bindings, ∀ v ∈ Graph.argumentVariables o.registry b,
      v.LiesIn o.totalScalars.toNat) :
    assembleDense element o = square o.totalScalars.toNat fun i j ↦
      (o.contributions i j).foldl (storedSum element) 0 := by
  have hzeros : (Buffer.zeroMatrix o.totalScalars.toNat o.totalScalars.toNat : List (List α)) =
      square o.totalScalars.toNat fun _ _ ↦ 0 := by
    simp [square, Buffer.zeroMatrix, Buffer.zeros, List.map_const']
  rw [assembleDense, hzeros]
  exact foldl_square (fun b hb ↦ addBlocks_square element (h b hb)) _

/-- Cells of double precision keep the sums as they are. -/
theorem assembleDense_eq [Zero α] {o : Objective α}
    (h : ∀ b ∈ o.graph.bindings, ∀ v ∈ Graph.argumentVariables o.registry b,
      v.LiesIn o.totalScalars.toNat) :
    assembleDense .float64 o =
      square o.totalScalars.toNat fun i j ↦ leftSum (o.contributions i j) := by
  have hsum : storedSum (α := α) .float64 = (· + ·) := by
    funext a b
    exact Storable.narrow_float64 _
  rw [assembleDense_eq_square .float64 h, hsum]
  rfl

end Objective

end Dense

/-! ### Places of blocks -/

/-- The places of the block of two variables, row by row. -/
def Variable.places (v w : Variable α) : List (Nat × Nat) :=
  (List.range' v.offset.toNat v.userDimension).flatMap fun r ↦
    (List.range' w.offset.toNat w.userDimension).map fun c ↦ (r, c)

/-- The places of all blocks of a binding. -/
def Binding.places (r : Registry α) (b : Binding α) : List (Nat × Nat) :=
  let vars := Graph.argumentVariables r b
  vars.flatMap fun v ↦ vars.flatMap fun w ↦ v.places w

/-- The places of all blocks of all bindings. -/
def Objective.places (o : Objective α) : List (Nat × Nat) :=
  o.graph.bindings.flatMap (Binding.places o.registry)

/-- The entries of a block, row by row, stand beside its places. -/
theorem Variable.valuesAt_zip_places (v w : Variable α) {block : List (List α)}
    (h : Buffer.Shaped v.userDimension w.userDimension block) (i j : Nat) :
    valuesAt (i, j) ((v.places w).zip block.flatten) =
      blockAt v.offset.toNat w.offset.toNat block i j := by
  -- In a line beside its coordinates, the wanted column occurs once if the line is the wanted one.
  have hline (r : Nat) {line : List α} (hl : line.length = w.userDimension) :
      valuesAt (i, j)
          (((List.range' w.offset.toNat w.userDimension).map fun c ↦ (r, c)).zip line) =
        if r = i then (placedAt w.offset.toNat line j).elim [] fun x ↦ [x] else [] := by
    rw [List.zip_map_left, valuesAt, List.flatMap_map, ← hl]
    by_cases hr : r = i
    · subst hr
      simp only [Prod.map_fst, Prod.map_snd, Prod.mk.injEq, true_and, if_true, id_eq]
      exact flatMap_range'_zip w.offset.toNat j line fun x ↦ [x]
    · simp [hr]
  have hlengths : List.Forall₂ (fun r line ↦
      ((List.range' w.offset.toNat w.userDimension).map fun c ↦ (r, c)).length =
        (id line : List α).length) (List.range' v.offset.toNat v.userDimension) block := by
    refine List.forall₂_iff_zip.2 ⟨by simp [h.rows], fun {r line} hmem ↦ ?_⟩
    simp [h.columns line (List.of_mem_zip hmem).2]
  rw [places, ← List.flatMap_id, zip_flatMap hlengths, valuesAt_flatMap, blockAt,
    ← flatMap_range'_zip, h.rows]
  exact List.flatMap_congr fun p hp ↦ hline p.1 (h.columns p.2 (List.of_mem_zip hp).2)

theorem Variable.length_places (v w : Variable α) {block : List (List α)}
    (h : Buffer.Shaped v.userDimension w.userDimension block) :
    (v.places w).length = block.flatten.length := by
  rw [places, ← List.flatMap_id]
  refine length_flatMap_congr (List.forall₂_iff_zip.2 ⟨by simp [h.rows], fun {r line} hmem ↦ ?_⟩)
  simp [h.columns line (List.of_mem_zip hmem).2]

/-- The Hessian blocks of a binding have the sizes of the variables of its arguments. -/
def Binding.Conforms (vars : List (Variable α)) (blocks : HessianBlocks α) : Prop :=
  List.Forall₂ (fun v row ↦ List.Forall₂ (fun w block ↦
    Buffer.Shaped v.userDimension w.userDimension block) vars row) vars blocks

namespace Binding

variable {r : Registry α} {b : Binding α}

/-- The entries of the blocks of a binding stand beside their places. -/
theorem valuesAt_zip_places {blocks : HessianBlocks α} (hblocks : b.hessianBlocks = some blocks)
    (h : Conforms (Graph.argumentVariables r b) blocks) (i j : Nat) :
    valuesAt (i, j) ((b.places r).zip (blocks.flatMap fun row ↦ row.flatMap List.flatten)) =
      b.contributions r i j := by
  have hrow {v : Variable α} {row : List (List (List α))} (h : List.Forall₂ (fun w block ↦
      Buffer.Shaped v.userDimension w.userDimension block) (Graph.argumentVariables r b) row) :
      List.Forall₂ (fun w block ↦ (v.places w).length = (List.flatten block).length)
        (Graph.argumentVariables r b) row := h.imp fun w block hshaped ↦ v.length_places w hshaped
  rw [places, contributions, hblocks, Option.getD_some,
    zip_flatMap (h.imp fun v row h ↦ length_flatMap_congr (hrow h)), valuesAt_flatMap]
  refine List.flatMap_congr fun p hp ↦ ?_
  have hp := List.forall₂_zip h hp
  rw [zip_flatMap (hrow hp), valuesAt_flatMap]
  exact List.flatMap_congr fun q hq ↦
    Variable.valuesAt_zip_places p.1 q.1 (List.forall₂_zip hp hq) i j

theorem length_places {blocks : HessianBlocks α}
    (h : Conforms (Graph.argumentVariables r b) blocks) :
    (b.places r).length = (blocks.flatMap fun row ↦ row.flatMap List.flatten).length :=
  length_flatMap_congr (h.imp fun v _ h ↦
    length_flatMap_congr (h.imp fun w _ hshaped ↦ v.length_places w hshaped))

end Binding

/-- A bound binding has blocks of the right sizes, whatever they hold. -/
theorem Binding.Bound.conforms [Zero α] {r : Registry α} {b : Binding α} (h : b.Bound r true) :
    ∃ blocks, b.hessianBlocks = some blocks ∧
      Conforms (Graph.argumentVariables r b) blocks := by
  have hbare := h.blocks
  rw [if_pos rfl, ← h.map_userDimension] at hbare
  obtain ⟨blocks, hblocks, hzeros⟩ := Option.map_eq_some_iff.1 hbare
  refine ⟨blocks, hblocks, ?_⟩
  -- Blocks that become the zero blocks of the sizes once their entries are zeroed have these sizes.
  simp only [zeroedBlocks, Graph.zeroBlocks, List.map_map] at hzeros
  rw [← List.forall₂_eq_eq_eq, List.forall₂_map_left_iff, List.forall₂_map_right_iff] at hzeros
  refine hzeros.flip.imp fun v row hrow ↦ ?_
  dsimp only [flip, Function.comp_apply] at hrow
  rw [← List.forall₂_eq_eq_eq, List.forall₂_map_left_iff,
    List.forall₂_map_right_iff] at hrow
  refine hrow.flip.imp fun w block hblock ↦ Buffer.shaped_iff.2 ?_
  have := congrArg (List.map List.length) hblock
  simpa [Buffer.zeroMatrix, Function.comp_def] using this

/-! ### Objectives whose Hessian can be assembled -/

/-- A variable takes part in the Hessian as it is: its slice lies within the flat vector and has the
size of its value. -/
structure Variable.Plain (n : Nat) (v : Variable α) : Prop where
  liesIn : v.LiesIn n
  dimension : v.solverDimension = v.userDimension

/-- Bound variables are plain, and all bindings have blocks of the sizes of their variables. -/
structure Objective.Assemblable (o : Objective α) : Prop where
  plain : ∀ b ∈ o.graph.bindings, ∀ v ∈ Graph.argumentVariables o.registry b,
    v.Plain o.totalScalars.toNat
  conforms : ∀ b ∈ o.graph.bindings, ∃ blocks, b.hessianBlocks = some blocks ∧
    Binding.Conforms (Graph.argumentVariables o.registry b) blocks

namespace Objective

/-- Positions that fit into machine words do not wrap around. -/
theorem wordPosition_eq {offset : Int} {k : Nat} (hoffset : 0 ≤ offset)
    (h : offset + k < 2 ^ 63) : wordPosition offset k = offset + k := by
  rw [wordPosition, Nat.pow_eq, Int.bmod_eq_of_le (by omega) (by omega)]

/-- The coordinates of a block are its places, if the flat vector is not too long for them. -/
theorem blockCoordinates_eq {n : Nat} {v w : Variable α} (hv : v.Plain n) (hw : w.Plain n)
    (hn : n < 2 ^ 63) :
    blockCoordinates v w = (v.places w).map fun p ↦ ((p.1 : Int), (p.2 : Int)) := by
  have hword {u : Variable α} (hu : u.Plain n) {k : Nat} (hk : k < u.userDimension) :
      wordPosition u.offset k = (u.offset.toNat + k : Nat) := by
    have := hu.liesIn.offset
    have := hu.liesIn.le
    have := hu.dimension
    rw [wordPosition_eq hu.liesIn.offset (by omega)]
    omega
  rw [blockCoordinates, Variable.places, List.range'_eq_map_range, List.range'_eq_map_range,
    List.map_flatMap, List.flatMap_map]
  refine List.flatMap_congr fun r hr ↦ ?_
  rw [List.map_map, List.map_map]
  refine List.map_congr_left fun c hc ↦ ?_
  rw [hword hv (List.mem_range.1 hr), hword hw (List.mem_range.1 hc)]
  rfl

/-- All bound variables are plain. -/
def Plain (o : Objective α) : Prop :=
  ∀ b ∈ o.graph.bindings, ∀ v ∈ Graph.argumentVariables o.registry b, v.Plain o.totalScalars.toNat

variable {o : Objective α}

namespace Plain

/-- The coordinates of all blocks are their places. -/
theorem enumerateCoordinates_eq (h : o.Plain) (hn : o.totalScalars.toNat < 2 ^ 63) :
    enumerateCoordinates o = .ok (o.places.map fun p ↦ ((p.1 : Int), (p.2 : Int))) := by
  have hword : ((o.graph.boundVariables o.registry).any fun v ↦ !Number.fitsWord v.offset) =
      false := by
    apply List.any_eq_false.2
    intro v hv
    obtain ⟨b, hb, hv⟩ := List.mem_flatMap.1 hv
    have hlies := (h b hb v hv).liesIn
    have := hlies.offset
    have := hlies.dimension
    have := hlies.le
    have hfits : Number.fitsWord v.offset = true := Number.fitsWord_iff.2 (by omega)
    simp [hfits]
  have hcoordinates : o.graph.bindings.flatMap (fun b ↦
      (Graph.argumentVariables o.registry b).flatMap fun v ↦
        (Graph.argumentVariables o.registry b).flatMap fun w ↦ blockCoordinates v w) =
          o.places.map fun p ↦ ((p.1 : Int), (p.2 : Int)) := by
    rw [places, List.map_flatMap]
    refine List.flatMap_congr fun b hb ↦ ?_
    rw [Binding.places, List.map_flatMap]
    refine List.flatMap_congr fun v hv ↦ ?_
    rw [List.map_flatMap]
    exact List.flatMap_congr fun w hw ↦
      blockCoordinates_eq (h b hb v hv) (h b hb w hw) hn
  rw [enumerateCoordinates, hword]
  exact congrArg Except.ok hcoordinates

/-- All places lie within the matrix. -/
theorem lt_of_mem_places (h : o.Plain) {p : Nat × Nat} (hp : p ∈ o.places) :
    p.1 < o.totalScalars.toNat ∧ p.2 < o.totalScalars.toNat := by
  have hlt {v : Variable α} (hv : v.Plain o.totalScalars.toNat) {i : Nat}
      (hi : i ∈ List.range' v.offset.toNat v.userDimension) : i < o.totalScalars.toNat := by
    have := hv.liesIn.offset
    have := hv.liesIn.le
    have := hv.dimension
    have := List.mem_range'_1.1 hi
    omega
  obtain ⟨b, hb, hp⟩ := List.mem_flatMap.1 hp
  obtain ⟨v, hv, hp⟩ := List.mem_flatMap.1 hp
  obtain ⟨w, hw, hp⟩ := List.mem_flatMap.1 hp
  obtain ⟨r, hr, hp⟩ := List.mem_flatMap.1 hp
  obtain ⟨c, hc, rfl⟩ := List.mem_map.1 hp
  exact ⟨hlt (h b hb v hv) hr, hlt (h b hb w hw) hc⟩

end Plain

namespace Assemblable

/-- The blocks of each binding have an entry for each of its places. -/
theorem forall₂_length_places (h : o.Assemblable) :
    List.Forall₂ (fun b c : Binding α ↦ (b.places o.registry).length =
      ((c.hessianBlocks.getD []).flatMap fun row ↦ row.flatMap List.flatten).length)
      o.graph.bindings o.graph.bindings := by
  apply List.forall₂_same.2
  intro b hb
  obtain ⟨blocks, hblocks, hconforms⟩ := h.conforms b hb
  rw [hblocks]
  exact Binding.length_places hconforms

theorem length_places (h : o.Assemblable) : o.places.length = (blockValues o).length :=
  length_flatMap_congr h.forall₂_length_places

/-- The entries of all blocks stand beside their places. -/
theorem valuesAt_zip_places (h : o.Assemblable) (i j : Nat) :
    valuesAt (i, j) (o.places.zip (blockValues o)) = o.contributions i j := by
  have hself : o.graph.bindings.zip o.graph.bindings = o.graph.bindings.map fun b ↦ (b, b) :=
    List.zipWith_self
  rw [places, blockValues, zip_flatMap h.forall₂_length_places, valuesAt_flatMap, hself,
    List.flatMap_map]
  refine List.flatMap_congr fun b hb ↦ ?_
  obtain ⟨blocks, hblocks, hconforms⟩ := h.conforms b hb
  dsimp only
  rw [hblocks]
  exact Binding.valuesAt_zip_places hblocks hconforms i j

/-- The full matrix of the sparse Hessian is the dense Hessian. -/
theorem toRows_assemble [Zero α] [Add α] [Storable α] (h : o.Assemblable)
    (hzero : ∀ v : α, 0 + v = v) {arrangement : List (List (Nat × α)) → List (List (Nat × α))}
    (harrangement : SparseMatrix.KeepsOrder arrangement) :
    (SparseMatrix.assemble arrangement o.totalScalars.toNat o.places (blockValues o)).toRows =
      assembleDense .float64 o := by
  rw [SparseMatrix.toRows_assemble hzero harrangement,
    assembleDense_eq fun b hb v hv ↦ (h.plain b hb v hv).liesIn]
  exact square_congr fun i _ j _ ↦ congrArg leftSum (h.valuesAt_zip_places i j)

end Assemblable

/-- The bound variables of a sound objective are plain if none of them has a transform and no
variable has a negative dimension. -/
theorem Sound.plain [Zero α] (h : o.Sound) (hnatural : o.registry.Natural)
    (huntransformed : Registry.firstTransformed (o.graph.boundVariables o.registry) = none) :
    o.Plain := by
  intro b hb v hv
  have hmem := Graph.mem_of_mem_argumentVariables hv
  have hnone := List.find?_eq_none.1 huntransformed v (List.mem_flatMap.2 ⟨b, hb, hv⟩)
  refine ⟨h.laid.liesIn hnatural hmem, ?_⟩
  exact (h.laid.fits v hmem).solverDimension_eq (by simpa using hnone)

/-- A sound objective has what it takes if, moreover, Hessians are computed. -/
theorem Sound.assemblable [Zero α] (h : o.Sound) (hnatural : o.registry.Natural)
    (hhessian : o.settings.allowsHessian = true)
    (huntransformed : Registry.firstTransformed (o.graph.boundVariables o.registry) = none) :
    o.Assemblable where
  plain := h.plain hnatural huntransformed
  conforms b hb := (hhessian ▸ h.bound b hb).conforms

end Objective

end Summand
