import Summand.Proofs.Assembly
import Summand.Proofs.BilinearForm
import Summand.Proofs.Outcome

/-!
# The dense Hessian as a bilinear form

The dense Hessian is the sum of the blocks that all terms write, each at the slices of its two
arguments (`Scene.Reached.hessian_eq_sum_of_blocks`). Blocks of different sizes overlap, between
bindings and within a binding that repeats a variable, so the sum is told by the products with two
directions, to which every block adds its own (`Objective.bilinear_addBlocks`). Entries at places
that no pair of variables reaches are products that vanish (`curvature_unit`), and the Hessian is
symmetric because exchanging the directions renames the pairs of arguments (`curvature_comm`).

The assembly adds a block at the place of its slices whatever the sizes of these are. That the
slices of bound variables have the sizes of the blocks is known because the evaluation has succeeded
(`Objective.Sound.fitting`): a slice of another size would have a single entry, since it has been
stretched to the value, and the value would have a single entry, since the gradient has been added
to the slice.
-/

namespace Summand

variable {α β γ : Type}

open Buffer

/-! ### Slices of the size of a value -/

namespace Variable

variable {v : Variable α} {n : Nat}

/-- The variable's slice of flat vectors of a length has the size of its value. -/
def Fitting (n : Nat) (v : Variable α) : Prop := (v.span n).2 = v.userDimension

theorem Fitting.add_le (h : v.Fitting n) : (v.span n).1 + v.userDimension ≤ n :=
  h ▸ v.span_le n

theorem Fitting.slice_eq_part (h : v.Fitting n) {x : List β} (hx : x.length = n) :
    v.slice x = part (v.span n).1 v.userDimension x := by
  rw [slice, hx, ← h]

/-- A variable has a position of flat vectors of a length in its slice. -/
def Reaches (n : Nat) (v : Variable α) (i : Nat) : Prop :=
  (v.span n).1 ≤ i ∧ i < (v.span n).1 + (v.span n).2

/-- A slice of a unit vector is zero if the one does not lie in it. -/
theorem slice_unit [CommSemiring β] {i : Nat} (hi : ¬ v.Reaches n i) :
    v.slice (unit n i : List β) = zeros (v.span n).2 := by
  rw [slice, length_unit]
  exact part_unit (v.span_le n) hi

end Variable

/-! ### The blocks of a binding -/

/-- The block of second derivatives for a pair of arguments. -/
def pairBlock (blocks : HessianBlocks α) (i j : Nat) : List (List α) := (blocks.getD i []).getD j []

section Curvature

variable [CommSemiring α] {vars : List (Variable α)} {blocks : HessianBlocks α} {d e : List α}
  {n : Nat}

/-- The products of blocks with the slices of two directions, summed over all pairs of arguments. -/
def curvature (vars : List (Variable α)) (blocks : HessianBlocks α) (d e : List α) : α :=
  ∑ i : Fin vars.length, ∑ j : Fin vars.length,
    bilinear (vars[i].slice d) (pairBlock blocks i j) (vars[j].slice e)

/-- A sum over two lists side by side is a sum over their positions. -/
theorem sum_map_zip {l : List β} {m : List γ} (h : m.length = l.length) (f : β → γ → α) (z : γ) :
    ((l.zip m).map fun p ↦ f p.1 p.2).sum = ∑ i : Fin l.length, f l[i] (m.getD i z) := by
  induction l generalizing m with
  | nil => rfl
  | cons b l ih =>
    obtain - | ⟨c, m⟩ := m
    · simp at h
    rw [List.zip_cons_cons, List.map_cons, List.sum_cons, ih (by simpa using h)]
    exact (Fin.sum_univ_succ fun i : Fin (b :: l).length ↦ f (b :: l)[i] ((c :: m).getD i z)).symm

/-- Changes one after another that keep the shape of a matrix and add to its product add up. -/
theorem bilinear_foldl {step : List (List α) → β → List (List α)} {share : β → α} {l : List β}
    (hstep : ∀ p ∈ l, ∀ m, Shaped n n m →
      Shaped n n (step m p) ∧ bilinear d (step m p) e = bilinear d m e + share p)
    {m : List (List α)} (hm : Shaped n n m) :
    Shaped n n (l.foldl step m) ∧
      bilinear d (l.foldl step m) e = bilinear d m e + (l.map share).sum := by
  induction l generalizing m with
  | nil => exact ⟨hm, by simp⟩
  | cons p l ih =>
    obtain ⟨hshaped, hp⟩ := hstep p List.mem_cons_self m hm
    obtain ⟨hshaped, hl⟩ := ih (fun q hq ↦ hstep q (List.mem_cons_of_mem p hq)) hshaped
    refine ⟨hshaped, ?_⟩
    rw [List.foldl_cons, hl, hp, List.map_cons, List.sum_cons, ← AddSemigroup.add_assoc]

namespace Binding.Conforms

omit [CommSemiring α] in
theorem row (h : Conforms vars blocks) (i : Fin vars.length) :
    List.Forall₂ (fun w block ↦ Shaped vars[i].userDimension w.userDimension block) vars
      (blocks.getD i []) := by
  have hi : i < blocks.length := h.length_eq ▸ i.2
  rw [List.getD_eq_getElem?_getD, List.getElem?_eq_getElem hi]
  exact h.get i.2 hi

omit [CommSemiring α] in
theorem shaped (h : Conforms vars blocks) (i j : Fin vars.length) :
    Shaped vars[i].userDimension vars[j].userDimension (pairBlock blocks i j) := by
  have hrow := h.row i
  have hj : j < (blocks.getD i []).length := hrow.length_eq ▸ j.2
  rw [pairBlock, List.getD_eq_getElem?_getD, List.getElem?_eq_getElem hj]
  exact hrow.get j.2 hj

end Binding.Conforms

/-- The sum over pairs of arguments goes through the arguments with their rows of blocks, and
through each row. -/
theorem curvature_eq_sum (h : Binding.Conforms vars blocks) :
    curvature vars blocks d e = ((vars.zip blocks).map fun p ↦
      ((vars.zip p.2).map fun q ↦ bilinear (p.1.slice d) q.2 (q.1.slice e)).sum).sum := by
  rw [sum_map_zip h.length_eq.symm (fun v row ↦
    ((vars.zip row).map fun q ↦ bilinear (v.slice d) q.2 (q.1.slice e)).sum) []]
  refine Finset.sum_congr rfl fun i _ ↦ ?_
  rw [sum_map_zip (h.row i).length_eq.symm
    (fun w block ↦ bilinear (vars[i].slice d) block (w.slice e)) []]
  rfl

/-- Exchanging the directions exchanges the blocks of each pair of arguments, which makes no
difference if they are transposed to each other. -/
theorem curvature_comm (h : Binding.Conforms vars blocks) (hfitting : ∀ v ∈ vars, v.Fitting n)
    (hd : d.length = n) (he : e.length = n)
    (htransposed : ∀ i j : Fin vars.length,
      Transposed (pairBlock blocks i j) (pairBlock blocks j i)) :
    curvature vars blocks d e = curvature vars blocks e d := by
  have hslice (i : Fin vars.length) {x : List α} (hx : x.length = n) :
      (vars[i].slice x).length = vars[i].userDimension :=
    (vars[i].length_slice_eq_span hx).trans (hfitting _ (List.getElem_mem i.2))
  rw [curvature, Finset.sum_comm]
  refine Finset.sum_congr rfl fun j _ ↦ Finset.sum_congr rfl fun i _ ↦ ?_
  exact bilinear_transposed (h.shaped i j) (h.shaped j i) (htransposed i j) (hslice i hd)
    (hslice j he)

/-- Pairs of variables that do not reach a pair of positions have nothing there. -/
theorem curvature_unit {i j : Nat}
    (h : ∀ v ∈ vars, ∀ w ∈ vars, ¬ (v.Reaches n i ∧ w.Reaches n j)) :
    curvature vars blocks (unit n i) (unit n j) = 0 := by
  refine Finset.sum_eq_zero fun k _ ↦ Finset.sum_eq_zero fun l _ ↦ ?_
  rcases not_and_or.1 (h vars[k] (List.getElem_mem k.2) vars[l] (List.getElem_mem l.2)) with hk | hl
  · rw [Variable.slice_unit hk, bilinear_zeros_left]
  · rw [Variable.slice_unit hl, bilinear_zeros_right]

end Curvature

/-! ### The assembly -/

namespace Objective

variable [CommSemiring α] [Storable α] [ExactStorage α] {r : Registry α} {n : Nat} {d e : List α}
  {m : List (List α)}

/-- A row of blocks adds its products with the slices of the variables. -/
theorem bilinear_addRow (element : ElementType) {v : Variable α} {vars : List (Variable α)}
    {row : List (List (List α))} (hrow : List.Forall₂ (fun w block ↦
      Shaped v.userDimension w.userDimension block) vars row)
    (hv : v.Fitting n) (hfitting : ∀ w ∈ vars, w.Fitting n) (hm : Shaped n n m)
    (hd : d.length = n) (he : e.length = n) :
    Shaped n n ((vars.zip row).foldl (fun m q ↦
        addBlock element (v.span n).1 (q.1.span n).1 q.2 m) m) ∧
      bilinear d ((vars.zip row).foldl (fun m q ↦
          addBlock element (v.span n).1 (q.1.span n).1 q.2 m) m) e =
        bilinear d m e +
          ((vars.zip row).map fun q ↦ bilinear (v.slice d) q.2 (q.1.slice e)).sum := by
  refine bilinear_foldl (fun q hq m hm ↦ ?_) hm
  have hblock := List.forall₂_zip hrow hq
  have hw := hfitting q.1 (List.of_mem_zip hq).1
  refine ⟨shaped_addBlock hm element _ _ _, ?_⟩
  rw [hv.slice_eq_part hd, hw.slice_eq_part he]
  exact bilinear_addBlock element hm hblock hv.add_le hw.add_le hd he

/-- The blocks of a binding add their products with the slices of their variables. -/
theorem bilinear_addBlocks (element : ElementType) {b : Binding α} {blocks : HessianBlocks α}
    (hblocks : b.hessianBlocks = some blocks)
    (hconforms : Binding.Conforms (Graph.argumentVariables r b) blocks)
    (hfitting : ∀ v ∈ Graph.argumentVariables r b, v.Fitting n) (hm : Shaped n n m)
    (hd : d.length = n) (he : e.length = n) :
    Shaped n n (addBlocks element r m b) ∧ bilinear d (addBlocks element r m b) e =
      bilinear d m e + curvature (Graph.argumentVariables r b) blocks d e := by
  rw [addBlocks, hblocks, Option.getD_some, hm.rows, curvature_eq_sum hconforms]
  refine bilinear_foldl (fun p hp m hm ↦ ?_) hm
  exact bilinear_addRow element (List.forall₂_zip hconforms hp)
    (hfitting p.1 (List.of_mem_zip hp).1) hfitting hm hd he

/-- The dense Hessian has the products of all blocks with the slices of their variables. -/
theorem bilinear_assembleDense (element : ElementType) {o : Objective α}
    (hconforms : ∀ b ∈ o.graph.bindings, ∃ blocks, b.hessianBlocks = some blocks ∧
      Binding.Conforms (Graph.argumentVariables o.registry b) blocks)
    (hfitting : ∀ b ∈ o.graph.bindings, ∀ v ∈ Graph.argumentVariables o.registry b,
      v.Fitting o.totalScalars.toNat)
    (hd : d.length = o.totalScalars.toNat) (he : e.length = o.totalScalars.toNat) :
    Shaped o.totalScalars.toNat o.totalScalars.toNat (assembleDense element o) ∧
      bilinear d (assembleDense element o) e = (o.graph.bindings.map fun b ↦
        curvature (Graph.argumentVariables o.registry b) (b.hessianBlocks.getD []) d e).sum := by
  have hstep (b) (hb : b ∈ o.graph.bindings) (m)
      (hm : Shaped o.totalScalars.toNat o.totalScalars.toNat m) :
      Shaped o.totalScalars.toNat o.totalScalars.toNat (addBlocks element o.registry m b) ∧
        bilinear d (addBlocks element o.registry m b) e = bilinear d m e +
          curvature (Graph.argumentVariables o.registry b) (b.hessianBlocks.getD []) d e := by
    obtain ⟨blocks, hblocks, hb'⟩ := hconforms b hb
    rw [hblocks]
    exact bilinear_addBlocks element hblocks hb' (hfitting b hb) hm hd he
  have h := bilinear_foldl hstep (shaped_zeroMatrix o.totalScalars.toNat o.totalScalars.toNat)
  rwa [bilinear_zeroMatrix, zero_add] at h

end Objective

/-! ### Evaluations that succeed -/

/-- A vector that can be stretched to a length has that length, or its one entry stands for all. -/
theorem Grid.length_eq_of_stretchTo_vector {v w : List α} {n : Nat}
    (h : (Grid.vector v).stretchTo [n] = .ok w) : v.length = n ∨ v.length = 1 := by
  rw [stretchTo, stretch?, vector] at h
  dsimp only at h
  split at h
  · rename_i heq
    exact .inl (by simpa using heq)
  · rw [stretchEntries?] at h
    by_contra hnot
    obtain ⟨hne, hone⟩ := not_or.1 hnot
    simp only [List.length_nil, Nat.lt_irrefl, if_false, hne, hone, Option.elim_none] at h
    cases h

/-- A vector that can be combined with another one in place is not stretched: the other one has its
length, or a single entry. -/
theorem Grid.length_eq_of_combine_vector {f : α → α → α} {v w : List α} {u : Grid α}
    (h : (vector v).combine f (vector w) = .ok u) : v.length = w.length ∨ w.length = 1 := by
  rw [combine, shape_vector, shape_vector] at h
  split at h
  · cases h
  split at h
  · cases h
  · rename_i joined _ hjoined
    obtain rfl : joined = [v.length] := not_not.1 hjoined
    obtain ⟨s, hs, -⟩ := bind_eq_ok_iff.1 h
    exact (length_eq_of_stretchTo_vector hs).imp_left Eq.symm

section Success

variable {r : Registry α} {x : List α} {n : Nat}

/-- A variable without a transform that takes the value of a point has a slice of the size of its
value, or a slice of one entry. -/
theorem Variable.span_eq_of_valued {v w : Variable α} (hfits : v.Fits) (ht : v.transform = none)
    (hx : x.length = n) (h : v.valued x = .ok w) :
    (v.span n).2 = v.userDimension ∨ (v.span n).2 = 1 := by
  obtain ⟨scratch, hscratch, -⟩ := map_eq_ok_iff.1 h
  rw [Objective.scratchAt] at hscratch
  simp only [ht, Progress.complete_once] at hscratch
  have hlength := Grid.length_eq_of_stretchTo_vector hscratch
  rwa [v.length_slice_eq_span hx, hfits.scratch] at hlength

variable [Add α]

/-- Gradients that are added to the slices of variables without transforms have the sizes of these,
or a single entry. -/
theorem Binding.span_eq_of_scatter {vars : List (Variable α)} {gradients : List (List α)}
    (hlengths : gradients.map List.length = vars.map Variable.userDimension)
    (ht : ∀ v ∈ vars, v.transform = none) {a c : List α} (ha : a.length = n)
    (hc : (scatter x vars gradients a).complete = .ok c) :
    ∀ v ∈ vars, (v.span n).2 = v.userDimension ∨ v.userDimension = 1 := by
  induction vars generalizing gradients a with
  | nil => simp
  | cons v vars ih =>
    obtain - | ⟨g, gradients⟩ := gradients
    · simp at hlengths
    obtain ⟨hg, hlengths⟩ := List.cons.inj hlengths
    obtain ⟨htv, ht⟩ := List.forall_mem_cons.1 ht
    rw [complete_scatter_cons] at hc
    obtain ⟨next, hnext, hc⟩ := bind_eq_ok_iff.1 hc
    have hlength := length_scatterOne v g x a
    rw [(Progress.complete_eq_ok_iff.1 hnext).2, ha] at hlength
    refine List.forall_mem_cons.2 ⟨?_, ih hlengths ht hlength hc⟩
    rw [scatterOne, htv] at hnext
    dsimp only at hnext
    rw [Progress.complete_once] at hnext
    obtain ⟨sum, hsum, -⟩ := bind_eq_ok_iff.1 hnext
    have hspan := Grid.length_eq_of_combine_vector hsum
    rwa [v.length_slice_eq_span ha, hg] at hspan

end Success

section Sums

variable [AddMonoid α] [Storable α] {r : Registry α} {x : List α} {n : Nat} {mode : Mode}

/-- Where bindings are accumulated, each one adds its gradients to sums of the right length. -/
theorem Binding.exists_accumulate {bindings : List (Binding α)} {position : Nat} {s t : α × List α}
    (hs : s.2.length = n) (h : accumulateFrom mode r x position bindings s = .ok t) :
    ∀ b ∈ bindings, ∃ u u', u.2.length = n ∧ b.accumulate mode r x u = .ok u' := by
  induction bindings generalizing position s with
  | nil => simp
  | cons b bindings ih =>
    rw [accumulateFrom] at h
    rcases hb : b.accumulate mode r x s with failure | u <;> rw [hb] at h
    · cases h
    · exact List.forall_mem_cons.2 ⟨⟨s, u, hs, hb⟩, ih ((length_accumulate hb).trans hs) h⟩

/-- In an evaluation that succeeds, each binding adds its gradients to sums of the right length. -/
theorem Objective.exists_accumulate {o : Objective α} (hworkers : 1 ≤ o.workerCount)
    {sums : List (α × List α)} (h : o.chunkSums mode r x = .ok sums) :
    ∀ b ∈ o.graph.bindings, ∃ u u', u.2.length = o.totalScalars.toNat ∧
      b.accumulate mode r x u = .ok u' := by
  intro b hb
  -- The binding lies in one of the chunks.
  rw [← flatMap_cut_partition o.graph.bindings hworkers] at hb
  obtain ⟨c, hc, hb⟩ := List.mem_flatMap.1 hb
  obtain ⟨t, ht⟩ := exists_mapM_iff.1 ⟨sums, h⟩ c hc
  exact Binding.exists_accumulate (Buffer.length_zeros _) ht b hb

/-- In an evaluation with derivatives that succeeds, the slices of bound variables without
transforms have the sizes of their values. -/
theorem Objective.Sound.fitting {o : Objective α} (h : o.Sound)
    (hx : x.length = o.totalScalars.toNat) (hvalued : o.registry.valued x = .ok r)
    {sums : List (α × List α)} (hmode : mode ≠ .value) (hsums : o.chunkSums mode r x = .ok sums)
    {b : Binding α} (hb : b ∈ o.graph.bindings)
    (ht : ∀ v ∈ Graph.argumentVariables r b, v.transform = none) :
    ∀ v ∈ Graph.argumentVariables r b, v.Fitting o.totalScalars.toNat := by
  intro v hv
  obtain ⟨entries, hentries, rfl⟩ := map_eq_ok_iff.1 hvalued
  obtain ⟨w, hw, hwv⟩ := exists_mem_of_mapM hentries (Graph.mem_of_mem_argumentVariables hv)
  obtain ⟨scratch, -, rfl⟩ := map_eq_ok_iff.1 hwv
  have hnone : ({ w with scratch } : Variable α).transform = none := ht _ hv
  have hvalue := Variable.span_eq_of_valued (h.laid.fits w hw) hnone hx hwv
  obtain ⟨u, u', hu, haccumulate⟩ := exists_accumulate h.workers hsums b hb
  rw [Binding.accumulate_of_ne_value hmode] at haccumulate
  obtain ⟨value, -, haccumulate⟩ := bind_eq_ok_iff.1 haccumulate
  obtain ⟨gradient, hgradient, -⟩ := bind_eq_ok_iff.1 haccumulate
  have hspan := Binding.span_eq_of_scatter (b.map_length_evaluated mode _) ht hu hgradient _ hv
  -- A slice of another size would have to have one entry, and so would the value.
  rcases hspan with hspan | hone
  · exact hspan
  · rcases hvalue with hvalue | hvalue
    · exact hvalue
    · exact hvalue.trans hone.symm

open Summand.Action Objective

/-- An evaluation with a dense Hessian that succeeds has let the workers come to sums, and has
written what their blocks are assembled to, after the gradient if there is an array for it. -/
theorem Objective.evaluate_hessian_eq_ok {s t : Scene α} {x : GivenPoint α}
    {gradient : Option Handle} {hessian : Handle} {value : α} (h : s.objective.Kept)
    (hrun : (evaluate x gradient (some hessian)).run s = (.ok value, t)) :
    ∃ (point : List α) (block : Block) (r : Registry α) (sums : List (α × List α))
      (result : α × List (List α)) (u : Scene α) (m : Memory α),
      s.objective.Sound ∧ s.objective.hessianAllowed = .ok () ∧
        pointOf s.objective.totalScalars x = .ok point ∧
        checkOutput "hessian" [s.objective.totalScalars, s.objective.totalScalars] hessian =
          .ok block ∧
        s.objective.direct .hessian point = .ok (r, sums) ∧
        Collected .hessian s (r, sums) result u ∧
        m.cells.size = s.memory.cells.size ∧
        t.memory = m.store block (assembleDense block.element u.objective).flatten := by
  obtain ⟨⟨⟩, u, hcheck, hrun⟩ := run_bind_eq_ok.1 hrun
  obtain ⟨rfl, hopen⟩ := run_checkOpen_eq_ok hcheck
  have hs := h.sound hopen
  have hmode : Mode.hessian ≠ .value := by simp
  rcases gradient with - | gradient
  · dsimp only at hrun
    rw [run_objective_bind] at hrun
    obtain ⟨⟨⟩, -, hrun⟩ := run_bind_eq_ok_of_run_eq (run_liftM _ _) hrun
    obtain ⟨⟨⟩, hallowed, hrun⟩ := run_bind_eq_ok_of_run_eq (run_checkHessianAllowed _) hrun
    obtain ⟨point, hpoint, hrun⟩ := run_bind_eq_ok_of_run_eq (run_checkPoint _ _) hrun
    obtain ⟨block, hblock, hrun⟩ := run_bind_eq_ok_of_run_eq (run_liftM _ _) hrun
    obtain ⟨r, sums, result, u, hdirect, hcollected, hrun⟩ := exists_collected_of_run hs hmode hrun
    cases hrun
    exact ⟨point, block, r, sums, result, u, u.memory, hs, hallowed, hpoint, hblock, hdirect,
      hcollected, by rw [hcollected.evaluated.memory], rfl⟩
  · dsimp only at hrun
    rw [evaluateInto_some] at hrun
    obtain ⟨⟨⟩, hallowed, hrun⟩ := run_bind_eq_ok_of_run_eq (run_checkHessianAllowed _) hrun
    rw [run_objective_bind] at hrun
    obtain ⟨point, hpoint, hrun⟩ := run_bind_eq_ok_of_run_eq (run_checkPoint _ _) hrun
    obtain ⟨gradientBlock, -, hrun⟩ := run_bind_eq_ok_of_run_eq (run_liftM _ _) hrun
    obtain ⟨block, hblock, hrun⟩ := run_bind_eq_ok_of_run_eq (run_liftM _ _) hrun
    obtain ⟨r, sums, result, u, hdirect, hcollected, hrun⟩ := exists_collected_of_run hs hmode hrun
    dsimp only at hrun
    rw [run_writeGradient_bind, run_objective_bind] at hrun
    cases hrun
    refine ⟨point, block, r, sums, result, u, _, hs, hallowed, hpoint, hblock, hdirect,
      hcollected, ?_, rfl⟩
    rw [← hcollected.evaluated.memory]
    exact Memory.size_writeCells _ _ _ _

end Sums

/-! ### The dense Hessian -/

section Hessian

/-- The blocks that the term of a binding makes of blocks of zeros at the values of a registry. -/
def Binding.hessianAt [Zero α] (r : Registry α) (b : Binding α) : HessianBlocks α :=
  (b.evaluated .hessian r).2.1.getD []

namespace Objective.Collected

variable {s u : Scene α} {r : Registry α} {sums : List (α × List α)} {result : α × List (List α)}

section Blocks

variable [Zero α] [Add α]

/-- Once the workers have come to sums with second derivatives, each binding has the blocks that its
term wrote, which are of the sizes of its variables. -/
theorem blocks (h : Collected .hessian s (r, sums) result u)
    (hallowed : s.objective.settings.allowsHessian = true) {b : Binding α}
    (hb : b ∈ s.objective.graph.bindings) :
    (b.afterward .hessian r).hessianBlocks = some (b.hessianAt r) ∧
      Binding.Conforms (Graph.argumentVariables r b) (b.hessianAt r) := by
  have hmem : b.afterward .hessian r ∈ u.objective.graph.bindings :=
    h.bindings ▸ List.mem_map_of_mem hb
  have hbound := h.evaluated.sound.bound _ hmem
  rw [← allowsHessian_eq_of_bare h.evaluated.bare, hallowed] at hbound
  obtain ⟨blocks, hblocks, hconforms⟩ := hbound.conforms
  have hregistry : u.objective.registry = r := h.registry
  rw [hregistry] at hconforms
  have hwritten : b.hessianAt r = blocks := congrArg (Option.getD · []) hblocks
  exact ⟨hwritten ▸ hblocks, hwritten ▸ hconforms⟩

/-- If no bound variable has a transform, none has one after the evaluation. -/
theorem transform_eq_none (h : Collected .hessian s (r, sums) result u)
    (huntransformed : Registry.firstTransformed
      (s.objective.graph.boundVariables s.objective.registry) = none)
    {b : Binding α} (hb : b ∈ s.objective.graph.bindings) {v : Variable α}
    (hv : v ∈ Graph.argumentVariables r b) : v.transform = none := by
  have hnone := firstTransformed_eq_none_of_bare h.evaluated.bare huntransformed
  have hregistry : u.objective.registry = r := h.registry
  have hbound : v ∈ u.objective.graph.boundVariables u.objective.registry := by
    rw [Graph.boundVariables, h.bindings, hregistry]
    exact List.mem_flatMap.2 ⟨_, List.mem_map_of_mem hb, hv⟩
  simpa using List.find?_eq_none.1 hnone v hbound

end Blocks

/-- The matrix that is assembled has the products of the blocks that the terms wrote. -/
theorem bilinear_assembleDense [CommSemiring α] [Storable α] [ExactStorage α]
    (h : Collected .hessian s (r, sums) result u)
    (hallowed : s.objective.settings.allowsHessian = true) {n : Nat}
    (hn : s.objective.totalScalars.toNat = n)
    (hfitting : ∀ b ∈ s.objective.graph.bindings, ∀ v ∈ Graph.argumentVariables r b, v.Fitting n)
    (element : ElementType) {d e : List α} (hd : d.length = n) (he : e.length = n) :
    Shaped n n (assembleDense element u.objective) ∧
      bilinear d (assembleDense element u.objective) e = (s.objective.graph.bindings.map fun b ↦
        curvature (Graph.argumentVariables r b) (b.hessianAt r) d e).sum := by
  have hregistry : u.objective.registry = r := h.registry
  have htotal : u.objective.totalScalars.toNat = n :=
    totalScalars_eq_of_bare h.evaluated.bare ▸ hn
  have hconforms : ∀ c ∈ u.objective.graph.bindings, ∃ blocks, c.hessianBlocks = some blocks ∧
      Binding.Conforms (Graph.argumentVariables u.objective.registry c) blocks := by
    rw [h.bindings, hregistry]
    exact List.forall_mem_map.2 fun b hb ↦ ⟨b.hessianAt r, h.blocks hallowed hb⟩
  have hfitting' : ∀ c ∈ u.objective.graph.bindings,
      ∀ v ∈ Graph.argumentVariables u.objective.registry c,
        v.Fitting u.objective.totalScalars.toNat := by
    rw [h.bindings, hregistry, htotal]
    exact List.forall_mem_map.2 hfitting
  have hproduct := Objective.bilinear_assembleDense element hconforms hfitting'
    (hd.trans htotal.symm) (he.trans htotal.symm)
  rwa [htotal, h.bindings, List.map_map, hregistry] at hproduct

end Objective.Collected

open Objective in
/-- After an evaluation with a dense Hessian that succeeds, whatever has been done with the
objective, however many workers there are and whatever the array held, the array holds the sum of
all blocks that the terms wrote, each at the slices of its two arguments: the product with two
directions is the sum of the products of the blocks with the slices of the directions. So entries
that no pair of variables of a binding reaches are zero, and the Hessian is symmetric if every term
writes blocks that are transposed to each other for exchanged arguments. A variable may stand for
several arguments of a term. -/
theorem Scene.Reached.hessian_eq_sum_of_blocks [CommSemiring α] [Storable α] [ExactStorage α]
    {s t : Scene α} (h : s.Reached) {x : List α} {gradient : Option Handle} {block : Block}
    (hblock : block.Proper s.memory) {value : α}
    (hrun : (evaluate (.ok (.vector x)) gradient (some (.array block))).run s = (.ok value, t)) :
    ∃ (r : Registry α) (rows : List (List α)), s.objective.registry.valued x = .ok r ∧
      Shaped s.objective.totalScalars.toNat s.objective.totalScalars.toNat rows ∧
      t.memory.read block = rows.flatten ∧
      (∀ d e : List α, d.length = s.objective.totalScalars.toNat →
        e.length = s.objective.totalScalars.toNat →
        bilinear d rows e = (s.objective.graph.bindings.map fun b ↦
          curvature (Graph.argumentVariables r b) (b.hessianAt r) d e).sum) ∧
      (∀ i j, (∀ b ∈ s.objective.graph.bindings, ∀ v ∈ Graph.argumentVariables r b,
          ∀ w ∈ Graph.argumentVariables r b, ¬ (v.Reaches s.objective.totalScalars.toNat i ∧
            w.Reaches s.objective.totalScalars.toNat j)) →
        entry rows i j = 0) ∧
      ((∀ b ∈ s.objective.graph.bindings, ∀ i j : Fin (Graph.argumentVariables r b).length,
          Transposed (pairBlock (b.hessianAt r) i j) (pairBlock (b.hessianAt r) j i)) →
        Transposed rows rows) := by
  obtain ⟨point, block', r, sums, result, u, m, hs, hallowed, hpoint, houtput, hdirect,
    hcollected, hsize, hmemory⟩ := evaluate_hessian_eq_ok h.kept hrun
  obtain ⟨hlength, rfl⟩ := pointOf_vector_eq_ok hpoint
  obtain ⟨hsame, hsizes, -, -⟩ := checkOutput_eq_ok_iff.1 houtput
  cases hsame
  obtain ⟨hvalued, hsums⟩ := valued_of_direct hdirect
  obtain ⟨hallowed, huntransformed⟩ := hessianAllowed_eq_ok_iff.1 hallowed
  generalize hn : s.objective.totalScalars.toNat = n
  have hfitting : ∀ b ∈ s.objective.graph.bindings, ∀ v ∈ Graph.argumentVariables r b,
      v.Fitting n := by
    intro b hb
    rw [← hn]
    exact hs.fitting (by omega) hvalued (show Mode.hessian ≠ .value by simp) hsums hb fun v hv ↦
      hcollected.transform_eq_none huntransformed hb hv
  have hproduct {d e : List α} (hd : d.length = n) (he : e.length = n) :=
    hcollected.bilinear_assembleDense hallowed hn hfitting block.element hd he
  generalize assembleDense block.element u.objective = rows at hproduct hmemory
  have hshaped := (hproduct (length_zeros n) (length_zeros n)).1
  refine ⟨r, rows, hvalued, hshaped, ?_, fun d e hd he ↦ (hproduct hd he).2, ?_, ?_⟩
  · have hproper : block.Proper m := ⟨hblock.nodup, hsize ▸ hblock.lt, hblock.volume⟩
    rw [hmemory, Memory.read_store hproper]
    · exact List.map_id'' (ExactStorage.narrow_eq _) _
    · rw [hshaped.length_flatten, hblock.length_eq_volume, hsizes]
      simp [Grid.volume, hn]
  · intro i j hreaches
    by_cases hij : i < n ∧ j < n
    · rw [← bilinear_unit hshaped hij.1 hij.2, (hproduct (length_unit n i) (length_unit n j)).2]
      refine List.sum_eq_zero fun share hshare ↦ ?_
      obtain ⟨b, hb, rfl⟩ := List.mem_map.1 hshare
      exact curvature_unit (hreaches b hb)
    · exact hshaped.entry_eq_zero hij
  · intro htransposed
    refine hshaped.transposed_self fun d e hd he ↦ ?_
    rw [(hproduct hd he).2, (hproduct he hd).2]
    refine congrArg List.sum (List.map_congr_left fun b hb ↦ ?_)
    exact curvature_comm (hcollected.blocks hallowed hb).2 (hfitting b hb) hd he (htransposed b hb)

end Hessian

namespace Small

theorem proper_hessian : hessian.Proper (scene none).memory := ⟨by decide, by decide, by decide⟩

/-- In the small history without a transform on a bound variable, the array for the Hessian, which
held sevens, has the sum of the blocks for two directions, although one variable stands for two
arguments of a term. -/
theorem hessian_eq_of_directions :
    ∃ (t : Scene Int) (r : Registry Int) (rows : List (List Int)),
      (Objective.evaluate (.ok (.vector [1, 2, 3, 4])) (some (.array gradient))
        (some (.array hessian))).run (scene none) = (.ok 11, t) ∧
      rows.flatten = [2, 3, 2, 0, 3, 2, 1, 0, 2, 1, 0, 0, 0, 0, 0, 0] ∧
      bilinear [1, 10, 100, 1000] rows [1, 2, 3, 4] =
        ((scene none).objective.graph.bindings.map fun b ↦
          curvature (Graph.argumentVariables r b) (b.hessianAt r) [1, 10, 100, 1000]
            [1, 2, 3, 4]).sum := by
  obtain ⟨t, hrun, hread⟩ : ∃ t, (Objective.evaluate (.ok (.vector [1, 2, 3, 4]))
      (some (.array gradient)) (some (.array hessian))).run (scene none) = (.ok 11, t) ∧
        t.memory.read hessian = [2, 3, 2, 0, 3, 2, 1, 0, 2, 1, 0, 0, 0, 0, 0, 0] := by
    set_option maxRecDepth 2000 in exact ⟨_, Prod.ext rfl rfl, rfl⟩
  obtain ⟨r, rows, -, -, hrows, hproduct, -⟩ :=
    (reached_scene none).hessian_eq_sum_of_blocks proper_hessian hrun
  exact ⟨t, r, rows, hrun, hrows.symm.trans hread,
    hproduct [1, 10, 100, 1000] [1, 2, 3, 4] rfl rfl⟩

end Small

end Summand
