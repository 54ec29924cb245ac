import Mathlib.Algebra.Ring.Int.Defs
import Summand.Proofs.History
import Summand.Proofs.Memory
import Summand.Proofs.Regrouping

/-!
# The gradient by the chain rule

After an evaluation that succeeds, the array for the gradient holds the gradient of the sum of all
terms by the flat vector (`Scene.Reached.gradient_eq_chain_rule`). That is said by its products with
directions: in each direction it is the sum, over all bindings and all of their arguments, of the
product of what the term wrote for the argument with the image of the direction's slice under the
Jacobian of the variable's transform. The value is the sum of the values of all terms, and the
gradient is zero in the slices of variables that no term is bound to, unless a transform that asks
for a negative dimension has brought these into other slices (`Small.gradient_of_unbound`).

A binding changes these three as it should (`Binding.Chained`), whatever came before; the rest is
an induction on the bindings in order, into which the regrouping of chunks has turned the work of
the workers.
-/

namespace Summand

variable {α : Type}

/-! ### Products of vectors -/

namespace Buffer

/-- The product of two vectors: the sum of the products of their entries. -/
def dot [Zero α] [Add α] [Mul α] (v w : List α) : α := (List.zipWith (· * ·) v w).sum

variable [NonAssocSemiring α]

theorem dot_add {u v : List α} (h : u.length = v.length) (w : List α) :
    dot (add u v) w = dot u w + dot v w := by
  induction u generalizing v w with
  | nil =>
    obtain rfl := List.length_eq_zero_iff.1 h.symm
    simp [dot, add]
  | cons a u ih =>
    obtain - | ⟨b, v⟩ := v
    · simp at h
    obtain - | ⟨c, w⟩ := w
    · simp [dot]
    have hrest := ih (v := v) (by simpa using h) w
    simp only [dot, add, List.zipWith_cons_cons, List.sum_cons] at hrest ⊢
    rw [hrest, add_mul, add_add_add_comm]

theorem dot_append {u v : List α} {u' v' : List α} (h : u.length = v.length) :
    dot (u ++ u') (v ++ v') = dot u v + dot u' v' := by
  rw [dot, List.zipWith_append h, List.sum_append]
  rfl

theorem dot_zeros (n : Nat) (w : List α) : dot (zeros n) w = 0 := by
  induction n generalizing w with
  | zero => rfl
  | succ n ih =>
    obtain - | ⟨c, w⟩ := w
    · rfl
    have hrest := ih w
    simp only [dot, zeros, List.replicate_succ, List.zipWith_cons_cons, List.sum_cons] at hrest ⊢
    rw [hrest, zero_mul, add_zero]

end Buffer

/-- A vector that is zero but for a slice has the product of that slice with the slice. -/
theorem Variable.LiesIn.dot_embed [NonAssocSemiring α] {v : Variable α} {n : Nat} (h : v.LiesIn n)
    {c d : List α} (hc : c.length = v.solverDimension.toNat) (hd : d.length = n) :
    Buffer.dot (v.embed n c) d = Buffer.dot c (v.slice d) := by
  have := h.le
  have := h.offset
  have := h.dimension
  set offset := v.offset.toNat with hoffset
  have hembed :
      v.embed n c = Buffer.zeros offset ++ (c ++ Buffer.zeros (n - offset - c.length)) := by
    rw [embed, setSlice, Buffer.length_zeros, h.span_eq, Buffer.setPart,
      Buffer.conform_eq_append (by simp; omega), Buffer.take_zeros (by omega), Buffer.drop_zeros,
      Buffer.drop_zeros]
  have hslice : v.slice d = (d.drop offset).take c.length := by
    rw [slice, hd, h.span_eq, hc]
    rfl
  calc Buffer.dot (v.embed n c) d
      = Buffer.dot (Buffer.zeros offset ++ (c ++ Buffer.zeros (n - offset - c.length)))
          (d.take offset ++ ((d.drop offset).take c.length ++ (d.drop offset).drop c.length)) := by
        rw [List.take_append_drop, List.take_append_drop, hembed]
    _ = Buffer.dot c (v.slice d) := by
        rw [Buffer.dot_append (by simp; omega), Buffer.dot_append (by simp; omega),
          Buffer.dot_zeros, Buffer.dot_zeros, zero_add, add_zero, hslice]

/-! ### Jacobians -/

/-- A transform adds a gradient multiplied by the transposed Jacobian: what is pulled back to a
point has the product with a direction that the gradient has with the direction's image. -/
structure Transform.HasJacobian [NonAssocSemiring α] (t : Transform α)
    (jacobian : (point direction : List α) → List α) : Prop where
  adds : t.Adds
  transposed : ∀ {point gradient c direction : List α}, (point.length : Int) = t.inputDimension →
    (gradient.length : Int) = t.outputDimension → t.pulled point gradient = .ok c →
      (direction.length : Int) = t.inputDimension →
        Buffer.dot c direction = Buffer.dot gradient (jacobian point direction)

namespace Elementwise

/-- The image of a direction under the Jacobian of a transform by a scalar map. -/
def jacobian [Mul α] (e : Elementwise α) (point direction : List α) : List α :=
  List.zipWith (fun t d ↦ e.derivative t * d) point direction

/-- The Jacobian of a transform by a scalar map has the derivatives on its diagonal. -/
theorem hasJacobian [Semiring α] (e : Elementwise α) (id : Nat) :
    (e.toTransform id).HasJacobian e.jacobian := by
  refine ⟨e.adds id, ?_⟩
  intro point gradient c direction hpoint hgradient h _
  have hgradient : gradient.length = e.dimension := Int.ofNat.inj hgradient
  have hpoint : point.length = e.dimension := Int.ofNat.inj hpoint
  have hlength : gradient.length = (point.map e.derivative).length := by
    rw [List.length_map, hpoint, hgradient]
  rw [Transform.pulled, Transform.pulledTo, complete_projectedVector,
    Grid.zipWith_vector _ hlength] at h
  set product := List.zipWith (· * ·) gradient (point.map e.derivative) with hproduct
  have hproductLength : product.length = e.dimension := by simp [hproduct, hgradient, hpoint]
  have hzeros : (Buffer.zeros e.dimension : List α).length = product.length := by
    rw [Buffer.length_zeros, hproductLength]
  have hc : c = product := by
    obtain ⟨_, hvector, h⟩ := bind_eq_ok_iff.1 h
    cases hvector
    obtain ⟨sum, hsum, rfl⟩ := map_eq_ok_iff.1 h
    cases (Grid.combine_vector _ hzeros).symm.trans hsum
    exact Buffer.zeros_add hproductLength
  rw [hc, Buffer.dot, Buffer.dot, hproduct]
  apply congrArg List.sum
  apply List.ext_getElem?
  intro i
  simp only [jacobian, List.getElem?_zipWith, List.getElem?_map]
  cases gradient[i]? <;> cases point[i]? <;> cases direction[i]? <;> simp [mul_assoc]

end Elementwise

/-- The image of a direction of the flat vector for a variable: its slice, under the Jacobian of the
variable's transform if it has one. -/
def Variable.directed (jacobian : Transform α → (point direction : List α) → List α)
    (v : Variable α) (x direction : List α) : List α :=
  match v.transform with
  | none => v.slice direction
  | some t => jacobian t (v.slice x) (v.slice direction)

section Differentiable

variable [NonAssocSemiring α] {jacobian : Transform α → (point direction : List α) → List α}
  {r : Registry α} {bindings : List (Binding α)} {x : List α}

/-- A registry of natural sizes in which the transforms of the arguments of bindings have
Jacobians. -/
structure Registry.Differentiable (jacobian : Transform α → (point direction : List α) → List α)
    (r : Registry α) (bindings : List (Binding α)) : Prop where
  laid : r.Laid
  natural : r.Natural
  transposed : ∀ b ∈ bindings, ∀ v ∈ Graph.argumentVariables r b, ∀ t, v.transform = some t →
    t.HasJacobian (jacobian t)

namespace Registry.Differentiable

/-- Scratch values have no part in it. -/
theorem of_bare (h : r.Differentiable jacobian bindings) {s : Registry α}
    (hentries : r.entries.map Variable.bare = s.entries.map Variable.bare)
    (htotal : r.totalScalars = s.totalScalars) : s.Differentiable jacobian bindings where
  laid := h.laid.of_bare hentries htotal
  natural := h.natural.of_bare hentries
  transposed b hb v hv t ht := by
    obtain ⟨w, hw, hbare⟩ := Objective.exists_argument_of_bare hentries hv
    exact h.transposed b hb w hw t ((congrArg Variable.transform hbare :).trans ht)

theorem liesIn (h : r.Differentiable jacobian bindings) {v : Variable α} (hv : v ∈ r.entries) :
    v.LiesIn r.totalScalars.toNat := h.laid.liesIn h.natural hv

theorem additive (h : r.Differentiable jacobian bindings) : r.Additive bindings where
  laid := h.laid
  adds b hb v hv t ht :=
    have hmem := Graph.mem_of_mem_argumentVariables hv
    (h.transposed b hb v hv t ht).adds.addsTo_span (h.liesIn hmem) (h.laid.fits v hmem) ht

variable {b : Binding α}

/-- What is added to zeros has the product with a slice that the gradient has with its image. -/
theorem dot_addedTo (h : r.Differentiable jacobian bindings) (hb : b ∈ bindings) {v : Variable α}
    (hv : v ∈ Graph.argumentVariables r b)
    (hx : x.length = r.totalScalars.toNat) {g c d : List α} (hg : g.length = v.userDimension)
    (hc : v.addedTo (Buffer.zeros v.solverDimension.toNat) (v.slice x) g = .ok c)
    (hd : d.length = r.totalScalars.toNat) :
    Buffer.dot c (v.slice d) = Buffer.dot g (v.directed jacobian x d) := by
  have hmem := Graph.mem_of_mem_argumentVariables hv
  have hlies := h.liesIn hmem
  have hdimension := hlies.dimension
  have hfits := h.laid.fits v hmem
  rw [Variable.addedTo] at hc
  rw [Variable.directed]
  rcases ht : v.transform with - | t <;> rw [ht] at hc
  · have hsize : g.length = v.solverDimension.toNat := by
      rw [hg, hfits.solverDimension_eq ht, Int.toNat_natCast]
    rw [Grid.combine_vector _ ((Buffer.length_zeros _).trans hsize.symm)] at hc
    cases hc
    exact congrArg (Buffer.dot · (v.slice d)) (Buffer.zeros_add hsize)
  · obtain ⟨houtput, hinput⟩ := hfits.transform_dimensions ht
    have hslice := hlies.length_slice hx
    have hslice' := hlies.length_slice hd
    have hjacobian := h.transposed b hb v hv t ht
    have houtput : (g.length : Int) = t.outputDimension := by rw [hg, houtput]
    obtain ⟨p, hp, rfl⟩ := map_eq_ok_iff.1 hc
    rw [← hinput] at hp
    have hlength := hjacobian.adds.addsTo.length houtput hp
    rw [Buffer.conform_of_length_eq (by rw [hlength, hinput, Buffer.length_zeros])]
    exact hjacobian.transposed (by omega) houtput hp (by omega)

/-- The gradients of the arguments are added by the chain rule, each to the slice of its
variable. -/
theorem scatter (h : r.Differentiable jacobian bindings) (hb : b ∈ bindings)
    (hx : x.length = r.totalScalars.toNat) {vars : List (Variable α)} {gradients : List (List α)}
    (hvars : ∀ v ∈ vars, v ∈ Graph.argumentVariables r b)
    (hlengths : gradients.map List.length = vars.map Variable.userDimension) {a c : List α}
    (ha : a.length = r.totalScalars.toNat)
    (hc : (Binding.scatter x vars gradients a).complete = .ok c) :
    (∀ d : List α, d.length = r.totalScalars.toNat → Buffer.dot c d = Buffer.dot a d +
        (List.zipWith (fun v g ↦ Buffer.dot g (v.directed jacobian x d)) vars gradients).sum) ∧
      ∀ u ∈ r.entries, (∀ v ∈ vars, u.index ≠ v.index) → u.slice c = u.slice a := by
  induction vars generalizing gradients a with
  | nil =>
    obtain rfl : gradients = [] := by simpa using hlengths
    cases hc
    exact ⟨by simp [Binding.scatter], fun _ _ _ ↦ rfl⟩
  | cons v vars ih =>
    obtain - | ⟨g, gradients⟩ := gradients
    · simp at hlengths
    obtain ⟨hg, hlengths⟩ := List.cons.inj hlengths
    have hv := hvars v List.mem_cons_self
    have hlies := h.liesIn (Graph.mem_of_mem_argumentVariables hv)
    rw [Binding.complete_scatter_cons, h.additive.complete_scatterOne hb hv hg ha,
      hlies.span_eq] at hc
    obtain ⟨next, hnext, hc⟩ := bind_eq_ok_iff.1 hc
    obtain ⟨p, hp, rfl⟩ := map_eq_ok_iff.1 hnext
    have hlength := (Variable.length_addedTo hp).trans (Buffer.length_zeros _)
    obtain ⟨hdirection, hunbound⟩ := ih (fun w hw ↦ hvars w (List.mem_cons_of_mem v hw)) hlengths
      (by simp [ha]) hc
    constructor
    · intro d hd
      rw [hdirection d hd, Buffer.dot_add (by simp [ha]), hlies.dot_embed hlength hd,
        h.dot_addedTo hb hv hx hg hp hd, List.zipWith_cons_cons, List.sum_cons, add_assoc]
    · intro u hu hne
      have hdisjoint := h.laid.disjoint h.natural hu (Graph.mem_of_mem_argumentVariables hv)
        (hne v List.mem_cons_self)
      rw [hunbound u hu fun w hw ↦ hne w (List.mem_cons_of_mem v hw),
        ← v.setSlice_add ha (by rw [hlength, hlies.span_eq])]
      exact (h.liesIn hu).slice_setSlice_of_disjoint hlies hdisjoint ha
        (by simp [hlies.length_slice ha, hlength])

end Registry.Differentiable

end Differentiable

/-! ### What a binding changes -/

section Chained

variable [NonAssocSemiring α] [Storable α]

/-- The share of a binding in the product of the gradient with a direction: for each argument, the
product of what the term wrote for it with the image of the direction. -/
def Binding.directional (jacobian : Transform α → (point direction : List α) → List α)
    (r : Registry α) (x direction : List α) (b : Binding α) : α :=
  (List.zipWith (fun v g ↦ Buffer.dot g (v.directed jacobian x direction))
    (Graph.argumentVariables r b) (b.evaluated .gradient r).1).sum

/-- Bindings have brought sums to others by the chain rule. -/
structure Chained (jacobian : Transform α → (point direction : List α) → List α) (r : Registry α)
    (x : List α) (bindings : List (Binding α)) (s t : Sums α) : Prop where
  length : t.2.length = s.2.length
  /-- The values of all terms have been added. -/
  value : ∃ values : List α, List.Forall₂ (fun (b : Binding α) value ↦
      (b.evaluated .gradient r).2.2 >>= Outcome.toScalar = .ok value) bindings values ∧
    t.1 = s.1 + values.sum
  /-- The shares of all bindings have been added. -/
  direction : ∀ direction : List α, direction.length = r.totalScalars.toNat →
    Buffer.dot t.2 direction = Buffer.dot s.2 direction +
      (bindings.map (Binding.directional jacobian r x direction)).sum
  /-- Nothing has been added for variables that no term is bound to. -/
  unbound : ∀ u ∈ r.entries, (∀ b ∈ bindings, u.index ∉ b.indices) → u.slice t.2 = u.slice s.2

variable {jacobian : Transform α → (point direction : List α) → List α} {r : Registry α}
  {x : List α} {s t u : Sums α}

theorem Chained.refl : Chained jacobian r x [] s s where
  length := rfl
  value := ⟨[], .nil, by simp⟩
  direction _ _ := by simp
  unbound _ _ _ := rfl

theorem Chained.trans {b : Binding α} {bindings : List (Binding α)}
    (h : Chained jacobian r x [b] s t) (h' : Chained jacobian r x bindings t u) :
    Chained jacobian r x (b :: bindings) s u where
  length := h'.length.trans h.length
  value := by
    obtain ⟨values, hvalues, hs⟩ := h.value
    obtain ⟨values', hvalues', ht⟩ := h'.value
    obtain - | ⟨hvalue, hnil⟩ := hvalues
    cases hnil
    refine ⟨_ :: values', .cons hvalue hvalues', ?_⟩
    rw [ht, hs]
    simp [add_assoc]
  direction d hd := by
    rw [h'.direction d hd, h.direction d hd]
    simp [add_assoc]
  unbound v hv hbound := by
    rw [h'.unbound v hv fun c hc ↦ hbound c (List.mem_cons_of_mem b hc),
      h.unbound v hv fun c hc ↦ List.mem_singleton.1 hc ▸ hbound b List.mem_cons_self]

namespace Registry.Differentiable

/-- A binding adds by the chain rule. -/
theorem chained_accumulate {bindings : List (Binding α)} (h : r.Differentiable jacobian bindings)
    {b : Binding α} (hmem : b ∈ bindings) (hx : x.length = r.totalScalars.toNat)
    (hs : s.2.length = r.totalScalars.toNat)
    (hb : b.accumulate .gradient r x s = .ok t) : Chained jacobian r x [b] s t := by
  have hlength := Binding.length_accumulate hb
  obtain ⟨value, hvalue, hb⟩ := bind_eq_ok_iff.1 hb
  obtain ⟨gradient, hgradient, hb⟩ := bind_eq_ok_iff.1 hb
  cases hb
  obtain ⟨hdirection, hunbound⟩ := h.scatter hmem hx (fun _ hv ↦ hv)
    (b.map_length_evaluated .gradient r) hs hgradient
  refine ⟨hlength, ⟨[value], .cons hvalue .nil, by simp⟩, ?_, ?_⟩
  · intro d hd
    rw [hdirection d hd, List.map_singleton, List.sum_singleton]
    rfl
  · intro u hu hbound
    apply hunbound u hu
    intro v hv hindex
    exact hbound b List.mem_cons_self (hindex ▸ Graph.index_mem_indices h.laid hv)

/-- All bindings add by the chain rule. -/
theorem chained_accumulateFrom {bindings : List (Binding α)}
    (h : r.Differentiable jacobian bindings) (hx : x.length = r.totalScalars.toNat)
    {position : Nat} (hs : s.2.length = r.totalScalars.toNat)
    (hbindings : Binding.accumulateFrom .gradient r x position bindings s = .ok t) :
    Chained jacobian r x bindings s t := by
  induction bindings generalizing position s with
  | nil =>
    cases hbindings
    exact .refl
  | cons b bindings ih =>
    rw [Binding.accumulateFrom] at hbindings
    rcases hb : b.accumulate .gradient r x s with failure | u <;> rw [hb] at hbindings
    · cases hbindings
    · have hchained := h.chained_accumulate List.mem_cons_self hx hs hb
      have hrest : r.Differentiable jacobian bindings :=
        ⟨h.laid, h.natural, fun c hc ↦ h.transposed c (List.mem_cons_of_mem b hc)⟩
      exact hchained.trans (ih hrest (hchained.length.trans hs) hbindings)

end Registry.Differentiable

end Chained

/-! ### The gradient of an evaluation -/

/-- A vector is a point if it has the right length. -/
theorem Objective.pointOf_vector_eq_ok {n : Int} {x point : List α}
    (h : pointOf n (.ok (.vector x)) = .ok point) : (x.length : Int) = n ∧ x = point := by
  obtain ⟨grid, hgrid, h⟩ := bind_eq_ok_iff.1 h
  cases hgrid
  split at h
  · rename_i hsizes
    cases h
    exact ⟨by simpa [Grid.sizes, Grid.vector] using hsizes, rfl⟩
  · cases h

/-- The computation of an evaluation has the values of the point and the sums of the chunks. -/
theorem Objective.valued_of_direct [Zero α] [Add α] [Storable α] {o : Objective α} {mode : Mode}
    {x : List α} {r : Registry α} {sums : List (Sums α)} (h : o.direct mode x = .ok (r, sums)) :
    o.registry.valued x = .ok r ∧ o.chunkSums mode r x = .ok sums := by
  obtain ⟨⟨⟩, -, h⟩ := bind_eq_ok_iff.1 h
  obtain ⟨registry, hvalued, h⟩ := bind_eq_ok_iff.1 h
  obtain ⟨sums, hsums, h⟩ := bind_eq_ok_iff.1 h
  cases h
  exact ⟨hvalued, mapError_eq_ok_iff.1 hsums⟩

section Evaluation

open Summand.Action Objective

/-- Workers that succeed have come to the sums of the evaluation. -/
theorem Objective.exists_collected_of_run {β : Type} [Zero α] [Add α] [Storable α]
    {s t : Scene α} {mode : Mode} {point : List α} {f : α × List (List α) → Action α β} {c : β}
    (h : s.objective.Sound) (hmode : mode ≠ .value)
    (hrun : (evaluateWorkers mode point >>= f).run s = (.ok c, t)) :
    ∃ (r : Registry α) (sums : List (α × List α)) (result : α × List (List α)) (u : Scene α),
      s.objective.direct mode point = .ok (r, sums) ∧ Collected mode s (r, sums) result u ∧
        (f result).run u = (.ok c, t) := by
  obtain ⟨result, u, hworkers, hrun⟩ := run_bind_eq_ok.1 hrun
  have hrealizes := realizes_evaluateWorkers h hmode point
  rw [hworkers] at hrealizes
  obtain ⟨⟨r, sums⟩, hdirect, hcollected⟩ := hrealizes.of_ok
  exact ⟨r, sums, result, u, hdirect, hcollected, hrun⟩

/-- An evaluation with a gradient that succeeds has come to the sums of the chunks, and has written
their gradients to the caller's array. -/
theorem Objective.evaluate_gradient_eq_ok [Zero α] [Add α] [Storable α] {s t : Scene α}
    {x : GivenPoint α} {gradient : Handle} {value : α} (h : s.objective.Kept)
    (hrun : (evaluate x (some gradient) none).run s = (.ok value, t)) :
    ∃ (point : List α) (block : Block) (r : Registry α) (sums : List (Sums α)),
      s.objective.Sound ∧ pointOf s.objective.totalScalars x = .ok point ∧
        checkOutput "gradient" [s.objective.totalScalars] gradient = .ok block ∧
          s.objective.direct .gradient point = .ok (r, sums) ∧ value = total sums ∧
            t.memory = s.memory.store block
              (sumGradients block.element s.objective.totalScalars.toNat
                (sums.map Prod.snd ++ List.replicate (s.objective.workerCount - sums.length)
                  (Buffer.zeros s.objective.totalScalars.toNat))) := by
  obtain ⟨⟨⟩, u, hcheck, hrun⟩ := run_bind_eq_ok.1 hrun
  obtain ⟨rfl, hopen⟩ := run_checkOpen_eq_ok hcheck
  have hs := h.sound hopen
  dsimp only at hrun
  rw [evaluateInto_none, run_objective_bind] at hrun
  obtain ⟨point, hpoint, hrun⟩ := run_bind_eq_ok_of_run_eq (run_checkPoint _ _) hrun
  obtain ⟨block, hblock, hrun⟩ := run_bind_eq_ok_of_run_eq (run_liftM _ _) hrun
  obtain ⟨r, sums, ⟨result, gradients⟩, u, hdirect, hcollected, hrun⟩ :=
    exists_collected_of_run hs (show Mode.gradient ≠ .value by simp) hrun
  dsimp only at hrun
  rw [run_writeGradient_bind] at hrun
  cases hrun
  refine ⟨point, block, r, sums, hs, hpoint, hblock, hdirect, hcollected.value, ?_⟩
  have hgradients : gradients = _ := hcollected.gradients
  rw [hcollected.evaluated.memory, ← totalScalars_eq_of_bare hcollected.evaluated.bare, hgradients]
  rfl

/-- An array to which the gradients of all workers are written holds the gradient of all sums
together. -/
theorem Objective.read_store_sumGradients [AddMonoid α] [Storable α] [ExactStorage α]
    {o : Objective α} {m : Memory α} {block : Block} (hblock : block.Proper m)
    (hsizes : block.sizes = [o.totalScalars]) {sums : List (Sums α)}
    (hsums : ∀ s ∈ sums, s.2.length = o.totalScalars.toNat) (idle : Nat) :
    (m.store block (sumGradients block.element o.totalScalars.toNat (sums.map Prod.snd ++
        List.replicate idle (Buffer.zeros o.totalScalars.toNat)))).read block =
      (Sums.combine o.totalScalars.toNat sums).2 := by
  have hlength := Sums.length_combine hsums
  rw [sumGradients_eq_combine block.element hsums idle,
    Memory.read_store hblock (hlength.trans (hblock.length_of_sizes hsizes).symm)]
  exact List.map_id'' (ExactStorage.narrow_eq _) _

variable [NonAssocSemiring α] [Storable α] [ExactStorage α]
  {jacobian : Transform α → (point direction : List α) → List α}

/-- After an evaluation of an objective that succeeds, whatever has been done with the objective and
whatever the array for the gradient held, the value is the sum of the values of all terms at the
values of the point, and the array holds the gradient by the chain rule: its product with a
direction is the sum, over all bindings and all of their arguments, of the product of what the term
wrote for the argument with the image of the direction's slice under the Jacobian of the variable's
transform. In the slices of variables that no term is bound to it is zero. These have transforms of
any kind, but no transform asks for a negative dimension. -/
theorem Scene.Reached.gradient_eq_chain_rule {s t : Scene α} (h : s.Reached)
    (hsizes : ∀ v ∈ s.objective.registry.entries, ∀ transform, v.transform = some transform →
      0 ≤ transform.inputDimension)
    (hjacobian : ∀ v ∈ s.objective.graph.boundVariables s.objective.registry, ∀ transform,
      v.transform = some transform → transform.HasJacobian (jacobian transform))
    {x : List α} {block : Block} (hblock : block.Proper s.memory) {value : α}
    (hrun : (evaluate (.ok (.vector x)) (some (.array block)) none).run s = (.ok value, t)) :
    ∃ (r : Registry α) (values : List α), s.objective.registry.valued x = .ok r ∧
      List.Forall₂ (fun (b : Binding α) value ↦
        (b.evaluated .gradient r).2.2 >>= Outcome.toScalar = .ok value)
        s.objective.graph.bindings values ∧
      value = values.sum ∧
      ((t.memory.read block).length : Int) = s.objective.totalScalars ∧
      (∀ direction : List α, (direction.length : Int) = s.objective.totalScalars →
        Buffer.dot (t.memory.read block) direction =
          (s.objective.graph.bindings.map fun b ↦
            (List.zipWith (fun v g ↦ Buffer.dot g (v.directed jacobian x direction))
              (Graph.argumentVariables r b) (b.evaluated .gradient r).1).sum).sum) ∧
      ∀ v ∈ s.objective.registry.entries,
        (∀ b ∈ s.objective.graph.bindings, v.index ∉ b.indices) →
          v.slice (t.memory.read block) = Buffer.zeros v.solverDimension.toNat := by
  obtain ⟨point, block', r, sums, hs, hpoint, houtput, hdirect, rfl, hmemory⟩ :=
    evaluate_gradient_eq_ok h.kept hrun
  obtain ⟨hlength, rfl⟩ := pointOf_vector_eq_ok hpoint
  obtain ⟨hsame, hblockSizes, -, -⟩ := checkOutput_eq_ok_iff.1 houtput
  cases hsame
  obtain ⟨hvalued, hsums⟩ := valued_of_direct hdirect
  obtain ⟨hentries, htotal⟩ := Registry.map_bare_valued hvalued
  have hdifferentiable : r.Differentiable jacobian s.objective.graph.bindings :=
    Registry.Differentiable.of_bare ⟨hs.laid, hs.laid.natural hsizes, fun b hb v hv ↦
      hjacobian v (List.mem_flatMap.2 ⟨b, hb, hv⟩)⟩ hentries htotal
  have htotal' : r.totalScalars.toNat = s.objective.totalScalars.toNat :=
    congrArg Int.toNat htotal.symm
  -- All chunks together are the bindings in order, which add by the chain rule.
  have hcombine := map_combine_chunkSums hs.workers hdifferentiable.additive htotal.symm .gradient x
  rw [hsums] at hcombine
  have hchained := hdifferentiable.chained_accumulateFrom (by omega)
    ((Buffer.length_zeros _).trans htotal'.symm) hcombine.symm
  obtain ⟨values, hvalues, hvalue⟩ := hchained.value
  have hzero (d : List α) : Buffer.dot
      (Sums.none (α := α) s.objective.totalScalars.toNat).2 d = 0 := Buffer.dot_zeros _ d
  have hlength' := hchained.length.trans (Buffer.length_zeros _)
  rw [hmemory, read_store_sumGradients hblock hblockSizes (length_of_direct hdirect)]
  refine ⟨r, values, hvalued, hvalues, ?_, by omega, ?_, ?_⟩
  · rw [total_eq_combine s.objective.totalScalars.toNat, hvalue]
    exact zero_add _
  · intro d hd
    rw [hchained.direction d (by omega), hzero, zero_add]
    rfl
  · intro v hv hbound
    obtain ⟨w, hw, hbare⟩ := Registry.exists_mem_of_bare hentries.symm hv
    have hslice (c : List α) : v.slice c = w.slice c :=
      (congrArg (fun u : Variable α ↦ u.slice c) hbare.symm :)
    have hindex : v.index = w.index := (congrArg Variable.index hbare.symm :)
    have hdimension : v.solverDimension = w.solverDimension :=
      (congrArg Variable.solverDimension hbare.symm :)
    rw [hslice, hdimension, hchained.unbound w hw fun b hb ↦ hindex ▸ hbound b hb]
    have hzeros := (hdifferentiable.liesIn hw).slice_zeros
    rwa [← htotal] at hzeros

end Evaluation

namespace Small

/-- The image of a direction under the Jacobian of the transform of the small history. -/
def jacobian (_ : Transform Int) : (point direction : List Int) → List Int := tripling.jacobian

theorem proper_gradient : gradient.Proper (scene (some tripled)).memory :=
  ⟨by decide, by decide, by decide⟩

/-- In the small history the gradient has the chain rule's product with a direction. -/
theorem gradient_eq_of_directions :
    ∃ (r : Registry Int) (t : Scene Int),
      (Objective.evaluate (.ok (.vector [1, 2, 3, 4])) (some (.array gradient)) none).run
        (scene (some tripled)) = (.ok 23, t) ∧
      Buffer.dot (t.memory.read gradient) [1, 10, 100, 1000] =
        ((scene (some tripled)).objective.graph.bindings.map fun b ↦
          (List.zipWith (fun v g ↦
              Buffer.dot g (v.directed jacobian [1, 2, 3, 4] [1, 10, 100, 1000]))
            (Graph.argumentVariables r b) (b.evaluated .gradient r).1).sum).sum := by
  have hsizes := of_transform (P := fun t ↦ 0 ≤ t.inputDimension) (by decide)
    (.inr rfl : some tripled = none ∨ some tripled = some tripled)
  have hjacobian : ∀ v ∈ (scene (some tripled)).objective.registry.entries, ∀ transform,
      v.transform = some transform → transform.HasJacobian (jacobian transform) :=
    of_transform (tripling.hasJacobian 1) (.inr rfl)
  obtain ⟨t, hrun⟩ : ∃ t, (Objective.evaluate (.ok (.vector [1, 2, 3, 4])) (some (.array gradient))
      none).run (scene (some tripled)) = (.ok 23, t) := ⟨_, Prod.ext rfl rfl⟩
  obtain ⟨r, values, -, -, -, -, hdirection, -⟩ :=
    (reached_scene (some tripled)).gradient_eq_chain_rule hsizes
      (fun v hv ↦ hjacobian v (Graph.mem_of_mem_boundVariables hv)) proper_gradient hrun
  exact ⟨r, t, hrun, hdirection [1, 10, 100, 1000] rfl⟩

/-- The map of no numbers to zero, which asks for a negative dimension. -/
def hollow : Transform Int where
  id := 2
  name := "Hollow"
  inputDimension := -1
  outputDimension := 1
  toUser out _ := .once (fun _ ↦ .ok (.vector [0])) out
  toOptimization out _ := .once .ok out
  projectGradient accumulator _ _ := .once .ok accumulator

/-- A pair that begins where a single number does, since a dimension between them is negative. -/
def foldedScene : Scene Int :=
  Scene.after { objective, memory, events := [], platform }
    [.register (.array single) .null none, .register (.array spare) .null (some hollow),
      .register (.array pair) .null none, .addTerm squares [.array pair]]

/-- An array for a gradient of two entries. -/
def narrow : Block := { id := 8, shape := [2], cells := List.range' 4 2 }

/-- If slices have entries in common, the gradient of a variable that no term is bound to need not
be zero. -/
theorem gradient_of_unbound :
    foldedScene.Reached ∧ foldedScene.objective.closed = false ∧
      (foldedScene.objective.graph.boundVariables foldedScene.objective.registry).map
        Variable.transform = [none] ∧
      narrow.Proper foldedScene.memory ∧
      ∃ t, (Objective.evaluate (.ok (.vector [1, 3])) (some (.array narrow)) none).run foldedScene =
          (.ok 10, t) ∧
        ∃ v ∈ foldedScene.objective.registry.entries,
          (∀ b ∈ foldedScene.objective.graph.bindings, v.index ∉ b.indices) ∧
            v.slice (t.memory.read narrow) = [2] := by
  refine ⟨reached_after _, rfl, rfl, ⟨by decide, by decide, by decide⟩, ?_⟩
  refine ⟨_, Prod.ext rfl rfl, _, List.mem_cons_self, by decide, rfl⟩

end Small

end Summand
