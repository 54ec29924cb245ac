import Summand.Proofs.Direct
import Summand.Proofs.Exact

/-!
# Sums of chunks put together

In exact arithmetic it does not matter where the bindings are split into chunks. A binding adds the
same to all sums (`Registry.Additive.accumulate_add`), also if slices overlap, so the sums of a
chunk that begins with zero, added to those of the chunks before it, are the sums of a chunk that
begins where the others end (`Objective.map_combine_chunkSums`). A chunk that fails does so at the
same binding and with the same failure. The values, the gradients of the workers and the gradients
of workers without a chunk are put together in one place each; all of them come to the sums of all
bindings in order.
-/

namespace Summand

variable {α : Type}

/-! ### One gradient -/

/-- What a slice of a gradient becomes when that of an argument is added to it, through the
variable's transform if it has one. -/
def Variable.addedTo [Add α] (v : Variable α) (out point g : List α) : Except Failure (List α) :=
  match v.transform with
  | none => ((Grid.vector out).combine (· + ·) (.vector g)).map Grid.entries
  | some t => (t.projectedVector out point g).complete.map (Buffer.conform out)

theorem Variable.length_addedTo [Add α] {v : Variable α} {out point g c : List α}
    (h : v.addedTo out point g = .ok c) : c.length = out.length := by
  rw [addedTo] at h
  split at h
  · exact Grid.length_combine_vector h
  · obtain ⟨filled, -, rfl⟩ := map_eq_ok_iff.1 h
    exact Buffer.length_conform out filled

theorem Binding.complete_scatterOne [Add α] (v : Variable α) (g x accumulator : List α) :
    (scatterOne v g x accumulator).complete =
      (v.addedTo (v.slice accumulator) (v.slice x) g).map (v.setSlice · accumulator) := by
  rw [scatterOne, Variable.addedTo]
  rcases v.transform with - | t
  · dsimp only
    rw [Progress.complete_once]
    cases (Grid.vector (v.slice accumulator)).combine (· + ·) (.vector g) <;> rfl
  · dsimp only
    rw [Progress.complete_map]
    cases (t.projectedVector (v.slice accumulator) (v.slice x) g).complete <;> rfl

/-- A registry in which the transforms of the arguments of bindings add what they pull back to the
slices of their variables, whatever the sizes of these are. -/
structure Registry.Additive [Zero α] [Add α] (r : Registry α) (bindings : List (Binding α)) :
    Prop where
  laid : r.Laid
  adds : ∀ b ∈ bindings, ∀ v ∈ Graph.argumentVariables r b, ∀ t, v.transform = some t →
    t.AddsTo (v.span r.totalScalars.toNat).2

section Additive

variable [AddMonoid α] {r : Registry α} {bindings : List (Binding α)} {n : Nat}

/-- A slice of natural dimensions has the size that the transform asks for. -/
theorem Transform.Adds.addsTo_span {t : Transform α} (h : t.Adds) {v : Variable α}
    (hlies : v.LiesIn n) (hfits : v.Fits) (ht : v.transform = some t) :
    t.AddsTo (v.span n).2 := by
  rw [hlies.span_eq, ← (hfits.transform_dimensions ht).2]
  exact h.addsTo

/-- Bindings have nothing else to do with it if all transforms add what they pull back. -/
theorem Registry.Laid.additive (h : r.Laid)
    (hadds : ∀ v ∈ r.entries, ∀ t, v.transform = some t → t.Adds) (bindings : List (Binding α)) :
    r.Additive bindings where
  laid := h
  adds _ _ v hv t ht :=
    have hmem := Graph.mem_of_mem_argumentVariables hv
    have hnatural := h.natural fun v hv t ht ↦ (hadds v hv t ht).natural
    (hadds v hmem t ht).addsTo_span (h.liesIn hnatural hmem) (h.fits v hmem) ht

/-- Arguments are told by their indices. -/
theorem Registry.Additive.of_indices (h : r.Additive bindings) {bindings' : List (Binding α)}
    (hindices : ∀ b ∈ bindings', ∃ c ∈ bindings, c.indices = b.indices) :
    r.Additive bindings' where
  laid := h.laid
  adds b hb := by
    obtain ⟨c, hc, hsame⟩ := hindices b hb
    rw [Graph.argumentVariables, ← hsame]
    exact h.adds c hc

theorem Registry.Additive.mono (h : r.Additive bindings) {bindings' : List (Binding α)}
    (hsubset : ∀ b ∈ bindings', b ∈ bindings) : r.Additive bindings' :=
  h.of_indices fun b hb ↦ ⟨b, hsubset b hb, rfl⟩

/-- Scratch values have no part in it. -/
theorem Registry.Additive.of_bare (h : r.Additive bindings) {s : Registry α}
    (hentries : r.entries.map Variable.bare = s.entries.map Variable.bare)
    (htotal : r.totalScalars = s.totalScalars) : s.Additive bindings where
  laid := h.laid.of_bare hentries htotal
  adds b hb v hv t ht := by
    obtain ⟨w, hw, hbare⟩ := Objective.exists_argument_of_bare hentries hv
    have hspan : w.span r.totalScalars.toNat = v.span s.totalScalars.toNat := by
      rw [htotal]
      exact (congrArg (fun u : Variable α ↦ u.span s.totalScalars.toNat) hbare :)
    exact hspan ▸ h.adds b hb w hw t ((congrArg Variable.transform hbare :).trans ht)

section Arguments

variable {b : Binding α} {v : Variable α}

/-- What is added to a slice is what is added to zeros. -/
theorem Registry.Additive.addedTo_eq (h : r.Additive bindings) (hb : b ∈ bindings)
    (hv : v ∈ Graph.argumentVariables r b) {out point g : List α}
    (hg : g.length = v.userDimension) (hout : out.length = (v.span r.totalScalars.toNat).2) :
    v.addedTo out point g =
      (v.addedTo (Buffer.zeros (v.span r.totalScalars.toNat).2) point g).map (Buffer.add out) := by
  have hfits := h.laid.fits v (Graph.mem_of_mem_argumentVariables hv)
  rw [Variable.addedTo, Variable.addedTo]
  rcases ht : v.transform with - | t
  · rw [← hout]
    exact Grid.combine_add_vector out g
  · have hadds := h.adds b hb v hv t ht
    have houtput : (g.length : Int) = t.outputDimension := by
      rw [hg, (hfits.transform_dimensions ht).1]
    dsimp only
    rw [hadds.project hout houtput, ← Transform.pulledTo]
    rcases hc : t.pulledTo (v.span r.totalScalars.toNat).2 point g with failure | c
    · rfl
    · have hlength := hadds.length houtput hc
      apply congrArg Except.ok
      rw [Buffer.conform_of_length_eq (by simp [hout, hlength]),
        Buffer.conform_of_length_eq (by simp [hlength])]

/-- The gradient of an argument is added to its slice. -/
theorem Registry.Additive.complete_scatterOne (h : r.Additive bindings) (hb : b ∈ bindings)
    (hv : v ∈ Graph.argumentVariables r b) {x g accumulator : List α}
    (hg : g.length = v.userDimension) (hlength : accumulator.length = r.totalScalars.toNat) :
    (Binding.scatterOne v g x accumulator).complete =
      (v.addedTo (Buffer.zeros (v.span r.totalScalars.toNat).2) (v.slice x) g).map fun c ↦
        Buffer.add accumulator (v.embed r.totalScalars.toNat c) := by
  rw [Binding.complete_scatterOne,
    h.addedTo_eq hb hv hg (v.length_slice_eq_span hlength)]
  rcases hc : v.addedTo (Buffer.zeros (v.span r.totalScalars.toNat).2) (v.slice x) g
    with failure | c
  · rfl
  · have hc := (Variable.length_addedTo hc).trans (Buffer.length_zeros _)
    exact congrArg Except.ok (v.setSlice_add hlength hc)

end Arguments

/-! ### All gradients of a binding -/

omit [AddMonoid α] in
/-- The gradients of the first argument and then the others are added. -/
theorem Binding.complete_scatter_cons [Add α] (x : List α) (v : Variable α)
    (vars : List (Variable α))
    (g : List α) (gradients : List (List α)) (accumulator : List α) :
    (scatter x (v :: vars) (g :: gradients) accumulator).complete =
      (scatterOne v g x accumulator).complete >>= fun next ↦
        (scatter x vars gradients next).complete := by
  rw [scatter]
  rcases hfailure : (scatterOne v g x accumulator).failure with - | failure
  · rw [Progress.complete_of_no_failure hfailure]
    rfl
  · rw [Progress.complete_of_failure hfailure]
    rfl

/-- The buffers have the sizes of the arguments. -/
theorem Binding.map_length_evaluated (mode : Mode) (r : Registry α) (b : Binding α) :
    (b.evaluated mode r).1.map List.length =
      (Graph.argumentVariables r b).map Variable.userDimension := by
  have hclean : (cleanBuffers (Graph.argumentVariables r b) : List (List α)).map List.length =
      (Graph.argumentVariables r b).map Variable.userDimension := by
    simp [cleanBuffers, Function.comp_def]
  cases mode <;> cases hb : b.hessianBlocks <;>
    simp only [evaluated, derivatives, hb, Buffer.map_length_conformAll, hclean]

/-- The gradients of all arguments are added to any accumulator as they are to another. -/
theorem Registry.Additive.complete_scatter_add (h : r.Additive bindings) {c : Binding α}
    (hc : c ∈ bindings) (x : List α) {vars : List (Variable α)} {gradients : List (List α)}
    (hvars : ∀ v ∈ vars, v ∈ Graph.argumentVariables r c)
    (hlengths : gradients.map List.length = vars.map Variable.userDimension) {a b : List α}
    (ha : a.length = r.totalScalars.toNat) (hb : b.length = r.totalScalars.toNat) :
    (Binding.scatter x vars gradients (Buffer.add a b)).complete =
      (Binding.scatter x vars gradients b).complete.map (Buffer.add a) := by
  induction vars generalizing gradients b with
  | nil =>
    obtain rfl : gradients = [] := by simpa using hlengths
    rfl
  | cons v vars ih =>
    obtain - | ⟨g, gradients⟩ := gradients
    · simp at hlengths
    obtain ⟨hg, hlengths⟩ := List.cons.inj hlengths
    have hv := hvars v List.mem_cons_self
    rw [Binding.complete_scatter_cons, Binding.complete_scatter_cons,
      h.complete_scatterOne hc hv hg (by simp [ha, hb]), h.complete_scatterOne hc hv hg hb]
    rcases v.addedTo (Buffer.zeros (v.span r.totalScalars.toNat).2) (v.slice x) g with failure | c
    · rfl
    · have hnext := ih (fun w hw ↦ hvars w (List.mem_cons_of_mem v hw)) hlengths
        (b := Buffer.add b (v.embed r.totalScalars.toNat c)) (by simp [hb])
      rw [← Buffer.add_assoc] at hnext
      exact hnext

end Additive

/-! ### Sums of bindings -/

section Sums

variable [AddMonoid α] [Storable α] {r : Registry α} {bindings : List (Binding α)}

/-- A binding adds the same to all sums. -/
theorem Registry.Additive.accumulate_add (h : r.Additive bindings) (mode : Mode) (x : List α)
    {b : Binding α} (hb : b ∈ bindings) {s t : Sums α} (hs : s.2.length = r.totalScalars.toNat)
    (ht : t.2.length = r.totalScalars.toNat) :
    b.accumulate mode r x (s.add t) = (b.accumulate mode r x t).map s.add := by
  by_cases hmode : mode = .value
  · subst hmode
    simp only [Binding.accumulate]
    rcases b.term.value ((Graph.argumentVariables r b).map Variable.scratch) >>=
      Outcome.toScalar with failure | value
    · rfl
    · exact congrArg Except.ok (Prod.ext (AddSemigroup.add_assoc _ _ _) rfl)
  · have hscatter := h.complete_scatter_add hb x (fun _ hv ↦ hv)
      (b.map_length_evaluated mode r) hs ht
    rw [Binding.accumulate_of_ne_value hmode, Binding.accumulate_of_ne_value hmode]
    dsimp only [Sums.add]
    rw [hscatter]
    rcases (b.evaluated mode r).2.2 >>= Outcome.toScalar with failure | value
    · rfl
    rcases (Binding.scatter x (Graph.argumentVariables r b) (b.evaluated mode r).1
      t.2).complete with failure | gradient
    · rfl
    · exact congrArg Except.ok (Prod.ext (AddSemigroup.add_assoc _ _ _) rfl)

namespace Binding

/-- Bindings one after another add the same to all sums. -/
theorem accumulateFrom_add (h : r.Additive bindings) (mode : Mode) (x : List α) (position : Nat)
    {s t : Sums α} (hs : s.2.length = r.totalScalars.toNat)
    (ht : t.2.length = r.totalScalars.toNat) :
    accumulateFrom mode r x position bindings (s.add t) =
      (accumulateFrom mode r x position bindings t).map s.add := by
  induction bindings generalizing position t with
  | nil => rfl
  | cons b bindings ih =>
    rw [accumulateFrom, accumulateFrom, h.accumulate_add mode x List.mem_cons_self hs ht]
    rcases hb : b.accumulate mode r x t with failure | u
    · rfl
    · exact ih (h.mono fun c hc ↦ List.mem_cons_of_mem b hc) _ ((length_accumulate hb).trans ht)

/-- Sums go on where the bindings before have left them. -/
theorem accumulateFrom_append (mode : Mode) (x : List α) (position : Nat)
    (earlier later : List (Binding α)) (s : Sums α) :
    accumulateFrom mode r x position (earlier ++ later) s =
      accumulateFrom mode r x position earlier s >>=
        accumulateFrom mode r x (position + earlier.length) later := by
  induction earlier generalizing position s with
  | nil => rfl
  | cons b earlier ih =>
    rw [List.cons_append, accumulateFrom, accumulateFrom]
    rcases b.accumulate mode r x s with failure | t
    · rfl
    · dsimp only
      rw [ih, List.length_cons, Nat.add_right_comm, Nat.add_assoc]

theorem length_accumulateFrom {mode : Mode} {x : List α} {position : Nat}
    {bindings : List (Binding α)} {s t : Sums α}
    (h : accumulateFrom mode r x position bindings s = .ok t) : t.2.length = s.2.length := by
  induction bindings generalizing position s with
  | nil =>
    cases h
    rfl
  | cons b bindings ih =>
    rw [accumulateFrom] at h
    rcases hb : b.accumulate mode r x s with failure | u <;> rw [hb] at h
    · cases h
    · exact (ih h).trans (length_accumulate hb)

end Binding

/-! ### Sums of chunks -/

/-- Chunks that stand side by side, each summed from nothing and then added to what was there
before, come to what their bindings come to in order. -/
theorem Chunk.Tile.map_foldl_accumulateFrom (h : r.Additive bindings) (mode : Mode) (x : List α)
    {first last : Nat} {chunks : List Chunk}
    (tile : Tile first last chunks) (hlast : last ≤ bindings.length) {s : Sums α}
    (hs : s.2.length = r.totalScalars.toNat) :
    (chunks.mapM fun c ↦ Binding.accumulateFrom mode r x c.start.toNat (c.cut bindings)
        (Sums.none r.totalScalars.toNat)).map (List.foldl Sums.add s) =
      Binding.accumulateFrom mode r x first (chunks.flatMap (·.cut bindings)) s := by
  induction tile generalizing s with
  | nil => rfl
  | @cons first middle last rest hle tail ih =>
    have hmiddle := tail.le
    have hcut : (cut ⟨first, middle⟩ bindings).length = middle - first := by
      simp only [cut, length, List.length_take, List.length_drop]
      omega
    have hpart : r.Additive (cut ⟨first, middle⟩ bindings) :=
      h.mono fun _ hb ↦ Chunk.mem_of_mem_cut hb
    have hchunk := Binding.accumulateFrom_add hpart mode x first hs
      (t := Sums.none r.totalScalars.toNat) (Buffer.length_zeros _)
    rw [Sums.add_none hs] at hchunk
    rw [List.mapM_cons, List.flatMap_cons, Binding.accumulateFrom_append, hchunk, hcut,
      Nat.add_sub_cancel' hle]
    simp only [Int.toNat_natCast]
    rcases hu : Binding.accumulateFrom mode r x first (cut ⟨first, middle⟩ bindings)
      (Sums.none r.totalScalars.toNat) with failure | u
    · rfl
    · have hlength := Binding.length_accumulateFrom hu
      have hrest := ih hlast (s := s.add u) (by
        simp only [Sums.none, Buffer.length_zeros] at hlength
        simp [Sums.add, hs, hlength])
      -- The sums of the first chunk go in front of those of the others.
      have push (us : Except (Nat × Failure) (List (Sums α))) :
          (us >>= fun us ↦ pure (u :: us)).map (List.foldl Sums.add s) =
            us.map (List.foldl Sums.add (s.add u)) := by
        cases us <;> rfl
      exact (push _).trans hrest

/-- However many workers there are, the sums of their chunks together are those of all bindings in
order. -/
theorem Objective.map_combine_chunkSums {o : Objective α} (hworkers : 1 ≤ o.workerCount)
    (h : r.Additive o.graph.bindings) (htotal : r.totalScalars = o.totalScalars) (mode : Mode)
    (x : List α) :
    (o.chunkSums mode r x).map (Sums.combine o.totalScalars.toNat) =
      Binding.accumulateFrom mode r x 0 o.graph.bindings (Sums.none o.totalScalars.toNat) := by
  have htile := tile_partition o.graph.size hworkers
  have hsums := htile.map_foldl_accumulateFrom h mode x (Nat.le_refl o.graph.bindings.length)
    (s := Sums.none r.totalScalars.toNat) (Buffer.length_zeros _)
  rw [Graph.size, flatMap_cut_partition o.graph.bindings hworkers, htotal] at hsums
  exact hsums

end Sums

/-! ### Results put together -/

section Results

variable [AddMonoid α] [Storable α]

namespace Objective

omit [Storable α] in
/-- The values of all chunks come to the value of all sums together. -/
theorem total_eq_combine (n : Nat) (sums : List (Sums α)) :
    total sums = (Sums.combine n sums).1 := (Sums.fst_foldl_add sums (Sums.none n)).symm

/-- Vectors that are added to an exact buffer are added entry by entry. -/
theorem sumGradients_eq_foldl [ExactStorage α] (element : ElementType) {n : Nat}
    {gradients : List (List α)} (h : ∀ g ∈ gradients, g.length = n) :
    sumGradients element n gradients = gradients.foldl Buffer.add (Buffer.zeros n) := by
  have hnarrow : (fun a b : α ↦ Storable.narrow element (a + b)) = (· + ·) := by
    funext a b
    exact ExactStorage.narrow_eq element _
  have key {sum : List α} (hsum : sum.length = n) :
      gradients.foldl (fun sum g ↦ Buffer.combinePart (· + ·) 0 g sum) sum =
        gradients.foldl Buffer.add sum := by
    induction gradients generalizing sum with
    | nil => rfl
    | cons g gradients ih =>
      have hg := h g List.mem_cons_self
      rw [List.foldl_cons, List.foldl_cons, Buffer.combinePart_zero (hg.trans hsum.symm)]
      exact ih (fun f hf ↦ h f (List.mem_cons_of_mem g hf)) (by simp [hg, hsum])
  rw [sumGradients, hnarrow]
  exact key (Buffer.length_zeros n)

/-- The gradients of all workers, those of workers without a chunk included, come to the gradient of
all sums together. -/
theorem sumGradients_eq_combine [ExactStorage α] (element : ElementType) {n : Nat}
    {sums : List (Sums α)} (h : ∀ s ∈ sums, s.2.length = n) (idle : Nat) :
    sumGradients element n (sums.map Prod.snd ++ List.replicate idle (Buffer.zeros n)) =
      (Sums.combine n sums).2 := by
  have hsums : ∀ g ∈ sums.map Prod.snd, g.length = n := by
    intro g hg
    obtain ⟨s, hs, rfl⟩ := List.mem_map.1 hg
    exact h s hs
  have hlength := Buffer.length_foldl_add hsums (Buffer.length_zeros n)
  rw [sumGradients_eq_foldl, List.foldl_append, Buffer.foldl_add_replicate_zeros hlength,
    Sums.combine, Sums.snd_foldl_add]
  · rfl
  · intro g hg
    rcases List.mem_append.1 hg with hg | hg
    · exact hsums g hg
    · rw [List.eq_of_mem_replicate hg, Buffer.length_zeros]

/-- The gradients of all chunks have the length of the flat vector. -/
theorem length_of_mem_chunkSums {o : Objective α} {mode : Mode} {r : Registry α} {x : List α}
    {sums : List (Sums α)} (h : o.chunkSums mode r x = .ok sums) :
    ∀ s ∈ sums, s.2.length = o.totalScalars.toNat := by
  rw [chunkSums] at h
  generalize partition o.graph.size o.workerCount = chunks at h
  induction chunks generalizing sums with
  | nil =>
    cases h
    simp
  | cons c chunks ih =>
    rw [List.mapM_cons] at h
    obtain ⟨s, hs, h⟩ := bind_eq_ok_iff.1 h
    obtain ⟨rest, hrest, h⟩ := bind_eq_ok_iff.1 h
    cases h
    intro t ht
    rcases List.mem_cons.1 ht with rfl | ht
    · rw [Binding.length_accumulateFrom hs, Buffer.length_zeros]
    · exact ih hrest t ht

theorem length_of_direct {o : Objective α} {mode : Mode} {r : Registry α} {x : List α}
    {sums : List (Sums α)} (h : o.direct mode x = .ok (r, sums)) :
    ∀ s ∈ sums, s.2.length = o.totalScalars.toNat := by
  obtain ⟨⟨⟩, -, h⟩ := bind_eq_ok_iff.1 h
  obtain ⟨registry, -, h⟩ := bind_eq_ok_iff.1 h
  obtain ⟨sums, hsums, h⟩ := bind_eq_ok_iff.1 h
  cases h
  exact length_of_mem_chunkSums (mapError_eq_ok_iff.1 hsums)

end Objective

end Results

end Summand
