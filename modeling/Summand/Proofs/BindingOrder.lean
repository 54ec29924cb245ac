import Summand.Proofs.RegistrationOrder

/-!
# Another order of bindings

Terms may be added to an objective in any order (`Objective.Rearranged`). Evaluations then add up
the same in another order, which exact arithmetic does not notice: the value, the gradient, both
forms of the Hessian and the pattern stay what they are (`Scene.Rearranged.counterparts`). The
number of workers may change as well. Enclosures have no part in this, since sums of intervals are
rounded.

Two bindings that are evaluated one after the other change places without effect
(`Binding.accumulateFrom_perm`), because each of them adds the same to all sums.
-/

namespace Summand

variable {α : Type}

open Registry

/-! ### Sums -/

section Sums

variable [AddCommMonoid α]

theorem Buffer.add_comm (v w : List α) : add v w = add w v :=
  List.zipWith_comm_of_comm fun a b ↦ AddCommMonoid.add_comm a b

theorem Sums.add_comm (s t : Sums α) : add s t = add t s :=
  Prod.ext (AddCommMonoid.add_comm _ _) (Buffer.add_comm _ _)

variable [Storable α] {r : Registry α}

/-- A binding adds to any sums what it adds to nothing. -/
theorem Registry.Additive.accumulate_eq {bindings : List (Binding α)} (h : r.Additive bindings)
    (mode : Mode) (x : List α) {b : Binding α} (hb : b ∈ bindings) {s : Sums α}
    (hs : s.2.length = r.totalScalars.toNat) :
    b.accumulate mode r x s =
      (b.accumulate mode r x (Sums.none r.totalScalars.toNat)).map s.add := by
  rw [← h.accumulate_add mode x hb hs (Buffer.length_zeros _), Sums.add_none hs]

/-- Bindings come to the same sums in any order, or one of them fails in any order. -/
theorem Binding.accumulateFrom_perm {bindings bindings' : List (Binding α)}
    (h : r.Additive bindings) (mode : Mode) (x : List α) (position : ℕ)
    (hperm : bindings.Perm bindings') {s : Sums α}
    (hs : s.2.length = r.totalScalars.toNat) :
    Together Eq (accumulateFrom mode r x position bindings s)
      (accumulateFrom mode r x position bindings' s) := by
  induction hperm generalizing position s with
  | nil => exact .ok rfl
  | cons b _ ih =>
    rw [accumulateFrom, accumulateFrom]
    rcases hb : b.accumulate mode r x s with failure | t
    · exact .error
    · exact ih (h.mono fun c hc ↦ List.mem_cons_of_mem b hc) _ ((length_accumulate hb).trans hs)
  | swap b c rest =>
    have hmem : b ∈ c :: b :: rest := List.mem_cons_of_mem c List.mem_cons_self
    have hmem' : c ∈ c :: b :: rest := List.mem_cons_self
    have hadded {b : Binding α} {t : Sums α}
        (hb : b.accumulate mode r x (Sums.none r.totalScalars.toNat) = .ok t) :
        (s.add t).2.length = r.totalScalars.toNat := by
      have ht := length_accumulate hb
      rw [Sums.none, Buffer.length_zeros] at ht
      rw [Sums.add, Buffer.length_add, hs, ht, Nat.min_self]
    rw [accumulateFrom, accumulateFrom, h.accumulate_eq mode x hmem hs,
      h.accumulate_eq mode x hmem' hs]
    rcases hb : b.accumulate mode r x (Sums.none r.totalScalars.toNat) with failure | t <;>
      rcases hc : c.accumulate mode r x (Sums.none r.totalScalars.toNat) with failure' | u
    · exact .error
    · simp only [Except.map, accumulateFrom, h.accumulate_eq mode x hmem (hadded hc), hb]
      exact .error
    · simp only [Except.map, accumulateFrom, h.accumulate_eq mode x hmem' (hadded hb), hc]
      exact .error
    · simp only [Except.map, accumulateFrom, h.accumulate_eq mode x hmem (hadded hc),
        h.accumulate_eq mode x hmem' (hadded hb), hb, hc]
      rw [Sums.add_assoc, Sums.add_comm u, ← Sums.add_assoc]
      exact .same fun _ _ ↦ rfl
  | trans hperm _ ih ih' =>
    have hmiddle := h.mono fun b hb ↦ hperm.mem_iff.2 hb
    refine ((ih h position hs).trans (ih' hmiddle position hs)).mono ?_
    rintro _ _ - - ⟨_, rfl, rfl⟩
    rfl

end Sums

/-! ### Objectives -/

/-- Two objectives have the same variables at the same places, and the same terms on the same
variables in any order. They differ in nothing else that evaluations in exact arithmetic depend
on. -/
structure Objective.Rearranged [Zero α] (o o' : Objective α) : Prop where
  allowsHessian : o.settings.allowsHessian = o'.settings.allowsHessian
  entries : o.registry.entries.map Variable.bare = o'.registry.entries.map Variable.bare
  refilled : Refilled o.registry o'.registry
  bindings : (o.graph.bindings.map fun b ↦ (b.term, b.indices)).Perm
    (o'.graph.bindings.map fun b ↦ (b.term, b.indices))

namespace Objective

/-- Places are told by variables and bindings that have forgotten their buffers. -/
theorem places_bare [Zero α] (o : Objective α) : o.bare.places = o.places := by
  simp only [places, bare, List.flatMap_map, Binding.places, ← map_bare_argumentVariables]
  rfl

/-- Two sound objectives of natural sizes of which one has its bindings in another order, and whose
transforms add. -/
structure Shuffled [AddMonoid α] (o o' : Objective α) : Prop extends Rearranged o o' where
  sound : o.Sound
  sound' : o'.Sound
  natural : o.registry.Natural
  additive : o.registry.Additive o.graph.bindings

namespace Shuffled

section Checks

variable [AddMonoid α] {o o' : Objective α} (h : Shuffled o o')

include h

theorem natural' : o'.registry.Natural :=
  h.natural.of_bare h.entries

theorem permuted : Permuted o.registry o'.registry :=
  ⟨h.sound.laid, h.sound'.laid, h.natural, h.natural', .of_eq (map_unplaced_of_bare h.entries)⟩

theorem totalScalars_eq : o.totalScalars = o'.totalScalars :=
  h.permuted.totalScalars_eq

theorem totalScalars_nonneg : 0 ≤ o.totalScalars :=
  h.sound.laid.totalScalars_nonneg h.natural

theorem registry_bare : o.bare.registry = o'.bare.registry := by
  have htotal : o.registry.totalScalars = o'.registry.totalScalars := h.totalScalars_eq
  simp only [bare, h.entries, htotal]

/-- What a binding has beside a term and its arguments are blocks of the sizes of these. -/
theorem perm_bare :
    (o.graph.bindings.map Binding.bare).Perm (o'.graph.bindings.map Binding.bare) := by
  have key {o : Objective α} (hsound : o.Sound) : o.graph.bindings.map Binding.bare =
      (o.graph.bindings.map fun b ↦ (b.term, b.indices)).map fun p ↦
        ⟨p.1, p.2, if o.settings.allowsHessian then some (Graph.zeroBlocks p.1.sizes)
          else none⟩ := by
    rw [List.map_map]
    refine List.map_congr_left fun b hb ↦ ?_
    rw [Function.comp_apply, ← (hsound.bound b hb).blocks]
    rfl
  rw [key h.sound, key h.sound', h.allowsHessian]
  exact h.bindings.map _

theorem perm_transform : ((o.graph.boundVariables o.registry).map Variable.transform).Perm
    ((o'.graph.boundVariables o'.registry).map Variable.transform) := by
  have key (o : Objective α) : (o.graph.boundVariables o.registry).map Variable.transform =
      (o.bare.graph.boundVariables o.bare.registry).map Variable.transform := by
    rw [← map_bare_boundVariables, List.map_map]
    rfl
  rw [key o, key o', h.registry_bare]
  exact (h.perm_bare.flatMap_right _).map _

theorem perm_places : o.places.Perm o'.places := by
  rw [← places_bare o, ← places_bare o', places, places, h.registry_bare]
  exact h.perm_bare.flatMap_right _

theorem checkStorage : Together (fun _ _ ↦ True) (checkStorage o) (Objective.checkStorage o') := by
  refine checkStorage_together h.totalScalars_eq ?_ (.of_eq ?_)
  · have harity := h.bindings.map fun p ↦ p.2.length
    rwa [List.map_map, List.map_map] at harity
  · have hdimension := congrArg (List.map Variable.userDimension) h.entries
    rwa [List.map_map, List.map_map] at hdimension

theorem hessianAllowed : Together (fun _ _ ↦ True) o.hessianAllowed o'.hessianAllowed :=
  hessianAllowed_together h.allowsHessian h.perm_transform

theorem patternAllowed : Together (fun _ _ ↦ True) o.patternAllowed o'.patternAllowed :=
  patternAllowed_together h.perm_transform

/-! ### Values of variables -/

/-- The variables of both objectives take the same values at a point. -/
theorem valued_eq (x : List α) : o.registry.valued x = o'.registry.valued x := by
  have htotal : o.registry.totalScalars = o'.registry.totalScalars := h.totalScalars_eq
  have hvalues : o.registry.entries.mapM (Variable.valued · x) =
      o'.registry.entries.mapM (Variable.valued · x) := by
    have hentries := h.entries
    rw [← List.forall₂_eq_eq_eq, List.forall₂_map_left_iff, List.forall₂_map_right_iff] at hentries
    refine mapM_eq_of_forall₂ (((List.forall₂_and_left _ _).2 ⟨fun v hv ↦ hv,
      ((List.forall₂_and_left _ _).2 ⟨fun v hv ↦ hv, hentries.flip⟩).flip⟩).imp ?_)
    rintro v v' ⟨hv, hv', hbare⟩
    have hblock : v.block = v'.block := (congrArg Variable.block hbare :)
    have hoffset : v.offset = v'.offset := (congrArg Variable.offset hbare :)
    have hdimension : v.solverDimension = v'.solverDimension :=
      (congrArg Variable.solverDimension hbare :)
    have htwin : Twin o.registry o'.registry v v' := ⟨hv, hv', hblock⟩
    have hslice : v.slice x = v'.slice x := by
      rw [Variable.slice, Variable.slice, Variable.span, Variable.span, hoffset, hdimension]
    have hfilled (scratch : List α) : { v with scratch } = { v' with scratch } :=
      (congrArg (fun u : Variable α ↦ { u with scratch }) hbare :)
    rw [Variable.valued, Variable.valued,
      h.permuted.complete_scratchAt htwin (h.refilled v v' htwin) hslice]
    exact congrArg (Except.map · _) (funext hfilled)
  rw [Registry.valued, Registry.valued, hvalues, htotal]

/-- So they do at the values of the caller's blocks. -/
theorem blockValued_eq (m : Memory α) : o.blockValued m = o'.blockValued m := by
  have hbare : bare { o with graph := {}, closed := false } =
      bare { o' with graph := {}, closed := false } :=
    bare_eq_of h.allowsHessian h.totalScalars_eq h.entries rfl rfl
  exact blockValued_eq_of_bare hbare m

end Checks

/-! ### Evaluations -/

section Evaluations

variable [AddCommMonoid α] [Storable α] {o o' : Objective α} {mode : Mode}

/-- Evaluations have come to the same values of the variables, and to sums that are the same once
they are put together. -/
structure Corresponds (o : Objective α) (d d' : Registry α × List (Sums α)) : Prop where
  registry : d.1 = d'.1
  combine : Sums.combine o.totalScalars.toNat d.2 = Sums.combine o.totalScalars.toNat d'.2
  length : ∀ s ∈ d.2, s.2.length = o.totalScalars.toNat
  length' : ∀ s ∈ d'.2, s.2.length = o.totalScalars.toNat

omit [Storable α] in
theorem Corresponds.total_eq {d d' : Registry α × List (Sums α)} (h : Corresponds o d d') :
    total d.2 = total d'.2 := by
  rw [total_eq_combine o.totalScalars.toNat, total_eq_combine o.totalScalars.toNat, h.combine]

variable (h : Shuffled o o')

include h

/-- Variables with the same values lead to sums that correspond. -/
theorem evaluated_together {r : Registry α} (x : List α)
    (hr : o.registry.entries.map Variable.bare = r.entries.map Variable.bare ∧
      o.registry.totalScalars = r.totalScalars) :
    Together (Corresponds o)
      (do
        let sums ← (o.chunkSums mode r x).mapError o.termFailure
        return (r, sums))
      (do
        let sums ← (o'.chunkSums mode r x).mapError o'.termFailure
        return (r, sums)) := by
  have hadditive := h.additive.of_bare hr.1 hr.2
  have hadditive' : r.Additive o'.graph.bindings := hadditive.of_indices fun b hb ↦ by
    obtain ⟨c, hc, hsame⟩ := List.mem_map.1 (h.bindings.mem_iff.2 (List.mem_map_of_mem hb))
    exact ⟨c, hc, congrArg Prod.snd hsame⟩
  have hbare : r.Additive (o.graph.bindings.map Binding.bare) :=
    hadditive.of_indices (List.forall_mem_map.2 fun b hb ↦ ⟨b, hb, rfl⟩)
  have htotal : r.totalScalars = o.totalScalars := hr.2.symm
  have hperm := Binding.accumulateFrom_perm hbare mode x 0 h.perm_bare
    (s := Sums.none r.totalScalars.toNat) (Buffer.length_zeros _)
  rw [Binding.accumulateFrom_map_bare, Binding.accumulateFrom_map_bare, htotal,
    ← map_combine_chunkSums h.sound.workers hadditive htotal mode x, h.totalScalars_eq,
    ← map_combine_chunkSums h.sound'.workers hadditive' (htotal.trans h.totalScalars_eq) mode x,
    ← h.totalScalars_eq] at hperm
  refine (hperm.of_map.mapError o.termFailure o'.termFailure).bind ?_
  intro sums sums' hs hs' hcombine
  refine .ok ⟨rfl, hcombine, length_of_mem_chunkSums (mapError_eq_ok_iff.1 hs), ?_⟩
  rw [h.totalScalars_eq]
  exact length_of_mem_chunkSums (mapError_eq_ok_iff.1 hs')

/-- Evaluations at one point come to results that correspond, or fail together. -/
theorem direct (x : List α) : Together (Corresponds o) (o.direct mode x) (o'.direct mode x) := by
  rw [Objective.direct, Objective.direct, ← h.valued_eq x]
  refine h.checkStorage.bind fun _ _ _ _ _ ↦ Together.bind (R := Eq) (.same fun _ _ ↦ rfl) ?_
  rintro r _ hr - rfl
  exact h.evaluated_together x (map_bare_valued hr)

/-- The same holds of values alone, at one point or at the values of the caller's blocks. -/
theorem directValue {m m' : Memory α} {y y' : Option (GivenPoint α)} (hm : y = none → m = m')
    (hy : (y = none ∧ y' = none) ∨ ∃ p p', y = some p ∧ y' = some p' ∧
      Together Eq (pointOf o.totalScalars p) (pointOf o.totalScalars p')) :
    Together (Corresponds o) (o.directValue m y) (o'.directValue m' y') := by
  have hvalued : Together Eq (o.valuedAt m y) (o'.valuedAt m' y') := by
    obtain ⟨rfl, rfl⟩ | ⟨p, p', rfl, rfl, hp⟩ := hy
    · obtain rfl := hm rfl
      exact .ok (h.blockValued_eq m)
    · rw [valuedAt, valuedAt, ← h.totalScalars_eq]
      refine hp.bind ?_
      rintro x _ - - rfl
      rw [h.valued_eq x]
      exact .same fun _ _ ↦ rfl
  rw [Objective.directValue, Objective.directValue]
  refine h.checkStorage.bind fun _ _ _ _ _ ↦ hvalued.bind ?_
  rintro r _ hr - rfl
  exact h.evaluated_together [] (map_bare_valuedAt h.sound hr)

omit [Storable α] in
/-- Entries can be placed in both objectives or in none, and come to one pattern. -/
theorem placement [OfNat α 1]
    {arrangement arrangement' : List (List (ℕ × α)) → List (List (ℕ × α))}
    (harrangement : SparseMatrix.Permutes arrangement)
    (harrangement' : SparseMatrix.Permutes arrangement')
    (hallowed : o.patternAllowed = .ok ()) (hallowed' : o'.patternAllowed = .ok ()) :
    Together (fun places places' ↦ places.length = places'.length ∧
      SparseMatrix.assemble arrangement o.totalScalars.toNat places
          (List.replicate places.length (1 : α)) =
        .assemble arrangement' o.totalScalars.toNat places' (List.replicate places.length 1))
      o.placement o'.placement := by
  have hplain := h.sound.plain h.natural (patternAllowed_eq_ok_iff.1 hallowed)
  have hplain' := h.sound'.plain h.natural' (patternAllowed_eq_ok_iff.1 hallowed')
  refine (hplain.placement_together hplain' h.totalScalars_eq h.totalScalars_nonneg).mono ?_
  rintro _ _ - - ⟨rfl, rfl⟩
  have hlength := h.perm_places.length_eq
  refine ⟨hlength, ?_⟩
  nth_rewrite 2 [hlength]
  refine harrangement.assemble_eq harrangement' _ fun i j ↦ .of_eq ?_
  rw [SparseMatrix.valuesAt_zip_ones, SparseMatrix.valuesAt_zip_ones, h.perm_places.count_eq]

end Evaluations

end Shuffled

end Objective

/-! ### Queries -/

/-- Results are the same. Nothing is said about enclosures. -/
def Likeness.same : Likeness α where
  vector := Eq
  matrix := Eq
  hessian _ _ := Eq
  pattern := Eq
  box _ _ := False

section Queries

open Objective

variable [AddCommMonoid α] [OfNat α 1] [Storable α] {s s' : Scene α}

/-- Two objectives of which one has its bindings in another order, on platforms that may sort
columns in any way. -/
structure Scene.Shuffled (s s' : Scene α) : Prop
    extends s.objective.Shuffled s'.objective where
  permutes : SparseMatrix.Permutes s.platform.arrangement
  permutes' : SparseMatrix.Permutes s'.platform.arrangement

namespace Scene.Shuffled

variable (h : Shuffled s s')

include h

omit [OfNat α 1] in
theorem computed [ExactStorage α] {mode : Mode} {d d' : Registry α × List (Sums α)}
    {r r' : α × List (List α)} {t t' : Scene α}
    (hallowed : mode = .hessian → s.objective.hessianAllowed = .ok () ∧
      s'.objective.hessianAllowed = .ok ())
    (hd : Objective.Shuffled.Corresponds s.objective d d')
    (ht : Collected mode s d r t) (ht' : Collected mode s' d' r' t') :
    Likeness.same.Computed mode s s' r r' t t' := by
  have hn := (Int.toNat_of_nonneg h.totalScalars_nonneg).symm
  have hassemblable (hmode : mode = .hessian) : t.objective.Assemblable ∧
      t'.objective.Assemblable :=
    ⟨assemblable_of_allowed ht.evaluated h.sound h.natural (hallowed hmode).1,
      assemblable_of_allowed ht'.evaluated h.sound' h.natural' (hallowed hmode).2⟩
  have hbindings (hmode : mode = .hessian) :
      t.objective.graph.bindings.Perm t'.objective.graph.bindings := by
    have key (bindings : List (Binding α)) (r : Registry α) :
        bindings.map (Binding.afterward .hessian r) =
          (bindings.map Binding.bare).map (Binding.afterward .hessian r) := by
      rw [List.map_map]
      exact List.map_congr_left fun b _ ↦ (Binding.afterward_hessian_bare r b).symm
    rw [ht.bindings, ht'.bindings, hmode, hd.registry, key, key s'.objective.graph.bindings]
    exact h.perm_bare.map _
  have hgiven (hmode : mode = .hessian) (i j : ℕ) :
      (t.objective.contributions i j).Perm (t'.objective.contributions i j) := by
    rw [contributions, contributions, ht.registry, ht'.registry, hd.registry]
    exact (hbindings hmode).flatMap_right _
  refine computed_of_assemblable hn (h.totalScalars_eq ▸ hn) ht.evaluated ht'.evaluated hassemblable
    ?_ (fun element ↦ ?_) (fun hmode element ↦ ?_) (fun hmode ↦ ?_) fun hmode ↦ ?_
  · rw [ht.value, ht'.value, hd.total_eq]
  · rw [ht.gradients, ht'.gradients, ← h.totalScalars_eq, sumGradients_eq_combine element hd.length,
      sumGradients_eq_combine element hd.length', hd.combine]
    rfl
  · have hsum : storedSum (α := α) element = (· + ·) := by
      funext a b
      exact ExactStorage.narrow_eq element _
    rw [hsum]
    exact square_congr fun i _ j _ ↦ (hgiven hmode i j).foldl_eq 0
  · exact ((hbindings hmode).flatMap_right _).length_eq
  · obtain ⟨hplain, hplain'⟩ := hassemblable hmode
    refine h.permutes.assemble_eq h.permutes' _ fun i j ↦ ?_
    rw [hplain.valuesAt_zip_places, hplain'.valuesAt_zip_places]
    exact hgiven hmode i j

theorem counterparts [ExactStorage α] (hopen : s.objective.closed = false)
    (hopen' : s'.objective.closed = false) : Counterparts Likeness.same s s' where
  sound := h.sound
  sound' := h.sound'
  isOpen := hopen
  isOpen' := hopen'
  total := h.totalScalars_eq
  allowed := h.hessianAllowed
  patternAllowed := h.patternAllowed
  placement := h.placement h.permutes h.permutes'
  value x x' hx := related_evaluateValue h.sound h.sound'
    (h.directValue nofun (.inr ⟨x, x', rfl, rfl, hx⟩)) fun _ _ hd ↦ hd.total_eq
  user hm := related_evaluateValue h.sound h.sound'
    (h.directValue (fun _ ↦ hm) (.inl ⟨rfl, rfl⟩)) fun _ _ hd ↦ hd.total_eq
  workers mode hmode hallowed x x' hx := by
    obtain rfl : x = x' := hx
    exact .of_together (realizes_evaluateWorkers h.sound hmode x)
      (realizes_evaluateWorkers h.sound' hmode x) (h.direct x)
      fun _ _ _ _ _ _ _ _ hd ht ht' ↦ h.computed hallowed hd ht ht'
  enclosed _ _ hsides := hsides.elim

end Scene.Shuffled

end Queries

end Summand
