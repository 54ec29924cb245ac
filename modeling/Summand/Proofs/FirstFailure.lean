import Summand.Proofs.History
import Summand.Proofs.Outcome
import Summand.Transform.Elementwise

/-!
# The failure that is reported

A binding fails on its own account: its term fails, what the term returns is no number, or one of
its gradients cannot be pulled back (`Binding.failure?`). Each worker stops at the first of its
bindings that fails, and the first worker that has failed is asked why. That comes to the first
binding of the graph that fails, wherever the chunks begin (`Objective.failureOf_chunkSums`).

All that is asked of transforms is that it does not depend on the numbers in an accumulator whether
a gradient can be added to it (`Transform.Steady`).
-/

namespace Summand

variable {α : Type}

/-! ### Failures of computations -/

section Failures

variable {ε β γ : Type}

/-- What a computation fails with, if it does. -/
def failureOf : Except ε β → Option ε
  | .error e => some e
  | .ok _ => none

/-- A chain fails as its first part does, or else as the rest does, whatever that begins with. -/
theorem failureOf_bind {c : Except ε β} {f : β → Except ε γ} {rest : Option ε}
    (h : ∀ r, c = .ok r → failureOf (f r) = rest) :
    failureOf (c >>= f) = (failureOf c).or rest := by
  cases c with
  | error e => rfl
  | ok r => exact h r rfl

/-- Going on without another step does not fail. -/
theorem failureOf_bind_pure (c : Except ε β) (f : β → γ) :
    failureOf (do return f (← c)) = failureOf c := by
  cases c <;> rfl

@[simp] theorem failureOf_complete {σ : Type} (p : Progress σ) :
    failureOf p.complete = p.failure := by
  unfold Progress.complete
  cases p.failure <;> rfl

theorem Progress.failure_once {σ : Type} (step : σ → Except Failure σ) (state : σ) :
    (once step state).failure = failureOf (step state) := by
  rw [← failureOf_complete, complete_once]

end Failures

/-! ### Adding to accumulators -/

/-- Whether a vector can be added in place does not depend on the numbers that are there. -/
theorem Grid.failureOf_combine_vector (f : α → α → α) {a b : List α} (h : a.length = b.length)
    (g : Grid α) :
    failureOf ((vector a).combine f g) = failureOf ((vector b).combine f g) := by
  rw [combine, combine, shape_vector, shape_vector, h]
  split
  · rfl
  split
  · rfl
  · rw [failureOf_bind_pure, failureOf_bind_pure]

/-- Whether a gradient can be pulled back, and why not, does not depend on the numbers in the
accumulator that it is added to. -/
def Transform.Steady (t : Transform α) : Prop :=
  ∀ a b point gradient : List α, a.length = b.length →
    (t.projectedVector a point gradient).failure = (t.projectedVector b point gradient).failure

/-- Transforms by scalar maps are steady. -/
theorem Elementwise.steady [Add α] [Mul α] (id : Nat) (e : Elementwise α) :
    (e.toTransform id).Steady := by
  intro a b point gradient hlength
  show (Progress.once (e.addGradient (.vector point) (.vector gradient)) (.vector a)).failure =
    (Progress.once (e.addGradient (.vector point) (.vector gradient)) (.vector b)).failure
  rw [Progress.failure_once, Progress.failure_once, addGradient, addGradient]
  rcases Grid.zipWith (· * ·) (.vector gradient) ((Grid.vector point).map e.derivative) with
    failure | product
  · rfl
  · exact Grid.failureOf_combine_vector _ hlength product

/-- All transforms of a registry are steady. -/
def Registry.Steady (r : Registry α) : Prop :=
  ∀ v ∈ r.entries, ∀ t, v.transform = some t → t.Steady

/-- Slices of vectors of one length are of one length. -/
theorem Variable.length_slice_congr (v : Variable α) {a b : List α} (h : a.length = b.length) :
    (v.slice a).length = (v.slice b).length := by
  rw [slice, slice, h, Buffer.length_part, Buffer.length_part, h]

namespace Binding

section Scatter

variable [Add α] {x : List α} {a b : List α}

theorem failure_scatterOne_congr {v : Variable α} (hv : ∀ t, v.transform = some t → t.Steady)
    (g : List α) (h : a.length = b.length) :
    (scatterOne v g x a).failure = (scatterOne v g x b).failure := by
  have hslice := v.length_slice_congr h
  rw [scatterOne, scatterOne]
  rcases ht : v.transform with - | t
  · dsimp only
    rw [Progress.failure_once, Progress.failure_once, failureOf_bind_pure, failureOf_bind_pure]
    exact Grid.failureOf_combine_vector _ hslice _
  · exact hv t ht _ _ _ _ hslice

/-- Whether gradients can be added, one after another, does not depend on the numbers that they are
added to. -/
theorem failure_scatter_congr {vars : List (Variable α)}
    (hvars : ∀ v ∈ vars, ∀ t, v.transform = some t → t.Steady) (gradients : List (List α))
    (h : a.length = b.length) :
    (scatter x vars gradients a).failure = (scatter x vars gradients b).failure := by
  induction vars generalizing gradients a b with
  | nil => rfl
  | cons v vars ih =>
    obtain - | ⟨g, gradients⟩ := gradients
    · rfl
    have hfirst := failure_scatterOne_congr (x := x) (hvars v List.mem_cons_self) g h
    have hrest := ih (fun w hw ↦ hvars w (List.mem_cons_of_mem v hw)) gradients
      (a := (scatterOne v g x a).state) (b := (scatterOne v g x b).state) (by simp [h])
    rw [scatter, scatter, hfirst]
    split
    · exact hfirst
    · exact hrest

end Scatter

/-! ### Failing bindings -/

variable [Zero α] [Add α] [Storable α] {work : Work α}

/-- What a binding fails with in an evaluation, if it does: its term fails, or what the term returns
is no number, or the gradient of an argument cannot be added. -/
def failure? (work : Work α) (b : Binding α) : Option Failure :=
  let vars := Graph.argumentVariables work.registry b
  match work.mode with
  | .value => failureOf (b.term.value (vars.map Variable.scratch) >>= Outcome.toScalar)
  | mode =>
    let (buffers, _, result) := b.evaluated mode work.registry
    (failureOf (result >>= Outcome.toScalar)).or
      (scatter work.point vars buffers (Buffer.zeros work.registry.totalScalars.toNat)).failure

/-- The first binding of a list that fails, counted from a position, and its failure. -/
def firstFailure (work : Work α) : (position : Nat) → List (Binding α) → Option (Nat × Failure)
  | _, [] => none
  | position, b :: rest =>
    ((b.failure? work).map (position, ·)).or (firstFailure work (position + 1) rest)

theorem firstFailure_append (position : Nat) (earlier later : List (Binding α)) :
    firstFailure work position (earlier ++ later) =
      (firstFailure work position earlier).or
        (firstFailure work (position + earlier.length) later) := by
  induction earlier generalizing position with
  | nil => rfl
  | cons b earlier ih =>
    rw [List.cons_append, firstFailure, firstFailure, ih, Option.or_assoc, List.length_cons,
      Nat.add_right_comm, Nat.add_assoc]

/-- If none is reported, none fails. -/
theorem firstFailure_eq_none_iff {position : Nat} {bindings : List (Binding α)} :
    firstFailure work position bindings = none ↔ ∀ b ∈ bindings, b.failure? work = none := by
  induction bindings generalizing position with
  | nil => simp [firstFailure]
  | cons b rest ih => rw [firstFailure, Option.or_eq_none_iff, ih]; simp

/-- The one that is reported fails, and no earlier one does. -/
theorem firstFailure_eq_some {position i : Nat} {bindings : List (Binding α)} {cause : Failure}
    (h : firstFailure work position bindings = some (i, cause)) :
    ∃ k b, i = position + k ∧ bindings[k]? = some b ∧ b.failure? work = some cause ∧
      ∀ j < k, ∀ b', bindings[j]? = some b' → b'.failure? work = none := by
  induction bindings generalizing position with
  | nil => cases h
  | cons b rest ih =>
    rw [firstFailure] at h
    rcases hb : b.failure? work with - | failure <;> rw [hb] at h
    · obtain ⟨k, b', rfl, hget, hfails, hearlier⟩ := ih h
      refine ⟨k + 1, b', by omega, hget, hfails, ?_⟩
      rintro (- | j) hj b'' hb''
      · obtain rfl := Option.some.inj hb''
        exact hb
      · exact hearlier j (Nat.lt_of_succ_lt_succ hj) b'' hb''
    · cases h
      exact ⟨0, b, rfl, rfl, hb, fun j hj ↦ absurd hj (Nat.not_lt_zero j)⟩

/-! ### Sums of bindings -/

/-- Whatever the sums are, a binding fails to be added to them as it fails on its own account. -/
theorem failureOf_accumulate (h : work.registry.Steady) (b : Binding α) {sums : α × List α}
    (hsums : sums.2.length = work.registry.totalScalars.toNat) :
    failureOf (b.accumulate work.mode work.registry work.point sums) = b.failure? work := by
  obtain ⟨mode, point, registry⟩ := work
  by_cases hmode : mode = .value
  · subst hmode
    exact failureOf_bind_pure _ _
  · have hvars (v : Variable α) (hv : v ∈ Graph.argumentVariables registry b) :=
      h v (Graph.mem_of_mem_argumentVariables hv)
    have hfailure : b.failure? ⟨mode, point, registry⟩ =
        (failureOf ((b.evaluated mode registry).2.2 >>= Outcome.toScalar)).or
          (scatter point (Graph.argumentVariables registry b) (b.evaluated mode registry).1
            (Buffer.zeros registry.totalScalars.toNat)).failure := by
      cases mode with
      | value => exact absurd rfl hmode
      | gradient => rfl
      | hessian => rfl
    rw [accumulate_of_ne_value hmode, hfailure]
    refine failureOf_bind fun value _ ↦ ?_
    rw [failureOf_bind_pure, failureOf_complete]
    exact failure_scatter_congr hvars _ (by rw [hsums, Buffer.length_zeros])

/-- The bindings of a list are added up to the first one that fails. -/
theorem failureOf_accumulateFrom (h : work.registry.Steady) (position : Nat)
    (bindings : List (Binding α)) {sums : α × List α}
    (hsums : sums.2.length = work.registry.totalScalars.toNat) :
    failureOf (accumulateFrom work.mode work.registry work.point position bindings sums) =
      firstFailure work position bindings := by
  induction bindings generalizing position sums with
  | nil => rfl
  | cons b rest ih =>
    rw [accumulateFrom, firstFailure, ← failureOf_accumulate h b hsums]
    rcases hb : b.accumulate work.mode work.registry work.point sums with failure | sums'
    · rfl
    · exact ih _ ((length_accumulate hb).trans hsums)

end Binding

/-! ### Chunks of bindings -/

section Chunks

variable [Zero α] [Add α] [Storable α] {work : Work α}

/-- Chunks that stand side by side are added up to the first binding that fails. -/
theorem Chunk.Tile.failureOf_mapM (h : work.registry.Steady) {bindings : List (Binding α)}
    {first last : Nat} {chunks : List Chunk} (tile : Tile first last chunks)
    (hlast : last ≤ bindings.length) {sums : α × List α}
    (hsums : sums.2.length = work.registry.totalScalars.toNat) :
    failureOf (chunks.mapM fun c ↦ Binding.accumulateFrom work.mode work.registry work.point
        c.start.toNat (c.cut bindings) sums) =
      Binding.firstFailure work first (chunks.flatMap (·.cut bindings)) := by
  induction tile with
  | nil => rfl
  | @cons first middle last rest hle tail ih =>
    have hmiddle := tail.le
    have hcut : (cut ⟨first, middle⟩ bindings).length = middle - first := by
      simp only [cut, length, List.length_take, List.length_drop]
      omega
    rw [List.mapM_cons, List.flatMap_cons, Binding.firstFailure_append, hcut,
      Nat.add_sub_cancel' hle, ← ih hlast, ← Binding.failureOf_accumulateFrom h first _ hsums]
    exact failureOf_bind fun _ _ ↦ failureOf_bind_pure _ _

/-- However many workers there are, they come to the first binding that fails. -/
theorem Objective.failureOf_chunkSums {o : Objective α} (hworkers : 1 ≤ o.workerCount)
    (h : work.registry.Steady) (htotal : work.registry.totalScalars = o.totalScalars) :
    failureOf (o.chunkSums work.mode work.registry work.point) =
      Binding.firstFailure work 0 o.graph.bindings := by
  have hzeros : ((0, Buffer.zeros o.totalScalars.toNat) : α × List α).2.length =
      work.registry.totalScalars.toNat := by rw [Buffer.length_zeros, htotal]
  have hsums := (tile_partition o.graph.size hworkers).failureOf_mapM h
    (Nat.le_refl o.graph.bindings.length) hzeros
  rwa [Graph.size, flatMap_cut_partition o.graph.bindings hworkers] at hsums

end Chunks

/-! ### What workers get -/

section Work

variable [Zero α]

/-- Workers get the variables of an objective, with the values of a point. -/
structure Work.Of (o : Objective α) (work : Work α) : Prop where
  entries : o.registry.entries.map Variable.bare = work.registry.entries.map Variable.bare
  total : o.registry.totalScalars = work.registry.totalScalars

/-- Scratch values do not make a registry steady. -/
theorem Work.Of.steady {o : Objective α} {work : Work α} (h : work.Of o)
    (hsteady : o.registry.Steady) : work.registry.Steady :=
  Registry.transforms_of_bare h.entries hsteady

namespace Objective

/-- If a computation comes to work for the workers, it is that of an objective. -/
def Prepares (o : Objective α) (c : Except Failure (Work α)) : Prop :=
  ∀ work, c = .ok work → work.Of o

variable {o : Objective α}

theorem Prepares.bind {β : Type} {c : Except Failure β} {f : β → Except Failure (Work α)}
    (h : ∀ r, o.Prepares (f r)) : o.Prepares (c >>= f) := by
  intro work hwork
  obtain ⟨r, -, hr⟩ := bind_eq_ok_iff.1 hwork
  exact h r work hr

theorem prepares_workAt (mode : Mode) (x : List α) : o.Prepares (o.workAt mode x) := by
  refine .bind fun _ ↦ ?_
  intro work hwork
  obtain ⟨registry, hregistry, hwork⟩ := bind_eq_ok_iff.1 hwork
  obtain ⟨hentries, htotal⟩ := Registry.map_bare_valued hregistry
  cases hwork
  exact ⟨hentries, htotal⟩

theorem prepares_valueWork (h : o.Sound) (m : Memory α) (x : Option (GivenPoint α)) :
    o.Prepares (o.valueWork m x) := by
  refine .bind fun _ ↦ ?_
  intro work hwork
  obtain ⟨registry, hregistry, hwork⟩ := bind_eq_ok_iff.1 hwork
  obtain ⟨hentries, htotal⟩ := map_bare_valuedAt h hregistry
  cases hwork
  exact ⟨hentries, htotal⟩

theorem prepares_freshWork (mode : Mode) (x : GivenPoint α) : o.Prepares (o.freshWork mode x) := by
  have hpoint : o.Prepares (do
      let x ← pointOf o.totalScalars x
      o.workAt mode x) := .bind (prepares_workAt mode)
  rw [freshWork]
  dsimp only
  split
  · exact .bind fun _ ↦ hpoint
  · exact hpoint

theorem prepares_sparseWork (x : GivenPoint α) (gradient : Handle) :
    o.Prepares (o.sparseWork x gradient) :=
  .bind fun _ ↦ .bind fun x ↦ .bind fun _ ↦ prepares_workAt .hessian x

end Objective

open Objective in
/-- A query that passes its checks gives the workers the variables of its objective. -/
theorem Query.of_prepared {q : Query α} {s : Scene α} {work : Work α} (h : s.objective.Sound)
    (hwork : q.prepared s = .ok (some work)) : work.Of s.objective := by
  have hsome {c : Except Failure (Work α)} (hc : s.objective.Prepares c)
      (hwork : some <$> c = .ok (some work)) : work.Of s.objective := by
    rcases c with failure | work' <;> cases hwork
    exact hc work rfl
  cases q with
  | evaluate x gradient hessian =>
    rcases gradient with - | gradient <;> rcases hessian with - | hessian <;>
      refine hsome ?_ hwork
    · exact prepares_valueWork h _ _
    · exact .bind fun _ ↦ .bind fun _ ↦ .bind fun x ↦ .bind fun _ ↦ prepares_workAt _ x
    · exact .bind fun x ↦ .bind fun _ ↦ prepares_workAt _ x
    · exact .bind fun _ ↦ .bind fun x ↦ .bind fun _ ↦ .bind fun _ ↦ prepares_workAt _ x
  | evaluateUser => exact hsome (prepares_valueWork h _ _) hwork
  | valueAndGradient x => exact hsome (.bind fun _ ↦ prepares_freshWork _ x) hwork
  | evaluateSparse x gradient target =>
    rcases target with - | position
    · cases hwork
    · exact hsome (prepares_sparseWork x gradient) hwork
  | valueGradientSparse x => exact hsome (.bind fun _ ↦ prepares_freshWork _ x) hwork
  | valueGradientDense x =>
    exact hsome (.bind fun _ ↦ .bind fun _ ↦ prepares_freshWork _ x) hwork
  | sparsityPattern target => cases hwork
  | evaluateEnclosure sides => cases hwork

end Work

/-! ### Queries -/

section Queries

variable [Zero α] [Add α] [OfNat α 1] [Storable α] {s : Scene α} {q : Query α} {work : Work α}

open Objective

omit [Zero α] [Add α] [OfNat α 1] [Storable α] in
/-- No term takes part in the assembly of a sparse matrix. -/
theorem Query.ne_termFailed_of_assembly {o : Objective α} {failure : Failure}
    (h : q.assembly o = .error failure) (index : Int) (name : String) (cause : Failure) :
    failure ≠ .termFailed index name cause := by
  have hplacement (h : (do let _ ← o.placement) = .error failure) :
      failure ≠ .termFailed index name cause := by
    obtain h | ⟨-, -, h⟩ := bind_eq_error_iff.1 h
    · exact ne_termFailed_of_placement h index name cause
    · cases h
  cases q with
  | evaluateSparse x gradient target => exact hplacement h
  | valueGradientSparse x => exact hplacement h
  | _ => cases h

/-- A query that passes its checks reports that a term failed exactly if the workers do. -/
theorem Query.termFailed_iff (h : s.objective.Sound) (hopen : s.objective.closed = false)
    (hwork : q.prepared s = .ok (some work)) (index : Int) (name : String) (cause : Failure) :
    (∃ t, q.perform.run s = (.error (.termFailed index name cause), t)) ↔
      ∃ failed, s.objective.chunkSums work.mode work.registry work.point = .error failed ∧
        s.objective.termFailure failed = .termFailed index name cause := by
  have hrealizes := realizes_perform h hopen (show q.prepared s = some <$> .ok work from hwork)
  have hsettled : s.objective.settled (.ok work) =
      (s.objective.chunkSums work.mode work.registry work.point).mapError
        s.objective.termFailure >>=
        fun sums ↦ .ok (work, sums) := rfl
  rw [hsettled] at hrealizes
  generalize q.perform.run s = ending at hrealizes ⊢
  rcases hsums : s.objective.chunkSums work.mode work.registry work.point with failed | sums <;>
    rw [hsums] at hrealizes
  · obtain ⟨t, rfl⟩ : ∃ t, ending = (.error (s.objective.termFailure failed), t) := by
      cases hrealizes with
      | error _ => exact ⟨_, rfl⟩
    simp
  · refine ⟨?_, fun ⟨failed, hfailed, _⟩ ↦ nomatch hfailed⟩
    rintro ⟨t, rfl⟩
    have hassembly : q.assembly s.objective = .error (.termFailed index name cause) :=
      hrealizes.of_error.1
    exact absurd rfl (ne_termFailed_of_assembly hassembly index name cause)

/-- However many workers there are and whatever turns they take, a query that passes its checks
reports that a term failed exactly if a binding fails. It reports the first binding that does, with
its term and with what it fails with. -/
theorem Scene.Reached.first_failure (h : s.Reached) (hopen : s.objective.closed = false)
    (hsteady : s.objective.registry.Steady) (hwork : q.prepared s = .ok (some work)) :
    ((∃ index name cause t, q.perform.run s = (.error (.termFailed index name cause), t)) ↔
        ∃ b ∈ s.objective.graph.bindings, (b.failure? work).isSome) ∧
      ∀ index name cause t, q.perform.run s = (.error (.termFailed index name cause), t) →
        ∃ (i : Nat) (b : Binding α), index = i ∧ s.objective.graph.bindings[i]? = some b ∧
          name = b.term.name ∧ b.failure? work = some cause ∧
          ∀ j < i, ∀ b', s.objective.graph.bindings[j]? = some b' → b'.failure? work = none := by
  have hsound := h.sound hopen
  have hof := Query.of_prepared hsound hwork
  have hsums := failureOf_chunkSums hsound.workers (hof.steady hsteady) hof.total.symm
  have hiff := Query.termFailed_iff hsound hopen hwork
  constructor
  · constructor
    · rintro ⟨index, name, cause, t, hrun⟩
      obtain ⟨failed, hfailed, -⟩ := (hiff _ _ _).1 ⟨t, hrun⟩
      rw [hfailed] at hsums
      obtain ⟨k, b, -, hget, hfails, -⟩ := Binding.firstFailure_eq_some hsums.symm
      exact ⟨b, List.mem_of_getElem? hget, by rw [hfails]; rfl⟩
    · rintro ⟨b, hb, hfails⟩
      rcases hfailed : s.objective.chunkSums work.mode work.registry work.point with failed | sums
      · obtain ⟨t, hrun⟩ := (hiff _ _ _).2 ⟨failed, hfailed, rfl⟩
        exact ⟨_, _, _, t, hrun⟩
      · rw [hfailed] at hsums
        rw [Binding.firstFailure_eq_none_iff.1 hsums.symm b hb] at hfails
        cases hfails
  · intro index name cause t hrun
    obtain ⟨⟨i, cause'⟩, hfailed, hfailure⟩ := (hiff _ _ _).1 ⟨t, hrun⟩
    rw [hfailed] at hsums
    obtain ⟨k, b, hk, hget, hfails, hearlier⟩ := Binding.firstFailure_eq_some hsums.symm
    obtain rfl : i = k := by omega
    rw [termFailure] at hfailure
    dsimp only at hfailure
    rw [hget] at hfailure
    cases hfailure
    exact ⟨i, b, rfl, hget, rfl, hfails, hearlier⟩

end Queries

namespace Small

/-- A term that does not tell its derivative. -/
def refusing (id : Nat) (reason : String) : Term Int :=
  { squares with
    id := id
    name := "Refusing"
    firstOrder := fun _ gradient ↦ ⟨gradient, .error (.raised "ValueError" reason)⟩ }

/-- Two workers with two terms each, of which the second one fails. -/
def troubledScene : Scene Int :=
  Scene.after { objective, memory, events := [], platform }
    [.register (.array pair) .null none, .register (.array single) .null (some tripled),
      .addTerm squares [.array pair], .addTerm (refusing 4 "first") [.array pair],
      .addTerm squares [.array pair], .addTerm (refusing 5 "second") [.array pair]]

/-- Of two failures that of the first worker is reported. -/
theorem first_of_two_failures :
    (∃ index name cause t,
      (Query.valueAndGradient (.ok (.vector [1, 2, 3]))).perform.run troubledScene =
        (.error (.termFailed index name cause), t)) ∧
    ∀ index name cause t,
      (Query.valueAndGradient (.ok (.vector [1, 2, 3]))).perform.run troubledScene =
        (.error (.termFailed index name cause), t) →
      index = 1 ∧ name = "Refusing" ∧ cause = .raised "ValueError" "first" := by
  have hreached : troubledScene.Reached := reached_after _
  have htransforms : troubledScene.objective.registry.entries.map Variable.transform =
      [none, some tripled] := rfl
  have hsteady : troubledScene.objective.registry.Steady := by
    intro v hv t ht
    obtain rfl : t = tripled := by
      simpa using Registry.some_mem_of_map_transform htransforms v hv t ht
    exact Elementwise.steady 1 tripling
  obtain ⟨work, hwork, hbindings⟩ : ∃ work,
      (Query.valueAndGradient (.ok (.vector [1, 2, 3]))).prepared troubledScene =
        .ok (some work) ∧
      troubledScene.objective.graph.bindings.map (fun b ↦ (b.term.name, b.failure? work)) =
        [("Squares", none), ("Refusing", some (.raised "ValueError" "first")), ("Squares", none),
          ("Refusing", some (.raised "ValueError" "second"))] := ⟨_, rfl, rfl⟩
  -- The bindings with the failing terms are those at positions 1 and 3.
  have hentry (k : Nat) := congrArg (·[k]?) hbindings
  simp only [List.getElem?_map] at hentry
  obtain ⟨b₁, hget₁, hb₁⟩ := Option.map_eq_some_iff.1 (hentry 1)
  have hfails₁ : b₁.failure? work = some (.raised "ValueError" "first") := congrArg Prod.snd hb₁
  obtain ⟨hiff, hfirst⟩ := hreached.first_failure rfl hsteady hwork
  refine ⟨hiff.2 ⟨b₁, List.mem_of_getElem? hget₁, by rw [hfails₁]; rfl⟩, ?_⟩
  intro index name cause t hrun
  obtain ⟨i, b, rfl, hget, rfl, hfails, hearlier⟩ := hfirst index name cause t hrun
  have hi := hentry i
  rw [hget, Option.map_some, hfails] at hi
  rcases i with - | - | i
  · exact absurd (congrArg Prod.snd (Option.some.inj hi)) (by simp)
  · obtain ⟨hname, hcause⟩ := Prod.ext_iff.1 (Option.some.inj hi)
    exact ⟨rfl, hname, Option.some.inj hcause⟩
  · cases (hearlier 1 (by omega) b₁ hget₁).symm.trans hfails₁

end Small

end Summand
