import Summand.Proofs.FailedQueries
import Summand.Proofs.Storing

/-!
# The entry points agree

An objective can be asked for its value alone, for the value with a gradient, and for both with a
dense or a sparse Hessian, and the results can be new ones or written to arrays. All of these agree
if the terms do, that is, if each term has one value and one gradient whatever else it is asked for
(`Term.Consistent`).

A question for derivatives does more than one for the value, so it may fail where that one succeeds
(`Furthers`): arrays may be refused, gradients may not be added to what they belong to, and the
entries of a sparse Hessian may find no place (`Query.Refuses`). Nothing else keeps the entry points
from answering alike, whatever the numbers are: the same values are added in the same order
(`Scene.Reached.furthers_evaluate`).
-/

namespace Summand

variable {α : Type}

/-! ### Going further -/

/-- The second of two computations goes further than the first. It fails if that one does, and
besides on its own account; otherwise both succeed with results of which something holds. -/
inductive Furthers {ε ζ β γ : Type} (E : ζ → Prop) (R : β → γ → Prop) :
    Except ε β → Except ζ γ → Prop
  | error {e : ε} {f : ζ} : Furthers E R (.error e) (.error f)
  | own {b : β} {f : ζ} (h : E f) : Furthers E R (.ok b) (.error f)
  | ok {b : β} {c : γ} (h : R b c) : Furthers E R (.ok b) (.ok c)

namespace Furthers

variable {ε ζ β γ β' γ' : Type} {E : ζ → Prop} {R : β → γ → Prop} {x : Except ε β} {y : Except ζ γ}

theorem of_together (h : Together R x y) : Furthers E R x y := by
  cases h with
  | error => exact .error
  | ok h => exact .ok h

/-- Failing on one's own account is going further than anything. -/
theorem of_own {f : ζ} (h : E f) : Furthers E R x (.error f) := by
  cases x with
  | error e => exact .error
  | ok b => exact .own h

theorem mono {E' : ζ → Prop} {R' : β → γ → Prop} (h : Furthers E R x y)
    (hE : ∀ failure, E failure → E' failure) (hR : ∀ b c, R b c → R' b c) : Furthers E' R' x y := by
  cases h with
  | error => exact .error
  | own h => exact .own (hE _ h)
  | ok h => exact .ok (hR _ _ h)

theorem bind {R' : β' → γ' → Prop} {f : β → Except ε β'} {g : γ → Except ζ γ'}
    (h : Furthers E R x y)
    (hnext : ∀ b c, x = .ok b → y = .ok c → R b c → Furthers E R' (f b) (g c)) :
    Furthers E R' (x >>= f) (y >>= g) := by
  cases h with
  | error => exact .error
  | own h => exact of_own h
  | ok h => exact hnext _ _ rfl rfl h

theorem mapError {ε' ζ' : Type} {E' : ζ' → Prop} (h : Furthers E R x y) (f : ε → ε') (g : ζ → ζ')
    (hE : ∀ failure, E failure → E' (g failure)) :
    Furthers E' R (x.mapError f) (y.mapError g) := by
  cases h with
  | error => exact .error
  | own h => exact .own (hE _ h)
  | ok h => exact .ok h

/-- It does not matter what is made of the results. -/
theorem map_left {f : β → β'} {R' : β' → γ → Prop} (h : Furthers E (fun b c ↦ R' (f b) c) x y) :
    Furthers E R' (x.map f) y := by
  cases h with
  | error => exact .error
  | own h => exact .own h
  | ok h => exact .ok h

theorem of_map {f : γ → γ'} {R' : β → γ' → Prop} (h : Furthers E R' x (y.map f)) :
    Furthers E (fun b c ↦ R' b (f c)) x y := by
  rcases y with failure | c
  · cases h with
    | error => exact .error
    | own h => exact .own h
  · cases h with
    | ok h => exact .ok h

/-- One computation after another goes further if each of them does. -/
theorem mapM {δ : Type} {l : List δ} {f : δ → Except ε β} {g : δ → Except ζ γ}
    (h : ∀ d ∈ l, Furthers E R (f d) (g d)) :
    Furthers E (List.Forall₂ R) (l.mapM f) (l.mapM g) := by
  induction l with
  | nil => exact .ok .nil
  | cons d l ih =>
    obtain ⟨hd, hl⟩ := List.forall_mem_cons.1 h
    rw [List.mapM_cons, List.mapM_cons]
    exact hd.bind fun b c _ _ hbc ↦ (ih hl).bind fun bs cs _ _ hrest ↦ .ok (.cons hbc hrest)

end Furthers

/-! ### Terms of one mind -/

section Terms

variable [Zero α]

/-- Vectors of zeros, of the sizes of arguments. -/
def Term.cleared (arguments : List (List α)) : List (List α) :=
  arguments.map fun argument ↦ Buffer.zeros argument.length

variable [Storable α]

/-- A term has one value and one gradient: it returns the same number, or fails, whatever it is
asked for, and it writes the same first derivatives whether second ones are asked for or not. -/
structure Term.Consistent (t : Term α) : Prop where
  value : ∀ arguments : List (List α), Together Eq (t.value arguments >>= Outcome.toScalar)
    ((t.firstOrder arguments (cleared arguments)).value >>= Outcome.toScalar)
  gradient : ∀ (arguments : List (List α)) (hessian : HessianBlocks α),
    Together (fun value value' ↦ value = value' ∧
        (t.firstOrder arguments (cleared arguments)).gradient =
          (t.secondOrder arguments (cleared arguments) hessian).gradient)
      ((t.firstOrder arguments (cleared arguments)).value >>= Outcome.toScalar)
      ((t.secondOrder arguments (cleared arguments) hessian).value >>= Outcome.toScalar)

/-- Terms of which no part fails have been given one value and one gradient. -/
theorem Term.consistent_total (id : Nat) (name : String) (dimensions : List Int)
    (value : List (List α) → α) (gradient : List (List α) → List (List α))
    (hessian : List (List α) → HessianBlocks α)
    (enclosure : List (List Interval) → Except Failure Enclosed) :
    (Term.total id name dimensions value gradient hessian enclosure).Consistent :=
  ⟨fun _ ↦ .ok rfl, fun _ _ ↦ .ok ⟨rfl, rfl⟩⟩

end Terms

/-! ### Bindings -/

namespace Binding

variable [Zero α] {mode : Mode} {registry : Registry α} {b : Binding α}

/-- The buffers that a term gets are zeros of the sizes of its arguments. -/
theorem cleanBuffers_eq_cleared {vars : List (Variable α)}
    (h : ∀ v ∈ vars, v.scratch.length = v.userDimension) :
    cleanBuffers vars = Term.cleared (vars.map Variable.scratch) := by
  rw [cleanBuffers, Term.cleared, List.map_map]
  exact List.map_congr_left fun v hv ↦ by rw [Function.comp_apply, h v hv]

variable [Add α] [Storable α] {x : List α} {sums sums' : α × List α}

/-- The gradient of an argument cannot be added to what it belongs to. -/
def Unadded (registry : Registry α) (x : List α) (b : Binding α) (cause : Failure) : Prop :=
  ∃ v ∈ Graph.argumentVariables registry b, ∃ gradient accumulator : List α,
    (scatterOne v gradient x accumulator).failure = some cause

omit [Zero α] [Storable α] in
/-- Gradients are added up to the first one that cannot be. -/
theorem exists_failure_scatterOne {vars : List (Variable α)} {gradients : List (List α)}
    {accumulator : List α} {cause : Failure}
    (h : (scatter x vars gradients accumulator).failure = some cause) :
    ∃ v ∈ vars, ∃ gradient accumulator : List α,
      (scatterOne v gradient x accumulator).failure = some cause := by
  induction vars generalizing gradients accumulator with
  | nil => cases h
  | cons v vars ih =>
    obtain - | ⟨g, gradients⟩ := gradients
    · cases h
    rw [scatter] at h
    split at h
    · exact ⟨v, List.mem_cons_self, g, accumulator, h⟩
    · obtain ⟨w, hw, hfails⟩ := ih h
      exact ⟨w, List.mem_cons_of_mem v hw, hfails⟩

section Consistent

variable (hconsistent : b.term.Consistent)
  (hscratch : ∀ v ∈ Graph.argumentVariables registry b, v.scratch.length = v.userDimension)

include hconsistent hscratch

omit [Add α] in
/-- First derivatives come with the value, and second derivatives with the first ones. -/
theorem together_evaluated :
    Together Eq
        (b.term.value ((Graph.argumentVariables registry b).map Variable.scratch) >>=
          Outcome.toScalar)
        ((b.evaluated .gradient registry).2.2 >>= Outcome.toScalar) ∧
      Together (fun value value' ↦ value = value' ∧
          (b.evaluated .gradient registry).1 = (b.evaluated .hessian registry).1)
        ((b.evaluated .gradient registry).2.2 >>= Outcome.toScalar)
        ((b.evaluated .hessian registry).2.2 >>= Outcome.toScalar) := by
  simp only [evaluated, cleanBuffers_eq_cleared hscratch, derivatives]
  refine ⟨hconsistent.value _, ?_⟩
  rcases b.hessianBlocks with - | blocks
  · exact .same fun _ _ ↦ ⟨rfl, rfl⟩
  · refine (hconsistent.gradient _ (zeroedBlocks blocks)).mono ?_
    rintro _ _ - - ⟨hvalue, hgradient⟩
    exact ⟨hvalue, by rw [hgradient]⟩

/-- Both ways to derivatives add the same. -/
theorem together_accumulate : Together Eq (b.accumulate .gradient registry x sums)
    (b.accumulate .hessian registry x sums) := by
  rw [accumulate_of_ne_value (by simp), accumulate_of_ne_value (by simp)]
  refine (together_evaluated hconsistent hscratch).2.bind fun value _ _ _ ⟨hvalue, hgradient⟩ ↦ ?_
  rw [hvalue, hgradient]
  exact .same fun _ _ ↦ rfl

/-- Adding a value with a gradient adds the value, unless the gradient cannot be added. -/
theorem furthers_accumulate (hmode : mode ≠ .value) (h : sums.1 = sums'.1) :
    Furthers (b.Unadded registry x) (fun t t' ↦ t.1 = t'.1)
      (b.accumulate .value registry [] sums) (b.accumulate mode registry x sums') := by
  have hvalue : Together Eq
      (b.term.value ((Graph.argumentVariables registry b).map Variable.scratch) >>=
        Outcome.toScalar)
      ((b.evaluated mode registry).2.2 >>= Outcome.toScalar) := by
    obtain ⟨hfirst, hsecond⟩ := together_evaluated hconsistent hscratch
    cases mode with
    | value => exact absurd rfl hmode
    | gradient => exact hfirst
    | hessian => exact (hfirst.trans hsecond).mono fun _ _ _ _ ⟨_, hv, hw, _⟩ ↦ hv.trans hw
  rw [accumulate_of_ne_value hmode, accumulate]
  refine (Furthers.of_together hvalue).bind ?_
  rintro value - - - rfl
  generalize hfilled : scatter x _ _ _ = filled
  rcases hfailure : filled.failure with - | cause
  · rw [Progress.complete_of_no_failure hfailure]
    exact .ok (congrArg (· + value) h)
  · rw [Progress.complete_of_failure hfailure]
    exact .own (exists_failure_scatterOne (hfilled ▸ hfailure))

end Consistent

/-! ### Lists of bindings -/

variable {bindings : List (Binding α)} (hconsistent : ∀ b ∈ bindings, b.term.Consistent)
  (hscratch : ∀ v ∈ registry.entries, v.scratch.length = v.userDimension)

include hconsistent hscratch

theorem together_accumulateFrom (position : Nat) :
    Together Eq (accumulateFrom .gradient registry x position bindings sums)
      (accumulateFrom .hessian registry x position bindings sums) := by
  induction bindings generalizing position sums with
  | nil => exact .ok rfl
  | cons b rest ih =>
    obtain ⟨hb, hrest⟩ := List.forall_mem_cons.1 hconsistent
    have hsums : Together Eq (b.accumulate .gradient registry x sums)
        (b.accumulate .hessian registry x sums) :=
      together_accumulate hb fun v hv ↦ hscratch v (Graph.mem_of_mem_argumentVariables hv)
    rw [accumulateFrom, accumulateFrom]
    generalize b.accumulate .gradient registry x sums = added at hsums
    generalize b.accumulate .hessian registry x sums = added' at hsums
    cases hsums with
    | error => exact .error
    | ok h =>
      subst h
      exact ih hrest _

theorem furthers_accumulateFrom (hmode : mode ≠ .value) (h : sums.1 = sums'.1) (position : Nat) :
    Furthers (fun failed ↦ ∃ b ∈ bindings, b.Unadded registry x failed.2) (fun t t' ↦ t.1 = t'.1)
      (accumulateFrom .value registry [] position bindings sums)
      (accumulateFrom mode registry x position bindings sums') := by
  induction bindings generalizing position sums sums' with
  | nil => exact .ok h
  | cons b rest ih =>
    obtain ⟨hb, hrest⟩ := List.forall_mem_cons.1 hconsistent
    have hsums := furthers_accumulate (x := x) hb
      (fun v hv ↦ hscratch v (Graph.mem_of_mem_argumentVariables hv)) hmode h
    rw [accumulateFrom, accumulateFrom]
    generalize b.accumulate .value registry [] sums = added at hsums
    generalize b.accumulate mode registry x sums' = added' at hsums
    cases hsums with
    | error => exact .error
    | own hunadded => exact .of_own ⟨b, List.mem_cons_self, hunadded⟩
    | ok h =>
      refine (ih hrest h _).mono ?_ fun _ _ h ↦ h
      rintro failed ⟨c, hc, hunadded⟩
      exact ⟨c, List.mem_cons_of_mem b hc, hunadded⟩

end Binding

/-! ### Evaluations -/

namespace Objective

variable [Zero α] [Add α] [Storable α] {o : Objective α} {mode : Mode} {x : List α}

/-- An evaluation fails since a gradient cannot be added to what it belongs to. -/
def Unadded (o : Objective α) (x : List α) (failure : Failure) : Prop :=
  ∃ index name cause, failure = .termFailed index name cause ∧
    ∃ b ∈ o.graph.bindings, b.Unadded o.registry x cause

omit [Storable α] in
/-- The values of variables do not matter for where their gradients belong. -/
theorem unadded_of_bare {r s : Registry α}
    (hentries : r.entries.map Variable.bare = s.entries.map Variable.bare) {b : Binding α}
    {cause : Failure} (h : b.Unadded s x cause) : b.Unadded r x cause := by
  obtain ⟨v, hv, gradient, accumulator, hfails⟩ := h
  obtain ⟨w, hw, hbare⟩ := exists_argument_of_bare hentries hv
  have hsame (u : Variable α) : Binding.scatterOne u gradient x accumulator =
      Binding.scatterOne u.bare gradient x accumulator := rfl
  exact ⟨w, hw, gradient, accumulator, by rw [hsame, hbare, ← hsame, hfails]⟩

omit [Storable α] in
/-- Chunks with the same values have the same total. -/
theorem total_congr {sums sums' : List (α × List α)}
    (h : List.Forall₂ (fun s s' ↦ s.1 = s'.1) sums sums') : total sums = total sums' := by
  have hvalues : sums.map Prod.fst = sums'.map Prod.fst :=
    List.forall₂_eq_eq_eq ▸ List.forall₂_map_left_iff.2 (List.forall₂_map_right_iff.2 h)
  rw [total, ← List.foldl_map (f := Prod.fst), hvalues, List.foldl_map, total]

section Consistent

variable (h : o.Sound) (hconsistent : ∀ b ∈ o.graph.bindings, b.term.Consistent)

include h hconsistent

/-- Both ways to derivatives come to the same sums. -/
theorem together_direct : Together Eq (o.direct .gradient x) (o.direct .hessian x) := by
  rw [direct, direct]
  refine Together.bind (.same fun _ _ ↦ rfl) fun _ _ _ _ _ ↦ ?_
  refine Together.bind (R := Eq) (.same fun _ _ ↦ rfl) ?_
  rintro registry _ hregistry - rfl
  obtain ⟨hentries, htotal⟩ := Registry.map_bare_valued hregistry
  have hfits := (h.laid.of_bare hentries htotal).fits
  have hsums : Together (List.Forall₂ Eq) (o.chunkSums .gradient registry x)
      (o.chunkSums .hessian registry x) :=
    .mapM (List.forall₂_same.2 fun c _ ↦ Binding.together_accumulateFrom
      (fun b hb ↦ hconsistent b (Chunk.mem_of_mem_cut hb)) (fun v hv ↦ (hfits v hv).scratch) _)
  refine (hsums.mapError o.termFailure o.termFailure).bind fun sums sums' _ _ hsame ↦ .ok ?_
  rw [List.forall₂_eq_eq_eq] at hsame
  rw [hsame]

/-- An evaluation with derivatives comes to the value, unless a gradient cannot be added. -/
theorem furthers_direct (hmode : mode ≠ .value) (m : Memory α) {given : GivenPoint α}
    (hx : pointOf o.totalScalars given = .ok x) :
    Furthers (o.Unadded x) (fun r r' ↦ total r.2 = total r'.2) (o.directValue m (some given))
      (o.direct mode x) := by
  rw [directValue, direct, valuedAt, hx]
  refine Furthers.bind (R := Eq) (.of_together (.same fun _ _ ↦ rfl)) fun _ _ _ _ _ ↦ ?_
  refine Furthers.bind (R := Eq) (x := o.registry.valued x) (.of_together (.same fun _ _ ↦ rfl)) ?_
  rintro registry _ hregistry - rfl
  obtain ⟨hentries, htotal⟩ := Registry.map_bare_valued hregistry
  have hfits := (h.laid.of_bare hentries htotal).fits
  have hsums : Furthers (fun failed ↦ ∃ b ∈ o.graph.bindings, b.Unadded registry x failed.2)
      (List.Forall₂ fun s s' ↦ s.1 = s'.1) (o.chunkSums .value registry [])
      (o.chunkSums mode registry x) := by
    refine .mapM fun c _ ↦ ?_
    refine (Binding.furthers_accumulateFrom (fun b hb ↦ hconsistent b (Chunk.mem_of_mem_cut hb))
      (fun v hv ↦ (hfits v hv).scratch) hmode rfl _).mono ?_ fun _ _ h ↦ h
    rintro failed ⟨b, hb, hunadded⟩
    exact ⟨b, Chunk.mem_of_mem_cut hb, hunadded⟩
  have hunadded (failed : Nat × Failure)
      (h : ∃ b ∈ o.graph.bindings, b.Unadded registry x failed.2) :
      o.Unadded x (o.termFailure failed) := by
    obtain ⟨b, hb, hunadded⟩ := h
    exact ⟨_, _, _, rfl, b, hb, unadded_of_bare hentries hunadded⟩
  exact (hsums.mapError o.termFailure o.termFailure hunadded).bind
    fun sums sums' _ _ hsame ↦ .ok (total_congr hsame)

end Consistent

end Objective

/-! ### Queries -/

namespace Memory

variable [Zero α] [Storable α]

/-- An array keeps what it holds if nothing is stored in its cells. -/
theorem read_writeAll {m : Memory α} {b : Block} {writes : List (Write α)}
    (h : ∀ write ∈ writes, ∀ c values, write = .store c values → b.Disjoint c) :
    (m.writeAll writes).read b = m.read b := by
  induction writes generalizing m with
  | nil => rfl
  | cons write writes ih =>
    obtain ⟨hwrite, hwrites⟩ := List.forall_mem_cons.1 h
    have hrest : (m.writeAll (write :: writes)).read b = (m.write write).read b := ih hwrites
    rw [hrest]
    cases write with
    | store c values => exact read_store_of_disjoint (hwrite c values rfl)
    | setTarget position target => rfl

end Memory

namespace Query

/-- The point at which a query evaluates. -/
def point? : Query α → Option (GivenPoint α)
  | .evaluate x _ _ | .valueAndGradient x | .evaluateSparse x _ _ | .valueGradientSparse x
  | .valueGradientDense x => some x
  | .evaluateUser | .sparsityPattern _ | .evaluateEnclosure _ => none

/-- The gradient that a query has given, with the type of the cells that hold it: what has been
written to an array, or a new one. -/
def gradient? [Zero α] (q : Query α) (answer : Answer α) (m : Memory α) :
    Option (ElementType × List α) :=
  match q.gradientBlock? with
  | some block => some (block.element, m.read block)
  | none => answer.gradient?.map fun gradient ↦ (.float64, gradient)

/-- An array for the gradient has cells of its own, which are not those of an array for the
Hessian. -/
def Undisturbed (q : Query α) (m : Memory α) : Prop :=
  ∀ block, q.gradientBlock? = some block →
    block.Proper m ∧ ∀ c, q.hessianBlock? = some c → block.Disjoint c

section Prepared

open Objective

variable [Zero α] {o : Objective α} {mode : Mode} {x : GivenPoint α} {work : Work α}

/-- The work is that of an evaluation with derivatives at the point that is given. -/
def WorksAt (o : Objective α) (x : GivenPoint α) (work : Work α) : Prop :=
  work.mode ≠ .value ∧
    ∃ point, pointOf o.totalScalars x = .ok point ∧ o.workAt work.mode point = .ok work

omit [Zero α] in
theorem worksAt_of_workAt {point : List α} (hmode : mode ≠ .value)
    (hx : pointOf o.totalScalars x = .ok point) (h : o.workAt mode point = .ok work) :
    WorksAt o x work := by
  obtain ⟨⟨⟩, -, hwork⟩ := bind_eq_ok_iff.1 h
  obtain ⟨registry, -, hwork⟩ := bind_eq_ok_iff.1 hwork
  cases hwork
  exact ⟨hmode, point, hx, h⟩

omit [Zero α] in
theorem worksAt_of_freshWork (hmode : mode ≠ .value) (h : o.freshWork mode x = .ok work) :
    WorksAt o x work := by
  have key (h : (do let x ← pointOf o.totalScalars x; o.workAt mode x) = .ok work) :
      WorksAt o x work := by
    obtain ⟨point, hx, hwork⟩ := bind_eq_ok_iff.1 h
    exact worksAt_of_workAt hmode hx hwork
  rw [freshWork] at h
  dsimp only at h
  split at h
  · obtain ⟨⟨⟩, -, h⟩ := bind_eq_ok_iff.1 h
    exact key h
  · exact key h

/-- A query for derivatives that passes its checks gives the workers work at its point, and an array
for the gradient is of the right size. -/
theorem worksAt_of_prepared {q : Query α} {s : Scene α} (hx : q.point? = some x)
    (hwork : q.prepared s = .ok (some work)) (hq : q ≠ .evaluate x none none) :
    WorksAt s.objective x work ∧
      ∀ block, q.gradientBlock? = some block → block.sizes = [s.objective.totalScalars] := by
  have hsome {c : Except Failure (Work α)} (hc : some <$> c = .ok (some work)) :
      c = .ok work := by
    rcases c with failure | work' <;> cases hc
    rfl
  cases q with
  | evaluate x gradient hessian =>
    obtain rfl := Option.some.inj hx
    rcases gradient with - | gradient <;> rcases hessian with - | hessian
    · exact absurd rfl hq
    · obtain ⟨⟨⟩, -, hchecked⟩ := bind_eq_ok_iff.1 (hsome hwork)
      obtain ⟨⟨⟩, -, hchecked⟩ := bind_eq_ok_iff.1 hchecked
      obtain ⟨point, hpoint, hchecked⟩ := bind_eq_ok_iff.1 hchecked
      obtain ⟨-, -, hat⟩ := bind_eq_ok_iff.1 hchecked
      exact ⟨worksAt_of_workAt (by simp) hpoint hat, nofun⟩
    · obtain ⟨point, hpoint, hchecked⟩ := bind_eq_ok_iff.1 (hsome hwork)
      obtain ⟨block, hblock, hat⟩ := bind_eq_ok_iff.1 hchecked
      obtain ⟨rfl, hsizes, -⟩ := checkOutput_eq_ok_iff.1 hblock
      refine ⟨worksAt_of_workAt (by simp) hpoint hat, fun b hb ↦ ?_⟩
      exact Option.some.inj hb ▸ hsizes
    · obtain ⟨⟨⟩, -, hchecked⟩ := bind_eq_ok_iff.1 (hsome hwork)
      obtain ⟨point, hpoint, hchecked⟩ := bind_eq_ok_iff.1 hchecked
      obtain ⟨block, hblock, hchecked⟩ := bind_eq_ok_iff.1 hchecked
      obtain ⟨-, -, hat⟩ := bind_eq_ok_iff.1 hchecked
      obtain ⟨rfl, hsizes, -⟩ := checkOutput_eq_ok_iff.1 hblock
      refine ⟨worksAt_of_workAt (by simp) hpoint hat, fun b hb ↦ ?_⟩
      exact Option.some.inj hb ▸ hsizes
  | evaluateUser => cases hx
  | valueAndGradient x =>
    obtain rfl := Option.some.inj hx
    obtain ⟨⟨⟩, -, hfresh⟩ := bind_eq_ok_iff.1 (hsome hwork)
    exact ⟨worksAt_of_freshWork (by simp) hfresh, nofun⟩
  | evaluateSparse x gradient target =>
    obtain rfl := Option.some.inj hx
    rcases target with - | position
    · cases hwork
    obtain ⟨⟨⟩, -, hchecked⟩ := bind_eq_ok_iff.1 (hsome hwork)
    obtain ⟨point, hpoint, hchecked⟩ := bind_eq_ok_iff.1 hchecked
    obtain ⟨block, hblock, hat⟩ := bind_eq_ok_iff.1 hchecked
    obtain ⟨rfl, hsizes, -⟩ := checkOutput_eq_ok_iff.1 hblock
    refine ⟨worksAt_of_workAt (by simp) hpoint hat, fun b hb ↦ ?_⟩
    exact Option.some.inj hb ▸ hsizes
  | valueGradientSparse x =>
    obtain rfl := Option.some.inj hx
    obtain ⟨⟨⟩, -, hfresh⟩ := bind_eq_ok_iff.1 (hsome hwork)
    exact ⟨worksAt_of_freshWork (by simp) hfresh, nofun⟩
  | valueGradientDense x =>
    obtain rfl := Option.some.inj hx
    obtain ⟨⟨⟩, -, hchecked⟩ := bind_eq_ok_iff.1 (hsome hwork)
    obtain ⟨⟨⟩, -, hfresh⟩ := bind_eq_ok_iff.1 hchecked
    exact ⟨worksAt_of_freshWork (by simp) hfresh, nofun⟩
  | sparsityPattern target => cases hx
  | evaluateEnclosure sides => cases hx

end Prepared

end Query

/-! ### Agreement -/

section Agreement

open Summand.Action Objective

variable [Zero α] [Add α] [Storable α] {s : Scene α} {q : Query α} {x : GivenPoint α}

/-- A query for derivatives is refused: it fails its checks, the entries of its sparse Hessian
cannot be placed, or a gradient cannot be added to what it belongs to. -/
inductive Query.Refuses (q : Query α) (s : Scene α) (failure : Failure) : Prop
  | checks (h : q.prepared s = .error failure)
  | assembly (h : q.assembly s.objective = .error failure)
  | unadded {given : GivenPoint α} {x : List α} (hq : q.point? = some given)
    (hx : pointOf s.objective.totalScalars given = .ok x) (h : s.objective.Unadded x failure)

/-- The gradient that a query has given is that of the sums, as far as the cells for it can hold
it. -/
theorem Query.Answered.gradient_eq {t : Scene α} {sums : List (α × List α)} {answer : Answer α}
    (h : q.Answered s sums answer t)
    (hsizes : ∀ block, q.gradientBlock? = some block →
      block.sizes = [s.objective.totalScalars])
    (hundisturbed : q.Undisturbed s.memory) {element : ElementType} {gradient : List α}
    (hgradient : q.gradient? answer t.memory = some (element, gradient)) :
    gradient = (s.objective.gradientOf element sums).map (Storable.narrow element) := by
  rw [Query.gradient?] at hgradient
  rcases hblock : q.gradientBlock? with - | block <;> rw [hblock] at hgradient
  · obtain ⟨gradient', hreturned, hpair⟩ := Option.map_eq_some_iff.1 hgradient
    cases hpair
    rw [h.returned _ hreturned]
    exact (List.map_id'' Storable.narrow_float64 _).symm
  · cases hgradient
    obtain ⟨hproper, hdisjoint⟩ := hundisturbed block hblock
    obtain ⟨writes, hmemory, hwrites⟩ := h.written block hblock
    have hlength : (s.objective.gradientOf block.element sums).length = block.cells.length := by
      have hshape : block.shape.map Int.ofNat = [s.objective.totalScalars] := hsizes block hblock
      obtain ⟨n, hn, htotal⟩ := List.map_eq_singleton_iff.1 hshape
      rw [gradientOf, length_sumGradients, hproper.volume, hn, ← htotal]
      simp [Grid.volume]
    -- The Hessian, written after the gradient, goes elsewhere.
    rw [hmemory, Memory.read_writeAll fun write hwrite c values hstore ↦
      hdisjoint c (hwrites write hwrite c values hstore)]
    exact Memory.read_store hproper hlength

/-- What the chunks of bindings come to at a point, their values and their gradients, each of them
on its own. -/
def Objective.SumsAt (o : Objective α) (x : GivenPoint α) (sums : List (α × List α)) : Prop :=
  ∃ point registry, pointOf o.totalScalars x = .ok point ∧
    o.direct .gradient point = .ok (registry, sums)

namespace Objective.SumsAt

variable {o : Objective α} {sums : List (α × List α)}

/-- What the workers come to with second derivatives, they come to without. -/
theorem of_settled (h : o.Sound) (hconsistent : ∀ b ∈ o.graph.bindings, b.term.Consistent)
    {work : Work α} (hwork : Query.WorksAt o x work)
    (hsettled : o.settled (.ok work) = .ok (work, sums)) : o.SumsAt x sums := by
  obtain ⟨hmode, point, hpoint, hat⟩ := hwork
  have hdirect : o.direct work.mode point = .ok (work.registry, sums) := by
    rw [direct_eq_map, hat, hsettled]
    rfl
  refine ⟨point, work.registry, hpoint, ?_⟩
  cases hm : work.mode with
  | value => exact absurd hm hmode
  | gradient => rw [← hm, hdirect]
  | hessian =>
    have hsame := together_direct (x := point) h hconsistent
    rw [← hm, hdirect] at hsame
    generalize o.direct .gradient point = reached at hsame ⊢
    cases hsame with
    | ok h => exact congrArg Except.ok h

/-- A new gradient is the sum of the gradients of the chunks. -/
theorem run_valueAndGradient (hsums : s.objective.SumsAt x sums) (h : s.objective.Sound)
    (hopen : s.objective.closed = false) : ((valueAndGradient x).run s).1 =
      .ok (total sums, s.objective.gradientOf .float64 sums) := by
  obtain ⟨point, registry, hpoint, hdirect⟩ := hsums
  rw [direct_eq_map] at hdirect
  obtain ⟨r, hsettled, hr⟩ := map_eq_ok_iff.1 hdirect
  obtain rfl : r.2 = sums := congrArg Prod.snd hr
  obtain ⟨⟨⟩, hstorage, -⟩ := bind_eq_ok_iff.1 (eq_ok_of_settled hsettled)
  -- The gradient can be allocated, since those of the workers can be.
  have hallocated : Allocation.check .real [s.objective.totalScalars] = .ok () := by
    rw [Allocation.check, (checkStorage_eq_ok_iff.1 hstorage).1]
  have hfresh : s.objective.freshWork .gradient x = s.objective.workAt .gradient point := by
    rw [freshWork, hpoint]
    rfl
  have hrealizes := realizes_valueAndGradient h hopen x
  rw [hallocated, hfresh] at hrealizes
  obtain ⟨result, t, hrun, rfl⟩ := (hsettled ▸ hrealizes :).succeeds
  rw [hrun]

end Objective.SumsAt

variable [OfNat α 1]

/-- An answer agrees with an evaluation for the value alone if it has that value, and if its
gradient is the sum of the gradients of the chunks, which are the same for all queries. They are
added in the same order, and rounded to what the cells for the sum can hold. -/
structure Query.Agrees (q : Query α) (s : Scene α) (x : GivenPoint α) (value : α)
    (answer : Answer α) : Prop where
  same : answer.value? = some value
  gradient : q.Undisturbed s.memory → ∀ element gradient,
    q.gradient? answer (q.perform.run s).2.memory = some (element, gradient) →
      ∃ sums, s.objective.SumsAt x sums ∧
        gradient = (s.objective.gradientOf element sums).map (Storable.narrow element) ∧
        ((Objective.valueAndGradient x).run s).1 =
          .ok (value, s.objective.gradientOf .float64 sums)

/-- Every query at a point fails if an evaluation for the value alone does. Otherwise it is refused
for one of few reasons, or it agrees with that evaluation. -/
theorem Scene.Reached.furthers_evaluate (h : s.Reached) (hopen : s.objective.closed = false)
    (hconsistent : ∀ b ∈ s.objective.graph.bindings, b.term.Consistent)
    (hx : q.point? = some x) :
    Furthers (q.Refuses s) (q.Agrees s x) ((evaluate x none none).run s).1 (q.perform.run s).1 := by
  have hsound := h.sound hopen
  by_cases hq : q = .evaluate x none none
  · subst hq
    rw [Query.perform, run_bind]
    rcases (evaluate x none none).run s with ⟨failure | value, t⟩
    · exact .error
    · exact .ok ⟨rfl, fun _ _ _ h ↦ by cases h⟩
  obtain ⟨prepared, hprepared⟩ | ⟨target, rfl⟩ | ⟨sides, rfl⟩ := q.prepared_cases s
  rotate_left
  · cases hx
  · cases hx
  have hrealizes := realizes_perform hsound hopen hprepared
  rcases prepared with failure | work
  · obtain ⟨t, hrun, -⟩ := hrealizes.fails
    rw [hrun]
    exact .of_own (.checks hprepared)
  obtain ⟨hwork, hsizes⟩ := Query.worksAt_of_prepared hx hprepared hq
  have hsettled : Furthers (q.Refuses s) (fun value r ↦ value = total r.2)
      ((evaluate x none none).run s).1 (s.objective.settled (.ok work)) := by
    obtain ⟨hmode, point, hpoint, hat⟩ := hwork
    have hdirect := furthers_direct hsound hconsistent hmode s.memory hpoint
    rw [direct_eq_map, hat] at hdirect
    rw [fst_run_evaluate hsound hopen]
    refine .map_left ((Furthers.of_map hdirect).mono ?_ fun _ _ h ↦ h)
    exact fun _ h ↦ .unadded hx hpoint h
  rcases hs : s.objective.settled (.ok work) with failure | ⟨work', sums⟩ <;>
    rw [hs] at hsettled hrealizes
  · obtain ⟨t, hrun, -⟩ := hrealizes.fails
    rw [hrun]
    generalize ((evaluate x none none).run s).1 = found at hsettled ⊢
    cases hsettled with
    | error => exact .error
    | own h => exact .own h
  rcases hassembly : q.assembly s.objective with failure | ⟨⟩ <;> rw [hassembly] at hrealizes
  · obtain ⟨t, hrun, -⟩ := hrealizes.fails
    rw [hrun]
    exact .of_own (.assembly hassembly)
  obtain ⟨answer, t, hrun, r, hr, hanswered⟩ := hrealizes.succeeds
  cases hr
  obtain rfl : work = work' := Except.ok.inj (eq_ok_of_settled hs)
  have hsums := SumsAt.of_settled hsound hconsistent hwork hs
  rw [hrun]
  generalize hfound : ((evaluate x none none).run s).1 = found at hsettled ⊢
  cases hsettled with
  | ok h =>
    subst h
    refine .ok ⟨hanswered.value, fun hundisturbed element gradient hgradient ↦ ?_⟩
    rw [hrun] at hgradient
    exact ⟨sums, hsums, hanswered.gradient_eq hsizes hundisturbed hgradient,
      hsums.run_valueAndGradient hsound hopen⟩

end Agreement

/-! ### Small evaluations -/

namespace Small

open Objective

theorem eq_ok_of_toOption {ε β : Type} {x : Except ε β} {b : β} (h : x.toOption = some b) :
    x = .ok b := by
  rcases x with e | c <;> cases h
  rfl

theorem consistent_scene (transform : Option (Transform Int))
    (h : (scene transform).objective.graph.bindings.map Binding.term = [squares, product]) :
    ∀ b ∈ (scene transform).objective.graph.bindings, b.term.Consistent := by
  intro b hb
  have hmem := h ▸ List.mem_map_of_mem (f := Binding.term) hb
  obtain h | h : b.term = squares ∨ b.term = product := by simpa using hmem
  · exact h ▸ Term.consistent_total _ _ _ _ _ _ _
  · exact h ▸ Term.consistent_total _ _ _ _ _ _ _

theorem exists_run_eq {ε β σ : Type} {m : Except ε β × σ} {b : β} {P : σ → Prop}
    (h : m.1.toOption = some b) (hP : P m.2) : ∃ t, m = (.ok b, t) ∧ P t :=
  ⟨m.2, Prod.ext (eq_ok_of_toOption h) rfl, hP⟩

/-- A query at a point for every entry point. -/
def queriesAt (x : GivenPoint Int) : List (Query Int) :=
  [.evaluate x none none, .evaluate x (some (.array gradient)) none,
    .evaluate x (some (.array gradient)) (some (.array hessian)),
    .evaluate x none (some (.array hessian)), .valueAndGradient x,
    .evaluateSparse x (.array gradient) (some 0), .valueGradientSparse x, .valueGradientDense x]

/-- In the small history without a transform on a bound variable, all entry points agree. -/
theorem agrees_of_scene :
    ((evaluate (.ok (.vector [1, 2, 3, 4])) none none).run (scene none)).1 = .ok 11 ∧
      ∀ q ∈ queriesAt (.ok (.vector [1, 2, 3, 4])), ∃ answer,
        (q.perform.run (scene none)).1 = .ok answer ∧
          q.Agrees (scene none) (.ok (.vector [1, 2, 3, 4])) 11 answer := by
  have hvalue : ((evaluate (.ok (.vector [1, 2, 3, 4])) none none).run (scene none)).1 = .ok 11 :=
    rfl
  have hanswers : ∀ q ∈ queriesAt (.ok (.vector [1, 2, 3, 4])),
      (q.perform.run (scene none)).1.isOk = true ∧
        q.point? = some (.ok (.vector [1, 2, 3, 4])) := by
    simp only [queriesAt, List.forall_mem_cons]
    exact ⟨⟨rfl, rfl⟩, ⟨rfl, rfl⟩, ⟨by decide +kernel, rfl⟩, ⟨by decide +kernel, rfl⟩, ⟨rfl, rfl⟩,
      ⟨by decide +kernel, rfl⟩, ⟨by decide +kernel, rfl⟩, ⟨by decide +kernel, rfl⟩, by simp⟩
  refine ⟨hvalue, fun q hq ↦ ?_⟩
  obtain ⟨hok, hx⟩ := hanswers q hq
  have hfurthers := (reached_scene none).furthers_evaluate rfl (consistent_scene none rfl) hx
  rw [hvalue] at hfurthers
  generalize (q.perform.run (scene none)).1 = result at hok hfurthers
  cases hfurthers with
  | own h => cases hok
  | ok h => exact ⟨_, rfl, h⟩

/-- A transform along which no gradient can be pulled back. -/
def stuck : Transform Int :=
  { tripled with
    projectGradient := fun accumulator _ _ ↦
      { state := accumulator, steps := 0, failure := some (.raised "ValueError" "boom") } }

/-- An array for a Hessian that begins where the one for the gradient does. -/
def overlapping : Block := { id := 8, shape := [4, 4], cells := List.range' 4 16 }

/-- A number. -/
def scalar : Block := { id := 1, shape := [1], cells := [0] }

/-- An array for its derivative, in single precision. -/
def singlePrecision : Block := { id := 2, shape := [1], cells := [1], element := .float32 }

/-- A tenth of a number. -/
def tenth : Term Float :=
  .total 0 "Tenth" [1] (fun arguments ↦ 0.1 * Term.first arguments 0) (fun _ ↦ [[0.1]])
    (fun _ ↦ [[[[0]]]]) fun _ ↦ Term.noEnclosure "Tenth"

/-- The scene after the tenth of a number has been added. -/
def tenthScene : Scene Float :=
  Scene.after { objective := { settings := { workerCount := .int 1 }, workerCount := 1 },
                memory := { cells := #[1, 0] } }
    [.register (.array scalar) .null none, .addTerm tenth [.array scalar]]

theorem reached_tenthScene : tenthScene.Reached :=
  have hcreate : Objective.create 1 { workerCount := .int 1 } =
      .ok ({ settings := { workerCount := .int 1 }, workerCount := 1 } : Objective Float) := rfl
  (Scene.Reached.created hcreate _ [] {}).after _

/-- Entry points disagree if a gradient cannot be pulled back, if the Hessian is written over the
gradient, or if the gradient is written to an array of single precision. -/
theorem disagrees_of_scenes :
    ((scene (some stuck)).Reached ∧
      (∀ b ∈ (scene (some stuck)).objective.graph.bindings, b.term.Consistent) ∧
      ((evaluate (.ok (.vector [1, 2, 3, 4])) none none).run (scene (some stuck))).1 = .ok 23 ∧
      ∀ result, ((valueAndGradient (.ok (.vector [1, 2, 3, 4]))).run (scene (some stuck))).1 ≠
        .ok result) ∧
    ((scene none).Reached ∧
      (∀ b ∈ (scene none).objective.graph.bindings, b.term.Consistent) ∧
      ((valueAndGradient (.ok (.vector [1, 2, 3, 4]))).run (scene none)).1 =
        .ok (11, [8, 7, 2, 0]) ∧
      ∃ t, (evaluate (.ok (.vector [1, 2, 3, 4])) (some (.array gradient))
          (some (.array overlapping))).run (scene none) = (.ok 11, t) ∧
        t.memory.read gradient = [2, 3, 2, 0]) ∧
    (tenthScene.Reached ∧
      (∀ b ∈ tenthScene.objective.graph.bindings, b.term.Consistent) ∧
      ((valueAndGradient (.ok (.vector [1]))).run tenthScene).1 = .ok (0.1, [0.1]) ∧
      ∃ t, (evaluate (.ok (.vector [1])) (some (.array singlePrecision)) none).run tenthScene =
          (.ok 0.1, t) ∧
        t.memory.read singlePrecision ≠ [0.1]) := by
  refine ⟨⟨reached_scene _, consistent_scene _ rfl, rfl, nofun⟩,
    ⟨reached_scene _, consistent_scene _ rfl, ?_, ?_⟩, ⟨reached_tenthScene, ?_, ?_, ?_⟩⟩
  · exact eq_ok_of_toOption (by decide +kernel)
  · exact exists_run_eq (by decide +kernel) (by decide +kernel)
  · intro b hb
    obtain rfl := List.mem_singleton.1 hb
    exact Term.consistent_total _ _ _ _ _ _ _
  · exact eq_ok_of_toOption (by decide +kernel)
  · exact exists_run_eq (by decide +kernel) (by decide +kernel)

end Small

end Summand
