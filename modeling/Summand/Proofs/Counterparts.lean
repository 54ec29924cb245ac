import Summand.Proofs.Enclosures
import Summand.Proofs.Pattern
import Summand.Proofs.QuerySteps

/-!
# Objectives that answer alike

Two objectives can stand in for each other although their results differ, as long as these
correspond: the entries of gradients may be in another order, for instance. In which ways results
correspond is a `Likeness`.

If the evaluations of two objectives come to results that are alike, and their checks fail together
(`Scene.Counterparts`), then every query does: both fail, or both answers are alike, and so is what
has been written to the memories (`Scene.Counterparts.related_perform`).
-/

namespace Summand

variable {α : Type}

/-! ### Likeness -/

/-- In which ways the inputs and results of two objectives are alike. -/
structure Likeness (α : Type) where
  /-- Points and gradients. -/
  vector : List α → List α → Prop
  /-- The rows of dense Hessians. -/
  matrix : List (List α) → List (List α) → Prop
  /-- Sparse Hessians, beside what the blocks of the bindings have at each place. -/
  hessian : (given given' : ℕ → ℕ → List α) → SparseMatrix α → SparseMatrix α → Prop
  pattern : SparseMatrix α → SparseMatrix α → Prop
  box : List BoxSide → List BoxSide → Prop

namespace Likeness

variable (L : Likeness α)

/-- Points that are vectors of the given length are alike as such; any two others are. -/
def Points (n : ℤ) (x x' : GivenPoint α) : Prop :=
  Together L.vector (Objective.pointOf n x) (Objective.pointOf n x')

/-- The same is asked of two objectives, at points or over boxes that are alike. -/
inductive Queries (n : ℤ) : Query α → Query α → Prop
  | evaluate {x x' : GivenPoint α} (h : L.Points n x x') (gradient hessian : Option Handle) :
    Queries n (.evaluate x gradient hessian) (.evaluate x' gradient hessian)
  | evaluateUser : Queries n .evaluateUser .evaluateUser
  | valueAndGradient {x x' : GivenPoint α} (h : L.Points n x x') :
    Queries n (.valueAndGradient x) (.valueAndGradient x')
  | evaluateSparse {x x' : GivenPoint α} (h : L.Points n x x') (gradient : Handle)
    (target : Option ℕ) :
    Queries n (.evaluateSparse x gradient target) (.evaluateSparse x' gradient target)
  | valueGradientSparse {x x' : GivenPoint α} (h : L.Points n x x') :
    Queries n (.valueGradientSparse x) (.valueGradientSparse x')
  | valueGradientDense {x x' : GivenPoint α} (h : L.Points n x x') :
    Queries n (.valueGradientDense x) (.valueGradientDense x')
  | sparsityPattern (target : Option ℕ) :
    Queries n (.sparsityPattern target) (.sparsityPattern target)
  | evaluateEnclosure {sides sides' : List BoxSide} (h : L.box sides sides') :
    Queries n (.evaluateEnclosure sides) (.evaluateEnclosure sides')

section Results

variable (given given' : ℕ → ℕ → List α)

/-- Answers with the same value and the same interval, and with derivatives that are alike. -/
inductive Answers : Answer α → Answer α → Prop
  | value (value : α) : Answers (.value value) (.value value)
  | valueGradient (value : α) {g g' : List α} (gradient : L.vector g g') :
    Answers (.valueGradient value g) (.valueGradient value g')
  | sparse (value : α) {g g' : List α} {h h' : SparseMatrix α} (gradient : L.vector g g')
    (hessian : L.hessian given given' h h') : Answers (.sparse value g h) (.sparse value g' h')
  | dense (value : α) {g g' : List α} {h h' : List (List α)} (gradient : L.vector g g')
    (hessian : L.matrix h h') : Answers (.dense value g h) (.dense value g' h')
  | pattern {m m' : SparseMatrix α} (h : L.pattern m m') : Answers (.pattern m) (.pattern m')
  | enclosure (interval : Interval) : Answers (.enclosure interval) (.enclosure interval)

/-- Writes of results that are alike to one place. -/
inductive Writes : Memory.Write α → Memory.Write α → Prop
  | gradient (block : Block) {g g' : List α} (h : L.vector g g') :
    Writes (.store block g) (.store block g')
  | dense (block : Block) {rows rows' : List (List α)} (h : L.matrix rows rows') :
    Writes (.store block rows.flatten) (.store block rows'.flatten)
  | sparse (position count : ℕ) {m m' : SparseMatrix α} (h : L.hessian given given' m m') :
    Writes (.setTarget position ⟨some m, count⟩) (.setTarget position ⟨some m', count⟩)
  | pattern (position count : ℕ) {m m' : SparseMatrix α} (h : L.pattern m m') :
    Writes (.setTarget position ⟨some m, count⟩) (.setTarget position ⟨some m', count⟩)

end Results

variable [Storable α]

/-- Two queries have led from scenes to others with answers that are alike, and have written what is
alike. -/
structure Results (s s' : Scene α) (a a' : Answer α) (t t' : Scene α) : Prop where
  answers : L.Answers t.objective.contributions t'.objective.contributions a a'
  writes : ∃ writes writes' : List (Memory.Write α),
    t.memory = s.memory.writeAll writes ∧ t'.memory = s'.memory.writeAll writes' ∧
      List.Forall₂ (L.Writes t.objective.contributions t'.objective.contributions) writes writes'

variable [Zero α] [Add α]

/-- Two evaluations with derivatives have come to results that are alike. -/
structure Computed (mode : Mode) (s s' : Scene α) (r r' : α × List (List α)) (t t' : Scene α) :
    Prop where
  evaluated : Evaluated s t
  evaluated' : Evaluated s' t'
  value : r.1 = r'.1
  gradient : ∀ element,
    L.vector (Objective.sumGradients element s.objective.totalScalars.toNat r.2)
      (Objective.sumGradients element s.objective.totalScalars.toNat r'.2)
  dense : mode = .hessian → ∀ element,
    L.matrix (Objective.assembleDense element t.objective)
      (Objective.assembleDense element t'.objective)
  count : mode = .hessian →
    t.objective.blockValues.length = t'.objective.blockValues.length
  sparse : mode = .hessian → ∀ places places', s.objective.placement = .ok places →
    s'.objective.placement = .ok places' →
      L.hessian t.objective.contributions t'.objective.contributions
        (.assemble s.platform.arrangement s.objective.totalScalars.toNat places
          t.objective.blockValues)
        (.assemble s'.platform.arrangement s.objective.totalScalars.toNat places'
          t'.objective.blockValues)

end Likeness

section Counterparts

variable [Zero α] [Add α] [OfNat α 1] [Storable α]

/-- Two open objectives whose checks fail together, and whose evaluations come to results that are
alike. -/
structure Scene.Counterparts (L : Likeness α) (s s' : Scene α) : Prop where
  sound : s.objective.Sound
  sound' : s'.objective.Sound
  isOpen : s.objective.closed = false
  isOpen' : s'.objective.closed = false
  total : s.objective.totalScalars = s'.objective.totalScalars
  allowed : Together (fun _ _ ↦ True) s.objective.hessianAllowed s'.objective.hessianAllowed
  patternAllowed :
    Together (fun _ _ ↦ True) s.objective.patternAllowed s'.objective.patternAllowed
  /-- The places of the Hessian's entries make patterns that are alike. -/
  placement : s.objective.patternAllowed = .ok () → s'.objective.patternAllowed = .ok () →
    Together (fun places places' ↦ places.length = places'.length ∧ L.pattern
      (.assemble s.platform.arrangement s.objective.totalScalars.toNat places
        (List.replicate places.length 1))
      (.assemble s'.platform.arrangement s.objective.totalScalars.toNat places'
        (List.replicate places.length 1))) s.objective.placement s'.objective.placement
  value : ∀ x x', L.Points s.objective.totalScalars x x' →
    Related (fun _ _ _ _ ↦ True) (fun r r' t t' ↦ r = r' ∧ Evaluated s t ∧ Evaluated s' t')
      ((Objective.evaluateValue (some x)).run s) ((Objective.evaluateValue (some x')).run s')
  user : s.memory = s'.memory →
    Related (fun _ _ _ _ ↦ True) (fun r r' t t' ↦ r = r' ∧ Evaluated s t ∧ Evaluated s' t')
      ((Objective.evaluateValue none).run s) ((Objective.evaluateValue none).run s')
  workers : ∀ mode, mode ≠ .value → (mode = .hessian → s.objective.hessianAllowed = .ok () ∧
      s'.objective.hessianAllowed = .ok ()) → ∀ x x', L.vector x x' →
    Related (fun _ _ _ _ ↦ True) (L.Computed mode s s')
      ((Objective.evaluateWorkers mode x).run s) ((Objective.evaluateWorkers mode x').run s')
  enclosed : ∀ sides sides', L.box sides sides' →
    Together Eq (s.objective.enclosed sides) (s'.objective.enclosed sides')

end Counterparts

/-! ### Steps -/

namespace Objective

open Summand.Action

/-- Hessians are allowed only where patterns are. -/
theorem patternAllowed_of_hessianAllowed {o : Objective α} (h : o.hessianAllowed = .ok ()) :
    o.patternAllowed = .ok () :=
  patternAllowed_eq_ok_iff.2 (hessianAllowed_eq_ok_iff.1 h).2

end Objective

/-- What is written after an evaluation is all that is written. -/
theorem Likeness.Computed.results [Zero α] [Add α] [Storable α] {L : Likeness α} {mode : Mode}
    {s s' t t' : Scene α} {r r' : α × List (List α)} {a a' : Answer α}
    (h : L.Computed mode s s' r r' t t')
    (hanswers : L.Answers t.objective.contributions t'.objective.contributions a a')
    {writes writes' : List (Memory.Write α)}
    (hwrites : List.Forall₂ (L.Writes t.objective.contributions t'.objective.contributions)
      writes writes') :
    L.Results s s' a a' { t with memory := t.memory.writeAll writes }
      { t' with memory := t'.memory.writeAll writes' } where
  answers := hanswers
  writes := ⟨writes, writes', by rw [h.evaluated.memory], by rw [h.evaluated'.memory], hwrites⟩

/-! ### Queries -/

namespace Scene.Counterparts

open Summand.Action Objective

variable [Zero α] [Add α] [OfNat α 1] [Storable α] {L : Likeness α} {s s' : Scene α}

section Steps

variable {β β' : Type} {Q : β → β' → Scene α → Scene α → Prop}

theorem related_checkOpen (h : Counterparts L s s') (operation : String)
    {f : Unit → Action α β} {g : Unit → Action α β'}
    (hnext : Related (fun _ _ _ _ ↦ True) Q ((f ()).run s) ((g ()).run s')) :
    Related (fun _ _ _ _ ↦ True) Q ((checkOpen operation >>= f).run s)
      ((checkOpen operation >>= g).run s') := by
  rw [run_bind_of_ok (run_checkOpen_of_open _ h.isOpen),
    run_bind_of_ok (run_checkOpen_of_open _ h.isOpen')]
  exact hnext

theorem related_checkHessianAllowed (h : Counterparts L s s')
    {f : Unit → Action α β} {g : Unit → Action α β'}
    (hnext : s.objective.hessianAllowed = .ok () → s'.objective.hessianAllowed = .ok () →
      Related (fun _ _ _ _ ↦ True) Q ((f ()).run s) ((g ()).run s')) :
    Related (fun _ _ _ _ ↦ True) Q ((checkHessianAllowed >>= f).run s)
      ((checkHessianAllowed >>= g).run s') :=
  .check (run_checkHessianAllowed s) (run_checkHessianAllowed s') h.allowed
    fun _ _ hs hs' _ ↦ hnext hs hs'

omit [Zero α] [Add α] [OfNat α 1] [Storable α] in
/-- One check that does not read the scene. -/
theorem related_liftM {δ : Type} (result : Except Failure δ) {f : δ → Action α β}
    {g : δ → Action α β'}
    (hnext : ∀ r, Related (fun _ _ _ _ ↦ True) Q ((f r).run s) ((g r).run s')) :
    Related (fun _ _ _ _ ↦ True) Q (((liftM result : Action α δ) >>= f).run s)
      (((liftM result : Action α δ) >>= g).run s') :=
  .check (run_liftM result s) (run_liftM result s') (.same fun _ _ ↦ rfl)
    fun r _ _ _ h ↦ h ▸ hnext r

theorem related_checkPoint (h : Counterparts L s s') {x x' : GivenPoint α}
    (hx : L.Points s.objective.totalScalars x x') {f : List α → Action α β}
    {g : List α → Action α β'}
    (hnext : ∀ y y', L.vector y y' →
      Related (fun _ _ _ _ ↦ True) Q ((f y).run s) ((g y').run s')) :
    Related (fun _ _ _ _ ↦ True) Q ((checkPoint x >>= f).run s)
      ((checkPoint x' >>= g).run s') := by
  refine .check (run_checkPoint x s) (run_checkPoint x' s') ?_ fun y y' _ _ hy ↦ hnext y y' hy
  rw [← h.total]
  exact hx

end Steps

/-- Sparse matrices can be assembled of both results, and are alike. -/
theorem related_assembleSparse (h : Counterparts L s s')
    (hallowed : s.objective.hessianAllowed = .ok ())
    (hallowed' : s'.objective.hessianAllowed = .ok ()) {r r' : α × List (List α)}
    {t t' : Scene α} (hcomputed : L.Computed .hessian s s' r r' t t') (m m' : Memory α) :
    Related (fun _ _ _ _ ↦ True)
      (fun matrix matrix' u u' ↦ u.memory = m ∧ u'.memory = m' ∧
        u.objective.contributions = t.objective.contributions ∧
        u'.objective.contributions = t'.objective.contributions ∧
        L.hessian t.objective.contributions t'.objective.contributions matrix matrix')
      ((assembleSparse t.objective.blockValues).run { t with memory := m })
      ((assembleSparse t'.objective.blockValues).run { t' with memory := m' }) := by
  have hkeeps (c : ℕ → ℕ → List α) (values : List α) :
      Keeps (fun u ↦ u.objective.contributions = c) (assembleSparse values : Action α _) :=
    keeps_assembleSparse (fun _ _ h ↦ h) values
  have hs := (realizes_assembleSparse (s := { t with memory := m }) hcomputed.evaluated.sound
    t.objective.blockValues).with_kept (hkeeps t.objective.contributions _) rfl
  have hs' := (realizes_assembleSparse (s := { t' with memory := m' }) hcomputed.evaluated'.sound
    t'.objective.blockValues).with_kept (hkeeps t'.objective.contributions _) rfl
  have hplacement := h.placement (patternAllowed_of_hessianAllowed hallowed)
    (patternAllowed_of_hessianAllowed hallowed')
  rw [placement_eq_of_bare hcomputed.evaluated.bare,
    placement_eq_of_bare hcomputed.evaluated'.bare] at hplacement
  refine .of_together hs hs' hplacement ?_
  rintro places places' _ _ u u' hplaces hplaces' - ⟨⟨hu, rfl⟩, hgiven⟩ ⟨⟨hu', rfl⟩, hgiven'⟩
  refine ⟨hu.memory, hu'.memory, hgiven, hgiven', ?_⟩
  have hsparse := hcomputed.sparse rfl places places'
    ((placement_eq_of_bare hcomputed.evaluated.bare).trans hplaces)
    ((placement_eq_of_bare hcomputed.evaluated'.bare).trans hplaces')
  rw [← hcomputed.evaluated.platform, ← hcomputed.evaluated'.platform] at hsparse
  rw [← totalScalars_eq_of_bare hcomputed.evaluated.bare,
    ← totalScalars_eq_of_bare hcomputed.evaluated'.bare, ← h.total]
  exact hsparse

/-! ### Arrays of the caller -/

variable {x x' : GivenPoint α}

theorem related_writeGradient (h : Counterparts L s s') {mode : Mode} {r r' : α × List (List α)}
    {t t' : Scene α} (hcomputed : L.Computed mode s s' r r' t t') (block : Block) {β β' : Type}
    {Q : β → β' → Scene α → Scene α → Prop} {f : Unit → Action α β} {g : Unit → Action α β'}
    (hnext : ∀ v v', L.vector v v' → Related (fun _ _ _ _ ↦ True) Q
      ((f ()).run { t with memory := t.memory.write (.store block v) })
      ((g ()).run { t' with memory := t'.memory.write (.store block v') })) :
    Related (fun _ _ _ _ ↦ True) Q ((writeGradient block r.2 >>= f).run t)
      ((writeGradient block r'.2 >>= g).run t') := by
  rw [run_writeGradient_bind, run_writeGradient_bind,
    ← totalScalars_eq_of_bare hcomputed.evaluated.bare,
    ← totalScalars_eq_of_bare hcomputed.evaluated'.bare, ← h.total]
  exact hnext _ _ (hcomputed.gradient block.element)

theorem related_evaluateInto (h : Counterparts L s s') (hx : L.Points s.objective.totalScalars x x')
    (gradient : Handle) (hessian : Option Handle) :
    Related (fun _ _ _ _ ↦ True) (fun r r' t t' ↦ L.Results s s' (.value r) (.value r') t t')
      ((evaluateInto x gradient hessian).run s) ((evaluateInto x' gradient hessian).run s') := by
  cases hessian with
  | none =>
    rw [evaluateInto_none, evaluateInto_none, run_objective_bind, run_objective_bind, ← h.total]
    refine h.related_checkPoint hx fun y y' hy ↦ related_liftM _ fun block ↦ ?_
    refine (h.workers .gradient (by simp) (by simp) y y' hy).bind fun r r' t t' hr ↦ ?_
    refine h.related_writeGradient hr block fun v v' hv ↦ .ok ?_
    rw [hr.value]
    exact hr.results (.value _) (.cons (.gradient block hv) .nil)
  | some hessian =>
    rw [evaluateInto_some, evaluateInto_some]
    refine h.related_checkHessianAllowed fun hallowed hallowed' ↦ ?_
    rw [run_objective_bind, run_objective_bind, ← h.total]
    refine h.related_checkPoint hx fun y y' hy ↦ related_liftM _ fun block ↦
      related_liftM _ fun hessianBlock ↦ ?_
    refine (h.workers .hessian (by simp) (fun _ ↦ ⟨hallowed, hallowed'⟩) y y' hy).bind
      fun r r' t t' hr ↦ ?_
    refine h.related_writeGradient hr block fun v v' hv ↦ .ok ?_
    rw [hr.value]
    exact hr.results (.value _)
      (.cons (.gradient block hv) (.cons (.dense hessianBlock (hr.dense rfl _)) .nil))

theorem related_evaluate (h : Counterparts L s s') (hx : L.Points s.objective.totalScalars x x')
    (gradient hessian : Option Handle) :
    Related (fun _ _ _ _ ↦ True) (fun r r' t t' ↦ L.Results s s' (.value r) (.value r') t t')
      ((evaluate x gradient hessian).run s) ((evaluate x' gradient hessian).run s') := by
  unfold evaluate
  refine h.related_checkOpen _ ?_
  rcases gradient with - | gradient
  · rcases hessian with - | hessian
    · refine (h.value x x' hx).mono (fun _ _ _ _ h ↦ h) ?_
      rintro r _ t t' ⟨rfl, ht, ht'⟩
      exact ⟨.value r, [], [], ht.memory, ht'.memory, .nil⟩
    · dsimp only
      rw [run_objective_bind, run_objective_bind, ← h.total]
      refine related_liftM _ fun _ ↦ h.related_checkHessianAllowed fun hallowed hallowed' ↦ ?_
      refine h.related_checkPoint hx fun y y' hy ↦ related_liftM _ fun block ↦ ?_
      refine (h.workers .hessian (by simp) (fun _ ↦ ⟨hallowed, hallowed'⟩) y y' hy).bind
        fun r r' t t' hr ↦ .ok ?_
      rw [hr.value]
      exact hr.results (.value _) (.cons (.dense block (hr.dense rfl _)) .nil)
  · exact h.related_evaluateInto hx gradient hessian

/-! ### New arrays -/

theorem related_evaluateFresh (h : Counterparts L s s')
    (hx : L.Points s.objective.totalScalars x x') {mode : Mode} (hmode : mode ≠ .value) :
    Related (fun _ _ _ _ ↦ True)
      (fun r r' t t' ↦ L.vector r.2 r'.2 ∧
        (mode = .hessian → s.objective.hessianAllowed = .ok () ∧
          s'.objective.hessianAllowed = .ok ()) ∧
        ∃ gradients gradients', L.Computed mode s s' (r.1, gradients) (r'.1, gradients') t t')
      ((evaluateFresh mode x).run s) ((evaluateFresh mode x').run s') := by
  rw [evaluateFresh, evaluateFresh, run_objective_bind, run_objective_bind, ← h.total]
  dsimp only
  split
  · refine h.related_checkHessianAllowed fun hallowed hallowed' ↦
      h.related_checkPoint hx fun y y' hy ↦ ?_
    refine (h.workers mode hmode (fun _ ↦ ⟨hallowed, hallowed'⟩) y y' hy).bind
      fun r r' t t' hr ↦ ?_
    exact .ok ⟨hr.gradient _, fun _ ↦ ⟨hallowed, hallowed'⟩, r.2, r'.2, hr⟩
  · rename_i hgradient
    refine h.related_checkPoint hx fun y y' hy ↦ ?_
    refine (h.workers mode hmode (absurd · hgradient) y y' hy).bind fun r r' t t' hr ↦ ?_
    exact .ok ⟨hr.gradient _, (absurd · hgradient), r.2, r'.2, hr⟩

theorem related_valueAndGradient (h : Counterparts L s s')
    (hx : L.Points s.objective.totalScalars x x') :
    Related (fun _ _ _ _ ↦ True)
      (fun r r' t t' ↦ L.Results s s' (.valueGradient r.1 r.2) (.valueGradient r'.1 r'.2) t t')
      ((valueAndGradient x).run s) ((valueAndGradient x').run s') := by
  rw [valueAndGradient, valueAndGradient]
  refine h.related_checkOpen _ ?_
  rw [run_objective_bind, run_objective_bind, ← h.total]
  refine related_liftM _ fun _ ↦ ?_
  refine (h.related_evaluateFresh hx (by simp)).mono (fun _ _ _ _ h ↦ h) ?_
  rintro ⟨value, v⟩ ⟨value', v'⟩ t t' ⟨hv, -, gradients, gradients', hr⟩
  obtain rfl : value = value' := hr.value
  exact hr.results (.valueGradient value hv) .nil

theorem related_valueGradientDense (h : Counterparts L s s')
    (hx : L.Points s.objective.totalScalars x x') :
    Related (fun _ _ _ _ ↦ True)
      (fun r r' t t' ↦
        L.Results s s' (.dense r.1 r.2.1 r.2.2) (.dense r'.1 r'.2.1 r'.2.2) t t')
      ((valueGradientDense x).run s) ((valueGradientDense x').run s') := by
  rw [valueGradientDense, valueGradientDense]
  refine h.related_checkOpen _ ?_
  rw [run_objective_bind, run_objective_bind, ← h.total]
  refine related_liftM _ fun _ ↦ related_liftM _ fun _ ↦ ?_
  refine (h.related_evaluateFresh hx (by simp)).bind ?_
  rintro ⟨value, v⟩ ⟨value', v'⟩ t t' ⟨hv, -, gradients, gradients', hr⟩
  obtain rfl : value = value' := hr.value
  exact .ok (hr.results (.dense value hv (hr.dense rfl _)) .nil)

/-! ### Sparse matrices -/

theorem related_valueGradientSparse (h : Counterparts L s s')
    (hx : L.Points s.objective.totalScalars x x') :
    Related (fun _ _ _ _ ↦ True)
      (fun r r' t t' ↦
        L.Results s s' (.sparse r.1 r.2.1 r.2.2) (.sparse r'.1 r'.2.1 r'.2.2) t t')
      ((valueGradientSparse x).run s) ((valueGradientSparse x').run s') := by
  rw [valueGradientSparse, valueGradientSparse]
  refine h.related_checkOpen _ ?_
  rw [run_objective_bind, run_objective_bind, ← h.total]
  refine related_liftM _ fun _ ↦ ?_
  refine (h.related_evaluateFresh hx (by simp)).bind ?_
  rintro ⟨value, v⟩ ⟨value', v'⟩ t t' ⟨hv, hallowed, gradients, gradients', hr⟩
  obtain rfl : value = value' := hr.value
  dsimp only
  rw [run_objective_bind, run_objective_bind]
  refine (h.related_assembleSparse (hallowed rfl).1 (hallowed rfl).2 hr t.memory t'.memory).bind ?_
  rintro m m' u u' ⟨hmemory, hmemory', hgiven, hgiven', hm⟩
  refine .ok ⟨?_, [], [], hmemory.trans hr.evaluated.memory, hmemory'.trans hr.evaluated'.memory,
    .nil⟩
  rw [hgiven, hgiven']
  exact .sparse value hv hm

theorem related_evaluateSparse (h : Counterparts L s s')
    (hx : L.Points s.objective.totalScalars x x') (gradient : Handle) (target : Option ℕ) :
    Related (fun _ _ _ _ ↦ True) (fun r r' t t' ↦ L.Results s s' (.value r) (.value r') t t')
      ((evaluateSparse x gradient target).run s) ((evaluateSparse x' gradient target).run s') := by
  unfold evaluateSparse
  refine h.related_checkOpen _ ?_
  rcases target with - | position
  · exact .error trivial
  refine h.related_checkHessianAllowed fun hallowed hallowed' ↦ ?_
  rw [run_objective_bind, run_objective_bind, ← h.total]
  refine h.related_checkPoint hx fun y y' hy ↦ related_liftM _ fun block ↦ ?_
  refine (h.workers .hessian (by simp) (fun _ ↦ ⟨hallowed, hallowed'⟩) y y' hy).bind
    fun r r' t t' hr ↦ ?_
  refine h.related_writeGradient hr block fun v v' hv ↦ ?_
  rw [run_objective_bind, run_objective_bind, assembleTarget, assembleTarget, bind_assoc,
    bind_assoc]
  refine (h.related_assembleSparse hallowed hallowed' hr _ _).bind ?_
  rintro m m' u u' ⟨hmemory, hmemory', hgiven, hgiven', hm⟩
  have hcount := hr.count rfl
  refine .ok ⟨?_, [.store block v, .setTarget position ⟨some m, t.objective.blockValues.length⟩],
    [.store block v', .setTarget position ⟨some m', t.objective.blockValues.length⟩], ?_, ?_, ?_⟩
  · rw [hr.value]
    exact .value _
  · change u.memory.setTarget _ _ = _
    rw [hmemory, hr.evaluated.memory]
    rfl
  · change u'.memory.setTarget _ _ = _
    rw [hmemory', hr.evaluated'.memory, hcount]
    rfl
  · change List.Forall₂ (L.Writes u.objective.contributions u'.objective.contributions) _ _
    rw [hgiven, hgiven']
    exact .cons (.gradient block hv) (.cons (.sparse position _ hm) .nil)

theorem related_sparsityPattern (h : Counterparts L s s') (target : Option ℕ) :
    Related (fun _ _ _ _ ↦ True) (fun m m' t t' ↦ L.Results s s' (.pattern m) (.pattern m') t t')
      ((sparsityPattern target).run s) ((sparsityPattern target).run s') := by
  refine .of_together (realizes_sparsityPattern h.sound h.isOpen target)
    (realizes_sparsityPattern h.sound' h.isOpen' target)
    (h.patternAllowed.bind fun _ _ hallowed hallowed' _ ↦ h.placement hallowed hallowed') ?_
  rintro places places' m m' t t' - - ⟨hlength, hpattern⟩ hm hm'
  rw [← hm.ones, h.total, hlength, ← hm'.ones] at hpattern
  have hm'' := hm'.memory
  rw [← hlength] at hm''
  refine ⟨.pattern hpattern, ?_⟩
  rcases target with - | position
  · exact ⟨[], [], hm.memory, hm'', .nil⟩
  · exact ⟨[.setTarget position ⟨some m, places.length⟩],
      [.setTarget position ⟨some m', places.length⟩], hm.memory, hm'',
      .cons (.pattern position _ hpattern) .nil⟩

/-! ### All queries -/

/-- Queries that are alike fail together, or get answers that are alike and write what is alike.
Queries at the values of the caller's blocks do so beside the same memory. -/
theorem related_perform (h : Counterparts L s s') {q q' : Query α}
    (hq : L.Queries s.objective.totalScalars q q')
    (hblocks : q = .evaluateUser → s.memory = s'.memory) :
    Related (fun _ _ _ _ ↦ True) (L.Results s s') (q.perform.run s) (q'.perform.run s') := by
  cases hq with
  | evaluate hx gradient hessian =>
    exact (h.related_evaluate hx gradient hessian).bind fun _ _ _ _ hr ↦ .ok hr
  | evaluateUser =>
    refine (h.related_checkOpen _ (h.user (hblocks rfl))).bind ?_
    rintro r _ t t' ⟨rfl, ht, ht'⟩
    exact .ok ⟨.value r, [], [], ht.memory, ht'.memory, .nil⟩
  | valueAndGradient hx =>
    exact (h.related_valueAndGradient hx).bind fun _ _ _ _ hr ↦ .ok hr
  | evaluateSparse hx gradient target =>
    exact (h.related_evaluateSparse hx gradient target).bind fun _ _ _ _ hr ↦ .ok hr
  | valueGradientSparse hx =>
    exact (h.related_valueGradientSparse hx).bind fun _ _ _ _ hr ↦ .ok hr
  | valueGradientDense hx =>
    exact (h.related_valueGradientDense hx).bind fun _ _ _ _ hr ↦ .ok hr
  | sparsityPattern target =>
    exact (h.related_sparsityPattern target).bind fun _ _ _ _ hr ↦ .ok hr
  | @evaluateEnclosure sides sides' hsides =>
    have hstate := evaluated_evaluateEnclosure h.sound sides
    have hstate' := evaluated_evaluateEnclosure h.sound' sides'
    have hrelated : Related (fun _ _ _ _ ↦ True) (fun r r' _ _ ↦ r = r')
        ((evaluateEnclosure sides).run s) ((evaluateEnclosure sides').run s') :=
      .of_together (realizes_evaluateEnclosure h.isOpen sides)
        (realizes_evaluateEnclosure h.isOpen' sides') (h.enclosed sides sides' hsides)
        fun _ _ _ _ _ _ _ _ hd hr hr' ↦ hr.symm.trans (hd.trans hr')
    rw [Query.perform, Query.perform, run_bind, run_bind]
    generalize (evaluateEnclosure sides).run s = m at hstate hrelated
    generalize (evaluateEnclosure sides').run s' = m' at hstate' hrelated
    cases hrelated with
    | error _ => exact .error trivial
    | @ok r _ _ _ hr =>
      subst hr
      exact .ok ⟨.enclosure r, [], [], hstate.memory, hstate'.memory, .nil⟩

end Scene.Counterparts

end Summand
