import Mathlib.Algebra.MvPolynomial.PDeriv
import Mathlib.Algebra.Order.Field.Basic
import Mathlib.Tactic.IntervalCases
import Mathlib.Tactic.NormNum
import Mathlib.Tactic.Ring
import Summand.GradientCheck
import Summand.Proofs.ChainRule
import Summand.Proofs.Dialogue
import Summand.Proofs.EntryPoints

/-!
# Central differences of quadratics

A difference of values a step ahead and a step back, over twice the step, is the partial derivative
of a polynomial of degree two at most, whatever the step is (`eval_update_add_sub`). So the gradient
that is estimated from the values of an objective is the true one if these are the values of such a
polynomial, and a check compares the gradient of the objective with the true one
(`Scene.Reached.checkGradient_eq`).

The values have to be those of the polynomial in every scene that evaluations lead to
(`Scene.Visited`), since a check evaluates again and again. That they are so in one scene is enough
if transforms write all of their results (`Scene.Reached.valuedBy`).
-/

namespace Summand

variable {α : Type}

/-! ### Polynomials of degree two -/

section Polynomials

open MvPolynomial

variable {n : Nat}

/-- A vector as a point. -/
def coordinates [Zero α] (n : Nat) (x : List α) (i : Fin n) : α := x.getD i 0

/-- An entry that is replaced is one coordinate that is. -/
theorem coordinates_modify [Zero α] {x : List α} (hx : x.length = n) (i : Fin n) (f : α → α) :
    coordinates n (x.modify i f) = Function.update (coordinates n x) i (f (coordinates n x i)) := by
  funext j
  have hj : j.val < x.length := hx.symm ▸ j.isLt
  rcases eq_or_ne j i with rfl | hne
  · simp [coordinates, hj]
  · have hval : i.val ≠ j.val := fun h ↦ hne (Fin.ext h.symm)
    simp [coordinates, hval, hne]

variable [CommRing α]

/-- The value of a monomial at a point with another coordinate. -/
theorem eval_update_monomial (x : Fin n → α) (i : Fin n) (t c : α) (d : Fin n →₀ ℕ) :
    eval (Function.update x i t) (monomial d c) =
      c * (t ^ d i * ∏ j ∈ Finset.univ.erase i, x j ^ d j) := by
  rw [eval_monomial, Finsupp.prod_fintype _ _ fun _ ↦ pow_zero _,
    ← Finset.mul_prod_erase _ _ (Finset.mem_univ i), Function.update_self]
  congr 2
  refine Finset.prod_congr rfl fun j hj ↦ ?_
  rw [Function.update_of_ne (Finset.ne_of_mem_erase hj)]

/-- The derivative of a monomial. -/
theorem eval_pderiv_monomial (x : Fin n → α) (i : Fin n) (c : α) (d : Fin n →₀ ℕ) :
    eval x (pderiv i (monomial d c)) =
      c * d i * (x i ^ (d i - 1) * ∏ j ∈ Finset.univ.erase i, x j ^ d j) := by
  have hself : Function.update x i (x i) = x := Function.update_eq_self i x
  rw [pderiv_monomial, ← hself, eval_update_monomial, hself]
  have hi : (d - Finsupp.single i 1 : Fin n →₀ ℕ) i = d i - 1 := by simp
  rw [hi]
  congr 2
  refine Finset.prod_congr rfl fun j hj ↦ ?_
  have hj : (d - Finsupp.single i 1 : Fin n →₀ ℕ) j = d j := by simp [Finset.ne_of_mem_erase hj]
  rw [hj]

/-- In each coordinate of degree two at most, a difference of a step ahead and a step back is twice
the step times the derivative. -/
theorem eval_update_monomial_sub (x : Fin n → α) (i : Fin n) (ε c : α) {d : Fin n →₀ ℕ}
    (hd : d i ≤ 2) :
    eval (Function.update x i (x i + ε)) (monomial d c) -
        eval (Function.update x i (x i - ε)) (monomial d c) =
      2 * ε * eval x (pderiv i (monomial d c)) := by
  rw [eval_update_monomial, eval_update_monomial, eval_pderiv_monomial]
  generalize ∏ j ∈ Finset.univ.erase i, x j ^ d j = rest
  interval_cases d i
  · simp
  · simp only [pow_one, Nat.sub_self, pow_zero, Nat.cast_one]
    ring
  · simp only [Nat.add_one_sub_one, pow_one, Nat.cast_ofNat]
    ring

theorem eval_update_add_sub (p : MvPolynomial (Fin n) α) (hp : p.totalDegree ≤ 2) (x : Fin n → α)
    (i : Fin n) (ε : α) :
    eval (Function.update x i (x i + ε)) p - eval (Function.update x i (x i - ε)) p =
      2 * ε * eval x (pderiv i p) := by
  have hdegree : ∀ d ∈ p.support, d i ≤ 2 := fun d hd ↦
    (monomial_le_degreeOf i hd).trans ((degreeOf_le_totalDegree p i).trans hp)
  conv_lhs => rw [← support_sum_monomial_coeff p]
  conv_rhs => rw [← support_sum_monomial_coeff p]
  simp only [map_sum]
  rw [← Finset.sum_sub_distrib, Finset.mul_sum]
  exact Finset.sum_congr rfl fun d hd ↦ eval_update_monomial_sub x i ε _ (hdegree d hd)

end Polynomials

/-! ### Exact numbers -/

/-- Exact numbers have absolute values, and one of two is the greater one. -/
instance [LinearOrder α] [AddGroup α] : Magnitude α := ⟨fun a ↦ |a|, max⟩

/-- A step of an exact length. -/
def Step.exact [Mul α] [OfNat α 2] (ε : α) : Step α := ⟨.ok ε, .ok (2 * ε)⟩

/-- The greatest number of a family is one of them and none is greater, unless there are none. -/
theorem Objective.largest_ofFn [LinearOrder α] [AddGroup α] {n : Nat} (errors : Fin n → α) :
    (n = 0 ∧ largest (List.ofFn errors) = 0) ∨
      (∃ i, errors i = largest (List.ofFn errors)) ∧
        ∀ i, errors i ≤ largest (List.ofFn errors) := by
  rcases herrors : List.ofFn errors with - | ⟨e, rest⟩
  · exact .inl ⟨by simpa using congrArg List.length herrors, rfl⟩
  · have hlargest : (e :: rest).max? = some (largest (e :: rest)) := List.max?_cons'
    rw [← herrors] at hlargest
    obtain ⟨hmem, hle⟩ := List.max?_eq_some_iff.1 hlargest
    rw [← herrors]
    exact .inr ⟨List.mem_ofFn.1 hmem, List.forall_mem_ofFn_iff.1 hle⟩

/-- The greatest number of a family is tolerated exactly if each of them is. -/
theorem Objective.largest_ofFn_le_iff [LinearOrder α] [AddGroup α] {n : Nat} {errors : Fin n → α}
    {tol : α} (htol : 0 ≤ tol) : largest (List.ofFn errors) ≤ tol ↔ ∀ i, errors i ≤ tol := by
  rcases largest_ofFn errors with ⟨rfl, hzero⟩ | ⟨⟨i, hi⟩, hle⟩
  · rw [hzero]
    exact ⟨fun _ i ↦ i.elim0, fun _ ↦ htol⟩
  · exact ⟨fun h i ↦ (hle i).trans h, fun h ↦ hi ▸ h i⟩

/-! ### Lists of coordinates -/

theorem zipWith_ofFn {n : Nat} {β γ δ : Type} (f : β → γ → δ) (v : Fin n → β) (w : Fin n → γ) :
    List.zipWith f (List.ofFn v) (List.ofFn w) = List.ofFn fun i ↦ f (v i) (w i) :=
  List.ext_getElem (by simp) (by simp)

theorem ofFn_coordinates [Zero α] {n : Nat} {v : List α} (hv : v.length = n) :
    List.ofFn (coordinates n v) = v :=
  List.ext_getElem (by simp [hv]) fun i _ hi ↦ by simp [coordinates, hi]

theorem Grid.vector_modify (x : List α) (i : Nat) (f : α → α) :
    (⟨(vector x).shape, (vector x).entries.modify i f⟩ : Grid α) = vector (x.modify i f) := by
  simp only [vector, List.length_modify]

/-! ### Scenes that evaluations lead to -/

section Scenes

open Summand.Action Objective MvPolynomial

section Visited

variable [Zero α] [Add α] [Storable α] {s t : Scene α}

/-- The scenes that evaluations at points lead to, for the value or for value and gradient. -/
inductive Scene.Visited (s : Scene α) : Scene α → Prop
  | start : Visited s s
  | value {t : Scene α} (h : Visited s t) (y : List α) :
      Visited s ((evaluate (.ok (.vector y)) none none).run t).2
  | gradient {t : Scene α} (h : Visited s t) (y : List α) :
      Visited s ((valueAndGradient (.ok (.vector y))).run t).2

/-- Asking for the value is a mere evaluation. -/
theorem keeps_evaluate_value (x : GivenPoint α) : Keeps (Evaluated s) (evaluate x none none) := by
  have hvalue : Keeps (Evaluated s) (evaluateValue (some x)) :=
    ⟨fun _ ht ↦ ht.trans <|
      (realizes_evaluateValue ht.sound (some x)).ends (fun _ h ↦ h) fun _ _ _ h ↦ h.1⟩
  rw [evaluate]
  exact .bind (.checkOpen _) fun _ ↦ hvalue

theorem Scene.Visited.evaluated (h : s.Visited t) (hs : s.objective.Sound) : Evaluated s t := by
  induction h with
  | start => exact .refl hs
  | value _ y ih => exact (keeps_evaluate_value _).of_run _ ih
  | gradient _ y ih => exact (keeps_valueAndGradient _).of_run _ ih

end Visited

/-- Actions that all succeed from scenes of a kind, and lead to such, succeed one after another. -/
theorem Action.run_mapM_of_ok {β γ : Type} {I : Scene α → Prop} {f : γ → Action α β} {g : γ → β}
    {l : List γ} (h : ∀ c ∈ l, ∀ s, I s → ∃ t, (f c).run s = (.ok (g c), t) ∧ I t) {s : Scene α}
    (hs : I s) : ∃ t, (l.mapM f).run s = (.ok (l.map g), t) ∧ I t := by
  induction l generalizing s with
  | nil => exact ⟨s, rfl, hs⟩
  | cons c l ih =>
    obtain ⟨hc, hl⟩ := List.forall_mem_cons.1 h
    obtain ⟨t, hct, ht⟩ := hc s hs
    obtain ⟨u, hlu, hu⟩ := ih hl ht
    refine ⟨u, ?_, hu⟩
    rw [List.mapM_cons, run_bind_of_ok hct, run_bind_of_ok hlu]
    rfl

variable [Field α] [LinearOrder α] [IsStrictOrderedRing α] [Storable α] {s t : Scene α} {n : Nat}
  {p : MvPolynomial (Fin n) α} {x : List α} {ε : α}

/-- The values of an objective are those of a polynomial in the coordinates of the point, whatever
has been evaluated before. -/
def Scene.ValuedBy (s : Scene α) (p : MvPolynomial (Fin n) α) : Prop :=
  ∀ t, s.Visited t → ∀ y : List α, y.length = n →
    ((evaluate (.ok (.vector y)) none none).run t).1 = .ok (eval (coordinates n y) p)

/-- The true gradient at a point. -/
noncomputable def gradientAt (p : MvPolynomial (Fin n) α) (x : List α) : List α :=
  List.ofFn fun i ↦ eval (coordinates n x) (pderiv i p)

/-- A difference over twice the step is the partial derivative, and changes nothing that the next
one looks at. -/
theorem Scene.Visited.run_centralDifference (ht : s.Visited t) (hvalue : s.ValuedBy p)
    (hp : p.totalDegree ≤ 2) (hx : x.length = n) (hε : ε ≠ 0) (i : Fin n) :
    ∃ u, (centralDifference (.vector x) (.exact ε) i).run t =
      (.ok (eval (coordinates n x) (pderiv i p)), u) ∧ s.Visited u := by
  have hvalued {u : Scene α} (hu : s.Visited u) (f : α → α) :
      (evaluate (.ok (.vector (x.modify i f))) none none).run u =
        (.ok (eval (Function.update (coordinates n x) i (f (coordinates n x i))) p),
          ((evaluate (.ok (.vector (x.modify i f))) none none).run u).2) := by
    rw [← coordinates_modify hx]
    exact Prod.ext (hvalue u hu _ (by rw [List.length_modify, hx])) rfl
  have hahead := hvalued ht (· + ε)
  have hback := hvalued (ht.value (x.modify i (· + ε))) (· - ε)
  have hdistance : (2 * ε == 0) = false := by simpa using hε
  refine ⟨_, ?_, (ht.value (x.modify i (· + ε))).value (x.modify i (· - ε))⟩
  rw [centralDifference, Step.exact, run_liftM_ok_bind, Grid.vector_modify, Grid.vector_modify,
    run_bind_of_ok hahead, run_bind_of_ok hback, run_liftM_ok_bind]
  simp only [hdistance, Bool.false_eq_true, if_false, eval_update_add_sub p hp]
  rw [mul_div_cancel_left₀ _ (mul_ne_zero two_ne_zero hε)]
  rfl

/-- The gradient that is estimated from values of a polynomial of degree two at most is the true
one. -/
theorem Scene.Visited.run_numericalGradient (ht : s.Visited t) (hvalue : s.ValuedBy p)
    (hp : p.totalDegree ≤ 2) (hx : x.length = n) (hε : ε ≠ 0) :
    ∃ u, (numericalGradient (.vector x) (.exact ε)).run t =
      (.ok (.vector (gradientAt p x)), u) ∧ s.Visited u := by
  have hdifference : ∀ i ∈ List.range n, ∀ t, s.Visited t →
      ∃ u, (centralDifference (.vector x) (.exact ε) i).run t =
        (.ok ((gradientAt p x).getD i 0), u) ∧ s.Visited u := by
    intro i hi t ht
    have hi := List.mem_range.1 hi
    obtain ⟨u, hu, hvisited⟩ := ht.run_centralDifference hvalue hp hx hε ⟨i, hi⟩
    exact ⟨u, by rw [hu]; simp [gradientAt, hi], hvisited⟩
  obtain ⟨u, hu, hvisited⟩ := run_mapM_of_ok hdifference ht
  have hlength : (gradientAt p x).length = n := List.length_ofFn
  have hentries : (List.range n).map (fun i ↦ (gradientAt p x).getD i 0) = gradientAt p x := by
    refine List.ext_getElem (by simp [hlength]) fun i hi _ ↦ ?_
    have hi : i < (gradientAt p x).length := by simpa [hlength] using hi
    simp [hi]
  replace hu : ((List.range x.length).mapM (centralDifference (.vector x) (.exact ε))).run t =
      (.ok (gradientAt p x), u) := by rw [hx, hu, hentries]
  refine ⟨u, ?_, hvisited⟩
  have hvector : (⟨[x.length], gradientAt p x⟩ : Grid α) = .vector (gradientAt p x) := by
    rw [Grid.vector, hlength, hx]
  rw [← hvector, numericalGradient]
  exact (run_bind_of_ok hu).trans rfl

/-! ### The comparison -/

/-- What a check finds that compares a gradient with the true one. -/
structure GradientCheck.Compares (check : GradientCheck α) (p : MvPolynomial (Fin n) α)
    (x analytic : List α) (tol : α) : Prop where
  length : analytic.length = n
  analytic_eq : check.analytic = analytic
  numerical_eq : check.numerical = gradientAt p x
  /-- No component differs by more than the greatest error. -/
  le_maxAbsoluteError : ∀ i, |coordinates n analytic i - eval (coordinates n x) (pderiv i p)| ≤
    check.maxAbsoluteError
  /-- One component differs by as much, unless there is none. -/
  maxAbsoluteError_eq : (n = 0 ∧ check.maxAbsoluteError = 0) ∨
    ∃ i, |coordinates n analytic i - eval (coordinates n x) (pderiv i p)| = check.maxAbsoluteError
  passed_iff : check.passed = true ↔
    ∀ i, |coordinates n analytic i - eval (coordinates n x) (pderiv i p)| ≤
      tol * max 1 |eval (coordinates n x) (pderiv i p)|

omit [Storable α] in
theorem GradientCheck.compares {analytic : List α} (hlength : analytic.length = n) {tol : α}
    (htol : 0 ≤ tol) :
    GradientCheck.Compares
      ⟨analytic, gradientAt p x, largest (absoluteErrors analytic (gradientAt p x)),
        largest (relativeErrors (absoluteErrors analytic (gradientAt p x)) (gradientAt p x)),
        decide (largest (relativeErrors (absoluteErrors analytic (gradientAt p x))
          (gradientAt p x)) ≤ tol)⟩ p x analytic tol := by
  have habsolute : absoluteErrors analytic (gradientAt p x) = List.ofFn fun i ↦
      |coordinates n analytic i - eval (coordinates n x) (pderiv i p)| := by
    have hzip := zipWith_ofFn (fun a n : α ↦ |a - n|) (coordinates n analytic) fun i ↦
      eval (coordinates n x) (pderiv i p)
    rwa [ofFn_coordinates hlength] at hzip
  have hrelative : relativeErrors (absoluteErrors analytic (gradientAt p x)) (gradientAt p x) =
      List.ofFn fun i ↦ |coordinates n analytic i - eval (coordinates n x) (pderiv i p)| /
        max 1 |eval (coordinates n x) (pderiv i p)| := by
    rw [habsolute]
    exact zipWith_ofFn (fun e n : α ↦ e / max 1 |n|) _ _
  have hlargest := largest_ofFn fun i ↦
    |coordinates n analytic i - eval (coordinates n x) (pderiv i p)|
  rw [← habsolute] at hlargest
  refine ⟨hlength, rfl, rfl, ?_, ?_, ?_⟩
  · rcases hlargest with ⟨rfl, -⟩ | ⟨-, hle⟩
    · exact fun i ↦ i.elim0
    · exact hle
  · exact hlargest.imp id And.left
  · rw [decide_eq_true_iff, hrelative, largest_ofFn_le_iff htol]
    exact forall_congr' fun i ↦ div_le_iff₀ (lt_max_of_lt_left one_pos)

/-! ### Values and gradients -/

omit [Field α] [LinearOrder α] [IsStrictOrderedRing α] in
/-- A new gradient has as many entries as the point. -/
theorem Objective.length_of_run_valueAndGradient [Zero α] [Add α] (h : s.objective.Sound)
    (hopen : s.objective.closed = false) {value : α} {gradient : List α}
    (hrun : (valueAndGradient (.ok (.vector x))).run s = (.ok (value, gradient), t)) :
    gradient.length = x.length := by
  have hrealizes := realizes_valueAndGradient h hopen (.ok (.vector x))
  rw [hrun] at hrealizes
  obtain ⟨r, hsettled, hgradient⟩ := hrealizes.of_ok
  obtain ⟨⟨⟩, -, hwork⟩ := bind_eq_ok_iff.1 (eq_ok_of_settled hsettled)
  obtain ⟨-, point, hpoint, -⟩ := Query.worksAt_of_freshWork (by simp) hwork
  have htotal := (pointOf_vector_eq_ok hpoint).1
  rw [(Prod.mk.inj hgradient).2, gradientOf, length_sumGradients, ← htotal, Int.toNat_natCast]

omit [LinearOrder α] [IsStrictOrderedRing α] in
/-- If transforms write all of their results, the values of an objective are those of a polynomial
as soon as they are so now. -/
theorem Scene.Reached.valuedBy (h : s.Reached) (hopen : s.objective.closed = false)
    (hoverwrites : ∀ v ∈ s.objective.registry.entries, ∀ transform, v.transform = some transform →
      transform.Overwrites)
    (hvalue : ∀ y : List α, y.length = n →
      ((evaluate (.ok (.vector y)) none none).run s).1 = .ok (eval (coordinates n y) p)) :
    s.ValuedBy p := by
  intro t ht y hy
  have hsound := h.sound hopen
  have hst := ht.evaluated hsound
  have hclosed : t.objective.closed = false := (closed_eq_of_bare hst.bare).symm.trans hopen
  have hdirect : s.objective.directValue s.memory (some (.ok (.vector y))) =
      t.objective.directValue t.memory (some (.ok (.vector y))) :=
    directValue_eq_of_bare hsound.laid hoverwrites hst.bare hst.workerCount nofun
  rw [fst_run_evaluate hst.sound hclosed, ← hdirect, ← fst_run_evaluate hsound hopen, hvalue y hy]

/-- In exact arithmetic, central differences of a polynomial of degree two at most are its true
gradient, whatever the step is. A check compares the gradient of the objective with it: it passes
exactly if each component differs from the true one by no more than the tolerance times the greater
one of one and the true component's size. It fails only as the gradient itself does, and the memory
is left as it was. -/
theorem Scene.Reached.checkGradient_eq (h : s.Reached) (hopen : s.objective.closed = false)
    (hvalue : s.ValuedBy p) (hp : p.totalDegree ≤ 2) (hx : x.length = n) (hε : ε ≠ 0) {tol : α}
    (htol : 0 ≤ tol) :
    (∃ t, (numericalGradient (.vector x) (.exact ε)).run s = (.ok (.vector (gradientAt p x)), t) ∧
        t.memory = s.memory) ∧
      (∀ value analytic u,
        (valueAndGradient (.ok (.vector x))).run s = (.ok (value, analytic), u) →
        ∃ check t, (checkGradient (.vector x) (fun e ↦ decide (e ≤ tol)) (.exact ε)).run s =
            (.ok check, t) ∧ check.Compares p x analytic tol ∧ t.memory = s.memory) ∧
      ∀ failure u, (valueAndGradient (.ok (.vector x))).run s = (.error failure, u) →
        (checkGradient (.vector x) (fun e ↦ decide (e ≤ tol)) (.exact ε)).run s =
            (.error failure, u) ∧ u.memory = s.memory := by
  have hsound := h.sound hopen
  have hvisited : s.Visited ((valueAndGradient (.ok (.vector x))).run s).2 := .gradient .start x
  refine ⟨?_, ?_, ?_⟩
  · obtain ⟨t, ht, hvisited⟩ := Visited.start.run_numericalGradient hvalue hp hx hε
    exact ⟨t, ht, (hvisited.evaluated hsound).memory⟩
  · intro value analytic u hrun
    rw [hrun] at hvisited
    obtain ⟨t, ht, hvisited⟩ := hvisited.run_numericalGradient hvalue hp hx hε
    have hlength := (length_of_run_valueAndGradient hsound hopen hrun).trans hx
    refine ⟨_, t, ?_, GradientCheck.compares hlength htol, (hvisited.evaluated hsound).memory⟩
    rw [checkGradient, run_bind_of_ok hrun, run_bind_of_ok ht]
    rfl
  · intro failure u hrun
    rw [hrun] at hvisited
    exact ⟨run_bind_of_error hrun, (hvisited.evaluated hsound).memory⟩

end Scenes

/-! ### A small quadratic -/

namespace Small

open Objective MvPolynomial

instance : Storable ℚ := ⟨fun _ x ↦ x, fun _ ↦ rfl, fun n ↦ some n⟩

/-- The product of the entries of a pair and the first entry. -/
def crossed : Term ℚ :=
  .total 1 "Crossed" [2] (fun arguments ↦ first arguments * second arguments + first arguments)
    (fun arguments ↦ [[second arguments + 1, first arguments]]) (fun _ ↦ [[[[0, 1], [1, 0]]]])
    fun _ ↦ Term.noEnclosure "Crossed"
where
  first (arguments : List (List ℚ)) : ℚ := (arguments.getD 0 []).getD 0 0
  second (arguments : List (List ℚ)) : ℚ := (arguments.getD 0 []).getD 1 0

/-- An objective of this term alone. -/
def crossedScene : Scene ℚ :=
  Scene.after
    { objective := { settings := { workerCount := .int 1 }, workerCount := 1 }
      memory := { cells := #[3, 5] }, events := [], platform := { arrangement := id } }
    [.register (.array pair) .null none, .addTerm crossed [.array pair]]

theorem reached_crossedScene : crossedScene.Reached :=
  have hcreate : Objective.create 1 { workerCount := .int 1 } =
      .ok ({ settings := { workerCount := .int 1 }, workerCount := 1 } : Objective ℚ) := rfl
  (Scene.Reached.created hcreate _ _ _).after _

theorem valuedBy_crossedScene :
    crossedScene.ValuedBy (X 0 * X 1 + X 0 : MvPolynomial (Fin 2) ℚ) := by
  have hsound := reached_crossedScene.sound rfl
  refine reached_crossedScene.valuedBy rfl ?_ fun y hy ↦ ?_
  · intro v hv t ht
    have htransforms : crossedScene.objective.registry.entries.map Variable.transform = [none] :=
      rfl
    exact absurd (Registry.some_mem_of_map_transform htransforms v hv t ht) (by simp)
  · obtain ⟨a, b, rfl⟩ := List.length_eq_two.1 hy
    have hdirect : (crossedScene.objective.directValue crossedScene.memory
        (some (.ok (.vector [a, b])))).map (fun r ↦ total r.2) = .ok (0 + (0 + (a * b + a))) := rfl
    rw [fst_run_evaluate hsound rfl, hdirect]
    simp [coordinates]

/-- With a step of seven and without any tolerance, the gradient of the small quadratic is found to
be the true one. -/
theorem passed_of_crossedScene :
    ∃ check t,
      (checkGradient (.vector [3, 5]) (fun e ↦ decide (e ≤ 0)) (.exact 7)).run crossedScene =
        (.ok check, t) ∧ check.passed = true ∧ t.memory = crossedScene.memory := by
  have hdegree : (X 0 * X 1 + X 0 : MvPolynomial (Fin 2) ℚ).totalDegree ≤ 2 := by
    refine (totalDegree_add _ _).trans (max_le ((totalDegree_mul _ _).trans ?_) ?_) <;>
      simp [totalDegree_X]
  have hsound := reached_crossedScene.sound rfl
  have hsums : crossedScene.objective.SumsAt (.ok (.vector [3, 5]))
      [(0 + (3 * 5 + 3), [0 + (5 + 1), 0 + 3])] := ⟨[3, 5], _, rfl, rfl⟩
  have hgradient : crossedScene.objective.gradientOf .float64
      [(0 + (3 * 5 + 3), [0 + (5 + 1), 0 + 3])] = [0 + (0 + (5 + 1)), 0 + (0 + 3)] := rfl
  have hrun := hgradient ▸ hsums.run_valueAndGradient hsound rfl
  obtain ⟨-, hcheck, -⟩ := reached_crossedScene.checkGradient_eq rfl valuedBy_crossedScene hdegree
    (x := [3, 5]) rfl (show (7 : ℚ) ≠ 0 by decide) (le_refl (0 : ℚ))
  obtain ⟨check, t, hcheck, hcompares, hmemory⟩ := hcheck _ _ _ (Prod.ext hrun rfl)
  refine ⟨check, t, hcheck, hcompares.passed_iff.2 ?_, hmemory⟩
  norm_num [Fin.forall_fin_two, coordinates, pderiv_X]

end Small

end Summand
