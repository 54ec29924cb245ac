import Summand.Interval.Arithmetic
import Summand.Objective.Enclosure
import Summand.Proofs.AdjacentDoubles
import Summand.Proofs.History

/-!
# Enclosures of sums

An interval with finite bounds that an objective's enclosure over a box comes to contains the exact
sum of its terms at every point of the box (`Scene.enclosure_contains_sum`). Bounds are doubles, and
the numbers between them are reals.

A running sum cannot be said to contain the exact sum so far. A bound that was too large became
infinite, and infinities of both signs add up to a NaN later. What the additions keep is weaker
(`Interval.Brackets`): a bound that is finite is a bound, and bounds that are numbers are in order,
so that no sum of intervals fails (`Interval.Brackets.add`). A sum is rounded either way, but to the
next double on the outer side of the nearest one, which is on that side of the exact sum
(`Interval.le_of_down`, `Interval.le_of_up`).
-/

namespace Summand

open Binary64

namespace Interval

/-- The real number lies between the bounds; an infinite bound is none, and a NaN bounds nothing. -/
def Contains (i : Interval) (r : ℝ) : Prop :=
  ∃ L U, extended? i.lower = some L ∧ extended? i.upper = some U ∧ L ≤ r ∧ r ≤ U

/-- The finite bounds are bounds of the real number, and the lower one is not above the upper
one. -/
structure Brackets (i : Interval) (r : ℝ) : Prop where
  lower : ∀ a : ℝ, extended? i.lower = some (a : EReal) → a ≤ r
  upper : ∀ b : ℝ, extended? i.upper = some (b : EReal) → r ≤ b
  ordered : ∀ L U, extended? i.lower = some L → extended? i.upper = some U → L ≤ U

/-- An interval with finite bounds that brackets a number contains it. -/
theorem Brackets.contains {i : Interval} {r : ℝ} (h : i.Brackets r) (hlower : i.lower.isFinite)
    (hupper : i.upper.isFinite) : i.Contains r := by
  obtain ⟨a, ha⟩ := isFinite_iff.1 hlower
  obtain ⟨b, hb⟩ := isFinite_iff.1 hupper
  exact ⟨a, b, ha, hb, EReal.coe_le_coe_iff.2 (h.lower a ha), EReal.coe_le_coe_iff.2 (h.upper b hb)⟩

/-- The interval that holds zero alone. -/
theorem brackets_zero : (⟨0.0, 0.0⟩ : Interval).Brackets 0 := by
  refine ⟨fun a ha ↦ ?_, fun b hb ↦ ?_, fun L U hL hU ↦ ?_⟩ <;> dsimp only at *
  · rw [extended?_zero, Option.some_inj, EReal.coe_eq_coe_iff] at ha
    exact ha.ge
  · rw [extended?_zero, Option.some_inj, EReal.coe_eq_coe_iff] at hb
    exact hb.le
  · rw [hL, Option.some_inj] at hU
    exact hU.le

/-! ### Outward rounding -/

/-- A bound is no less before it is rounded down. -/
theorem le_of_extended?_down {x : Float} {D : EReal} (h : extended? (down x) = some D) :
    ∃ X, extended? x = some X ∧ D ≤ X := by
  rw [extended?_down, Option.map_eq_some_iff] at h
  obtain ⟨X, hX, rfl⟩ := h
  exact ⟨X, hX, lowered_le X⟩

/-- A bound is no greater before it is rounded up. -/
theorem le_of_extended?_up {x : Float} {U : EReal} (h : extended? (up x) = some U) :
    ∃ X, extended? x = some X ∧ X ≤ U := by
  rw [extended?_up, Option.map_eq_some_iff] at h
  obtain ⟨X, hX, rfl⟩ := h
  exact ⟨X, hX, le_raised X⟩

/-- A bound that is finite after rounding down was the nearest double to a number, which is not
below it now. -/
theorem le_of_down {x : Float} {d : ℝ} (h : extended? (down x) = some (d : EReal)) :
    ∃ v : ℝ, extended? x = some (v : EReal) ∧ ∀ r, rounded r = v → d ≤ r := by
  rw [extended?_down, Option.map_eq_some_iff] at h
  obtain ⟨X, hX, hd⟩ := h
  induction X with
  | bot => simp at hd
  | top => simp at hd
  | coe v =>
    refine ⟨v, hX, fun r hr ↦ EReal.coe_le_coe_iff.1 ?_⟩
    rw [← hd, ← overflowed_extended hX, ← hr]
    refine (isNearest_rounded r).lowered_le ?_
    rw [hr, overflowed_extended hX]
    exact EReal.coe_ne_top v

/-- A bound that is finite after rounding up was the nearest double to a number, which is not above
it now. -/
theorem le_of_up {x : Float} {u : ℝ} (h : extended? (up x) = some (u : EReal)) :
    ∃ v : ℝ, extended? x = some (v : EReal) ∧ ∀ r, rounded r = v → r ≤ u := by
  rw [extended?_up, Option.map_eq_some_iff] at h
  obtain ⟨X, hX, hu⟩ := h
  induction X with
  | bot => simp at hu
  | top => simp at hu
  | coe v =>
    refine ⟨v, hX, fun r hr ↦ EReal.coe_le_coe_iff.1 ?_⟩
    rw [← hu, ← overflowed_extended hX, ← hr]
    refine (isNearest_rounded r).le_raised ?_
    rw [hr, overflowed_extended hX]
    exact EReal.coe_ne_bot v

/-! ### Sums of intervals -/

/-- The exact operands of a finite sum. -/
theorem operands_of_add {x y : Float} {v : ℝ} (h : extended? (x + y) = some (v : EReal)) :
    ∃ a b : ℝ, extended? x = some (a : EReal) ∧ extended? y = some (b : EReal) ∧
      rounded (a + b) = v := by
  obtain ⟨X, Y, hX, hY, hsum⟩ := of_extended?_add h
  obtain ⟨a, b, rfl, rfl, hrounded⟩ := finite_of_nearest_add hsum.symm
  exact ⟨a, b, hX, hY, hrounded⟩

/-- Sums of bounds in order are in order after they have been rounded outward. -/
theorem not_lt_of_le {l u l' u' : Float}
    (h : ∀ L U, extended? l = some L → extended? u = some U → L ≤ U)
    (h' : ∀ L U, extended? l' = some L → extended? u' = some U → L ≤ U) :
    ¬up (u + u') < down (l + l') := by
  intro hlt
  obtain ⟨U', L', hU', hL', hless⟩ := lt_iff.1 hlt
  obtain ⟨U, hU, hUle⟩ := le_of_extended?_up hU'
  obtain ⟨L, hL, hLle⟩ := le_of_extended?_down hL'
  obtain ⟨X, X', hX, hX', rfl⟩ := of_extended?_add hU
  obtain ⟨Y, Y', hY, hY', rfl⟩ := of_extended?_add hL
  have hsum : nearest (Y + Y') ≤ nearest (X + X') :=
    nearest_mono (add_le_add (h Y X hY hX) (h' Y' X' hY' hX'))
  exact absurd hless ((hLle.trans hsum).trans hUle).not_gt

/-- The sum of an interval that brackets a number and one that contains another brackets the sum. -/
theorem Brackets.add {i j : Interval} {r r' : ℝ} (h : i.Brackets r) (h' : j.Contains r') :
    ∃ k, i.add j = .ok k ∧ k.Brackets (r + r') := by
  obtain ⟨L', U', hL', hU', hlow, hhigh⟩ := h'
  have hordered : ¬up (i.upper + j.upper) < down (i.lower + j.lower) := by
    refine not_lt_of_le h.ordered fun L U hL hU ↦ ?_
    obtain rfl : L' = L := Option.some_inj.1 (hL'.symm.trans hL)
    obtain rfl : U' = U := Option.some_inj.1 (hU'.symm.trans hU)
    exact hlow.trans hhigh
  refine ⟨⟨down (i.lower + j.lower), up (i.upper + j.upper)⟩, if_neg hordered, fun d hd ↦ ?_,
    fun u hu ↦ ?_, fun L U hL hU ↦ ?_⟩
  · obtain ⟨v, hv, hle⟩ := le_of_down hd
    obtain ⟨a, b, ha, hb, hrounded⟩ := operands_of_add hv
    obtain rfl : L' = b := Option.some_inj.1 (hL'.symm.trans hb)
    exact (hle _ hrounded).trans (add_le_add (h.lower a ha) (EReal.coe_le_coe_iff.1 hlow))
  · obtain ⟨v, hv, hle⟩ := le_of_up hu
    obtain ⟨a, b, ha, hb, hrounded⟩ := operands_of_add hv
    obtain rfl : U' = b := Option.some_inj.1 (hU'.symm.trans hb)
    exact (add_le_add (h.upper a ha) (EReal.coe_le_coe_iff.1 hhigh)).trans (hle _ hrounded)
  · exact not_lt.1 fun hless ↦ hordered (lt_iff.2 ⟨U, L, hU, hL, hless⟩)

end Interval

/-! ### Enclosures of terms, one after another -/

variable {α : Type}

/-- What belongs to a binding's arguments of a row with an entry for each coordinate. -/
def Graph.slices {β : Type} (r : Registry α) (b : Binding α) (x : List β) : List (List β) :=
  (argumentVariables r b).map (·.slice x)

namespace Objective

open Summand.Action

/-- Adds the enclosure of a binding's term, which is named in the failure if there is none. -/
def encloseNext (o : Objective α) (box : List Interval) (sum : Interval) (d : Binding α × ℕ) :
    Except Failure Interval :=
  (addEnclosure o.registry box sum d.1).mapError (.termFailed d.2 d.1.term.name)

/-- The interval sum of the enclosures of all terms over a box. -/
def encloseTerms (o : Objective α) (box : List Interval) : Except Failure Interval :=
  o.graph.bindings.zipIdx.foldlM (o.encloseNext box) ⟨0.0, 0.0⟩

/-- What an enclosure of an open objective comes to. -/
def enclosed (o : Objective α) (sides : List BoxSide) : Except Failure Interval := do
  if sides.length ≠ o.totalScalars then throw (.shapeMismatch "x" [o.totalScalars] [sides.length])
  if let some v := Registry.firstTransformed (o.graph.boundVariables o.registry) then
    throw (.unsupportedTransform "interval evaluation" v.index)
  let box ← sides.mapM BoxSide.toInterval
  o.encloseTerms box

variable {s : Scene α}

theorem realizes_evaluateEnclosure (hopen : s.objective.closed = false) (sides : List BoxSide) :
    Realizes (fun _ ↦ True) (fun r r' _ ↦ r = r') (s.objective.enclosed sides)
      ((evaluateEnclosure sides).run s) := by
  rw [evaluateEnclosure, run_bind_of_ok (run_checkOpen_of_open _ hopen), run_objective_bind,
    enclosed]
  dsimp only
  split
  · exact .error trivial
  rcases Registry.firstTransformed
    (s.objective.graph.boundVariables s.objective.registry) with - | v
  swap
  · exact .error trivial
  refine .check (run_mapM_liftM BoxSide.toInterval sides s) trivial fun box _ ↦ ?_
  rw [run_modifyObjective_bind, encloseTerms]
  refine (Realizes.forIn (fun d sum t ↦ ?_) _).andThen fun d sum t hsum ↦ .ok hsum
  obtain ⟨b, index⟩ := d
  rw [encloseNext]
  dsimp only
  rcases addEnclosure s.objective.registry box sum b with failure | next
  · exact .error trivial
  · exact .ok rfl

/-- The exact value of a binding's term at a point, where `exact t arguments` is that of a term at
its arguments. -/
def exactTerm (o : Objective α) (exact : Term α → List (List ℝ) → ℝ) (p : List ℝ) (b : Binding α) :
    ℝ :=
  exact b.term (Graph.slices o.registry b p)

/-- The exact sum of all terms at a point. -/
noncomputable def exactSum (o : Objective α) (exact : Term α → List (List ℝ) → ℝ)
    (p : List ℝ) : ℝ :=
  (o.graph.bindings.map (o.exactTerm exact p)).sum

end Objective

/-- If the box contains the point, the term has an interval for an enclosure over it, and that
contains the term's exact value at the point. -/
def Term.Encloses (t : Term α) (exact : List (List ℝ) → ℝ) (box : List (List Interval))
    (p : List (List ℝ)) : Prop :=
  List.Forall₂ (List.Forall₂ Interval.Contains) box p →
    ∃ e i, t.enclosure box = .ok e ∧ e.toInterval = .ok i ∧ i.Contains (exact p)

namespace Objective

variable {o : Objective α} {exact : Term α → List (List ℝ) → ℝ} {box : List Interval} {p : List ℝ}

/-- Slices of a box contain the slices of a point in it. -/
theorem forall₂_slice (h : List.Forall₂ Interval.Contains box p) (v : Variable α) :
    List.Forall₂ Interval.Contains (v.slice box) (v.slice p) := by
  rw [Variable.slice, Variable.slice, h.length_eq]
  exact List.forall₂_take _ (List.forall₂_drop _ h)

/-- Adding a term's enclosure keeps the number that is bracketed up with the exact sum. -/
theorem brackets_addEnclosure {b : Binding α} {sum : Interval} {r : ℝ} (h : sum.Brackets r)
    (hp : List.Forall₂ Interval.Contains box p)
    (hterm : b.term.Encloses (exact b.term) (Graph.slices o.registry b box)
      (Graph.slices o.registry b p)) :
    ∃ next, addEnclosure o.registry box sum b = .ok next ∧
      next.Brackets (r + o.exactTerm exact p b) := by
  have hslices : List.Forall₂ (List.Forall₂ Interval.Contains) (Graph.slices o.registry b box)
      (Graph.slices o.registry b p) := by
    rw [Graph.slices, Graph.slices, List.forall₂_map_left_iff, List.forall₂_map_right_iff]
    exact List.forall₂_same.2 fun v _ ↦ forall₂_slice hp v
  obtain ⟨e, i, he, hi, hcontains⟩ := hterm hslices
  obtain ⟨k, hk, hbrackets⟩ := h.add hcontains
  refine ⟨k, ?_, hbrackets⟩
  rw [addEnclosure, ← Graph.slices, he]
  show (do (sum.add (← e.toInterval)).mapError Failure.interval) = _
  rw [hi]
  show (sum.add i).mapError Failure.interval = _
  rw [hk]
  rfl

theorem brackets_encloseTerms (hp : List.Forall₂ Interval.Contains box p)
    (hterms : ∀ b ∈ o.graph.bindings, b.term.Encloses (exact b.term)
      (Graph.slices o.registry b box) (Graph.slices o.registry b p)) :
    ∃ i, o.encloseTerms box = .ok i ∧ i.Brackets (o.exactSum exact p) := by
  -- The enclosures so far bracket the exact sum so far.
  suffices ∀ (l : List (Binding α)) (k : ℕ) (sum : Interval) (r : ℝ),
      (∀ b ∈ l, b ∈ o.graph.bindings) → sum.Brackets r →
      ∃ i, (l.zipIdx k).foldlM (o.encloseNext box) sum = .ok i ∧
        i.Brackets (r + (l.map (o.exactTerm exact p)).sum) by
    obtain ⟨i, hi, hbrackets⟩ := this o.graph.bindings 0 ⟨0.0, 0.0⟩ 0 (fun _ h ↦ h)
      Interval.brackets_zero
    rw [zero_add] at hbrackets
    exact ⟨i, hi, hbrackets⟩
  intro l
  induction l with
  | nil =>
    intro k sum r _ h
    exact ⟨sum, rfl, by simpa using h⟩
  | cons b l ih =>
    intro k sum r hmem h
    obtain ⟨next, hnext, hbrackets⟩ := brackets_addEnclosure h hp (hterms b (hmem b (by simp)))
    obtain ⟨i, hi, hrest⟩ := ih (k + 1) next _ (fun c hc ↦ hmem c (by simp [hc])) hbrackets
    refine ⟨i, ?_, ?_⟩
    · rw [List.zipIdx_cons, List.foldlM_cons, encloseNext, hnext]
      exact hi
    · rwa [List.map_cons, List.sum_cons, ← add_assoc]

end Objective

namespace Scene

open Objective

variable {s : Scene α}

/-- The enclosure of an open objective without a transformed bound variable contains the exact sum
of its terms at each point of the box, if its bounds are finite and each term's enclosure contains
the term's exact value. It never fails then. -/
theorem enclosure_contains_sum (hopen : s.objective.closed = false)
    (huntransformed : ∀ v ∈ s.objective.graph.boundVariables s.objective.registry,
      v.transform = none) {sides : List BoxSide} {box : List Interval} {p : List ℝ}
    (hlength : sides.length = s.objective.totalScalars)
    (hbox : sides.mapM BoxSide.toInterval = .ok box) (hp : List.Forall₂ Interval.Contains box p)
    (exact : Term α → List (List ℝ) → ℝ)
    (hterms : ∀ b ∈ s.objective.graph.bindings, b.term.Encloses (exact b.term)
      (Graph.slices s.objective.registry b box) (Graph.slices s.objective.registry b p)) :
    ∃ i t, (evaluateEnclosure sides).run s = (.ok i, t) ∧
      (i.lower.isFinite → i.upper.isFinite → i.Contains (s.objective.exactSum exact p)) := by
  obtain ⟨i, hi, hbrackets⟩ := brackets_encloseTerms hp hterms
  have hnone : Registry.firstTransformed
      (s.objective.graph.boundVariables s.objective.registry) = none :=
    List.find?_eq_none.2 fun v hv ↦ by simp [huntransformed v hv]
  have henclosed : s.objective.enclosed sides = .ok i := by
    rw [enclosed, if_neg (not_not.2 hlength), hnone, hbox]
    exact hi
  obtain ⟨i', t, hrun, rfl⟩ := (henclosed ▸ realizes_evaluateEnclosure hopen sides).succeeds
  exact ⟨i, t, hrun, hbrackets.contains⟩

end Scene

namespace Small

/-- The first entry of a vector with `n` entries. -/
def leading (n : Nat) : Term Int :=
  .total (3 + n) "Leading" [n] (Term.first · 0)
    (fun arguments ↦ arguments.map fun argument ↦ 1 :: List.replicate (argument.length - 1) 0)
    (fun arguments ↦ Graph.zeroBlocks (arguments.map List.length))
    fun box ↦ (Term.side box 0 0).map .interval

/-- The terms of two variables, one of which has a term twice, beside a transformed one. -/
def shared : Scene Int :=
  Scene.after { objective, memory, events := [], platform }
    [.register (.array pair) .null none, .register (.array single) .null none,
      .register (.array spare) .null (some tripled), .addTerm (leading 2) [.array pair],
      .addTerm (leading 1) [.array single], .addTerm (leading 2) [.array pair]]

/-- The exact first entry of the first argument. -/
def leadingEntry (arguments : List (List ℝ)) : ℝ := (arguments.headD []).headD 0

theorem leading_encloses (n : ℕ) {box : List Interval} {p : List ℝ} (hne : p ≠ []) :
    (leading n).Encloses leadingEntry [box] [p] := by
  rintro (_ | ⟨(_ | ⟨hcontains, -⟩), -⟩)
  · exact absurd rfl hne
  · exact ⟨_, _, rfl, rfl, hcontains⟩

/-- The sides of a box, of which the last two are one point. -/
def quarters : List BoxSide :=
  [.interval ⟨0.1, 0.3⟩, .interval ⟨0.1, 0.3⟩, .bounds [.real 0.25], .bounds [.real 0.25]]

theorem contains_quarter {l u : Float} (m m' : ℕ) (e e' : ℤ) (hm : 0 < m) (hm' : 0 < m')
    (hl : unpack l = .finite .positive m e hm) (hu : unpack u = .finite .positive m' e' hm')
    (hlower : (m : ℝ) * 2 ^ e ≤ 1 / 4) (hupper : 1 / 4 ≤ (m' : ℝ) * 2 ^ e') :
    Interval.Contains ⟨l, u⟩ (1 / 4) :=
  ⟨_, _, congrArg denoted hl, congrArg denoted hu, EReal.coe_le_coe_iff.2 hlower,
    EReal.coe_le_coe_iff.2 hupper⟩

/-- Over the box, the enclosure contains the three quarters that the terms come to at its centre. -/
theorem enclosure_of_shared :
    ∃ i t, (Objective.evaluateEnclosure quarters).run shared = (.ok i, t) ∧
      i.Contains (3 / 4) := by
  have hbox : quarters.mapM BoxSide.toInterval =
      .ok [⟨0.1, 0.3⟩, ⟨0.1, 0.3⟩, ⟨0.25, 0.25⟩, ⟨0.25, 0.25⟩] := rfl
  have htenths : Interval.Contains ⟨0.1, 0.3⟩ (1 / 4) :=
    contains_quarter 7205759403792794 5404319552844595 (-56) (-54) (by norm_num) (by norm_num)
      rfl rfl (by norm_num) (by norm_num)
  have hpoint : Interval.Contains ⟨0.25, 0.25⟩ (1 / 4) :=
    contains_quarter (2 ^ 52) (2 ^ 52) (-54) (-54) (by norm_num) (by norm_num) rfl rfl
      (by norm_num) (by norm_num)
  have hp : List.Forall₂ Interval.Contains [⟨0.1, 0.3⟩, ⟨0.1, 0.3⟩, ⟨0.25, 0.25⟩, ⟨0.25, 0.25⟩]
      (List.replicate 4 (1 / 4)) := .cons htenths (.cons htenths (.cons hpoint (.cons hpoint .nil)))
  obtain ⟨i, t, hrun, hcontains⟩ := Scene.enclosure_contains_sum (s := shared) rfl (by decide) rfl
    hbox hp (fun _ ↦ leadingEntry) (by
      rintro b (_ | ⟨_, _ | ⟨_, _ | ⟨_, ⟨⟩⟩⟩⟩)
      · exact leading_encloses 2 (List.cons_ne_nil _ _)
      · exact leading_encloses 1 (List.cons_ne_nil _ _)
      · exact leading_encloses 2 (List.cons_ne_nil _ _))
  refine ⟨i, t, hrun, ?_⟩
  have hfinite : ((Objective.evaluateEnclosure quarters).run shared).1.toOption.map
      (fun i ↦ (i.lower.isFinite, i.upper.isFinite)) = some (true, true) := by decide +kernel
  rw [hrun] at hfinite
  obtain ⟨hlower, hupper⟩ := Prod.mk.inj (Option.some.inj hfinite)
  have hsum : shared.objective.exactSum (fun _ ↦ leadingEntry) (List.replicate 4 (1 / 4)) =
      3 / 4 := by
    show (1 / 4 + (1 / 4 + (1 / 4 + 0)) : ℝ) = 3 / 4
    norm_num
  exact hsum ▸ hcontains hlower hupper

end Small

end Summand
