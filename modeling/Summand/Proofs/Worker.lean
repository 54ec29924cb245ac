import Mathlib.Data.List.Forall2
import Mathlib.Logic.Function.Iterate
import Summand.Proofs.Accumulation

/-!
# A worker on its own

A worker goes through the bindings of its chunk step by step (`Worker.advance`). A step never leaves
the way (`Worker.OnTheWay`), and as many steps as the chunk has bindings bring the worker to the
sums of these bindings in order, or to the first one that fails (`Worker.ended_iterate_advance`).
-/

namespace Summand

variable {α : Type}

namespace Worker

variable {rows columns : Nat} {w : Worker α}

/-! ### How far a worker has come -/

/-- The worker has come as far as to evaluate the binding at a position. -/
def HasReached (w : Worker α) (i : Nat) : Prop := i < w.next ∨ w.failure.isSome ∧ i = w.next

instance (w : Worker α) (i : Nat) : Decidable (w.HasReached i) :=
  inferInstanceAs (Decidable (_ ∨ _))

theorem finished_iff {w : Worker α} : w.finished = true ↔ w.failure.isSome ∨ w.stop ≤ w.next := by
  simp [finished]

theorem not_finished_iff {w : Worker α} :
    w.finished = false ↔ w.failure = none ∧ w.next < w.stop := by
  simp [finished]

/-- A step reaches the binding at hand, whether it fails or not, and no other. -/
theorem Stepped.hasReached_iff {sums : Except Failure (α × List α)} {w' : Worker α}
    (h : Stepped rows columns sums w w') (hfailure : w.failure = none) {i : Nat} :
    w'.HasReached i ↔ w.HasReached i ∨ i = w.next := by
  rw [HasReached, HasReached, hfailure]
  rcases hsums : sums with failure | ⟨value, gradient⟩
  · obtain ⟨hnext, hfail⟩ := h.error hsums
    simp [hnext, hfail]
  · obtain ⟨hnext, hfail, -, -⟩ := h.ok hsums
    simp only [hnext, hfail, hfailure, Option.isSome_none, Bool.false_eq_true, false_and, or_false]
    omega

/-- What a worker keeps on its way from a start. -/
structure OnTheWay (rows columns : Nat) (start w : Worker α) : Prop where
  stop : w.stop = start.stop
  length : w.gradient.length = start.gradient.length
  shaped : Buffer.Shaped rows columns w.scratch
  le : start.next ≤ w.next

theorem OnTheWay.refl (h : Buffer.Shaped rows columns w.scratch) : OnTheWay rows columns w w :=
  ⟨rfl, rfl, h, Nat.le_refl _⟩

/-! ### The end of a worker -/

/-- A worker has ended with the given sums, or at the given binding with its failure. -/
structure Ended (sums : Except (Nat × Failure) (α × List α)) (w : Worker α) : Prop where
  finished : w.finished = true
  ok : ∀ {value gradient}, sums = .ok (value, gradient) →
    w.failure = none ∧ w.value = value ∧ w.gradient = gradient
  error : ∀ {position failure}, sums = .error (position, failure) →
    w.failure = some (position, failure)

/-- Workers that have ended with the results of a list show the first failure among these, and all
of the sums if there is none. -/
theorem forall₂_ended {β : Type} {result : β → Except (Nat × Failure) (α × List α)} {l : List β}
    {workers : List (Worker α)} (h : List.Forall₂ (fun b w ↦ Ended (result b) w) l workers) :
    (∀ failure, l.mapM result = .error failure → workers.findSome? Worker.failure = some failure) ∧
      ∀ sums, l.mapM result = .ok sums → workers.findSome? Worker.failure = none ∧
        workers.map (fun w ↦ (w.value, w.gradient)) = sums := by
  induction h with
  | nil => exact ⟨fun _ h ↦ (nomatch h), fun _ h ↦ ⟨rfl, by cases h; rfl⟩⟩
  | @cons b w l workers hended htail ih =>
    obtain ⟨iherror, ihok⟩ := ih
    rw [List.mapM_cons, List.findSome?_cons, List.map_cons]
    cases hb : result b with
    | error failure =>
      rw [hended.error hb]
      exact ⟨fun _ h ↦ by cases h; rfl, fun _ h ↦ (nomatch h)⟩
    | ok sum =>
      obtain ⟨value, gradient⟩ := sum
      obtain ⟨hfailure, rfl, rfl⟩ := hended.ok hb
      rw [hfailure]
      cases hl : l.mapM result with
      | error failure =>
        refine ⟨?_, fun _ h ↦ (nomatch h)⟩
        intro _ h
        cases h
        exact iherror failure hl
      | ok sums =>
        refine ⟨fun _ h ↦ (nomatch h), ?_⟩
        intro _ h
        cases h
        obtain ⟨hnone, hsums⟩ := ihok sums hl
        exact ⟨hnone, congrArg _ hsums⟩

end Worker

variable [Zero α] [Add α] [Storable α]

/-! ### Steps -/

namespace Binding

/-- The sums after the bindings of a list in order, or the position of the first one that fails,
counted from a given one, and its failure. -/
def accumulateFrom (mode : Mode) (registry : Registry α) (x : List α) :
    (position : Nat) → List (Binding α) → α × List α → Except (Nat × Failure) (α × List α)
  | _, [], sums => .ok sums
  | position, b :: rest, sums =>
    match b.accumulate mode registry x sums with
    | .error failure => .error (position, failure)
    | .ok sums => accumulateFrom mode registry x (position + 1) rest sums

end Binding

namespace Worker

/-- A worker after its next step on a table of bindings. -/
def advance (mode : Mode) (registry : Registry α) (x : List α) (bindings : List (Binding α))
    (w : Worker α) : Worker α :=
  if w.finished then w
  else
    match bindings[w.next]? with
    | none => w
    | some b => (w.step mode registry x b).1

variable {mode : Mode} {registry : Registry α} {x : List α} {bindings : List (Binding α)}
  {rows columns : Nat} {w : Worker α}

theorem advance_of_finished (h : w.finished = true) : w.advance mode registry x bindings = w := by
  rw [advance, if_pos h]

theorem iterate_advance_of_finished (h : w.finished = true) (k : Nat) :
    (advance mode registry x bindings)^[k] w = w :=
  Function.iterate_fixed (advance_of_finished h) k

theorem advance_of_binding {b : Binding α} (h : w.finished = false)
    (hb : bindings[w.next]? = some b) :
    w.advance mode registry x bindings = (w.step mode registry x b).1 := by
  rw [advance, if_neg (by simp [h]), hb]

/-- The bindings of a table are ones that a scratch has room for. -/
abbrev AllWithin (registry : Registry α) (rows columns : Nat) (bindings : List (Binding α)) :
    Prop :=
  ∀ b ∈ bindings, b.Within registry rows columns

theorem OnTheWay.advance {start : Worker α} (h : OnTheWay rows columns start w)
    (hall : AllWithin registry rows columns bindings) :
    OnTheWay rows columns start (w.advance mode registry x bindings) := by
  rw [Worker.advance]
  split
  · exact h
  split
  · exact h
  · rename_i b hb
    obtain ⟨hstep, -⟩ := stepped_step mode h.shaped (hall b (List.mem_of_getElem? hb))
    refine ⟨hstep.stop.trans h.stop, hstep.length.trans h.length, hstep.shaped, ?_⟩
    cases hsums : b.accumulate mode registry x (w.value, w.gradient) with
    | error failure => exact (hstep.error hsums).1 ▸ h.le
    | ok sums => exact (hstep.ok hsums).1 ▸ Nat.le_succ_of_le h.le

theorem OnTheWay.iterate {start : Worker α} (h : OnTheWay rows columns start w)
    (hall : AllWithin registry rows columns bindings) (k : Nat) :
    OnTheWay rows columns start ((Worker.advance mode registry x bindings)^[k] w) := by
  induction k generalizing w with
  | zero => exact h
  | succ k ih => exact ih (h.advance hall)

variable (mode x) in
/-- As many steps as the chunk is long bring a worker to the end of it. -/
theorem ended_iterate_advance (hall : AllWithin registry rows columns bindings)
    (hshaped : Buffer.Shaped rows columns w.scratch) (hfailure : w.failure = none) {k : Nat}
    (hstop : w.stop = w.next + k) (hlength : w.stop ≤ bindings.length) :
    Ended (Binding.accumulateFrom mode registry x w.next ((bindings.drop w.next).take k)
      (w.value, w.gradient)) ((advance mode registry x bindings)^[k] w) := by
  induction k generalizing w with
  | zero =>
    refine ⟨finished_iff.2 (.inr (Nat.le_of_eq hstop)), ?_, fun h ↦ (nomatch h)⟩
    intro value gradient h
    cases h
    exact ⟨hfailure, rfl, rfl⟩
  | succ k ih =>
    have hlt : w.next < bindings.length := by omega
    have hnot : w.finished = false := not_finished_iff.2 ⟨hfailure, by omega⟩
    have hget : bindings[w.next]? = some bindings[w.next] := List.getElem?_eq_getElem hlt
    obtain ⟨hstep, -⟩ := stepped_step (w := w) (x := x) mode hshaped
      (hall bindings[w.next] (List.getElem_mem hlt))
    rw [Function.iterate_succ_apply, advance_of_binding hnot hget,
      List.drop_eq_getElem_cons hlt, List.take_succ_cons, Binding.accumulateFrom]
    cases hsums : bindings[w.next].accumulate mode registry x (w.value, w.gradient) with
    | error failure =>
      -- The worker stays where it is once it has failed, however many steps are left.
      obtain ⟨-, hfail⟩ := hstep.error hsums
      have hfinished := finished_iff.2 (.inl (Option.isSome_of_eq_some hfail))
      rw [iterate_advance_of_finished hfinished]
      refine ⟨hfinished, fun h ↦ (nomatch h), ?_⟩
      intro position failure h
      cases h
      exact hfail
    | ok sums =>
      obtain ⟨hnext, hfail, hvalue, hgradient⟩ := hstep.ok hsums
      have hrest := ih hstep.shaped (hfail.trans hfailure) (by rw [hstep.stop, hnext]; omega)
        (hstep.stop ▸ hlength)
      rwa [hnext, hvalue, hgradient] at hrest

end Worker

end Summand
