import Summand.Proofs.Rebuilding
import Summand.Transform.Elementwise

/-!
# Answers do not depend on the past

An open objective answers every query as a fresh one does that has been built anew from the same
blocks, transforms and bindings (`Scene.Reached.answer_eq_fresh`): with the same result or the same
failure, and with the same writes to the caller's arrays. The additions are the same ones in the
same order, so nothing is asked of them.

What survives between calls is told apart by `Objective.bare`, which forgets it. The computation of
an evaluation is the same for objectives with one bare form (`Objective.direct_eq_of_bare`), as long
as their transforms overwrite what they are given to fill (`Transform.Overwrites`).
-/

namespace Summand

variable {α : Type}

/-! ### Transforms that overwrite -/

/-- What the map to user space leaves in an array of the right size, and whether it fails, does not
depend on what the array held. -/
structure Transform.Overwrites (t : Transform α) : Prop where
  toUser : ∀ {out out' : List α}, (out.length : Int) = t.outputDimension →
    out'.length = out.length → ∀ point : List α,
      ((t.userVector out point).map (Buffer.conform out)).complete =
        ((t.userVector out' point).map (Buffer.conform out')).complete

/-- Transforms by scalar maps overwrite what they fill. -/
theorem Elementwise.overwrites [Add α] [Mul α] (e : Elementwise α) (id : Nat) :
    (e.toTransform id).Overwrites := by
  constructor
  intro out out' _ hlength point
  -- What is left is the image of the point, stretched to the length of the array.
  have key (held : List α) :
      (((e.toTransform id).userVector held point).map (Buffer.conform held)).complete =
        (Grid.vector (point.map e.forward)).stretchTo [held.length] := by
    have hcomplete : ((e.toTransform id).userVector held point).complete =
        (Grid.vector (point.map e.forward)).stretchTo [held.length] := by
      simp only [Transform.userVector, Progress.complete_map, toTransform,
        Progress.complete_attempt, overwritten, Grid.map_vector, Grid.shape_vector,
        List.isEmpty_cons, Bool.false_eq_true, if_false]
      cases (Grid.vector (point.map e.forward)).stretchTo [held.length] <;> rfl
    rw [Progress.complete_map, hcomplete]
    rcases hstretch : (Grid.vector (point.map e.forward)).stretchTo [held.length] with failure | w
    · rfl
    · exact congrArg Except.ok (Buffer.conform_of_length_eq (Grid.length_stretchTo_vector hstretch))
  rw [key, key, hlength]

/-! ### Values -/

section Values

variable [Zero α]

/-- A variable takes the value of a point whatever its scratch holds. -/
theorem Variable.valued_eq_of_bare {v w : Variable α} (hbare : v.bare = w.bare) (hfits : v.Fits)
    (hoverwrites : ∀ t, v.transform = some t → t.Overwrites) (x : List α) :
    v.valued x = w.valued x := by
  have hscratch : w.scratch.length = v.scratch.length := by
    simpa [Variable.bare] using congrArg (fun v : Variable α ↦ v.scratch.length) hbare.symm
  have hw : w = { v with scratch := w.scratch } :=
    (congrArg (fun v : Variable α ↦ { v with scratch := w.scratch }) hbare.symm :)
  have hcomplete : (Objective.scratchAt w x).complete = (Objective.scratchAt v x).complete := by
    have hslice : w.slice x = v.slice x := by
      rw [hw]
      rfl
    have htransform : w.transform = v.transform := by rw [hw]
    rw [Objective.scratchAt, Objective.scratchAt, htransform, hslice]
    rcases ht : v.transform with - | t
    · simp only [Progress.complete_once, hscratch]
    · symm
      apply (hoverwrites t ht).toUser ?_ hscratch
      rw [(hfits.transform_dimensions ht).1, hfits.scratch]
  rw [Variable.valued, Variable.valued, hcomplete, hw]

/-- The variables take the values of a point whatever their scratch holds. -/
theorem Registry.valued_eq_of_bare {r s : Registry α}
    (hentries : r.entries.map Variable.bare = s.entries.map Variable.bare)
    (htotal : r.totalScalars = s.totalScalars) (hfits : ∀ v ∈ r.entries, v.Fits)
    (hoverwrites : ∀ v ∈ r.entries, ∀ t, v.transform = some t → t.Overwrites) (x : List α) :
    r.valued x = s.valued x := by
  obtain ⟨entries, total⟩ := r
  obtain ⟨entries', total'⟩ := s
  obtain rfl : total = total' := htotal
  have hvalues : entries.mapM (Variable.valued · x) = entries'.mapM (Variable.valued · x) := by
    induction entries generalizing entries' with
    | nil =>
      obtain rfl : entries' = [] := by simpa using hentries.symm
      rfl
    | cons v entries ih =>
      obtain - | ⟨w, entries'⟩ := entries'
      · simp at hentries
      obtain ⟨hv, htail⟩ := List.cons.inj hentries
      rw [List.mapM_cons, List.mapM_cons,
        Variable.valued_eq_of_bare hv (hfits v List.mem_cons_self)
          (hoverwrites v List.mem_cons_self) x,
        ih (fun w hw ↦ hfits w (List.mem_cons_of_mem v hw))
          (fun w hw ↦ hoverwrites w (List.mem_cons_of_mem v hw)) entries' htail]
  rw [Registry.valued, Registry.valued]
  dsimp only
  rw [hvalues]

end Values

/-! ### Computations -/

namespace Binding

variable [Zero α] [Add α] [Storable α]

/-- Sums of bindings do not depend on what their Hessian blocks hold. -/
theorem accumulateFrom_map_bare (mode : Mode) (registry : Registry α) (x : List α) (position : Nat)
    (bindings : List (Binding α)) (sums : α × List α) :
    accumulateFrom mode registry x position (bindings.map bare) sums =
      accumulateFrom mode registry x position bindings sums := by
  induction bindings generalizing position sums with
  | nil => rfl
  | cons b bindings ih =>
    rw [List.map_cons, accumulateFrom, accumulateFrom, accumulate_bare]
    cases b.accumulate mode registry x sums with
    | error failure => rfl
    | ok sums => exact ih _ _

end Binding

namespace Objective

variable [Zero α] [Add α] [Storable α] {o o' : Objective α}

/-- The sums of all chunks, and the failure of one, are told by the bare objective and the number of
workers. -/
theorem chunkSums_eq_of_bare (h : o.bare = o'.bare) (hworkers : o.workerCount = o'.workerCount)
    (mode : Mode) (registry : Registry α) (x : List α) :
    (o.chunkSums mode registry x).mapError o.termFailure =
      (o'.chunkSums mode registry x).mapError o'.termFailure := by
  have hchunk (bindings : List (Binding α)) (c : Chunk) (sums : α × List α) :
      Binding.accumulateFrom mode registry x c.start.toNat (c.cut bindings) sums =
        Binding.accumulateFrom mode registry x c.start.toNat (c.cut (bindings.map Binding.bare))
          sums := by
    rw [Chunk.cut, Chunk.cut, ← List.map_drop, ← List.map_take, Binding.accumulateFrom_map_bare]
  have hname (bindings : List (Binding α)) (i : Nat) :
      (bindings[i]?).elim "" (fun b ↦ b.term.name) =
        ((bindings.map Binding.bare)[i]?).elim "" fun b ↦ b.term.name := by
    rw [List.getElem?_map]
    cases bindings[i]? <;> rfl
  have hfailure : o.termFailure = o'.termFailure := by
    funext failed
    rw [termFailure, termFailure, hname, bindings_eq_of_bare h, ← hname]
  have hsums : o.chunkSums mode registry x = o'.chunkSums mode registry x := by
    rw [chunkSums, chunkSums, size_eq_of_bare h, hworkers, totalScalars_eq_of_bare h]
    apply congrArg (List.mapM · _)
    funext c
    rw [hchunk, bindings_eq_of_bare h, ← hchunk]
  rw [hsums, hfailure]

variable (hlaid : o.registry.Laid)
  (hoverwrites : ∀ v ∈ o.registry.entries, ∀ t, v.transform = some t → t.Overwrites)

include hlaid hoverwrites

/-- The computation of an evaluation with derivatives is told by the bare objective and the number
of workers. -/
theorem direct_eq_of_bare (h : o.bare = o'.bare) (hworkers : o.workerCount = o'.workerCount)
    (mode : Mode) (x : List α) : o.direct mode x = o'.direct mode x := by
  have hvalued := Registry.valued_eq_of_bare (entries_eq_of_bare h) (totalScalars_eq_of_bare h)
    hlaid.fits hoverwrites x
  simp only [direct, checkStorage_eq_of_bare h hworkers, hvalued, chunkSums_eq_of_bare h hworkers]

omit [Add α] [Storable α] hlaid hoverwrites in
/-- The values that the caller's blocks hold are taken whatever the scratch holds. -/
theorem blockValued_eq_of_bare (h : o.bare = o'.bare) (m : Memory α) :
    o.blockValued m = o'.blockValued m := by
  have key (o : Objective α) : o.blockValued m =
      ⟨(o.registry.entries.map Variable.bare).map fun v ↦ { v with scratch := m.read v.userBlock },
        o.totalScalars⟩ := by
    rw [List.map_map]
    rfl
  rw [key, key, entries_eq_of_bare h, totalScalars_eq_of_bare h]

/-- So is that of an evaluation without derivatives, beside a memory with the same values in the
caller's blocks if it is these that count. -/
theorem directValue_eq_of_bare (h : o.bare = o'.bare) (hworkers : o.workerCount = o'.workerCount)
    {m m' : Memory α} {x : Option (GivenPoint α)} (hm : x = none → m = m') :
    o.directValue m x = o'.directValue m' x := by
  have hvalues : o.valuedAt m x = o'.valuedAt m' x := by
    cases x with
    | none => rw [valuedAt, valuedAt, ← hm rfl, blockValued_eq_of_bare h]
    | some x =>
      rw [valuedAt, valuedAt, totalScalars_eq_of_bare h]
      apply congrArg (_ >>= ·)
      funext x
      exact Registry.valued_eq_of_bare (entries_eq_of_bare h) (totalScalars_eq_of_bare h)
        hlaid.fits hoverwrites x
  simp only [directValue, checkStorage_eq_of_bare h hworkers, hvalues,
    chunkSums_eq_of_bare h hworkers]

end Objective

/-! ### Answers -/

variable [Zero α] [Add α] [OfNat α 1] [Storable α]

/-- Objectives with one bare form and the same number of workers answer alike, and write alike. -/
theorem Scene.Alike.answer_eq {m m' : Memory α} {s t : Scene α} (h : Alike m m' s t)
    (hworkers : s.objective.workerCount = t.objective.workerCount)
    (hoverwrites : ∀ v ∈ s.objective.registry.entries, ∀ transform, v.transform = some transform →
      transform.Overwrites)
    (q : Query α) (hblocks : q = .evaluateUser → m = m') :
    (q.perform.run s).1 = (q.perform.run t).1 ∧
      Memory.SameWrites m m' (q.perform.run s).2.memory (q.perform.run t).2.memory := by
  -- Both evaluations realize the same computation, so they agree as long as the objective is open.
  have hagree (hopen : s.objective.closed = false) :
      Agree (fun failure failure' s t ↦ failure = failure' ∧ Alike m m' s t) m m' s t := by
    have hlaid := (h.kept.sound hopen).laid
    apply Agree.of_direct (fun _ _ _ h ↦ ⟨rfl, h⟩) h hopen hworkers
    · exact Objective.direct_eq_of_bare hlaid hoverwrites h.bare hworkers
    · intro x hx
      apply Objective.directValue_eq_of_bare hlaid hoverwrites h.bare hworkers
      intro hnone
      have hmemory := h.memory
      rw [← hx hnone] at hmemory
      exact hmemory.eq
  have hrelated := h.related_perform (fun _ _ _ h ↦ ⟨rfl, h⟩) hagree q hblocks
  generalize q.perform.run s = r at hrelated
  generalize q.perform.run t = r' at hrelated
  cases hrelated with
  | error h => exact ⟨congrArg Except.error h.1, h.2.memory⟩
  | ok h => exact ⟨congrArg Except.ok h.1, h.2.memory⟩

/-- Whatever has been done with an open objective, it can be built anew on any machine and beside
any memory; and however the workers take their turns there, every query gets the same answer or the
same failure as in the former objective, and makes the same writes. Queries at the values of the
caller's blocks do so if the memories are the same. -/
theorem Scene.Reached.answer_eq_fresh {s : Scene α} (h : s.Reached)
    (hopen : s.objective.closed = false)
    (hoverwrites : ∀ v ∈ s.objective.registry.entries, ∀ transform, v.transform = some transform →
      transform.Overwrites)
    (processors : Nat) (m : Memory α) (events : List (Event α)) (interleaving : Interleaving) :
    ∃ (fresh : Objective α) (built : Scene α),
      Objective.create processors
          { s.objective.settings with workerCount := .int s.objective.workerCount } = .ok fresh ∧
        (Call.performAll s.objective.building).run
            ⟨fresh, m, events, { s.platform with interleaving }⟩ = (.ok (), built) ∧
          ∀ q : Query α, (q = .evaluateUser → s.memory = m) →
            (q.perform.run s).1 = (q.perform.run built).1 ∧
              Memory.SameWrites s.memory m (q.perform.run s).2.memory
                (q.perform.run built).2.memory := by
  have hsound := h.sound hopen
  obtain ⟨fresh, built, hcreate, hbuilt, hbare, hworkers, hmemory, hplatform⟩ :=
    Objective.run_building hsound hopen processors m events { s.platform with interleaving }
  have hreached : built.Reached := by
    have hperformed := (Reached.created hcreate m events
      { s.platform with interleaving }).performAll s.objective.building
    rwa [hbuilt] at hperformed
  refine ⟨fresh, built, hcreate, hbuilt, ?_⟩
  intro q hq
  refine Alike.answer_eq ⟨hbare.symm, h.kept, hreached.kept, ?_, ?_⟩ hworkers.symm hoverwrites q hq
  · rw [hplatform]
  · rw [hmemory]
    exact .refl _ _

namespace Small

/-- In the small history, an objective that is built anew finds the gradient that the former one
finds, beside a memory without arrays. -/
theorem answer_of_fresh :
    ∃ (fresh : Objective Int) (built : Scene Int),
      (Call.performAll (scene (some tripled)).objective.building).run ⟨fresh, {}, [], platform⟩ =
        (.ok (), built) ∧
      ((Query.valueAndGradient (.ok (.vector [1, 2, 3, 4]))).perform.run built).1 =
        .ok (.valueGradient 23 [20, 13, 6, 0]) := by
  obtain ⟨fresh, built, -, hbuilt, hanswer⟩ := (reached_scene (some tripled)).answer_eq_fresh rfl
    (of_transform (tripling.overwrites 1) (.inr rfl)) 1 {} [] .sequential
  refine ⟨fresh, built, hbuilt, ?_⟩
  rw [← (hanswer (.valueAndGradient (.ok (.vector [1, 2, 3, 4]))) nofun).1]
  set_option maxRecDepth 2000 in rfl

end Small

end Summand
