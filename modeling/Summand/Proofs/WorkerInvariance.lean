import Summand.Proofs.History
import Summand.Proofs.Regrouping

/-!
# Workers make no difference

In exact arithmetic, every query that succeeds gets the same answer and makes the same writes for
all numbers of workers and all orders of their turns (`Scene.Reached.answer_eq_of_workers`). Two
things come together here. Whatever turns the workers take, each comes to the sums of its own chunk,
since it writes nothing that another one reads (`Crew.Undisturbed`). And the sums of all chunks
together are the sums of all bindings, wherever these are split.

A query that fails with some number of workers fails with all, but where it has failed to find room,
its message tells the number of workers.
-/

namespace Summand

variable {α : Type}

/-! ### Workers leave each other alone -/

section Crew

variable [Zero α] [Add α] [Storable α] {registry : Registry α} {rows columns : Nat}
  {chunks : List Chunk} {crew : Crew α}

/-- Workers that start with some chunks do not disturb each other and leave nothing out. -/
structure Crew.Undisturbed (mode : Mode) (registry : Registry α) (x : List α) (chunks : List Chunk)
    (crew : Crew α) : Prop where
  /-- A turn writes the sums and the scratch of one worker only. -/
  workers : ∀ (turns : List Nat) (position : Nat), ∀ q ≠ position,
    (crew.run mode registry x (turns ++ [position])).workers[q]? =
      (crew.run mode registry x turns).workers[q]?
  /-- A turn writes no binding outside of that worker's chunk. -/
  bindings : ∀ (turns : List Nat) (position i : Nat),
    (∀ c, chunks[position]? = some c → ¬ (c.start.toNat ≤ i ∧ i < c.stop.toNat)) →
      (crew.run mode registry x (turns ++ [position])).bindings[i]? =
        (crew.run mode registry x turns).bindings[i]?
  /-- If no binding fails, each of them is evaluated exactly once. -/
  once : ∀ turns : List Nat, Crew.Enough chunks turns →
    (crew.run mode registry x turns).failure? = none →
      (crew.evaluations mode registry x turns).Perm (List.range crew.bindings.length)

theorem Crew.Ready.undisturbed (ready : Crew.Ready registry rows columns chunks crew) (mode : Mode)
    (x : List α) : crew.Undisturbed mode registry x chunks where
  workers turns position := (ready.frame turns position).1
  bindings turns position := (ready.frame turns position).2
  once _ enough hnone := ready.evaluations_perm_range enough hnone

/-- The workers of an evaluation do not disturb each other, whatever values the variables have. -/
theorem Objective.Sound.undisturbed {o : Objective α} (h : o.Sound)
    {storage : List (WorkerStorage α)} (hs : o.Stored storage)
    (hregistry : registry.entries.map Variable.bare = o.registry.entries.map Variable.bare)
    (htotal : registry.totalScalars = o.totalScalars) (mode : Mode) (x : List α) :
    (Crew.start storage (partition o.graph.size o.workerCount) o.graph.bindings).Undisturbed mode
      registry x (partition o.graph.size o.workerCount) := by
  have hbare : o.bare = Objective.bare { o with registry } :=
    bare_eq_of rfl htotal.symm hregistry.symm rfl rfl
  have hsound : Objective.Sound { o with registry } :=
    h.of_bare hbare rfl h.storage h.coordinates
  exact (Objective.ready_crew hsound (hs.of_bare hbare rfl)).undisturbed mode x

end Crew

/-! ### Evaluations agree -/

section Agreement

variable [AddMonoid α] [Storable α]

namespace Objective

/-- Two sound objectives differ in the number of workers and in what they keep for reuse, and the
transforms of bound variables add. -/
structure SameButWorkers (o o' : Objective α) : Prop where
  sound : o.Sound
  sound' : o'.Sound
  bare : o.bare = o'.bare
  registry : o.registry = o'.registry
  graph : o.graph = o'.graph
  additive : o.registry.Additive o.graph.bindings

namespace SameButWorkers

variable {o o' : Objective α} {r : Registry α} {mode : Mode} {x : List α} {sums : List (Sums α)}

omit [Storable α] in
theorem symm (h : SameButWorkers o o') : SameButWorkers o' o :=
  ⟨h.sound', h.sound, h.bare.symm, h.registry.symm, h.graph.symm,
    h.registry ▸ h.graph ▸ h.additive⟩

omit [Storable α] in
theorem totalScalars (h : SameButWorkers o o') : o.totalScalars = o'.totalScalars :=
  totalScalars_eq_of_bare h.bare

/-- If the chunks of one objective can be summed, so can those of the other, and they come to the
same sums. -/
theorem chunkSums (h : SameButWorkers o o')
    (hentries : o.registry.entries.map Variable.bare = r.entries.map Variable.bare)
    (htotal : o.registry.totalScalars = r.totalScalars)
    (hsums : (o.chunkSums mode r x).mapError o.termFailure = .ok sums) :
    ∃ sums', (o'.chunkSums mode r x).mapError o'.termFailure = .ok sums' ∧
      Sums.combine o.totalScalars.toNat sums = Sums.combine o.totalScalars.toNat sums' := by
  have hadditive := h.additive.of_bare hentries htotal
  have hleft := map_combine_chunkSums h.sound.workers hadditive htotal.symm mode x
  have hright := map_combine_chunkSums h.sound'.workers (h.graph ▸ hadditive)
    (htotal.symm.trans h.totalScalars) mode x
  rw [mapError_eq_ok_iff.1 hsums, h.graph, h.totalScalars, ← hright] at hleft
  obtain ⟨sums', hsums', hcombine⟩ := map_eq_ok_iff.1 hleft.symm
  refine ⟨sums', mapError_eq_ok_iff.2 hsums', ?_⟩
  rw [h.totalScalars, hcombine]

/-- The computations of evaluations with derivatives come to the same. -/
theorem direct (h : SameButWorkers o o') (hdirect : o.direct mode x = .ok (r, sums)) :
    ∃ sums', o'.direct mode x = .ok (r, sums') ∧
      Sums.combine o.totalScalars.toNat sums = Sums.combine o.totalScalars.toNat sums' := by
  obtain ⟨⟨⟩, hroom, hdirect⟩ := bind_eq_ok_iff.1 hdirect
  obtain ⟨registry, hvalued, hdirect⟩ := bind_eq_ok_iff.1 hdirect
  obtain ⟨sums, hsums, hdirect⟩ := bind_eq_ok_iff.1 hdirect
  cases hdirect
  obtain ⟨hentries, htotal⟩ := Registry.map_bare_valued hvalued
  obtain ⟨sums', hsums', hcombine⟩ := h.chunkSums hentries htotal hsums
  refine ⟨sums', ?_, hcombine⟩
  rw [Objective.direct, checkStorage_eq_ok_of_bare h.bare hroom, ← h.registry, hvalued]
  exact bind_eq_ok_iff.2 ⟨(), rfl, bind_eq_ok_iff.2 ⟨r, rfl, bind_eq_ok_iff.2 ⟨sums', hsums', rfl⟩⟩⟩

/-- The computations of evaluations without derivatives come to the same. -/
theorem directValue (h : SameButWorkers o o') {m : Memory α} {y : Option (GivenPoint α)}
    (hdirect : o.directValue m y = .ok (r, sums)) :
    ∃ sums', o'.directValue m y = .ok (r, sums') ∧
      Sums.combine o.totalScalars.toNat sums = Sums.combine o.totalScalars.toNat sums' := by
  obtain ⟨⟨⟩, hroom, hdirect⟩ := bind_eq_ok_iff.1 hdirect
  obtain ⟨registry, hvalues, hdirect⟩ := bind_eq_ok_iff.1 hdirect
  obtain ⟨sums, hsums, hdirect⟩ := bind_eq_ok_iff.1 hdirect
  cases hdirect
  obtain ⟨hentries, htotal⟩ := map_bare_valuedAt h.sound hvalues
  obtain ⟨sums', hsums', hcombine⟩ := h.chunkSums hentries htotal hsums
  have hvalues' : o'.valuedAt m y = o.valuedAt m y := by
    cases y <;> rw [valuedAt, valuedAt]
    · rw [blockValued, blockValued, h.registry]
    · rw [h.totalScalars, h.registry]
  refine ⟨sums', ?_, hcombine⟩
  rw [Objective.directValue, checkStorage_eq_ok_of_bare h.bare hroom, hvalues', hvalues]
  exact bind_eq_ok_iff.2 ⟨(), rfl, bind_eq_ok_iff.2 ⟨r, rfl, bind_eq_ok_iff.2 ⟨sums', hsums', rfl⟩⟩⟩

end SameButWorkers

end Objective

open Objective

variable {m : Memory α} {s t : Scene α}

/-- Evaluations of objectives that differ in the number of workers agree. -/
theorem Scene.Agree.of_workers [ExactStorage α] (h : Alike m m s t)
    (hsame : SameButWorkers s.objective t.objective) (hopen : s.objective.closed = false) :
    Agree (fun _ _ _ _ ↦ True) m m s t := by
  have hmemory : s.memory = t.memory := h.memory.eq
  set n := s.objective.totalScalars with hn
  constructor
  · intro mode hmode x
    refine .of_corresponding (realizes_evaluateWorkers hsame.sound hmode x)
      (realizes_evaluateWorkers hsame.sound' hmode x)
      (C := fun d d' ↦ d.1 = d'.1 ∧ Sums.combine n.toNat d.2 = Sums.combine n.toNat d'.2 ∧
        ∀ s ∈ d'.2, s.2.length = n.toNat) ?_ ?_ ?_
    · rintro ⟨r, sums⟩ hd
      obtain ⟨sums', hd', hcombine⟩ := hsame.direct hd
      refine ⟨(r, sums'), hd', rfl, hcombine, ?_⟩
      rw [hn, hsame.totalScalars]
      exact length_of_direct hd'
    · rintro ⟨r, sums⟩ hd
      obtain ⟨sums', hd', -⟩ := hsame.symm.direct hd
      exact ⟨(r, sums'), hd'⟩
    · -- Values, gradients and blocks are put together from the same sums in different chunks.
      rintro ⟨r, sums⟩ ⟨r', sums'⟩ a a' s' t' hd ⟨hr, hcombine, hlength'⟩ ha ha'
      obtain rfl : r = r' := hr
      refine ⟨?_, (totalScalars_eq_of_bare ha.evaluated.bare).symm, ?_,
        ha.registry.trans ha'.registry.symm, ?_, h.evaluated ha.evaluated ha'.evaluated, ?_⟩
      · rw [ha.value, ha'.value, total_eq_combine n.toNat, total_eq_combine n.toNat, hcombine]
      · intro element
        rw [ha.gradients, ha'.gradients, ← hsame.totalScalars,
          sumGradients_eq_combine element (length_of_direct hd),
          sumGradients_eq_combine element hlength', hcombine]
      · intro _
        rw [ha.bindings, ha'.bindings, hsame.graph]
      · rw [← closed_eq_of_bare ha.evaluated.bare, hopen]
  · intro y _
    refine .of_corresponding (realizes_evaluateValue hsame.sound y)
      (realizes_evaluateValue hsame.sound' y)
      (C := fun d d' ↦ Sums.combine n.toNat d.2 = Sums.combine n.toNat d'.2) ?_ ?_ ?_
    · rintro ⟨r, sums⟩ hd
      obtain ⟨sums', hd', hcombine⟩ := hsame.directValue hd
      exact ⟨(r, sums'), hmemory ▸ hd', hcombine⟩
    · rintro ⟨r, sums⟩ hd
      obtain ⟨sums', hd', -⟩ := hsame.symm.directValue hd
      exact ⟨(r, sums'), hmemory ▸ hd'⟩
    · rintro ⟨r, sums⟩ ⟨r', sums'⟩ a a' s' t' hd hcombine ha ha'
      refine ⟨?_, h.evaluated ha.1 ha'.1⟩
      rw [ha.2, ha'.2, total_eq_combine n.toNat, total_eq_combine n.toNat, hcombine]

end Agreement

/-! ### Any number of workers -/

/-- The scene in which the number of workers has been changed, and they take their turns in some
order. -/
def Scene.withWorkers (s : Scene α) (workerCount : Nat) (interleaving : Interleaving) : Scene α :=
  ((Objective.setWorkerCount (.int workerCount)).run
    { s with platform := { s.platform with interleaving } }).2

section Workers

open Objective

/-- The number of workers has been changed, if the objective is open, and nothing else. -/
structure Scene.Resized [Zero α] (s : Scene α) (workerCount : Nat) (t : Scene α) : Prop where
  bare : t.objective.bare = s.objective.bare
  kept : t.objective.Kept
  registry : t.objective.registry = s.objective.registry
  graph : t.objective.graph = s.objective.graph
  workerCount : s.objective.closed = false → t.objective.workerCount = workerCount
  memory : t.memory = s.memory
  arrangement : t.platform.arrangement = s.platform.arrangement

theorem Scene.resized_withWorkers [Zero α] {s : Scene α} (h : s.objective.Kept) {workerCount : Nat}
    (hworkers : 1 ≤ workerCount) (interleaving : Interleaving) :
    s.Resized workerCount (s.withWorkers workerCount interleaving) := by
  have hvalid : validateWorkerCount (.int workerCount) = .ok workerCount := by
    rw [validateWorkerCount, if_neg (by omega), Int.toNat_natCast]
  have hkept : (s.withWorkers workerCount interleaving).objective.Kept :=
    (keeps_setWorkerCount (.int workerCount)).of_run
      { s with platform := { s.platform with interleaving } } h
  rw [withWorkers] at hkept ⊢
  rcases hclosed : s.objective.closed with - | -
  · rcases run_setWorkerCount (s := { s with platform := { s.platform with interleaving } }) hclosed
      hvalid with ⟨hrun, hsame⟩ | ⟨events, hrun⟩
    · rw [hrun] at hkept ⊢
      exact ⟨rfl, hkept, rfl, rfl, fun _ ↦ hsame.symm, rfl, rfl⟩
    · rw [hrun] at hkept ⊢
      exact ⟨rfl, hkept, rfl, rfl, fun _ ↦ rfl, rfl, rfl⟩
  · rw [run_setWorkerCount_of_closed (s := { s with platform := { s.platform with interleaving } })
      hclosed] at hkept ⊢
    exact ⟨rfl, hkept, rfl, rfl, fun hopen ↦ (nomatch hclosed.symm.trans hopen), rfl, rfl⟩

namespace Scene.Resized

variable {s t t' : Scene α} {workers workers' : Nat}

/-- The number of workers is no matter of what scenes have in common. -/
theorem alike [Zero α] [Storable α] (h : s.Resized workers t) (h' : s.Resized workers' t') :
    Alike s.memory s.memory t t' where
  bare := h.bare.trans h'.bare.symm
  kept := h.kept
  kept' := h'.kept
  arrangement := h.arrangement.trans h'.arrangement.symm
  memory := by
    rw [h.memory, h'.memory]
    exact .refl _ _

/-- A query that succeeds with some number of workers gets the same answer with any other one. -/
theorem answer_eq [AddMonoid α] [OfNat α 1] [Storable α] [ExactStorage α]
    (h : s.Resized workers t) (h' : s.Resized workers' t')
    (hadds : ∀ v ∈ s.objective.graph.boundVariables s.objective.registry, ∀ transform,
      v.transform = some transform → transform.AddsTo (v.span s.objective.totalScalars.toNat).2)
    (q : Query α) {answer : Answer α} (hanswer : (q.perform.run t).1 = .ok answer) :
    (q.perform.run t').1 = .ok answer ∧
      (q.perform.run t).2.memory = (q.perform.run t').2.memory := by
  have halike := h.alike h'
  have hagree (hopen : t.objective.closed = false) :
      Agree (fun _ _ _ _ ↦ True) s.memory s.memory t t' := by
    have hsound := h.kept.sound hopen
    have hsound' := h'.kept.sound (closed_eq_of_bare halike.bare ▸ hopen)
    have hadditive : t.objective.registry.Additive t.objective.graph.bindings := by
      refine ⟨hsound.laid, ?_⟩
      rw [h.registry, h.graph]
      exact fun b hb v hv ↦ hadds v (List.mem_flatMap.2 ⟨b, hb, hv⟩)
    exact .of_workers halike ⟨hsound, hsound', halike.bare, h.registry.trans h'.registry.symm,
      h.graph.trans h'.graph.symm, hadditive⟩ hopen
  have hrelated := halike.related_perform (fun _ _ _ _ ↦ trivial) hagree q fun _ ↦ rfl
  generalize q.perform.run t = r at hrelated hanswer
  generalize q.perform.run t' = r' at hrelated
  cases hrelated with
  | error _ => cases hanswer
  | ok h =>
    obtain ⟨rfl, h⟩ := h
    exact ⟨hanswer, h.memory.eq⟩

/-- Any number of workers leave each other alone. -/
theorem undisturbed [Zero α] [Add α] [Storable α] (h : s.Resized workers t)
    (hopen : s.objective.closed = false) {registry : Registry α}
    {storage : List (WorkerStorage α)} (mode : Mode) (x : List α)
    (hentries : registry.entries.map Variable.bare = s.objective.registry.entries.map Variable.bare)
    (htotal : registry.totalScalars = s.objective.totalScalars)
    (hstorage : t.objective.Stored storage) :
    (Crew.start storage (partition s.objective.graph.size workers)
      s.objective.graph.bindings).Undisturbed mode registry x
        (partition s.objective.graph.size workers) := by
  have hsound := h.kept.sound ((closed_eq_of_bare h.bare).trans hopen)
  have hentries' : registry.entries.map Variable.bare =
      t.objective.registry.entries.map Variable.bare := by
    rw [h.registry, hentries]
  have hundisturbed := hsound.undisturbed hstorage hentries'
    (htotal.trans (totalScalars_eq_of_bare h.bare).symm) mode x
  rwa [h.workerCount hopen, h.graph] at hundisturbed

end Scene.Resized

variable [AddMonoid α] [OfNat α 1] [Storable α] [ExactStorage α]

/-- Whatever has been done with an objective, every query that succeeds with some number of workers
and some order of their turns gets the same answer, and leaves the same memory, with any other
number and any other order. Among workers of any number, none writes what another one reads, and
every binding is evaluated exactly once. Of transforms it is asked that those of bound variables add
to the slices what they pull back; the slices may be of any sizes and may overlap. -/
theorem Scene.Reached.answer_eq_of_workers {s : Scene α} (h : s.Reached)
    (hadds : ∀ v ∈ s.objective.graph.boundVariables s.objective.registry, ∀ transform,
      v.transform = some transform → transform.AddsTo (v.span s.objective.totalScalars.toNat).2) :
    (∀ (workers workers' : Nat) (interleaving interleaving' : Interleaving), 1 ≤ workers →
      1 ≤ workers' → ∀ (q : Query α) (answer : Answer α),
        (q.perform.run (s.withWorkers workers interleaving)).1 = .ok answer →
          (q.perform.run (s.withWorkers workers' interleaving')).1 = .ok answer ∧
            (q.perform.run (s.withWorkers workers interleaving)).2.memory =
              (q.perform.run (s.withWorkers workers' interleaving')).2.memory) ∧
      ∀ (workers : Nat) (interleaving : Interleaving), 1 ≤ workers → s.objective.closed = false →
        ∀ (registry : Registry α) (storage : List (WorkerStorage α)) (mode : Mode) (x : List α),
          registry.entries.map Variable.bare = s.objective.registry.entries.map Variable.bare →
            registry.totalScalars = s.objective.totalScalars →
              (s.withWorkers workers interleaving).objective.Stored storage →
                (Crew.start storage (partition s.objective.graph.size workers)
                  s.objective.graph.bindings).Undisturbed mode registry x
                    (partition s.objective.graph.size workers) := by
  constructor
  · intro w w' i i' hw hw' q answer hanswer
    exact (resized_withWorkers h.kept hw i).answer_eq (resized_withWorkers h.kept hw' i') hadds q
      hanswer
  · intro w i hw hopen registry storage mode x hentries htotal hstorage
    exact (resized_withWorkers h.kept hw i).undisturbed hopen mode x hentries htotal hstorage

end Workers

/-- The same turns in the opposite order. -/
def Interleaving.reversed (interleaving : Interleaving) : Interleaving where
  turns chunks := (interleaving.turns chunks).reverse
  enough h := by simpa using interleaving.enough h

namespace Small

/-- In the small history, three workers that take their turns in the opposite order find the
gradient that one worker finds, and they leave each other alone. -/
theorem answer_of_three_workers :
    ((Query.valueAndGradient (.ok (.vector [1, 2, 3, 4]))).perform.run
        ((scene (some tripled)).withWorkers 3 (.reversed .sequential))).1 =
          .ok (.valueGradient 23 [20, 13, 6, 0]) ∧
      (Crew.start (List.replicate 3 ⟨[0, 0, 0, 0], [[0, 0], [0, 0], [0, 0]]⟩) (partition 2 3)
        (scene (some tripled)).objective.graph.bindings).Undisturbed .hessian
          (scene (some tripled)).objective.registry [1, 2, 3, 4] (partition 2 3) := by
  have hone : ((Query.valueAndGradient (.ok (.vector [1, 2, 3, 4]))).perform.run
      ((scene (some tripled)).withWorkers 1 .sequential)).1 =
        .ok (.valueGradient 23 [20, 13, 6, 0]) := by
    set_option maxRecDepth 2000 in rfl
  have hroom : Objective.checkStorage
      ((scene (some tripled)).withWorkers 3 .sequential).objective = .ok () :=
    have hvector : Allocation.fault? .real [4] = none := by decide
    have hmatrix : Allocation.fault? .real [3, 2] = none := by decide
    Objective.checkStorage_eq_ok_iff.2 ⟨hvector, hmatrix⟩
  have hadds : ∀ v ∈ (scene (some tripled)).objective.registry.entries, ∀ transform,
      v.transform = some transform → ∀ size, transform.AddsTo size :=
    of_transform (tripling.addsTo 1) (.inr rfl)
  obtain ⟨hanswer, hundisturbed⟩ := (reached_scene (some tripled)).answer_eq_of_workers
    fun v hv t ht ↦ hadds v (Graph.mem_of_mem_boundVariables hv) t ht _
  refine ⟨(hanswer 1 3 .sequential (.reversed .sequential) (by decide) (by decide) _ _ hone).1, ?_⟩
  exact hundisturbed 3 .sequential (by decide) rfl _ _ .hessian [1, 2, 3, 4] rfl rfl
    (Objective.stored_newStorage hroom)

end Small

end Summand
