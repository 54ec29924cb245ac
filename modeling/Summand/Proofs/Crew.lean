import Mathlib.Data.List.Induction
import Summand.Proofs.Partition
import Summand.Proofs.Worker

/-!
# Workers do not interfere

In a crew, whatever the turns are, every worker has done exactly as many steps of its own as it had
turns, and a binding has its new Hessian blocks exactly if the worker of its chunk has come that far
(`Crew.Follows`). The invariant holds because a step reads and writes one worker and one binding of
that worker's chunk, and chunks do not overlap. So a crew comes to the same sums or the same failure
under all interleavings (`Crew.Ready.concluded_run`), and it evaluates every binding once
(`Crew.Ready.evaluations_perm_range`).
-/

namespace Summand

variable {α : Type} [Zero α] [Add α] [Storable α]

/-! ### A crew under any turns -/

namespace Crew

/-- A crew at the start of its chunks, with room for all bindings. -/
structure Ready (registry : Registry α) (rows columns : Nat) (chunks : List Chunk)
    (crew : Crew α) : Prop where
  tile : Chunk.Tile 0 crew.bindings.length chunks
  length : crew.workers.length = chunks.length
  within : Worker.AllWithin registry rows columns crew.bindings
  start : ∀ {p : Nat} {w : Worker α} {c : Chunk}, crew.workers[p]? = some w →
    chunks[p]? = some c → w.next = c.start.toNat ∧ w.stop = c.stop.toNat ∧ w.failure = none ∧
      Buffer.Shaped rows columns w.scratch

/-- What a crew has come to after some turns: every worker has done as many steps of its own as it
had turns, and the bindings that it has reached have their new blocks. -/
structure Follows (mode : Mode) (registry : Registry α) (x : List α) (chunks : List Chunk)
    (initial : Crew α) (turns : List Nat) (crew : Crew α) : Prop where
  length : crew.bindings.length = initial.bindings.length
  workers : ∀ p : Nat, crew.workers[p]? =
    initial.workers[p]?.map (Worker.advance mode registry x initial.bindings)^[turns.count p]
  bindings : ∀ {p i : Nat} {w : Worker α} {c : Chunk}, crew.workers[p]? = some w →
    chunks[p]? = some c → c.start.toNat ≤ i → i < c.stop.toNat →
      crew.bindings[i]? = initial.bindings[i]?.map fun b ↦
        if w.HasReached i then b.afterward mode registry else b

variable {mode : Mode} {registry : Registry α} {x : List α} {rows columns : Nat}
  {chunks : List Chunk} {initial crew : Crew α} {turns : List Nat}

theorem Follows.length_workers (h : Follows mode registry x chunks initial turns crew) :
    crew.workers.length = initial.workers.length := by
  have hiff (p : Nat) : crew.workers.length ≤ p ↔ initial.workers.length ≤ p := by
    rw [← List.getElem?_eq_none_iff, h.workers, Option.map_eq_none_iff, List.getElem?_eq_none_iff]
  exact Nat.le_antisymm ((hiff _).2 (Nat.le_refl _)) ((hiff _).1 (Nat.le_refl _))

/-- Every worker of a crew is on its way through its chunk. -/
theorem Follows.onTheWay (h : Follows mode registry x chunks initial turns crew)
    (ready : Ready registry rows columns chunks initial) {p : Nat} {w : Worker α}
    (hw : crew.workers[p]? = some w) :
    ∃ start, initial.workers[p]? = some start ∧ Worker.OnTheWay rows columns start w := by
  rw [h.workers] at hw
  obtain ⟨start, hstart, rfl⟩ := Option.map_eq_some_iff.1 hw
  have hp : p < chunks.length := by
    rw [← ready.length]
    exact (List.getElem?_eq_some_iff.1 hstart).1
  obtain ⟨-, -, -, hshaped⟩ := ready.start hstart (List.getElem?_eq_getElem hp)
  exact ⟨start, hstart, (Worker.OnTheWay.refl hshaped).iterate ready.within _⟩

omit [Zero α] [Add α] [Storable α] in
/-- The worker at a position has a chunk. -/
theorem Ready.exists_chunk [Zero α] (ready : Ready registry rows columns chunks initial) {p : Nat}
    {w : Worker α} (hw : initial.workers[p]? = some w) : ∃ c, chunks[p]? = some c := by
  have hp : p < chunks.length := by
    rw [← ready.length]
    exact (List.getElem?_eq_some_iff.1 hw).1
  exact ⟨chunks[p], List.getElem?_eq_getElem hp⟩

/-- The binding that the worker at a position evaluates if it is its turn. -/
def taken (crew : Crew α) (position : Nat) : Option Nat :=
  crew.workers[position]?.bind fun w ↦
    if w.finished then none else crew.bindings[w.next]?.map fun _ ↦ w.next

/-- A turn that does something: a worker evaluates a binding of its own chunk, which has not been
touched so far, and nothing but the worker and the binding changes. -/
structure Takes (mode : Mode) (registry : Registry α) (x : List α) (rows columns : Nat)
    (chunks : List Chunk) (initial crew : Crew α) (position : Nat) (w : Worker α) (c : Chunk)
    (b : Binding α) : Prop where
  worker : crew.workers[position]? = some w
  chunk : chunks[position]? = some c
  within : c.start.toNat ≤ w.next ∧ w.next < c.stop.toNat
  unfinished : w.finished = false
  untouched : initial.bindings[w.next]? = some b
  current : crew.bindings[w.next]? = some b
  stepped : Worker.Stepped rows columns (b.accumulate mode registry x (w.value, w.gradient)) w
    (w.step mode registry x b).1
  eq : crew.step mode registry x position =
    ⟨crew.workers.set position (w.step mode registry x b).1,
      crew.bindings.set w.next (b.afterward mode registry)⟩

/-- A turn passes without change, or does something. -/
theorem Follows.step_cases (h : Follows mode registry x chunks initial turns crew)
    (ready : Ready registry rows columns chunks initial) (position : Nat) :
    (crew.step mode registry x position = crew ∧ crew.taken position = none ∧
        crew.workers[position]? =
          crew.workers[position]?.map (Worker.advance mode registry x initial.bindings)) ∨
      ∃ w c b, Takes mode registry x rows columns chunks initial crew position w c b := by
  rcases hw : crew.workers[position]? with - | w
  · exact .inl ⟨by simp only [Crew.step, hw], by simp [taken, hw], rfl⟩
  rcases hfinished : w.finished with - | -
  swap
  · exact .inl ⟨by simp only [Crew.step, hw, hfinished, if_true], by simp [taken, hw, hfinished],
      by rw [Option.map_some, Worker.advance_of_finished hfinished]⟩
  obtain ⟨start, hstart, way⟩ := h.onTheWay ready hw
  obtain ⟨c, hc⟩ := ready.exists_chunk hstart
  obtain ⟨hnext, hstop, -, -⟩ := ready.start hstart hc
  obtain ⟨-, -, hbound, -⟩ := ready.tile.bounds (List.mem_of_getElem? hc)
  obtain ⟨hfailure, hlt⟩ := Worker.not_finished_iff.1 hfinished
  have hle := way.le
  have hstop' := way.stop
  have hlength : w.next < initial.bindings.length := by omega
  have hb : initial.bindings[w.next]? = some initial.bindings[w.next] :=
    List.getElem?_eq_getElem hlength
  -- The binding at hand has not been touched, since only this worker has a chunk with it.
  have hcurrent : crew.bindings[w.next]? = some initial.bindings[w.next] := by
    have hnot : ¬ w.HasReached w.next := by simp [Worker.HasReached, hfailure]
    rw [h.bindings hw hc (by omega) (by omega), hb, Option.map_some, if_neg hnot]
  obtain ⟨hstep, hafter⟩ := Worker.stepped_step (w := w) (x := x) mode way.shaped
    (ready.within _ (List.mem_of_getElem? hb))
  exact .inr ⟨w, c, _, hw, hc, ⟨by omega, by omega⟩, hfinished, hb, hcurrent, hstep,
    by rw [← hafter]; simp [Crew.step, hw, hfinished, hcurrent]⟩

namespace Takes

variable {position : Nat} {w : Worker α} {c : Chunk} {b : Binding α}

theorem taken_eq (h : Takes mode registry x rows columns chunks initial crew position w c b) :
    crew.taken position = some w.next := by
  simp [taken, h.worker, h.unfinished, h.current]

theorem failure_eq_none
    (h : Takes mode registry x rows columns chunks initial crew position w c b) :
    w.failure = none :=
  (Worker.not_finished_iff.1 h.unfinished).1

/-- The worker whose turn it was has done its step. -/
theorem worker_step (h : Takes mode registry x rows columns chunks initial crew position w c b) :
    (crew.step mode registry x position).workers[position]? =
      some (w.step mode registry x b).1 := by
  rw [h.eq, List.getElem?_set_self (List.getElem?_eq_some_iff.1 h.worker).1]

/-- The other workers stay where they are. -/
theorem other_worker (h : Takes mode registry x rows columns chunks initial crew position w c b)
    {q : Nat} (hq : q ≠ position) :
    (crew.step mode registry x position).workers[q]? = crew.workers[q]? := by
  rw [h.eq, List.getElem?_set_ne (Ne.symm hq)]

/-- The other bindings stay as they are. -/
theorem other_binding (h : Takes mode registry x rows columns chunks initial crew position w c b)
    {i : Nat} (hi : i ≠ w.next) :
    (crew.step mode registry x position).bindings[i]? = crew.bindings[i]? := by
  rw [h.eq, List.getElem?_set_ne (Ne.symm hi)]

/-- The binding at hand lies in no other chunk. -/
theorem ne_next (h : Takes mode registry x rows columns chunks initial crew position w c b)
    (ready : Ready registry rows columns chunks initial) {q i : Nat} {d : Chunk}
    (hd : chunks[q]? = some d) (hi : d.start.toNat ≤ i ∧ i < d.stop.toNat) (hq : q ≠ position) :
    i ≠ w.next := by
  rintro rfl
  exact hq (ready.tile.position_unique hd h.chunk hi h.within)

end Takes

/-- A crew at the start has taken no turns. -/
theorem Ready.follows_nil (ready : Ready registry rows columns chunks initial) :
    Follows mode registry x chunks initial [] initial where
  length := rfl
  workers p := by simp
  bindings {p i w c} hw hc hle hlt := by
    obtain ⟨hnext, -, hfailure, -⟩ := ready.start hw hc
    have hnot : ¬ w.HasReached i := by
      rintro (h | ⟨h, -⟩)
      · omega
      · simp [hfailure] at h
    simp [hnot]

/-- The worker whose turn it is goes on as if it were alone, and the others stay where they are. -/
theorem Follows.workers_append (h : Follows mode registry x chunks initial turns crew)
    {position : Nat} {crew' : Crew α}
    (hself : crew'.workers[position]? =
      crew.workers[position]?.map (Worker.advance mode registry x initial.bindings))
    (hother : ∀ q ≠ position, crew'.workers[q]? = crew.workers[q]?) (q : Nat) :
    crew'.workers[q]? = initial.workers[q]?.map
      (Worker.advance mode registry x initial.bindings)^[(turns ++ [position]).count q] := by
  rw [List.count_append]
  by_cases hq : q = position
  · subst hq
    rw [hself, h.workers, List.count_singleton_self, Option.map_map, Function.iterate_succ']
  · rw [hother q hq, h.workers, List.count_singleton, if_neg (by simpa using Ne.symm hq),
      Nat.add_zero]

theorem Follows.step (h : Follows mode registry x chunks initial turns crew)
    (ready : Ready registry rows columns chunks initial) (position : Nat) :
    Follows mode registry x chunks initial (turns ++ [position])
      (crew.step mode registry x position) := by
  obtain ⟨hcrew, -, hself⟩ | ⟨w, c, b, takes⟩ := h.step_cases ready position
  · rw [hcrew]
    exact ⟨h.length, h.workers_append hself fun _ _ ↦ rfl, h.bindings⟩
  refine ⟨?_, h.workers_append ?_ fun q ↦ takes.other_worker, ?_⟩
  · rw [takes.eq, List.length_set, h.length]
  · rw [takes.worker_step, takes.worker, Option.map_some,
      Worker.advance_of_binding takes.unfinished takes.untouched]
  -- In the chunk of this worker one more binding has been reached; the others are not concerned.
  intro q i v d hv hd hdi hid
  by_cases hq : q = position
  · subst hq
    obtain rfl : c = d := Option.some.inj (takes.chunk.symm.trans hd)
    obtain rfl := Option.some.inj (takes.worker_step.symm.trans hv)
    have hreached := takes.stepped.hasReached_iff takes.failure_eq_none (i := i)
    by_cases hi : i = w.next
    · subst hi
      have hlength : w.next < crew.bindings.length :=
        (List.getElem?_eq_some_iff.1 takes.current).1
      rw [takes.eq, List.getElem?_set_self hlength, takes.untouched, Option.map_some,
        if_pos (hreached.2 (.inr rfl))]
    · rw [takes.other_binding hi, h.bindings takes.worker hd hdi hid]
      simp only [hreached, hi, or_false]
  · rw [takes.other_binding (takes.ne_next ready hd ⟨hdi, hid⟩ hq)]
    exact h.bindings (by rwa [takes.other_worker hq] at hv) hd hdi hid

/-- The last turn is a step of the crew that the others have led to. -/
theorem run_concat (turns : List Nat) (position : Nat) (crew : Crew α) :
    crew.run mode registry x (turns ++ [position]) =
      (crew.run mode registry x turns).step mode registry x position := by
  rw [run, List.foldl_append]
  rfl

variable (mode x) in
/-- Whatever the turns are, a crew follows them. -/
theorem Ready.follows_run (ready : Ready registry rows columns chunks initial) (turns : List Nat) :
    Follows mode registry x chunks initial turns (initial.run mode registry x turns) := by
  induction turns using List.reverseRecOn with
  | nil => exact ready.follows_nil
  | append_singleton turns position ih =>
    rw [run_concat]
    exact ih.step ready position

/-! ### The end of a run -/

/-- The sums of all workers at the ends of their chunks, or the first failure, if each worker goes
through its chunk alone. -/
def outcome (mode : Mode) (registry : Registry α) (x : List α) (chunks : List Chunk)
    (crew : Crew α) : Except (Nat × Failure) (List (α × List α)) :=
  (crew.workers.zip chunks).mapM fun (w, c) ↦
    Binding.accumulateFrom mode registry x c.start.toNat (c.cut crew.bindings) (w.value, w.gradient)

/-- Every worker has at least as many turns as its chunk has bindings. -/
abbrev Enough (chunks : List Chunk) (turns : List Nat) : Prop :=
  ∀ {p : Nat} {c : Chunk}, chunks[p]? = some c → c.length ≤ turns.count p

/-- After enough turns a worker has ended, and with what it comes to alone. -/
theorem Ready.ended_run (ready : Ready registry rows columns chunks initial)
    (enough : Enough chunks turns) {p : Nat} {start w : Worker α} {c : Chunk}
    (hstart : initial.workers[p]? = some start) (hc : chunks[p]? = some c)
    (hw : (initial.run mode registry x turns).workers[p]? = some w) :
    Worker.Ended (Binding.accumulateFrom mode registry x c.start.toNat (c.cut initial.bindings)
      (start.value, start.gradient)) w := by
  obtain ⟨hnext, hstop, hfailure, hshaped⟩ := ready.start hstart hc
  obtain ⟨-, hle, hbound, hlength⟩ := ready.tile.bounds (List.mem_of_getElem? hc)
  have hended := Worker.ended_iterate_advance mode x (k := c.length) ready.within hshaped
    hfailure (by omega) (by omega)
  rw [(ready.follows_run mode x turns).workers, hstart, Option.map_some, Option.some.injEq,
    ← Nat.sub_add_cancel (enough hc), Function.iterate_add_apply,
    Worker.iterate_advance_of_finished hended.finished] at hw
  rwa [hw, hnext] at hended

variable (mode x) in
/-- After enough turns all workers have ended. -/
theorem Ready.forall₂_ended_run (ready : Ready registry rows columns chunks initial)
    (enough : Enough chunks turns) :
    List.Forall₂ (fun (start : Worker α × Chunk) w ↦
        Worker.Ended (Binding.accumulateFrom mode registry x start.2.start.toNat
          (start.2.cut initial.bindings) (start.1.value, start.1.gradient)) w)
      (initial.workers.zip chunks) (initial.run mode registry x turns).workers := by
  have hlength : (initial.run mode registry x turns).workers.length = initial.workers.length :=
    (ready.follows_run mode x turns).length_workers
  rw [List.forall₂_iff_get]
  constructor
  · rw [List.length_zip, hlength, ready.length, Nat.min_self]
  · intro p hp hp'
    obtain ⟨hstart, hc⟩ := List.getElem?_zip_eq_some.1 (List.getElem?_eq_getElem hp)
    exact ready.ended_run enough hstart hc (List.getElem?_eq_getElem hp')

/-- After enough turns without a failure every binding has been reached by its worker. -/
theorem Ready.reached_run (ready : Ready registry rows columns chunks initial)
    (enough : Enough chunks turns)
    (hnone : (initial.run mode registry x turns).failure? = none) {i : Nat}
    (hi : i < initial.bindings.length) :
    ∃ (p : Nat) (c : Chunk) (w : Worker α), chunks[p]? = some c ∧
      (initial.run mode registry x turns).workers[p]? = some w ∧ c.start.toNat ≤ i ∧
        i < c.stop.toNat ∧ w.HasReached i := by
  have follows := ready.follows_run mode x turns
  obtain ⟨p, c, hc, hle, hlt⟩ := ready.tile.exists_chunk ⟨Nat.zero_le i, hi⟩
  have hp : p < (initial.run mode registry x turns).workers.length := by
    rw [follows.length_workers, ready.length]
    exact (List.getElem?_eq_some_iff.1 hc).1
  have hw := List.getElem?_eq_getElem hp
  set w := (initial.run mode registry x turns).workers[p]
  obtain ⟨start, hstart, way⟩ := follows.onTheWay ready hw
  obtain ⟨-, hstop, -, -⟩ := ready.start hstart hc
  have hfailure : w.failure = none :=
    List.findSome?_eq_none_iff.1 hnone w (List.mem_of_getElem? hw)
  -- A worker that has finished without a failure has come to the end of its chunk.
  refine ⟨p, c, w, hc, hw, hle, hlt, .inl ?_⟩
  rcases Worker.finished_iff.1 (ready.ended_run enough hstart hc hw).finished with h | h
  · simp [hfailure] at h
  · rw [way.stop, hstop] at h
    omega

variable (mode x) in
/-- After enough turns a crew shows the first failure of its outcome, and all sums of it if there is
none; then all bindings have their new blocks. -/
theorem Ready.concluded_run (ready : Ready registry rows columns chunks initial)
    (enough : Enough chunks turns) :
    (∀ failure, initial.outcome mode registry x chunks = .error failure →
        (initial.run mode registry x turns).failure? = some failure) ∧
      ∀ sums, initial.outcome mode registry x chunks = .ok sums →
        (initial.run mode registry x turns).failure? = none ∧
          (initial.run mode registry x turns).workers.map (fun w ↦ (w.value, w.gradient)) = sums ∧
          (initial.run mode registry x turns).bindings =
            initial.bindings.map (Binding.afterward mode registry) := by
  obtain ⟨herror, hok⟩ := Worker.forall₂_ended (ready.forall₂_ended_run mode x enough)
  refine ⟨herror, ?_⟩
  intro sums h
  obtain ⟨hnone, hsums⟩ := hok sums h
  have follows := ready.follows_run mode x turns
  refine ⟨hnone, hsums, ?_⟩
  apply List.ext_getElem?
  intro i
  rw [List.getElem?_map]
  rcases Nat.lt_or_ge i initial.bindings.length with hi | hi
  · obtain ⟨p, c, w, hc, hw, hle, hlt, hreached⟩ := ready.reached_run enough hnone hi
    rw [follows.bindings hw hc hle hlt]
    simp only [hreached, if_true]
  · rw [List.getElem?_eq_none (by rw [follows.length]; exact hi), List.getElem?_eq_none hi]
    rfl

variable (mode x) in
/-- Whatever the turns are, the bindings keep what an evaluation leaves alone. -/
theorem Ready.map_bindings_run {β : Type} {f : Binding α → β}
    (hf : ∀ b, f (b.afterward mode registry) = f b)
    (ready : Ready registry rows columns chunks initial) (turns : List Nat) :
    (initial.run mode registry x turns).bindings.map f = initial.bindings.map f := by
  have follows := ready.follows_run mode x turns
  apply List.ext_getElem?
  intro i
  rw [List.getElem?_map, List.getElem?_map]
  rcases Nat.lt_or_ge i initial.bindings.length with hi | hi
  · obtain ⟨p, c, hc, hle, hlt⟩ := ready.tile.exists_chunk ⟨Nat.zero_le i, hi⟩
    have hp : p < (initial.run mode registry x turns).workers.length := by
      rw [follows.length_workers, ready.length]
      exact (List.getElem?_eq_some_iff.1 hc).1
    rw [follows.bindings (List.getElem?_eq_getElem hp) hc hle hlt, Option.map_map]
    apply congrArg (Option.map · _)
    funext b
    rw [Function.comp_apply]
    split
    · exact hf b
    · rfl
  · rw [List.getElem?_eq_none (by rw [follows.length]; exact hi), List.getElem?_eq_none hi]

/-! ### Who writes what, and how often -/

/-- A turn changes no worker but the one whose turn it is, and no binding outside of its chunk. -/
theorem Ready.frame (ready : Ready registry rows columns chunks initial) (turns : List Nat)
    (position : Nat) :
    (∀ q ≠ position, (initial.run mode registry x (turns ++ [position])).workers[q]? =
        (initial.run mode registry x turns).workers[q]?) ∧
      ∀ i : Nat, (∀ c, chunks[position]? = some c → ¬ (c.start.toNat ≤ i ∧ i < c.stop.toNat)) →
        (initial.run mode registry x (turns ++ [position])).bindings[i]? =
          (initial.run mode registry x turns).bindings[i]? := by
  rw [run_concat]
  obtain ⟨hcrew, -, -⟩ | ⟨w, c, b, takes⟩ :=
    (ready.follows_run mode x turns).step_cases ready position
  · rw [hcrew]
    exact ⟨fun _ _ ↦ rfl, fun _ _ ↦ rfl⟩
  · refine ⟨fun q ↦ takes.other_worker, ?_⟩
    intro i hi
    apply takes.other_binding
    rintro rfl
    exact hi c takes.chunk takes.within

/-- The bindings that are evaluated in the course of some turns. -/
def evaluations (mode : Mode) (registry : Registry α) (x : List α) : List Nat → Crew α → List Nat
  | [], _ => []
  | position :: turns, crew =>
    (crew.taken position).toList ++ evaluations mode registry x turns
      (crew.step mode registry x position)

theorem evaluations_append (turns later : List Nat) (crew : Crew α) :
    evaluations mode registry x (turns ++ later) crew =
      evaluations mode registry x turns crew ++
        evaluations mode registry x later (crew.run mode registry x turns) := by
  induction turns generalizing crew with
  | nil => rfl
  | cons position turns ih =>
    rw [List.cons_append, evaluations, evaluations, ih, List.append_assoc]
    rfl

/-- A binding has been evaluated once if its worker has reached it, and not at all if not. -/
theorem Ready.count_evaluations (ready : Ready registry rows columns chunks initial)
    (turns : List Nat) {p i : Nat} {w : Worker α} {c : Chunk}
    (hw : (initial.run mode registry x turns).workers[p]? = some w) (hc : chunks[p]? = some c)
    (hi : c.start.toNat ≤ i ∧ i < c.stop.toNat) :
    (initial.evaluations mode registry x turns).count i = if w.HasReached i then 1 else 0 := by
  induction turns using List.reverseRecOn generalizing p i w c with
  | nil =>
    obtain ⟨hnext, -, hfailure, -⟩ := ready.start hw hc
    have hnot : ¬ w.HasReached i := by
      simp only [Worker.HasReached, hfailure, hnext]
      simp
      omega
    rw [if_neg hnot]
    rfl
  | append_singleton turns position ih =>
    rw [run_concat] at hw
    have follows := ready.follows_run mode x turns
    rw [evaluations_append, List.count_append]
    simp only [evaluations, List.append_nil]
    obtain ⟨hcrew, htaken, -⟩ | ⟨v, d, b, takes⟩ := follows.step_cases ready position
    · rw [hcrew] at hw
      rw [htaken, ih hw hc hi]
      simp
    · rw [takes.taken_eq, Option.toList_some, List.count_singleton]
      by_cases hp : p = position
      · subst hp
        obtain rfl : c = d := Option.some.inj (hc.symm.trans takes.chunk)
        obtain rfl := Option.some.inj (takes.worker_step.symm.trans hw)
        have hreached := takes.stepped.hasReached_iff takes.failure_eq_none (i := i)
        have hnot : ¬ v.HasReached v.next := by simp [Worker.HasReached, takes.failure_eq_none]
        rw [ih takes.worker hc hi]
        by_cases hnext : i = v.next
        · subst hnext
          simp [hreached, hnot]
        · simp [hreached, hnext, Ne.symm hnext]
      · -- The turn of another worker, which evaluates a binding of its own chunk.
        have hne := takes.ne_next ready hc hi hp
        rw [takes.other_worker hp] at hw
        rw [ih hw hc hi]
        simp [Ne.symm hne]

theorem lt_of_mem_evaluations {i : Nat} (turns : List Nat) (crew : Crew α)
    (h : i ∈ crew.evaluations mode registry x turns) : i < crew.bindings.length := by
  induction turns generalizing crew with
  | nil => simp [evaluations] at h
  | cons position turns ih =>
    rcases List.mem_append.1 h with h | h
    · obtain ⟨w, -, h⟩ := Option.bind_eq_some_iff.1 (Option.mem_toList.1 h)
      split at h
      · simp at h
      · obtain ⟨b, hb, rfl⟩ := Option.map_eq_some_iff.1 h
        exact (List.getElem?_eq_some_iff.1 hb).1
    · have hlength :
          (crew.step mode registry x position).bindings.length = crew.bindings.length := by
        rw [Crew.step]
        split
        · rfl
        split
        · rfl
        split <;> simp
      exact hlength ▸ ih _ h

/-- Workers that get enough turns and do not fail evaluate every binding exactly once. -/
theorem Ready.evaluations_perm_range (ready : Ready registry rows columns chunks initial)
    (enough : Enough chunks turns)
    (hnone : (initial.run mode registry x turns).failure? = none) :
    (initial.evaluations mode registry x turns).Perm (List.range initial.bindings.length) := by
  rw [List.perm_iff_count]
  intro i
  rcases Nat.lt_or_ge i initial.bindings.length with hi | hi
  · obtain ⟨p, c, w, hc, hw, hle, hlt, hreached⟩ := ready.reached_run enough hnone hi
    rw [ready.count_evaluations turns hw hc ⟨hle, hlt⟩, if_pos hreached,
      List.nodup_range.count, if_pos (List.mem_range.2 hi)]
  · rw [List.count_eq_zero_of_not_mem, List.count_eq_zero_of_not_mem]
    · simpa using hi
    · exact fun h ↦ Nat.not_lt.2 hi (lt_of_mem_evaluations turns initial h)

end Crew

end Summand
