import Summand.Proofs.Crew
import Summand.Proofs.Soundness
import Summand.Proofs.Values

/-!
# What evaluations compute

An evaluation takes storage, copies values, lets the workers take turns and collects what they have.
What it computes is said here without any of that: the values of the variables are those of the
point, each chunk of bindings is summed from zero, and the sums of the chunks are put together
(`Objective.direct`). The evaluation of a sound objective realizes that computation, under any
interleaving and whatever its storage and its buffers hold (`realizes_evaluateWorkers`,
`realizes_evaluateValue`), and leaves a sound objective that differs in buffers only
(`Evaluated`).
-/

namespace Summand

variable {α : Type} [Zero α] [Add α] [Storable α]

/-! ### The computation -/

namespace Objective

/-- The sums of all chunks, each begun with zero. -/
def chunkSums (o : Objective α) (mode : Mode) (registry : Registry α) (x : List α) :
    Except (Nat × Failure) (List (α × List α)) :=
  (partition o.graph.size o.workerCount).mapM fun c ↦
    Binding.accumulateFrom mode registry x c.start.toNat (c.cut o.graph.bindings)
      (0, Buffer.zeros o.totalScalars.toNat)

omit [Zero α] [Add α] [Storable α] in
/-- The failure of an evaluation in which a binding failed. -/
def termFailure (o : Objective α) (failed : Nat × Failure) : Failure :=
  .termFailed failed.1 ((o.graph.bindings[failed.1]?).elim "" fun b ↦ b.term.name) failed.2

omit [Storable α] in
/-- The sum of the values of all chunks. -/
def total (sums : List (α × List α)) : α := sums.foldl (fun sum s ↦ sum + s.1) 0

/-- The sums of all chunks with the values of a point, and the variables with these values. -/
def direct (o : Objective α) (mode : Mode) (x : List α) :
    Except Failure (Registry α × List (α × List α)) := do
  checkStorage o
  let registry ← o.registry.valued x
  let sums ← (o.chunkSums mode registry x).mapError o.termFailure
  return (registry, sums)

end Objective

/-! ### What an evaluation leaves alone -/

/-- An evaluation has led from one scene to another. -/
structure Evaluated (s t : Scene α) : Prop where
  bare : s.objective.bare = t.objective.bare
  workerCount : s.objective.workerCount = t.objective.workerCount
  sound : t.objective.Sound
  memory : t.memory = s.memory
  platform : t.platform = s.platform

namespace Evaluated

variable {s t u : Scene α}

omit [Add α] [Storable α] in
theorem refl (h : s.objective.Sound) : Evaluated s s := ⟨rfl, rfl, h, rfl, rfl⟩

omit [Add α] [Storable α] in
theorem trans (h : Evaluated s t) (h' : Evaluated t u) : Evaluated s u :=
  ⟨h.bare.trans h'.bare, h.workerCount.trans h'.workerCount, h'.sound, h'.memory.trans h.memory,
    h'.platform.trans h.platform⟩

omit [Add α] [Storable α] in
/-- An evaluation does not look at the arrays that its results are written to. -/
theorem withMemory (h : Evaluated s t) (m : Memory α) :
    Evaluated { s with memory := m } { t with memory := m } :=
  ⟨h.bare, h.workerCount, h.sound, rfl, h.platform⟩

end Evaluated

namespace Objective

open Summand.Action

variable {o : Objective α} {s : Scene α} {mode : Mode} {x : List α}

/-! ### Storage -/

omit [Add α] [Storable α] in
theorem realizes_ensureStorage (h : s.objective.Sound) :
    Realizes (Evaluated s) (fun _ storage t ↦ Evaluated s t ∧ t.objective.storage = some storage ∧
        t.objective.registry = s.objective.registry ∧ t.objective.graph = s.objective.graph)
      (checkStorage s.objective) (ensureStorage.run s) := by
  rw [ensureStorage, run_objective_bind]
  rcases hstorage : s.objective.storage with - | storage
  · dsimp only
    rw [run_bind, run_liftM]
    rcases hroom : checkStorage s.objective with failure | ⟨⟩
    · exact .error (.refl h)
    · refine .ok ⟨⟨rfl, rfl, h.of_bare rfl rfl ?_ h.coordinates, rfl, rfl⟩, rfl, rfl, rfl⟩
      intro storage hs
      cases hs
      exact stored_newStorage hroom
  · rw [(h.storage storage hstorage).room]
    exact .ok ⟨.refl h, hstorage, rfl, rfl⟩

/-! ### Workers -/

omit [Zero α] [Add α] [Storable α] in
/-- The chunks of the workers. -/
abbrev chunks (o : Objective α) : List Chunk := partition o.graph.size o.workerCount

omit [Add α] [Storable α] in
/-- Workers that have taken some storage and begin with their chunks. -/
abbrev crew (o : Objective α) (storage : List (WorkerStorage α)) : Crew α :=
  Crew.start storage o.chunks o.graph.bindings

omit [Add α] [Storable α] in
/-- Workers at the start of their chunks are ready. -/
theorem ready_crew (h : o.Sound) {storage : List (WorkerStorage α)} (hs : o.Stored storage) :
    Crew.Ready o.registry o.graph.maxArity o.registry.maxUserDimension o.chunks
      (o.crew storage) where
  tile := tile_partition _ h.workers
  length := by
    show (List.zipWith _ storage o.chunks).length = _
    rw [List.length_zipWith, hs.count]
    exact Nat.min_eq_right (length_partition_le o.graph.size h.workers)
  within b hb := (h.bound b hb).within hb
  start {p w c} hw hc := by
    obtain ⟨worker, chunk, hworker, hchunk, rfl⟩ := List.getElem?_zipWith_eq_some.1 hw
    obtain rfl := Option.some.inj (hchunk.symm.trans hc)
    exact ⟨rfl, rfl, rfl, hs.scratch worker (List.mem_of_getElem? hworker)⟩

omit [Zero α] [Add α] [Storable α] in
/-- Results that agree in some respect come to lists that agree in it. -/
theorem map_mapM_zip {β δ ζ ε τ : Type} {f : β → δ → ζ} {g : ζ × δ → Except ε τ}
    {k : δ → Except ε τ} {γ : Type} {p : τ → γ} {l : List β} {m : List δ}
    (hlength : m.length ≤ l.length)
    (h : ∀ b ∈ l, ∀ d, (g (f b d, d)).map p = (k d).map p) :
    (((List.zipWith f l m).zip m).mapM g).map (List.map p) = (m.mapM k).map (List.map p) := by
  induction m generalizing l with
  | nil => simp
  | cons d m ih =>
    obtain - | ⟨b, l⟩ := l
    · simp at hlength
    have hhead := h b List.mem_cons_self d
    have htail := ih (by simpa using hlength) fun b hb ↦ h b (List.mem_cons_of_mem _ hb)
    have push (e : Except ε τ) (es : Except ε (List τ)) :
        (do return (← e) :: (← es) : Except ε (List τ)).map (List.map p) =
          do return (← e.map p) :: (← es.map (List.map p)) := by
      cases e <;> cases es <;> rfl
    rw [List.zipWith_cons_cons, List.zip_cons_cons, List.mapM_cons, List.mapM_cons, push, push,
      hhead, htail]

/-- Sums of values do not depend on the gradients that go with them. -/
theorem map_fst_accumulateFrom_value (registry : Registry α) (x : List α) (position : Nat)
    (bindings : List (Binding α)) (value : α) (gradient gradient' : List α) :
    (Binding.accumulateFrom .value registry x position bindings (value, gradient)).map Prod.fst =
      (Binding.accumulateFrom .value registry x position bindings (value, gradient')).map
        Prod.fst := by
  induction bindings generalizing position value with
  | nil => rfl
  | cons b rest ih =>
    simp only [Binding.accumulateFrom, Binding.accumulate]
    rcases b.term.value ((Graph.argumentVariables registry b).map Variable.scratch) >>=
      Outcome.toScalar with failure | v
    · rfl
    · exact ih _ _

/-- Gradients in storage are zero, unless only values are asked for. -/
def Cleared (mode : Mode) (n : Nat) (storage : List (WorkerStorage α)) : Prop :=
  mode ≠ .value → ∀ w ∈ storage, w.gradient = Buffer.zeros n

variable (mode x) in
/-- A crew comes to the sums of the chunks. -/
theorem map_outcome_start (h : o.Sound) {storage : List (WorkerStorage α)} (hs : o.Stored storage)
    {γ : Type} {p : α × List α → γ}
    (hp : ∀ w ∈ storage, ∀ position bindings,
      (Binding.accumulateFrom mode o.registry x position bindings (0, w.gradient)).map p =
        (Binding.accumulateFrom mode o.registry x position bindings
          (0, Buffer.zeros o.totalScalars.toNat)).map p) :
    ((o.crew storage).outcome mode o.registry x o.chunks).map (List.map p) =
      (o.chunkSums mode o.registry x).map (List.map p) :=
  map_mapM_zip (Nat.le_trans (length_partition_le _ h.workers) (Nat.le_of_eq hs.count.symm))
    fun w hw _ ↦ hp w hw _ _

variable (mode x) in
/-- The storage that workers leave has the sizes of the storage that they took. -/
theorem stored_storageAfter (h : o.Sound) {storage : List (WorkerStorage α)} (hs : o.Stored storage)
    (turns : List Nat) :
    o.Stored (((o.crew storage).run mode o.registry x turns).storageAfter storage) := by
  have ready := ready_crew h hs
  have follows := ready.follows_run mode x turns
  have hmem {w : Worker α} (hw : w ∈ ((o.crew storage).run mode o.registry x turns).workers) :
      w.gradient.length = o.totalScalars.toNat ∧
        Buffer.Shaped o.graph.maxArity o.registry.maxUserDimension w.scratch := by
    obtain ⟨p, hp⟩ := List.getElem?_of_mem hw
    obtain ⟨start, hstart, way⟩ := follows.onTheWay ready hp
    obtain ⟨worker, chunk, hworker, -, rfl⟩ := List.getElem?_zipWith_eq_some.1 hstart
    exact ⟨way.length.trans (hs.gradient worker (List.mem_of_getElem? hworker)), way.shaped⟩
  refine ⟨?_, hs.room, ?_, ?_⟩
  · have hle : ((o.crew storage).run mode o.registry x turns).workers.length ≤ storage.length := by
      rw [follows.length_workers, ready.length, hs.count]
      exact length_partition_le _ h.workers
    rw [Crew.storageAfter, List.length_append, List.length_map, List.length_drop,
      Nat.add_sub_cancel' hle, hs.count]
  · intro w hw
    rcases List.mem_append.1 hw with hw | hw
    · obtain ⟨v, hv, rfl⟩ := List.mem_map.1 hw
      exact (hmem hv).1
    · exact hs.gradient w (List.mem_of_mem_drop hw)
  · intro w hw
    rcases List.mem_append.1 hw with hw | hw
    · obtain ⟨v, hv, rfl⟩ := List.mem_map.1 hw
      exact (hmem hv).2
    · exact hs.scratch w (List.mem_of_mem_drop hw)

/-- A crew that starts with cleared gradients comes to the sums of the chunks. -/
theorem outcome_start (h : o.Sound) {storage : List (WorkerStorage α)} (hs : o.Stored storage)
    (hcleared : Cleared mode o.totalScalars.toNat storage) (hmode : mode ≠ .value) :
    (o.crew storage).outcome mode o.registry x o.chunks = o.chunkSums mode o.registry x := by
  have hid {ε : Type} (e : Except ε (List (α × List α))) : e.map (List.map id) = e := by
    cases e <;> simp [Except.map]
  have houtcome := map_outcome_start mode x h hs (p := id) fun w hw position bindings ↦ by
    rw [hcleared hmode w hw]
  rwa [hid, hid] at houtcome

variable (mode x) in
/-- A crew comes to the values of the chunks. -/
theorem map_fst_outcome_start (h : o.Sound) {storage : List (WorkerStorage α)}
    (hs : o.Stored storage) (hcleared : Cleared mode o.totalScalars.toNat storage) :
    ((o.crew storage).outcome mode o.registry x o.chunks).map (List.map Prod.fst) =
      (o.chunkSums mode o.registry x).map (List.map Prod.fst) := by
  by_cases hmode : mode = .value
  · subst hmode
    exact map_outcome_start _ x h hs fun w _ position bindings ↦
      map_fst_accumulateFrom_value _ _ _ _ _ _ _
  · rw [outcome_start h hs hcleared hmode]

variable (mode x) in
/-- After enough turns the workers show the first failure of the chunks, and all of the sums if
there is none. -/
theorem concluded_crew (h : o.Sound) {storage : List (WorkerStorage α)} (hs : o.Stored storage)
    (hcleared : Cleared mode o.totalScalars.toNat storage) {turns : List Nat}
    (enough : Crew.Enough o.chunks turns) :
    (∀ failed, o.chunkSums mode o.registry x = .error failed →
        ((o.crew storage).run mode o.registry x turns).failure? = some failed) ∧
      ∀ sums, o.chunkSums mode o.registry x = .ok sums →
        ((o.crew storage).run mode o.registry x turns).failure? = none ∧
          ((o.crew storage).run mode o.registry x turns).workers.map Worker.value =
            sums.map Prod.fst ∧
          (mode ≠ .value →
            ((o.crew storage).run mode o.registry x turns).workers.map Worker.gradient =
              sums.map Prod.snd) ∧
          ((o.crew storage).run mode o.registry x turns).bindings =
            o.graph.bindings.map (Binding.afterward mode o.registry) := by
  obtain ⟨herror, hok⟩ := (ready_crew h hs).concluded_run mode x enough
  -- The outcome of the workers and the sums of the chunks have the same values, so they fail alike.
  have hfst := map_fst_outcome_start mode x h hs hcleared
  rcases houtcome : (o.crew storage).outcome mode o.registry x o.chunks with failed' | sums' <;>
    rcases hsums : o.chunkSums mode o.registry x with failed | sums <;>
    rw [houtcome, hsums] at hfst
  · cases hfst
    refine ⟨?_, fun _ h ↦ (nomatch h)⟩
    intro failed hfailed
    cases hfailed
    exact herror _ houtcome
  · cases hfst
  · cases hfst
  · obtain ⟨hnone, hworkers, hbindings⟩ := hok sums' houtcome
    have hvalues : sums'.map Prod.fst = sums.map Prod.fst := Except.ok.inj hfst
    refine ⟨fun _ h ↦ (nomatch h), ?_⟩
    intro sums hsums'
    cases hsums'
    refine ⟨hnone, ?_, ?_, hbindings⟩
    · rw [← hvalues, ← hworkers, List.map_map]
      rfl
    · intro hmode
      have hsame : sums' = sums := by
        have hsame := outcome_start (x := x) h hs hcleared hmode
        rw [houtcome, hsums] at hsame
        exact Except.ok.inj hsame
      rw [← hsame, ← hworkers, List.map_map]
      rfl

variable (mode x) in
/-- Workers change their storage and the blocks of their bindings, whether they come to the end or
not. -/
theorem evaluated_crew (h : s.objective.Sound) {storage : List (WorkerStorage α)}
    (hstorage : s.objective.storage = some storage) (turns : List Nat) (events : List (Event α)) :
    Evaluated s
      { s with
        objective := { s.objective with
          storage := some (((s.objective.crew storage).run mode s.objective.registry x
            turns).storageAfter storage)
          graph := { s.objective.graph with
            bindings := ((s.objective.crew storage).run mode s.objective.registry x
              turns).bindings } }
        events } := by
  have hs := h.storage storage hstorage
  have hbindings := (ready_crew h hs).map_bindings_run mode x
    (Binding.bare_afterward mode s.objective.registry) turns
  have hbare : s.objective.bare = bare { s.objective with
      storage := some (((s.objective.crew storage).run mode s.objective.registry x
        turns).storageAfter storage)
      graph := { s.objective.graph with
        bindings := ((s.objective.crew storage).run mode s.objective.registry x
          turns).bindings } } :=
    bare_eq_of rfl rfl rfl hbindings.symm rfl
  refine ⟨hbare, rfl, h.of_bare hbare rfl ?_ h.coordinates, rfl, rfl⟩
  intro after hafter
  cases hafter
  exact stored_storageAfter mode x h hs turns

omit [Add α] [Storable α] in
/-- The gradients of workers without a chunk stay cleared. -/
theorem map_gradient_storageAfter {storage : List (WorkerStorage α)} {n : Nat}
    (h : ∀ w ∈ storage, w.gradient = Buffer.zeros n) (crew : Crew α) :
    (crew.storageAfter storage).map WorkerStorage.gradient =
      crew.workers.map Worker.gradient ++
        List.replicate (storage.length - crew.workers.length) (Buffer.zeros n) := by
  rw [Crew.storageAfter, List.map_append, List.map_map]
  apply congrArg
  rw [List.eq_replicate_iff]
  refine ⟨by simp, ?_⟩
  intro gradient hgradient
  obtain ⟨w, hw, rfl⟩ := List.mem_map.1 hgradient
  exact h w (List.mem_of_mem_drop hw)

/-- What workers leave when all of them have finished their chunks. -/
structure Summed (mode : Mode) (s : Scene α) (sums : List (α × List α)) (value : α) (t : Scene α) :
    Prop where
  evaluated : Evaluated s t
  value : value = total sums
  registry : t.objective.registry = s.objective.registry
  bindings : t.objective.graph.bindings =
    s.objective.graph.bindings.map (Binding.afterward mode s.objective.registry)
  /-- Workers without a chunk have cleared gradients still. -/
  gradients : mode ≠ .value → (t.objective.storage.getD []).map WorkerStorage.gradient =
    sums.map Prod.snd ++ List.replicate (s.objective.workerCount - sums.length)
      (Buffer.zeros s.objective.totalScalars.toNat)

variable (x) in
/-- Workers come to the sums of the chunks, whatever turns they take. -/
theorem realizes_runWorkers (h : s.objective.Sound) {storage : List (WorkerStorage α)}
    (hstorage : s.objective.storage = some storage)
    (hcleared : Cleared mode s.objective.totalScalars.toNat storage) :
    Realizes (Evaluated s) (Summed mode s)
      ((s.objective.chunkSums mode s.objective.registry x).mapError s.objective.termFailure)
      ((runWorkers mode x).run s) := by
  have hs := h.storage storage hstorage
  have hevaluated := evaluated_crew mode x h hstorage
    (s.platform.interleaving.turns s.objective.chunks)
  obtain ⟨herror, hok⟩ := concluded_crew mode x h hs hcleared s.platform.interleaving.enough
  have hensure : ensureStorage.run s = (.ok storage, s) := by
    rw [ensureStorage, run_objective_bind, hstorage]
    rfl
  rw [runWorkers, run_bind_of_ok hensure, run_objective_bind, run_platform_bind,
    run_modifyObjective_bind]
  dsimp only
  rcases hsums : s.objective.chunkSums mode s.objective.registry x with ⟨index, failure⟩ | sums
  · rw [herror _ hsums]
    exact .error (hevaluated _)
  · obtain ⟨hnone, hvalues, hgradients, hbindings⟩ := hok sums hsums
    rw [hnone]
    refine .ok ⟨hevaluated _, ?_, rfl, hbindings, ?_⟩
    · rw [Crew.total, total, ← List.foldl_map (f := Prod.fst), ← hvalues, List.foldl_map]
    · intro hmode
      have hgradients := hgradients hmode
      have hlength := congrArg List.length hgradients
      rw [List.length_map, List.length_map] at hlength
      have hafter := map_gradient_storageAfter (hcleared hmode)
        ((s.objective.crew storage).run mode s.objective.registry x
          (s.platform.interleaving.turns s.objective.chunks))
      rwa [hgradients, hlength, hs.count] at hafter

/-! ### Whole evaluations -/

omit [Add α] [Storable α] in
/-- Copying a point to the scratch values realizes the values of the point. -/
theorem realizes_copyPointToScratch (h : s.objective.Sound) (x : List α) :
    Realizes (Evaluated s)
      (fun registry _ t ↦ Evaluated s t ∧
        t = { s with objective := { s.objective with registry } })
      (s.objective.registry.valued x) ((copyPointToScratch x).run s) := by
  have hevaluated : Evaluated s { s with objective := { s.objective with
      registry := { s.objective.registry with
        entries := (scratchedAt x s.objective.registry.entries).1 } } } := by
    have hbare : s.objective.bare = bare { s.objective with
        registry := { s.objective.registry with
          entries := (scratchedAt x s.objective.registry.entries).1 } } :=
      bare_eq_of rfl rfl (map_bare_scratchedAt x _).symm rfl rfl
    exact ⟨hbare, rfl, h.of_bare hbare rfl h.storage h.coordinates, rfl, rfl⟩
  rw [copyPointToScratch, run_objective_bind, Registry.valued, scratchedAt_eq]
  rcases hscratched : scratchedAt x s.objective.registry.entries with ⟨entries, - | failure⟩ <;>
    rw [hscratched] at hevaluated
  · exact .ok ⟨hevaluated, rfl⟩
  · exact .error hevaluated

/-- The result of an evaluation with derivatives and the scene that it leaves, given the sums of the
chunks. -/
structure Collected (mode : Mode) (s : Scene α) (sums : Registry α × List (α × List α))
    (result : α × List (List α)) (t : Scene α) : Prop where
  evaluated : Evaluated s t
  value : result.1 = total sums.2
  gradients : result.2 = sums.2.map Prod.snd ++
    List.replicate (s.objective.workerCount - sums.2.length)
      (Buffer.zeros s.objective.totalScalars.toNat)
  registry : t.objective.registry = sums.1
  bindings : t.objective.graph.bindings =
    s.objective.graph.bindings.map (Binding.afterward mode sums.1)

omit [Add α] [Storable α] in
/-- Before the workers begin, their gradients are cleared. -/
theorem evaluated_zeroGradients (mode : Mode) (h : s.objective.Sound)
    {storage : List (WorkerStorage α)} (hstorage : s.objective.storage = some storage) :
    Evaluated s { s with objective := zeroGradients (countWithGradient s.objective) } ∧
      ∃ cleared, (zeroGradients (countWithGradient s.objective)).storage = some cleared ∧
        Cleared mode s.objective.totalScalars.toNat cleared := by
  have hs := h.storage storage hstorage
  have hcleared : (zeroGradients (countWithGradient s.objective)).storage =
      some (storage.map fun w ↦ { w with gradient := Buffer.zeros w.gradient.length }) := by
    simp [zeroGradients, countWithGradient, hstorage]
  refine ⟨⟨rfl, rfl, h.of_bare rfl rfl ?_ h.coordinates, rfl, rfl⟩, _, hcleared, ?_⟩
  · intro cleared hc
    obtain rfl := Option.some.inj (hcleared.symm.trans hc)
    refine ⟨by simpa using hs.count, hs.room, ?_, ?_⟩
    · intro w hw
      obtain ⟨v, hv, rfl⟩ := List.mem_map.1 hw
      rw [Buffer.length_zeros]
      exact hs.gradient v hv
    · intro w hw
      obtain ⟨v, hv, rfl⟩ := List.mem_map.1 hw
      exact hs.scratch v hv
  · intro _ w hw
    obtain ⟨v, hv, rfl⟩ := List.mem_map.1 hw
    rw [hs.gradient v hv]

omit [Add α] [Storable α] in
/-- Sums depend on the bindings, the number of workers and the length of the flat vector. -/
theorem mapError_chunkSums_congr [Add α] [Storable α] {o o' : Objective α}
    (hgraph : o'.graph = o.graph) (hworkers : o'.workerCount = o.workerCount)
    (htotal : o'.totalScalars = o.totalScalars) (mode : Mode) (registry : Registry α) (x : List α) :
    (o'.chunkSums mode registry x).mapError o'.termFailure =
      (o.chunkSums mode registry x).mapError o.termFailure := by
  have hfailure : o'.termFailure = o.termFailure := by
    funext failed
    rw [termFailure, termFailure, hgraph]
  rw [hfailure, chunkSums, chunkSums, hgraph, hworkers, htotal]

/-- An evaluation with derivatives realizes the direct computation. -/
theorem realizes_evaluateWorkers (h : s.objective.Sound) (hmode : mode ≠ .value) (x : List α) :
    Realizes (Evaluated s) (Collected mode s) (s.objective.direct mode x)
      ((evaluateWorkers mode x).run s) := by
  rw [evaluateWorkers, direct]
  refine (realizes_ensureStorage h).bind fun _ storage t ⟨hst, hstorage, hregistry, hgraph⟩ ↦ ?_
  have hvalues := realizes_copyPointToScratch hst.sound x
  rw [hregistry] at hvalues
  refine (hvalues.mono (fun u hu ↦ hst.trans hu) fun _ _ _ h ↦ h).bind
    fun registry _ u ⟨htu, hu⟩ ↦ ?_
  rw [run_modifyObjective_bind, run_modifyObjective_bind]
  have hstorage' : u.objective.storage = some storage := by rw [hu]; exact hstorage
  obtain ⟨huv, cleared, hcleared, hzero⟩ := evaluated_zeroGradients mode htu.sound hstorage'
  have hsv := (hst.trans htu).trans huv
  -- The workers begin in a scene that has the graph of the first one and the values of the point.
  have hsums := realizes_runWorkers x huv.sound hcleared (by
    rw [← totalScalars_eq_of_bare huv.bare]
    exact hzero)
  rw [mapError_chunkSums_congr (o := s.objective) (by rw [hu]; exact hgraph) hsv.workerCount.symm
    (totalScalars_eq_of_bare hsv.bare).symm] at hsums
  have hregistry' : (zeroGradients (countWithGradient u.objective)).registry = registry := by
    rw [hu]
    rfl
  dsimp only at hsums
  rw [hregistry'] at hsums
  refine (hsums.mono (fun w hw ↦ hsv.trans hw) fun _ _ _ h ↦ h).bind fun sums value w hw ↦ ?_
  rw [run_objective_bind]
  refine .ok ⟨hsv.trans hw.evaluated, hw.value, ?_, ?_, ?_⟩
  · rw [totalScalars_eq_of_bare hsv.bare, hsv.workerCount]
    exact hw.gradients hmode
  · exact hw.registry.trans hregistry'
  · have hbindings := hw.bindings
    dsimp only at hbindings
    rw [hregistry'] at hbindings
    rw [hbindings, hu]
    exact congrArg (fun g : Graph α ↦ g.bindings.map _) hgraph

/-! ### Values alone -/

omit [Zero α] [Add α] [Storable α] in
/-- The entries of a point, which has to be a vector of the given length. -/
def pointOf (n : Int) (x : GivenPoint α) : Except Failure (List α) := do
  let x ← x
  if x.sizes = [n] then return x.entries
  else throw (.shapeMismatch "x" [n] x.sizes)

omit [Zero α] [Add α] [Storable α] in
theorem run_checkPoint (x : GivenPoint α) (s : Scene α) :
    (checkPoint x).run s = (pointOf s.objective.totalScalars x, s) := by
  rw [checkPoint, run_bind, run_liftM]
  rcases x with failure | x
  · rfl
  · dsimp only
    rw [run_objective_bind]
    simp only [pointOf, bind, Except.bind]
    split <;> rfl

omit [Add α] [Storable α] in
/-- The variables with the values that the caller's blocks hold. -/
def blockValued (o : Objective α) (m : Memory α) : Registry α :=
  { o.registry with
    entries := o.registry.entries.map fun v ↦ { v with scratch := m.read v.userBlock } }

omit [Add α] [Storable α] in
/-- The variables with the values of a point, or with those that the caller's blocks hold. -/
def valuedAt (o : Objective α) (m : Memory α) : Option (GivenPoint α) → Except Failure (Registry α)
  | none => pure (o.blockValued m)
  | some x => pointOf o.totalScalars x >>= o.registry.valued

/-- The variables and the sums of an evaluation without derivatives, at a point or at the values
that the caller's blocks hold. -/
def directValue (o : Objective α) (m : Memory α) (x : Option (GivenPoint α)) :
    Except Failure (Registry α × List (α × List α)) := do
  checkStorage o
  let registry ← o.valuedAt m x
  let sums ← (o.chunkSums .value registry []).mapError o.termFailure
  return (registry, sums)

omit [Add α] [Storable α] in
theorem map_bare_blockValued (h : o.Sound) (m : Memory α) :
    (o.blockValued m).entries.map Variable.bare = o.registry.entries.map Variable.bare := by
  rw [blockValued, List.map_map]
  apply List.map_congr_left
  intro v hv
  apply v.bare_scratch
  have hfits := h.laid.fits v hv
  have hle : v.userDimension ≤ v.block.cells.length := hfits.le
  rw [hfits.scratch, Memory.read, List.length_map]
  simp only [Variable.userBlock, Block.front, List.length_take]
  omega

omit [Add α] [Storable α] in
/-- Whichever values the variables take, they are put into scratch and nowhere else. -/
theorem map_bare_valuedAt (h : o.Sound) {m : Memory α} {x : Option (GivenPoint α)}
    {registry : Registry α} (hvalues : o.valuedAt m x = .ok registry) :
    o.registry.entries.map Variable.bare = registry.entries.map Variable.bare ∧
      o.registry.totalScalars = registry.totalScalars := by
  cases x with
  | none =>
    cases hvalues
    exact ⟨(map_bare_blockValued h m).symm, rfl⟩
  | some x =>
    obtain ⟨point, -, hvalues⟩ := bind_eq_ok_iff.1 hvalues
    exact Registry.map_bare_valued hvalues

omit [Add α] [Storable α] in
theorem realizes_copyBlocksToScratch (h : s.objective.Sound) :
    Realizes (Evaluated s)
      (fun registry _ t ↦ Evaluated s t ∧
        t = { s with objective := { s.objective with registry } })
      (pure (s.objective.blockValued s.memory)) (copyBlocksToScratch.run s) := by
  have hbare : s.objective.bare =
      bare { s.objective with registry := s.objective.blockValued s.memory } :=
    bare_eq_of rfl rfl (map_bare_blockValued h s.memory).symm rfl rfl
  exact .ok ⟨⟨hbare, rfl, h.of_bare hbare rfl h.storage h.coordinates, rfl, rfl⟩, rfl⟩

/-- An evaluation without derivatives realizes the direct computation. -/
theorem realizes_evaluateValue (h : s.objective.Sound) (x : Option (GivenPoint α)) :
    Realizes (Evaluated s) (fun sums value t ↦ Evaluated s t ∧ value = total sums.2)
      (s.objective.directValue s.memory x) ((evaluateValue x).run s) := by
  rw [evaluateValue, directValue]
  refine (realizes_ensureStorage h).bind fun _ storage t ⟨hst, hstorage, hregistry, hgraph⟩ ↦ ?_
  have hrest (registry : Registry α) (u : Scene α) (htu : Evaluated t u)
      (hu : u = { t with objective := { t.objective with registry } }) :
      Realizes (Evaluated s) (fun sums value t ↦ Evaluated s t ∧ value = total sums.2)
        (do
          let sums ← (s.objective.chunkSums .value registry []).mapError s.objective.termFailure
          return (registry, sums))
        ((do modifyObjective countPlain; runWorkers .value []).run u) := by
    rw [run_modifyObjective_bind]
    have hcounted : Evaluated u { u with objective := countPlain u.objective } :=
      ⟨rfl, rfl, htu.sound.of_bare rfl rfl htu.sound.storage htu.sound.coordinates, rfl, rfl⟩
    have hsv := (hst.trans htu).trans hcounted
    have hstorage' : u.objective.storage = some storage := by rw [hu]; exact hstorage
    have hsums := realizes_runWorkers [] hcounted.sound hstorage'
      fun hmode : Mode.value ≠ .value ↦ absurd rfl hmode
    rw [mapError_chunkSums_congr (o := s.objective) (by rw [hu]; exact hgraph)
      hsv.workerCount.symm (totalScalars_eq_of_bare hsv.bare).symm,
      show (countPlain u.objective).registry = registry by rw [hu]; rfl] at hsums
    exact (hsums.mono (fun w hw ↦ hsv.trans hw) fun _ _ _ h ↦ h).map fun sums value w hw ↦
      ⟨hsv.trans hw.evaluated, hw.value⟩
  cases x with
  | none =>
    have hvalues := realizes_copyBlocksToScratch hst.sound
    have hblocks : t.objective.blockValued t.memory = s.objective.blockValued s.memory := by
      rw [blockValued, blockValued, hregistry, hst.memory]
    rw [hblocks] at hvalues
    exact (hvalues.mono (fun u hu ↦ hst.trans hu) fun _ _ _ h ↦ h).bind
      fun registry _ u ⟨htu, hu⟩ ↦ hrest registry u htu hu
  | some x =>
    rw [valuedAt, bind_assoc]
    have hpoint := Realizes.liftM (pointOf s.objective.totalScalars x) hst
    rw [run_liftM, totalScalars_eq_of_bare hst.bare, ← run_checkPoint,
      ← totalScalars_eq_of_bare hst.bare] at hpoint
    refine hpoint.bind fun point _ u ⟨hx, hu⟩ ↦ ?_
    subst hx hu
    have hvalues := realizes_copyPointToScratch hst.sound point
    rw [hregistry] at hvalues
    exact (hvalues.mono (fun u hu ↦ hst.trans hu) fun _ _ _ h ↦ h).bind
      fun registry _ u ⟨htu, hu⟩ ↦ hrest registry u htu hu

end Objective

end Summand
