import Summand.Proofs.Arrangement
import Summand.Proofs.BindingOrder
import Summand.Term.Form

/-!
# Orders of registration and of addition

What the order in which variables are registered, or terms are added, means to those who put queries
(`Scene.related_of_orders`). Another order of registration moves the entries of points and of
results alike, by a permutation of positions, and does so without any law of addition. Another order
of terms changes nothing as long as addition is exact.

Sparse Hessians follow only as far as a platform keeps the order of equal rows when it sorts a
column. In columns of eighteen entries it does not: two objectives that differ in the order of
registration alone store different sums of the same numbers (`Small.sparse_of_swapped`).
-/

namespace Summand

variable {α β : Type}

open Registry Objective Summand.Action

/-! ### Open objectives -/

/-- Variables of the same solver dimensions have natural ones if the others do. -/
theorem Registry.Natural.of_perm {r r' : Registry α} (h : r.Natural)
    (hperm : (r.entries.map Variable.unplaced).Perm (r'.entries.map Variable.unplaced)) :
    r'.Natural := by
  intro v' hv'
  obtain ⟨v, hv, heq⟩ := List.mem_map.1 (hperm.mem_iff.2 (List.mem_map_of_mem hv'))
  have hdimension : v.solverDimension = v'.solverDimension := congrArg (fun u ↦ u.2.2.1) heq
  exact hdimension ▸ h v hv

/-- Two registries of the same two blocks in opposite orders have two pairs of twins. -/
theorem Registry.Twin.of_swapped {r r' : Registry α} {v w v' w' u u' : Variable α}
    (h : Twin r r' u u') (hr : r.entries = [v, w]) (hr' : r'.entries = [w', v'])
    (hv : v.block.id ≠ w'.block.id) (hw : w.block.id ≠ v'.block.id)
    {P : Variable α → Variable α → Prop} (hP : P v v') (hP' : P w w') : P u u' := by
  obtain ⟨hu, hu', hblock⟩ := h
  rw [hr] at hu
  rw [hr'] at hu'
  have hid : u.block.id = u'.block.id := congrArg Block.id hblock
  obtain _ | ⟨_, _ | ⟨_, ⟨⟩⟩⟩ := hu <;> obtain _ | ⟨_, _ | ⟨_, ⟨⟩⟩⟩ := hu'
  · exact absurd hid hv
  · exact hP
  · exact hP'
  · exact absurd hid hw

/-- Results that are the same are the same answer and the same writes. -/
theorem Likeness.Results.eq [Storable α] {s s' t t' : Scene α} {a a' : Answer α}
    (h : Likeness.same.Results s s' a a' t t') :
    a = a' ∧ Memory.SameWrites s.memory s'.memory t.memory t'.memory := by
  obtain ⟨hanswers, writes, writes', ht, ht', hwrites⟩ := h
  have hsame : writes = writes' := by
    rw [← List.forall₂_eq_eq_eq]
    refine hwrites.imp ?_
    rintro _ _ (⟨block, rfl⟩ | ⟨block, rfl⟩ | ⟨position, count, rfl⟩ | ⟨position, count, rfl⟩) <;>
      rfl
  refine ⟨?_, writes, ht, hsame ▸ ht'⟩
  obtain _ | ⟨_, rfl⟩ | ⟨_, rfl, rfl⟩ | ⟨_, rfl, rfl⟩ | ⟨rfl⟩ | _ := hanswers <;> rfl

/-- Every query but that of an enclosure is alike to itself. -/
theorem Likeness.queries_same (n : ℤ) {q : Query α} (h : ∀ sides, q ≠ .evaluateEnclosure sides) :
    Likeness.same.Queries n q q := by
  have hpoints (x : GivenPoint α) : Likeness.same.Points n x x := .same fun _ _ ↦ rfl
  cases q with
  | evaluate x gradient hessian => exact .evaluate (hpoints x) gradient hessian
  | evaluateUser => exact .evaluateUser
  | valueAndGradient x => exact .valueAndGradient (hpoints x)
  | evaluateSparse x gradient target => exact .evaluateSparse (hpoints x) gradient target
  | valueGradientSparse x => exact .valueGradientSparse (hpoints x)
  | valueGradientDense x => exact .valueGradientDense (hpoints x)
  | sparsityPattern target => exact .sparsityPattern target
  | evaluateEnclosure sides => exact absurd rfl (h sides)

/-- A new sparse Hessian is made of the blocks that the evaluation leaves. -/
theorem Scene.realizes_sparse_of_blocks [Zero α] [Add α] [Storable α] {s : Scene α}
    (h : s.objective.Sound) (hopen : s.objective.closed = false) (x : GivenPoint α) :
    Realizes (Evaluated s)
      (fun places r t ↦ r.2.2 = .assemble s.platform.arrangement s.objective.totalScalars.toNat
        places t.objective.blockValues)
      (s.objective.settled (do
        Allocation.check .real [s.objective.totalScalars]
        s.objective.freshWork .hessian x) >>= fun _ ↦ s.objective.placement)
      ((valueGradientSparse x).run s) := by
  rw [valueGradientSparse, run_bind_of_ok (run_checkOpen_of_open _ hopen), run_objective_bind,
    settled_bind, bind_assoc]
  refine .check rfl (.refl h) fun _ _ ↦ ?_
  refine (realizes_evaluateFresh h (by simp) x).bind ?_
  rintro - result t ⟨ht, -⟩
  rw [run_objective_bind, placement_eq_of_bare ht.bare]
  have hkeeps : Keeps (fun u ↦ u.objective.blockValues = t.objective.blockValues)
      (assembleSparse t.objective.blockValues : Action α _) :=
    keeps_assembleSparse (fun _ _ h ↦ h) _
  have hmatrix := ((realizes_assembleSparse ht.sound t.objective.blockValues).with_kept hkeeps
    rfl).mono (fun u hu ↦ ht.trans hu) fun _ _ _ h ↦ h
  refine hmatrix.andThen ?_
  rintro places _ u ⟨⟨-, rfl⟩, hblocks⟩
  refine .ok ?_
  dsimp only
  rw [ht.platform, totalScalars_eq_of_bare ht.bare, hblocks]

/-- So it is answered where the evaluation succeeds. -/
theorem Scene.perform_sparse_eq [Zero α] [Add α] [OfNat α 1] [Storable α] {s : Scene α}
    (h : s.objective.Sound) (hopen : s.objective.closed = false) {x : GivenPoint α}
    {places : List (ℕ × ℕ)} {values : List α}
    (hplaces : s.objective.placement.toOption = some places)
    (hvalues : ((valueGradientSparse x).run s).2.objective.blockValues = values)
    (hok : ((valueGradientSparse x).run s).1.isOk = true) :
    ∃ value gradient, ((Query.valueGradientSparse x).perform.run s).1 =
      .ok (.sparse value gradient (.assemble s.platform.arrangement
        s.objective.totalScalars.toNat places values)) := by
  have hrealizes := realizes_sparse_of_blocks h hopen x
  rw [Query.perform, run_bind]
  rcases hrun : (valueGradientSparse x).run s with ⟨failure | ⟨value, gradient, hessian⟩, t⟩
  · rw [hrun] at hok
    cases hok
  · rw [hrun] at hrealizes
    obtain ⟨found, hfound, rfl⟩ := hrealizes.of_ok
    obtain ⟨-, -, hplacement⟩ := bind_eq_ok_iff.1 hfound
    rw [hplacement] at hplaces
    cases hplaces
    rw [hrun] at hvalues
    exact ⟨value, gradient, hvalues ▸ rfl⟩

/-! ### All orders -/

/-- Whatever has been done with two open objectives, of the same variables and the same terms, of
which one has its variables registered in another order: there is a permutation of the positions
that takes the slice of each variable in the one to its slice in the other, and queries at points or
over boxes that it takes to each other fail together or get corresponding answers. These are the
same value or interval, and a gradient, a dense Hessian or a pattern with the same entries at
positions that correspond, and so is what is written to arrays; nothing is asked of addition. Sparse
Hessians store, at places that correspond, sums of the same values, given in the same order, but
added up in some order; they store the same in columns so short that the platforms keep the order in
them.

In exact arithmetic, terms that are added in another order make no difference to any query but that
of an enclosure: it gets the same answer and makes the same writes. -/
theorem Scene.related_of_orders [Zero α] [Add α] [OfNat α 1] [Storable α] [AddCommMonoid β]
    [OfNat β 1] [Storable β] [ExactStorage β] :
    (∀ s s' : Scene α, s.Reached → s'.Reached → s.objective.closed = false →
      s'.objective.closed = false → s.objective.Reordered s'.objective →
      (∀ v ∈ s.objective.registry.entries, ∀ t, v.transform = some t → 0 ≤ t.inputDimension) →
      SparseMatrix.Permutes s.platform.arrangement →
      SparseMatrix.Permutes s'.platform.arrangement →
      ∀ short, SparseMatrix.KeepsUpTo short s.platform.arrangement →
        SparseMatrix.KeepsUpTo short s'.platform.arrangement →
        (∃ σ, Relocation s.objective.registry s'.objective.registry σ) ∧
        ∀ σ, Relocation s.objective.registry s'.objective.registry σ →
          Set.BijOn σ (Set.Iio s.objective.totalScalars.toNat)
            (Set.Iio s.objective.totalScalars.toNat) ∧
          ∀ q q', (Likeness.relocating σ s.objective.totalScalars.toNat short).Queries
              s.objective.totalScalars q q' →
            (q = .evaluateUser → s.memory = s'.memory) →
            Related (fun _ _ _ _ ↦ True)
              ((Likeness.relocating σ s.objective.totalScalars.toNat short).Results s s')
              (q.perform.run s) (q'.perform.run s')) ∧
    ∀ s s' : Scene β, s.Reached → s'.Reached → s.objective.closed = false →
      s'.objective.closed = false → s.objective.Rearranged s'.objective →
      (∀ v ∈ s.objective.registry.entries, ∀ t, v.transform = some t → t.Adds) →
      SparseMatrix.Permutes s.platform.arrangement →
      SparseMatrix.Permutes s'.platform.arrangement →
      ∀ q : Query β, (∀ sides, q ≠ .evaluateEnclosure sides) →
        (q = .evaluateUser → s.memory = s'.memory) →
        Related (fun _ _ _ _ ↦ True)
          (fun a a' t t' ↦ a = a' ∧ Memory.SameWrites s.memory s'.memory t.memory t'.memory)
          (q.perform.run s) (q.perform.run s') := by
  constructor
  · intro s s' hs hs' hopen hopen' hreordered hsizes hpermutes hpermutes' short hshort hshort'
    have hsound := hs.sound hopen
    have hnatural := hsound.laid.natural hsizes
    have h : Renumbered short s s' :=
      { hreordered with
        sound := hsound
        sound' := hs'.sound hopen'
        natural := hnatural
        natural' := hnatural.of_perm hreordered.perm
        permutes := hpermutes
        permutes' := hpermutes'
        keepsUpTo := hshort
        keepsUpTo' := hshort' }
    refine ⟨h.permuted.exists_relocation, fun σ hσ ↦ ⟨hσ.bijOn h.permuted, fun q q' hq hm ↦ ?_⟩⟩
    exact (h.counterparts hσ hopen hopen').related_perform hq hm
  · intro s s' hs hs' hopen hopen' hrearranged hadds hpermutes hpermutes' q hq hm
    have hsound := hs.sound hopen
    have h : Shuffled s s' :=
      { hrearranged with
        sound := hsound
        sound' := hs'.sound hopen'
        natural := hsound.laid.natural fun v hv t ht ↦ (hadds v hv t ht).natural
        additive := hsound.laid.additive hadds _
        permutes := hpermutes
        permutes' := hpermutes' }
    exact ((h.counterparts hopen hopen').related_perform (Likeness.queries_same _ hq) hm).mono
      (fun _ _ _ _ h ↦ h) fun _ _ _ _ h ↦ h.eq

namespace Small

/-- The scene after some blocks have been registered and some terms have been added. -/
def arranged (order : List Block) (terms : List (Call Int)) : Scene Int :=
  Scene.after { objective, memory }
    (order.map (fun b ↦ .register (.array b) .null none) ++ terms)

def addSquares : Call Int := .addTerm squares [.array pair]

def addProduct : Call Int := .addTerm product [.array pair, .array single, .array pair]

/-- A pair and a single number, and the two terms. -/
abbrev pairFirst : Scene Int := arranged [pair, single] [addSquares, addProduct]

/-- The number is registered before the pair. -/
abbrev pairLast : Scene Int := arranged [single, pair] [addSquares, addProduct]

/-- The terms are added in the other order. -/
abbrev productFirst : Scene Int := arranged [pair, single] [addProduct, addSquares]

/-- The position of the number becomes the first one. -/
def behind (i : ℕ) : ℕ := if i = 2 then 0 else i + 1

theorem reached_arranged (order : List Block) (terms : List (Call Int)) :
    (arranged order terms).Reached :=
  have hcreate : Objective.create 1 { workerCount := .int 2 } = .ok objective := rfl
  (Scene.Reached.created hcreate memory [] {}).after _

theorem entries_pairFirst : pairFirst.objective.registry.entries =
    [⟨pair, 0, 2, 2, 0, none, [0, 0]⟩, ⟨single, 1, 1, 1, 2, none, [0]⟩] := rfl

theorem entries_pairLast : pairLast.objective.registry.entries =
    [⟨single, 0, 1, 1, 0, none, [0]⟩, ⟨pair, 1, 2, 2, 1, none, [0, 0]⟩] := rfl

theorem entries_productFirst : productFirst.objective.registry.entries =
    pairFirst.objective.registry.entries := by
  rw [entries_pairFirst]
  rfl

theorem bindings_pairFirst : pairFirst.objective.graph.bindings =
    [⟨squares, [0], some (Graph.zeroBlocks [2])⟩,
      ⟨product, [0, 1, 0], some (Graph.zeroBlocks [2, 1, 2])⟩] := rfl

theorem bindings_pairLast : pairLast.objective.graph.bindings =
    [⟨squares, [1], some (Graph.zeroBlocks [2])⟩,
      ⟨product, [1, 0, 1], some (Graph.zeroBlocks [2, 1, 2])⟩] := rfl

theorem bindings_productFirst : productFirst.objective.graph.bindings =
    [⟨product, [0, 1, 0], some (Graph.zeroBlocks [2, 1, 2])⟩,
      ⟨squares, [0], some (Graph.zeroBlocks [2])⟩] := rfl

/-- What holds of the pair and of the number holds of all twins. -/
theorem of_twin {P : Variable Int → Variable Int → Prop}
    (hpair : P ⟨pair, 0, 2, 2, 0, none, [0, 0]⟩ ⟨pair, 1, 2, 2, 1, none, [0, 0]⟩)
    (hsingle : P ⟨single, 1, 1, 1, 2, none, [0]⟩ ⟨single, 0, 1, 1, 0, none, [0]⟩)
    {v v' : Variable Int} (h : Twin pairFirst.objective.registry pairLast.objective.registry v v') :
    P v v' :=
  h.of_swapped entries_pairFirst entries_pairLast (by decide) (by decide) hpair hsingle

theorem reordered_pairLast : pairFirst.objective.Reordered pairLast.objective where
  allowsHessian := by decide +kernel
  workerCount := by decide +kernel
  perm := by
    rw [entries_pairFirst, entries_pairLast]
    exact .swap _ _ _
  refilled _ _ htwin := .inl (of_twin (P := fun v v' ↦ v.scratch = v'.scratch) rfl rfl htwin)
  bindings := by
    rw [bindings_pairFirst, bindings_pairLast]
    exact .cons ⟨rfl, rfl⟩ (.cons ⟨rfl, rfl⟩ .nil)

theorem rearranged_productFirst : pairFirst.objective.Rearranged productFirst.objective where
  allowsHessian := by decide +kernel
  entries := by rw [entries_productFirst]
  refilled v v' htwin := by
    have heq := ((reached_arranged _ _).sound rfl).laid.eq_of_block htwin.left
      (entries_productFirst ▸ htwin.right) htwin.block
    exact .inl (congrArg Variable.scratch heq)
  bindings := by
    rw [bindings_pairFirst, bindings_productFirst]
    exact .swap _ _ _

/-- With the number in front of the pair, the point with its last entry in front has the same value,
and a gradient and a Hessian with the last entries in front. With the product in front of the
squares, the point has the same results as before. -/
theorem results_of_orders :
    (∃ g rows, ((Query.valueGradientDense (.ok (.vector [3, 1, 2]))).perform.run pairLast).1 =
        .ok (.dense 11 g rows) ∧ Relocates behind 3 [8, 7, 2] g ∧
        RelocatesRows behind 3 [[2, 3, 2], [3, 2, 1], [2, 1, 0]] rows) ∧
      ((Query.valueGradientDense (.ok (.vector [1, 2, 3]))).perform.run productFirst).1 =
        .ok (.dense 11 [8, 7, 2] [[2, 3, 2], [3, 2, 1], [2, 1, 0]]) := by
  have hresult : ((Query.valueGradientDense (.ok (.vector [1, 2, 3]))).perform.run pairFirst).1 =
      .ok (.dense 11 [8, 7, 2] [[2, 3, 2], [3, 2, 1], [2, 1, 0]]) := by
    set_option maxRecDepth 2000 in rfl
  have hnone : ∀ v ∈ pairFirst.objective.registry.entries, v.transform = none := by
    rw [entries_pairFirst]
    simp
  have hrelocation : Relocation pairFirst.objective.registry pairLast.objective.registry behind :=
    fun _ _ htwin ↦ of_twin (P := fun v v' ↦ ∀ k < v.solverDimension.toNat,
      behind (v.offset.toNat + k) = v'.offset.toNat + k) (by decide) (by decide) htwin
  have hpoints : (Likeness.relocating behind 3 Arrangement.shortLength).Points
      pairFirst.objective.totalScalars (.ok (.vector ([1, 2, 3] : List Int)))
      (.ok (.vector [3, 1, 2])) := .ok ⟨rfl, rfl, by decide⟩
  obtain ⟨hmoved, hexact⟩ := Scene.related_of_orders (α := Int) (β := Int)
  constructor
  · have hrelated := ((hmoved pairFirst pairLast (reached_arranged _ _) (reached_arranged _ _) rfl
      rfl reordered_pairLast (fun v hv t ht ↦ by simp [hnone v hv] at ht)
      Arrangement.permutes_arrangeAll Arrangement.permutes_arrangeAll Arrangement.shortLength
      Arrangement.keepsUpTo_arrangeAll Arrangement.keepsUpTo_arrangeAll).2 behind hrelocation).2 _ _
      (.valueGradientDense hpoints) nofun
    generalize (Query.valueGradientDense (.ok (.vector [1, 2, 3]))).perform.run pairFirst = run
      at hrelated hresult
    generalize (Query.valueGradientDense (.ok (.vector [3, 1, 2]))).perform.run pairLast = run'
      at hrelated
    cases hrelated with
    | error _ => cases hresult
    | ok h =>
      cases hresult
      obtain ⟨hanswers, -⟩ := h
      cases hanswers with
      | dense _ hgradient hrows => exact ⟨_, _, rfl, hgradient, hrows⟩
  · have hrelated := hexact pairFirst productFirst (reached_arranged _ _) (reached_arranged _ _) rfl
      rfl rearranged_productFirst (fun v hv t ht ↦ by simp [hnone v hv] at ht)
      Arrangement.permutes_arrangeAll Arrangement.permutes_arrangeAll
      (.valueGradientDense (.ok (.vector [1, 2, 3]))) nofun nofun
    generalize (Query.valueGradientDense (.ok (.vector [1, 2, 3]))).perform.run pairFirst = run
      at hrelated hresult
    generalize (Query.valueGradientDense (.ok (.vector [1, 2, 3]))).perform.run productFirst = run'
      at hrelated ⊢
    cases hrelated with
    | error _ => cases hresult
    | ok h =>
      cases hresult
      rw [← h.1]

/-! ### Long columns -/

section Long

/-- The weights of nine terms. -/
def weights : List Float := [-1e16, 1.0, 0.5, 1e16, 1.0, 3.0, 3.0, 1e16, -1e16]

def left : Block := { id := 1, shape := [1], cells := [0] }

def right : Block := { id := 2, shape := [1], cells := [1] }

/-- The scene after two numbers have been registered in an order, and a term for each weight has
been added, which multiplies the numbers with each other and with the weight. -/
def weighted (order : List Block) : Scene Float :=
  Scene.after { objective := { settings := { workerCount := .int 1 }, workerCount := 1 },
                memory := { cells := #[1.0, 1.0] } }
    (order.map (fun b ↦ .register (.array b) .null none) ++
      weights.mapIdx fun i w ↦ .addTerm (.bilinear i [[.real w]]) [.array left, .array right])

abbrev leftFirst : Scene Float := weighted [left, right]

abbrev rightFirst : Scene Float := weighted [right, left]

/-- The point at which both numbers are one, in either order. -/
abbrev ones : GivenPoint Float := .ok (.vector [1.0, 1.0])

theorem reached_weighted (order : List Block) : (weighted order).Reached :=
  have hcreate : Objective.create 1 { workerCount := .int 1 } =
      .ok ({ settings := { workerCount := .int 1 }, workerCount := 1 } : Objective Float) := rfl
  (Scene.Reached.created hcreate _ [] {}).after _

theorem entries_leftFirst : leftFirst.objective.registry.entries =
    [⟨left, 0, 1, 1, 0, none, [0]⟩, ⟨right, 1, 1, 1, 1, none, [0]⟩] := rfl

theorem entries_rightFirst : rightFirst.objective.registry.entries =
    [⟨right, 0, 1, 1, 0, none, [0]⟩, ⟨left, 1, 1, 1, 1, none, [0]⟩] := rfl

theorem bindings_leftFirst : leftFirst.objective.graph.bindings = weights.mapIdx fun i w ↦
    ⟨.bilinear i [[.real w]], [0, 1], some (Graph.zeroBlocks [1, 1])⟩ := rfl

theorem bindings_rightFirst : rightFirst.objective.graph.bindings = weights.mapIdx fun i w ↦
    ⟨.bilinear i [[.real w]], [1, 0], some (Graph.zeroBlocks [1, 1])⟩ := rfl

/-- What holds of the left number and of the right one holds of all twins. -/
theorem of_twin_weighted {P : Variable Float → Variable Float → Prop}
    (hleft : P ⟨left, 0, 1, 1, 0, none, [0]⟩ ⟨left, 1, 1, 1, 1, none, [0]⟩)
    (hright : P ⟨right, 1, 1, 1, 1, none, [0]⟩ ⟨right, 0, 1, 1, 0, none, [0]⟩)
    {v v' : Variable Float}
    (h : Twin leftFirst.objective.registry rightFirst.objective.registry v v') : P v v' :=
  h.of_swapped entries_leftFirst entries_rightFirst (by decide) (by decide) hleft hright

theorem reordered_rightFirst : leftFirst.objective.Reordered rightFirst.objective where
  allowsHessian := by decide +kernel
  workerCount := by decide +kernel
  perm := by
    rw [entries_leftFirst, entries_rightFirst]
    exact .swap _ _ _
  refilled _ _ htwin :=
    .inl (of_twin_weighted (P := fun v v' ↦ v.scratch = v'.scratch) rfl rfl htwin)
  bindings := by
    rw [bindings_leftFirst, bindings_rightFirst, List.mapIdx_eq_zipIdx_map,
      List.mapIdx_eq_zipIdx_map, List.forall₂_map_left_iff, List.forall₂_map_right_iff]
    exact List.forall₂_same.2 fun _ _ ↦ ⟨rfl, rfl⟩

/-- What the terms leave in their Hessian blocks. -/
def weightedEntries : List Float := weights.flatMap fun w ↦ [0, w, w, 0]

/-- The sparse Hessian is assembled of these entries, wherever they stand. -/
theorem perform_sparse_weighted (order : List Block) {places : List (ℕ × ℕ)}
    {matrix : SparseMatrix Float} (hopen : (weighted order).objective.closed = false)
    (hplatform : (weighted order).platform = {})
    (htotal : (weighted order).objective.totalScalars = 2)
    (hplaces : (weighted order).objective.placement.toOption = some places)
    (hentries : ((valueGradientSparse ones).run (weighted order)).2.objective.blockValues =
      weightedEntries)
    (hok : ((valueGradientSparse ones).run (weighted order)).1.isOk = true)
    (hmatrix : SparseMatrix.assemble Arrangement.arrangeAll 2 places weightedEntries = matrix) :
    ∃ value gradient, ((Query.valueGradientSparse ones).perform.run (weighted order)).1 =
      .ok (.sparse value gradient matrix) := by
  have hanswer := Scene.perform_sparse_eq ((reached_weighted order).sound hopen) hopen hplaces
    hentries hok
  rwa [htotal, hplatform, show (2 : ℤ).toNat = 2 from rfl, hmatrix] at hanswer

section Assembled

variable {α : Type} [Add α] (z a b c d e f g h i : α)

/-- Columns of eighteen entries are split before they are sorted, so that entries of one row change
places before they are added up. -/
theorem assemble_leftFirst :
    SparseMatrix.assemble Arrangement.arrangeAll 2
        (List.replicate 9 [(0, 0), (0, 1), (1, 0), (1, 1)]).flatten
        ([a, b, c, d, e, f, g, h, i].flatMap fun w ↦ [z, w, w, z]) =
      ⟨2, [0, 2, 4], [0, 1, 0, 1],
        [z + z + z + z + z + z + z + z + z, e + i + h + g + f + d + c + b + a,
          b + i + c + d + h + e + a + f + g, z + z + z + z + z + z + z + z + z]⟩ := by
  cbv

/-- Entries of which the last come first change places in another way. -/
theorem assemble_rightFirst :
    SparseMatrix.assemble Arrangement.arrangeAll 2
        (List.replicate 9 [(1, 1), (1, 0), (0, 1), (0, 0)]).flatten
        ([a, b, c, d, e, f, g, h, i].flatMap fun w ↦ [z, w, w, z]) =
      ⟨2, [0, 2, 4], [0, 1, 0, 1],
        [z + z + z + z + z + z + z + z + z, d + e + a + f + c + g + h + b + i,
          e + i + h + g + f + d + c + b + a, z + z + z + z + z + z + z + z + z]⟩ := by
  cbv

end Assembled

/-- With the right number in front, the sparse Hessian should have its rows and columns exchanged:
eight above the diagonal and six below it. Instead both are eight, since the nine weights below the
diagonal have been added up in another order. -/
theorem sparse_of_swapped :
    leftFirst.Reached ∧ rightFirst.Reached ∧
      leftFirst.objective.Reordered rightFirst.objective ∧
      Relocation leftFirst.objective.registry rightFirst.objective.registry (1 - ·) ∧
      ∃ value value' g g' h h',
        ((Query.valueGradientSparse ones).perform.run leftFirst).1 = .ok (.sparse value g h) ∧
        ((Query.valueGradientSparse ones).perform.run rightFirst).1 =
          .ok (.sparse value' g' h') ∧
        h.toRows = [[0, 6], [8, 0]] ∧ h'.toRows = [[0, 8], [8, 0]] ∧
        ¬ SparseMatrix.Relocated (1 - ·) 2 h h' := by
  refine ⟨reached_weighted _, reached_weighted _, reordered_rightFirst,
    fun _ _ htwin ↦ of_twin_weighted (P := fun v v' ↦ ∀ k < v.solverDimension.toNat,
      1 - (v.offset.toNat + k) = v'.offset.toNat + k) (by decide) (by decide) htwin, ?_⟩
  have hleft : SparseMatrix.assemble Arrangement.arrangeAll 2
      (List.replicate 9 [(0, 0), (0, 1), (1, 0), (1, 1)]).flatten weightedEntries =
        ⟨2, [0, 2, 4], [0, 1, 0, 1], [0, 8, 6, 0]⟩ := by
    rw [weightedEntries, weights, assemble_leftFirst]
    exact congrArg (SparseMatrix.mk 2 _ _) (by decide +kernel)
  have hright : SparseMatrix.assemble Arrangement.arrangeAll 2
      (List.replicate 9 [(1, 1), (1, 0), (0, 1), (0, 0)]).flatten weightedEntries =
        ⟨2, [0, 2, 4], [0, 1, 0, 1], [0, 8, 8, 0]⟩ := by
    rw [weightedEntries, weights, assemble_rightFirst]
    exact congrArg (SparseMatrix.mk 2 _ _) (by decide +kernel)
  obtain ⟨value, g, hl⟩ := perform_sparse_weighted [left, right] rfl rfl rfl
    (by decide +kernel) (by decide +kernel) (by decide +kernel) hleft
  obtain ⟨value', g', hr⟩ := perform_sparse_weighted [right, left] rfl rfl rfl
    (by decide +kernel) (by decide +kernel) (by decide +kernel) hright
  refine ⟨value, value', g, g', _, _, hl, hr, by decide +kernel, by decide +kernel, ?_⟩
  intro hrelocated
  obtain ⟨column, hcolumn, hmem⟩ := (hrelocated.stores 0 (by decide) 1 (by decide) 8).1
    ⟨[(0, 0), (1, 8)], rfl, by simp⟩
  obtain rfl : [(0, 6), (1, 0)] = column := Option.some.inj hcolumn
  have hne : (8 : Float) ≠ 6 := by decide +kernel
  simp [hne] at hmem

end Long

end Small

end Summand
