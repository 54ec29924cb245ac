import Mathlib.Algebra.GroupWithZero.Nat
import Summand.Proofs.Allocation
import Summand.Proofs.History
import Summand.Proofs.Release

/-!
# Adding terms to a graph

A term is added on the blocks of its arguments, and only if it fits: there are as many blocks as
arguments, each block is that of a variable, each variable is as large as the argument, and there is
room for second derivatives if they are asked for. All that a call can come to is said at once, with
the condition for it, and the conditions exclude one another (`Graph.Adding`). Arguments are looked
at in order, and each one completely before the next.

A registry and a graph are used by calls in any order (`Catalog`). Each call that fails leaves the
graph as it was, and the distinct terms are those that were added since the terms were last
released, in order of their first addition (`Catalog.Kept`). Bindings outlive that release:
afterwards a graph has bindings and no distinct terms (`Small.released_terms`).
-/

namespace Summand

variable {α : Type}

/-! ### Checks in a row -/

/-- Checks in a row succeed if each of them does. -/
theorem forIn_eq_ok_iff {ε β : Type} {l : List β} {check : β → Except ε Unit} :
    (forIn l () fun b _ ↦ do check b; return .yield ()) = .ok () ↔ ∀ b ∈ l, check b = .ok () := by
  induction l with
  | nil => exact ⟨fun _ _ hb ↦ absurd hb List.not_mem_nil, fun _ ↦ rfl⟩
  | cons b l ih =>
    rw [List.forIn_cons, List.forall_mem_cons, ← ih]
    rcases hb : check b with e | u
    · exact ⟨fun h ↦ (nomatch h), fun h ↦ (nomatch h.1)⟩
    · exact ⟨fun h ↦ ⟨rfl, h⟩, fun h ↦ h.2⟩

/-- Checks in a row fail as one of them does. -/
theorem exists_of_forIn_eq_error {ε β : Type} {l : List β} {check : β → Except ε Unit} {e : ε}
    (h : (forIn l () fun b _ ↦ do check b; return .yield ()) = .error e) :
    ∃ b ∈ l, check b = .error e := by
  induction l with
  | nil => cases h
  | cons b l ih =>
    rw [List.forIn_cons] at h
    rcases hb : check b with e' | u
    · rw [hb] at h
      cases h
      exact ⟨b, List.mem_cons_self, hb⟩
    · rw [hb] at h
      obtain ⟨c, hc, hcheck⟩ := ih h
      exact ⟨c, List.mem_cons_of_mem b hc, hcheck⟩

/-! ### Room for Hessian blocks -/

namespace Allocation

/-- The sizes and the bytes of a matrix are integers of a machine word. -/
def Countable (m n : Nat) : Prop := m < 2 ^ 63 ∧ n < 2 ^ 63 ∧ spannedBytes [m, n] ≤ wordLimit

theorem spannedBytes_le (m n : Nat) {limit : Nat} (hm : 8 * (m * m) ≤ limit)
    (hn : 8 * (n * n) ≤ limit) (hmn : 8 * (m * n) ≤ limit) (hlimit : 8 ≤ limit) :
    spannedBytes [m, n] ≤ limit := by
  have hle {k : Nat} (hk : 8 * (k * k) ≤ limit) : 8 * k ≤ limit := by
    have := Nat.le_mul_self k
    omega
  rw [spannedBytes]
  rcases Nat.eq_zero_or_pos m with rfl | hm'
  · rcases Nat.eq_zero_or_pos n with rfl | hn'
    · simpa using hlimit
    · simpa [hn'] using hle hn
  · rcases Nat.eq_zero_or_pos n with rfl | hn'
    · simpa [hm'] using hle hm
    · simpa [hm', hn', Nat.mul_assoc] using hmn

/-- If squares of both sizes can be counted, so can the matrix. -/
theorem Countable.of_squares {m n : Nat} (hm : 8 * (m * m) ≤ wordLimit)
    (hn : 8 * (n * n) ≤ wordLimit) (hmn : 8 * (m * n) ≤ wordLimit) : Countable m n := by
  have hlt {k : Nat} (hk : 8 * (k * k) ≤ wordLimit) : k < 2 ^ 63 := by
    have := Nat.le_mul_self k
    rw [wordLimit_eq] at hk
    omega
  exact ⟨hlt hm, hlt hn, spannedBytes_le m n hm hn hmn (by rw [wordLimit_eq]; omega)⟩

/-- A matrix that can be counted can be allocated unless it takes too many bytes. -/
theorem Countable.fault?_eq {kind : Kind} {m n : Nat} (h : Countable m n) :
    fault? kind [(m : Int), (n : Int)] =
      if byteLimit < 8 * (m * n) then some (.noRoom kind [m, n]) else none := by
  obtain ⟨hm, hn, hbytes⟩ := h
  have hrows : Number.fitsWord (m : Int) = true := Number.fitsWord_iff.2 (by omega)
  have hcolumns : Number.fitsWord (n : Int) = true := Number.fitsWord_iff.2 (by omega)
  have hnonneg : ¬((m : Int) < 0 ∨ (n : Int) < 0) := by omega
  simp [fault?, hrows, hcolumns, Nat.not_lt.2 hbytes, hnonneg]

/-- A matrix can be allocated if it and the squares of its sizes do not take too many bytes. -/
theorem checkOr_matrix {noRoom : Failure} {m n : Nat} (hm : 8 * (m * m) ≤ byteLimit)
    (hn : 8 * (n * n) ≤ byteLimit) (hmn : 8 * (m * n) ≤ byteLimit) :
    checkOr noRoom [(m : Int), (n : Int)] = .ok () := by
  have hle {k : Nat} (hk : k ≤ byteLimit) : k ≤ wordLimit := by
    rw [byteLimit_eq] at hk
    rw [wordLimit_eq]
    omega
  rw [checkOr_eq_ok_iff, (Countable.of_squares (hle hm) (hle hn) (hle hmn)).fault?_eq,
    if_neg (Nat.not_lt.2 hmn)]

/-- A matrix whose bytes can be counted is refused for lack of room only. -/
theorem Countable.checkOr_eq_error_iff {noRoom failure : Failure} {m n : Nat}
    (h : Countable m n) : checkOr noRoom [(m : Int), (n : Int)] = .error failure ↔
      byteLimit < 8 * (m * n) ∧ noRoom = failure := by
  rw [checkOr, h.fault?_eq]
  split_ifs with hbytes <;> simp [hbytes]

theorem checkOr_eq_error {noRoom failure : Failure} {shape : List Int}
    (h : checkOr noRoom shape = .error failure) :
    failure = noRoom ∨ ∃ fault : Fault, failure = fault.failure := by
  unfold checkOr at h
  split at h
  · cases h
  · exact .inl (Except.error.inj h).symm
  · exact .inr ⟨_, (Except.error.inj h).symm⟩

theorem le_of_checkOr {noRoom : Failure} {m n : Nat}
    (h : checkOr noRoom [(m : Int), (n : Int)] = .ok ()) : 8 * (m * n) ≤ byteLimit := by
  rw [checkOr_eq_ok_iff] at h
  unfold fault? at h
  dsimp only at h
  split_ifs at h with _ _ _ hbytes
  simpa using hbytes

end Allocation

namespace Graph

/-- There is room for a matrix for every two of the sizes. -/
def Room (sizes : List Nat) : Prop :=
  ∀ m ∈ sizes, ∀ n ∈ sizes, 8 * (m * n) ≤ Allocation.byteLimit

/-- The checks for the matrices of a row. -/
def checkRow (sizes : List Nat) (m : Nat) : Except Failure Unit :=
  forIn sizes () fun (n : Nat) _ ↦ do
    Allocation.checkOr (.storage "Hessian blocks" [↑sizes.sum, ↑sizes.sum]) [↑m, ↑n]
    return .yield ()

theorem checkBlocks_eq (sizes : List Nat) :
    checkBlocks sizes = forIn sizes () fun m _ ↦ do checkRow sizes m; return .yield () := by
  have hsum : sizes.foldl (· + ·) 0 = sizes.sum := sizes.sum_eq_foldl.symm
  rw [checkBlocks, hsum]
  exact bind_pure_unit

theorem checkBlocks_eq_ok_iff {sizes : List Nat} : checkBlocks sizes = .ok () ↔ Room sizes := by
  rw [checkBlocks_eq, forIn_eq_ok_iff]
  simp only [checkRow, forIn_eq_ok_iff]
  constructor
  · exact fun h m hm n hn ↦ Allocation.le_of_checkOr (h m hm n hn)
  · exact fun h m hm n hn ↦
      Allocation.checkOr_matrix (h m hm m hm) (h n hn n hn) (h m hm n hn)

/-- Blocks are refused for lack of room, unless the bytes of one of them cannot be counted. -/
theorem checkBlocks_eq_error {sizes : List Nat} {failure : Failure}
    (h : checkBlocks sizes = .error failure) :
    failure = .storage "Hessian blocks" [↑sizes.sum, ↑sizes.sum] ∨
      (∃ fault : Allocation.Fault, failure = fault.failure) ∧
        ∃ m ∈ sizes, ∃ n ∈ sizes, Allocation.wordLimit < 8 * (m * n) := by
  rw [checkBlocks_eq] at h
  obtain ⟨m, hm, hrow⟩ := exists_of_forIn_eq_error h
  obtain ⟨n, hn, hcheck⟩ := exists_of_forIn_eq_error hrow
  by_cases hcount : ∀ m ∈ sizes, ∀ n ∈ sizes, 8 * (m * n) ≤ Allocation.wordLimit
  · have hcountable := Allocation.Countable.of_squares (hcount m hm m hm) (hcount n hn n hn)
      (hcount m hm n hn)
    exact .inl (hcountable.checkOr_eq_error_iff.1 hcheck).2.symm
  · push Not at hcount
    rcases Allocation.checkOr_eq_error hcheck with hroom | hfault
    · exact .inl hroom
    · exact .inr ⟨hfault, hcount⟩

/-! ### Arguments -/

/-- What can be wrong with the argument at a position: its block is not registered, or its variable
is not as large as the argument. -/
inductive Misfit (r : Registry α) (k : Nat) (handle : Handle) (expected : Int) : Failure → Prop
  | unknown (hnone : r.lookup handle = none) : Misfit r k handle expected (.unknownVariable k)
  | mismatched {v : Variable α} (hv : r.lookup handle = some v)
      (hne : (v.userDimension : Int) ≠ expected) :
      Misfit r k handle expected (.argumentMismatch k expected v.userDimension)

/-- The blocks are those of variables which are as large as the arguments. -/
structure Fitting (r : Registry α) (handles : List Handle) (dimensions : List Int)
    (vars : List (Variable α)) : Prop where
  lookup : handles.map r.lookup = vars.map some
  dimensions : dimensions = vars.map fun v ↦ (v.userDimension : Int)

variable {r : Registry α} {handles : List Handle} {dimensions : List Int}

theorem Fitting.nil (r : Registry α) : Fitting r [] [] [] := ⟨rfl, rfl⟩

theorem Fitting.cons {handle : Handle} {v : Variable α} {vars : List (Variable α)}
    (hv : r.lookup handle = some v) (h : Fitting r handles dimensions vars) :
    Fitting r (handle :: handles) (↑v.userDimension :: dimensions) (v :: vars) :=
  ⟨by rw [List.map_cons, List.map_cons, hv, h.lookup], by rw [List.map_cons, ← h.dimensions]⟩

/-- What the look at the arguments from a position on can come to. -/
inductive Arguing (r : Registry α) (k : Nat) (handles : List Handle) (dimensions : List Int) :
    Except Failure (List Nat) → Prop
  /-- All arguments fit. -/
  | fitting {vars : List (Variable α)} (hfit : Fitting r handles dimensions vars) :
      Arguing r k handles dimensions (.ok (vars.map Variable.index))
  /-- An argument does not fit, and all before it do. -/
  | misfit {earlier later : List Handle} {handle : Handle} {before after : List Int} {d : Int}
      {vars : List (Variable α)} {failure : Failure}
      (hhandles : handles = earlier ++ handle :: later)
      (hdimensions : dimensions = before ++ d :: after) (hearlier : Fitting r earlier before vars)
      (hmisfit : Misfit r (k + earlier.length) handle d failure) :
      Arguing r k handles dimensions (.error failure)

/-- One more argument that fits comes before the others. -/
theorem Arguing.cons {k : Nat} {handle : Handle} {v : Variable α}
    {result : Except Failure (List Nat)} (hv : r.lookup handle = some v)
    (h : Arguing r (k + 1) handles dimensions result) :
    Arguing r k (handle :: handles) (↑v.userDimension :: dimensions)
      (result.map (v.index :: ·)) := by
  cases h with
  | fitting hfit => exact .fitting (hfit.cons hv)
  | @misfit earlier later unfit before after d vars failure hhandles hdimensions hearlier hmisfit =>
    have hposition : k + 1 + earlier.length = k + (handle :: earlier).length := by
      rw [List.length_cons]
      omega
    exact .misfit (congrArg (handle :: ·) hhandles) (congrArg (↑v.userDimension :: ·) hdimensions)
      (hearlier.cons hv) (hposition ▸ hmisfit)

theorem arguing_bindArguments (hlength : handles.length = dimensions.length) (k : Nat) :
    Arguing r k handles dimensions (bindArguments r k handles dimensions) := by
  induction handles generalizing k dimensions with
  | nil =>
    obtain rfl := List.length_eq_zero_iff.1 hlength.symm
    exact .fitting (Fitting.nil r)
  | cons handle handles ih =>
    obtain - | ⟨d, dimensions⟩ := dimensions
    · simp at hlength
    have hfirst {failure : Failure} (hmisfit : Misfit r k handle d failure) :
        Arguing r k (handle :: handles) (d :: dimensions) (.error failure) :=
      .misfit (List.nil_append _).symm (List.nil_append _).symm (Fitting.nil r) hmisfit
    rw [bindArguments]
    rcases hv : r.lookup handle with - | v
    · exact hfirst (.unknown hv)
    dsimp only
    split_ifs with hd
    · exact hfirst (.mismatched hv hd)
    · obtain rfl : ↑v.userDimension = d := not_not.1 hd
      exact (ih (by simpa using hlength) (k + 1)).cons hv

/-! ### One more term -/

/-- The binding of a term to variables. -/
def newBinding [Zero α] (term : Term α) (vars : List (Variable α)) (withHessian : Bool) :
    Binding α where
  term := term
  indices := vars.map Variable.index
  hessianBlocks :=
    if withHessian then
      some (vars.map fun v ↦ vars.map fun w ↦ Buffer.zeroMatrix v.userDimension w.userDimension)
    else none

/-- What adding a term can come to. -/
inductive Adding [Zero α] (r : Registry α) (g : Graph α) (term : Term α) (handles : List Handle)
    (withHessian : Bool) : Except Failure (Graph α) → Prop
  /-- There are more or fewer blocks than arguments. -/
  | miscounted (hlength : handles.length ≠ term.arity) :
      Adding r g term handles withHessian (.error (.arityMismatch term.arity handles.length))
  /-- An argument does not fit, and all before it do. -/
  | misfit {earlier later : List Handle} {handle : Handle} {before after : List Int} {d : Int}
      {vars : List (Variable α)} {failure : Failure} (hlength : handles.length = term.arity)
      (hhandles : handles = earlier ++ handle :: later)
      (hdimensions : term.dimensions = before ++ d :: after)
      (hearlier : Fitting r earlier before vars)
      (hmisfit : Misfit r earlier.length handle d failure) :
      Adding r g term handles withHessian (.error failure)
  /-- All arguments fit, but there is no room for the Hessian blocks. The failure is one of storage,
  or that of arrays whose bytes cannot be counted, if there are such. -/
  | unallocated {vars : List (Variable α)} {failure : Failure}
      (hfit : Fitting r handles term.dimensions vars) (hwith : withHessian = true)
      (hroom : ¬Room (vars.map Variable.userDimension))
      (hfailure : failure = .storage "Hessian blocks" [↑(vars.map Variable.userDimension).sum,
          ↑(vars.map Variable.userDimension).sum] ∨
        (∃ fault : Allocation.Fault, failure = fault.failure) ∧
          ∃ v ∈ vars, ∃ w ∈ vars,
            Allocation.wordLimit < 8 * (v.userDimension * w.userDimension)) :
      Adding r g term handles withHessian (.error failure)
  /-- All arguments fit. The graph gets one more binding, behind the others, and it refers to the
  variables of the blocks. -/
  | bound {vars : List (Variable α)} (hfit : Fitting r handles term.dimensions vars)
      (hroom : withHessian = true → Room (vars.map Variable.userDimension))
      (hvars : argumentVariables r (newBinding term vars withHessian) = vars) :
      Adding r g term handles withHessian
        (.ok ⟨g.bindings ++ [newBinding term vars withHessian], noteTerm g.terms term⟩)

/-- The variables of blocks are those at their indices. -/
theorem Fitting.filterMap_index (hr : r.Indexed) {vars : List (Variable α)}
    (h : Fitting r handles dimensions vars) :
    (vars.map Variable.index).filterMap (r.entries[·]?) = vars := by
  have hmem : ∀ v ∈ vars, v ∈ r.entries := by
    intro v hv
    have hsome : some v ∈ handles.map r.lookup := h.lookup ▸ List.mem_map_of_mem hv
    obtain ⟨handle, -, hlookup⟩ := List.mem_map.1 hsome
    exact (lookup_eq_some hlookup).1
  rw [List.filterMap_map]
  calc vars.filterMap ((r.entries[·]?) ∘ Variable.index)
      = vars.filterMap some := List.filterMap_congr fun v hv ↦ hr.getElem?_index (hmem v hv)
    _ = vars := List.filterMap_some

theorem Fitting.sizes_eq {term : Term α} {vars : List (Variable α)}
    (h : Fitting r handles term.dimensions vars) :
    term.sizes = vars.map Variable.userDimension := by
  rw [Term.sizes, h.dimensions, List.map_map]
  rfl

theorem adding_add [Zero α] (hr : r.Indexed) (g : Graph α) (term : Term α)
    (handles : List Handle) (withHessian : Bool) :
    Adding r g term handles withHessian (g.add r term handles withHessian) := by
  rw [add]
  by_cases hlength : handles.length = term.arity
  · rw [if_neg (by simpa using hlength)]
    have harguments := arguing_bindArguments (r := r) hlength 0
    revert harguments
    generalize bindArguments r 0 handles term.dimensions = indices
    intro harguments
    cases harguments with
    | @fitting vars hfit =>
      have hsizes := hfit.sizes_eq
      have hbinding : newBinding term vars withHessian = ⟨term, vars.map Variable.index,
          if withHessian then some (zeroBlocks term.sizes) else none⟩ := by
        simp [newBinding, zeroBlocks, hsizes, Function.comp_def]
      have hbound (hcheck : withHessian = true → checkBlocks term.sizes = .ok ()) :
          Adding r g term handles withHessian (.ok ⟨g.bindings ++ [⟨term, vars.map Variable.index,
            if withHessian then some (zeroBlocks term.sizes) else none⟩], noteTerm g.terms term⟩) :=
        hbinding ▸ .bound hfit (fun hwith ↦ hsizes ▸ checkBlocks_eq_ok_iff.1 (hcheck hwith))
          (hfit.filterMap_index hr)
      cases withHessian with
      | false => exact hbound fun h ↦ absurd h Bool.false_ne_true
      | true =>
        rcases hcheck : checkBlocks term.sizes with failure | u
        · refine .unallocated hfit rfl ?_ ?_
          · simp [← hsizes, ← checkBlocks_eq_ok_iff, hcheck]
          · have hfailure := checkBlocks_eq_error hcheck
            simpa [hsizes] using hfailure
        · exact hbound fun _ ↦ hcheck
    | misfit hhandles hdimensions hearlier hmisfit =>
      rw [Nat.zero_add] at hmisfit
      exact .misfit hlength hhandles hdimensions hearlier hmisfit
  · rw [if_pos (by simpa using hlength)]
    exact .miscounted hlength

/-- Blocks are counted before all else. -/
theorem add_eq_arityMismatch_iff [Zero α] (hr : r.Indexed) {g : Graph α} {term : Term α}
    {withHessian : Bool} {expected actual : Int} :
    g.add r term handles withHessian = .error (.arityMismatch expected actual) ↔
      handles.length ≠ term.arity ∧ expected = term.arity ∧ actual = handles.length := by
  constructor
  · intro h
    have hadding := h ▸ adding_add hr g term handles withHessian
    cases hadding with
    | miscounted hlength => exact ⟨hlength, rfl, rfl⟩
    | misfit _ _ _ _ hmisfit => cases hmisfit
    | unallocated _ _ _ hfailure =>
      rcases hfailure with hstorage | ⟨⟨fault, hfault⟩, -⟩
      · cases hstorage
      · cases fault <;> cases hfault
  · rintro ⟨hlength, rfl, rfl⟩
    rw [add, if_pos hlength]
    rfl

/-! ### Distinct terms -/

/-- The terms that differ in identity, each of them where it comes up first. -/
def distinct (terms : List (Term α)) : List (Term α) := terms.eraseDupsBy fun s t ↦ s.id == t.id

theorem distinct_cons (t : Term α) (terms : List (Term α)) :
    distinct (t :: terms) = t :: distinct (terms.filter fun s ↦ (s.id == t.id) = false) :=
  List.eraseDupsBy_cons

/-- The distinct terms after one more. -/
theorem distinct_append_singleton (terms : List (Term α)) (term : Term α) :
    distinct (terms ++ [term]) = noteTerm (distinct terms) term := by
  induction hn : terms.length using Nat.strong_induction_on generalizing terms with
  | _ n ih =>
    obtain - | ⟨t, terms⟩ := terms
    · rfl
    subst hn
    rw [List.cons_append, distinct_cons, distinct_cons, List.filter_append]
    by_cases hid : t.id = term.id
    · -- The first term has the same identity, so the new one is left out.
      rw [noteTerm, List.any_cons, beq_iff_eq.2 hid, Bool.true_or, if_pos rfl]
      simp [hid]
    · have hfilter : [term].filter (fun s ↦ (s.id == t.id) = false) = [term] := by
        simp [Ne.symm hid]
      have hlength := List.length_filter_le (fun s ↦ (s.id == t.id) = false) terms
      rw [hfilter, ih _ (by rw [List.length_cons]; omega) _ rfl, noteTerm, noteTerm, List.any_cons,
        beq_false_of_ne hid, Bool.false_or]
      split <;> rfl

end Graph

namespace Registry

/-- What does not look at transforms is the same after they have been released. -/
theorem map_releaseTransforms {β : Type} {f : Variable α → β}
    (hf : ∀ v : Variable α, f { v with transform := none } = f v) (vars : List (Variable α)) :
    (releaseTransforms vars).1.map f = vars.map f := by
  induction vars with
  | nil => rfl
  | cons v vars ih =>
    rw [releaseTransforms]
    split
    · exact congrArg (f v :: ·) ih
    · split
      · rfl
      · exact congrArg₂ List.cons (hf v) ih

theorem Indexed.close {r : Registry α} (h : r.Indexed) : r.close.1.Indexed :=
  h.congr (map_releaseTransforms (fun _ ↦ rfl) r.entries)
    (map_releaseTransforms (fun _ ↦ rfl) r.entries)

end Registry

/-- What a release of the terms leaves of a graph. -/
theorem Graph.close_fst (g : Graph α) :
    g.close.1 = if g.close.2.2.isNone then { g with terms := [] } else g := rfl

/-! ### A registry and a graph in use -/

/-- A call on a registry and on a graph whose terms are bound to its variables. -/
inductive CatalogCall (α : Type) where
  | register (handle : Handle) (dimension : Json) (transform : Option (Transform α))
  | closeRegistry
  | add (term : Term α) (handles : List Handle) (withHessian : Bool)
  | closeGraph

/-- A registry and a graph whose terms are bound to its variables. -/
structure Catalog (α : Type) where
  registry : Registry α := {}
  graph : Graph α := {}

namespace Catalog

variable [Zero α]

/-- A catalog after a call, and the failure of the call. -/
def perform (c : Catalog α) : CatalogCall α → Catalog α × Option Failure
  | .register handle dimension transform =>
    match ((ExceptT.run (c.registry.register handle dimension transform)).run []).1 with
    | .ok (registry, _) => ({ c with registry }, none)
    | .error failure => (c, some failure)
  | .closeRegistry =>
    let (registry, _, failure) := c.registry.close
    ({ c with registry }, failure)
  | .add term handles withHessian =>
    match c.graph.add c.registry term handles withHessian with
    | .ok graph => ({ c with graph }, none)
    | .error failure => (c, some failure)
  | .closeGraph =>
    let (graph, _, failure) := c.graph.close
    ({ c with graph }, failure)

/-- A catalog after some calls, whether they fail or not. -/
def after (c : Catalog α) (calls : List (CatalogCall α)) : Catalog α :=
  calls.foldl (fun c call ↦ (c.perform call).1) c

/-- Calls with the failures that they end in. -/
def recorded (c : Catalog α) : List (CatalogCall α) → List (CatalogCall α × Option Failure)
  | [] => []
  | call :: calls => (call, (c.perform call).2) :: recorded (c.perform call).1 calls

/-- The terms that have been added since the terms were last released. A call that fails adds
nothing and releases nothing for good. -/
def addedSince (added : List (Term α)) (record : List (CatalogCall α × Option Failure)) :
    List (Term α) :=
  record.foldl (fun added (call, failure) ↦
    match call, failure with
    | .add term _ _, none => added ++ [term]
    | .closeGraph, none => []
    | _, _ => added) added

/-- What calls keep: variables stand at their indices, the last bindings are those of the terms that
have been added since the last release, and these are remembered once each. -/
structure Kept (c : Catalog α) (added : List (Term α)) : Prop where
  indexed : c.registry.Indexed
  bindings : added <:+ c.graph.bindings.map Binding.term
  terms : c.graph.terms = Graph.distinct added

/-- A call that fails leaves the graph as it was. -/
theorem graph_perform_of_failure {c : Catalog α} {call : CatalogCall α} {failure : Failure}
    (h : (c.perform call).2 = some failure) : (c.perform call).1.graph = c.graph := by
  cases call with
  | register handle dimension transform =>
    rw [perform]
    split <;> rfl
  | closeRegistry => rfl
  | add term handles withHessian =>
    rw [perform] at h ⊢
    split
    · simp_all
    · rfl
  | closeGraph =>
    have hclose : c.graph.close.2.2 = some failure := h
    show c.graph.close.1 = c.graph
    rw [Graph.close_fst, hclose]
    rfl

/-- No call changes a binding that is there. -/
theorem bindings_isPrefix_perform (c : Catalog α) (hr : c.registry.Indexed) (call : CatalogCall α) :
    c.graph.bindings <+: (c.perform call).1.graph.bindings := by
  cases call with
  | register handle dimension transform =>
    rw [perform]
    split <;> exact List.prefix_refl _
  | closeRegistry => exact List.prefix_refl _
  | add term handles withHessian =>
    rw [perform]
    split
    · rename_i graph hgraph
      have hadding := Graph.adding_add hr c.graph term handles withHessian
      rw [hgraph] at hadding
      cases hadding
      exact List.prefix_append _ _
    · exact List.prefix_refl _
  | closeGraph =>
    show c.graph.bindings <+: c.graph.close.1.bindings
    rw [Graph.close_fst]
    split <;> exact List.prefix_refl _

namespace Kept

variable {c : Catalog α} {added : List (Term α)}

omit [Zero α] in
theorem empty : ({} : Catalog α).Kept [] := ⟨.empty, List.suffix_refl _, rfl⟩

theorem step_register (h : c.Kept added) (handle : Handle) (dimension : Json)
    (transform : Option (Transform α)) :
    (c.perform (.register handle dimension transform)).1.Kept added := by
  obtain ⟨result, events, hrun, hregistering⟩ :=
    (Registry.ends_register c.registry handle dimension transform).of_run []
  rw [perform, hrun]
  dsimp only
  split
  · exact ⟨hregistering.indexed h.indexed, h.bindings, h.terms⟩
  · exact h

theorem step_add (h : c.Kept added) (term : Term α) (handles : List Handle) (withHessian : Bool) :
    (c.perform (.add term handles withHessian)).1.Kept (addedSince added
      [(.add term handles withHessian, (c.perform (.add term handles withHessian)).2)]) := by
  have hadding := Graph.adding_add h.indexed c.graph term handles withHessian
  rw [perform]
  revert hadding
  generalize c.graph.add c.registry term handles withHessian = result
  intro hadding
  cases hadding with
  | bound =>
    refine ⟨h.indexed, ?_, ?_⟩
    · obtain ⟨before, hbefore⟩ := h.bindings
      exact ⟨before, by rw [List.map_append, ← hbefore]; exact (List.append_assoc _ _ _).symm⟩
    · show Graph.noteTerm c.graph.terms term = Graph.distinct (added ++ [term])
      rw [Graph.distinct_append_singleton, h.terms]
  | _ => exact h

theorem step_closeGraph (h : c.Kept added) :
    (c.perform .closeGraph).1.Kept
      (addedSince added [(.closeGraph, (c.perform .closeGraph).2)]) := by
  show (⟨c.registry, c.graph.close.1⟩ : Catalog α).Kept
    (addedSince added [(.closeGraph, c.graph.close.2.2)])
  rw [Graph.close_fst]
  rcases c.graph.close.2.2 with - | failure
  · exact ⟨h.indexed, List.nil_suffix, rfl⟩
  · exact h

theorem step (h : c.Kept added) (call : CatalogCall α) :
    (c.perform call).1.Kept (addedSince added [(call, (c.perform call).2)]) := by
  cases call with
  | register handle dimension transform => exact h.step_register handle dimension transform
  | closeRegistry => exact ⟨h.indexed.close, h.bindings, h.terms⟩
  | add term handles withHessian => exact h.step_add term handles withHessian
  | closeGraph => exact h.step_closeGraph

theorem after (h : c.Kept added) (calls : List (CatalogCall α)) :
    (c.after calls).Kept (addedSince added (c.recorded calls)) := by
  induction calls generalizing c added with
  | nil => exact h
  | cons call calls ih => exact ih (h.step call)

theorem bindings_isPrefix_after (h : c.Kept added) (calls : List (CatalogCall α)) :
    c.graph.bindings <+: (c.after calls).graph.bindings := by
  induction calls generalizing c added with
  | nil => exact List.prefix_refl _
  | cons call calls ih =>
    exact (bindings_isPrefix_perform c h.indexed call).trans (ih (h.step call))

end Kept

/-- What adding a term comes to after any calls: which blocks, arguments and sizes decide it, in
which order. A call that fails leaves the graph as it was, and later calls change no binding that is
there. The distinct terms are those that have been added since the terms were last released, in
order of their first addition, and each addition since then has its binding. -/
theorem adding_after (calls : List (CatalogCall α)) :
    let c := ({} : Catalog α).after calls
    let added := addedSince [] (({} : Catalog α).recorded calls)
    (∀ term handles withHessian,
      Graph.Adding c.registry c.graph term handles withHessian
          (c.graph.add c.registry term handles withHessian) ∧
        ∀ expected actual, c.graph.add c.registry term handles withHessian =
            .error (.arityMismatch expected actual) ↔
          handles.length ≠ term.arity ∧ expected = term.arity ∧ actual = handles.length) ∧
      (∀ call failure, (c.perform call).2 = some failure → (c.perform call).1.graph = c.graph) ∧
      (∀ later, c.graph.bindings <+: (c.after later).graph.bindings) ∧
      c.graph.terms = Graph.distinct added ∧ added <:+ c.graph.bindings.map Binding.term := by
  intro c added
  have hkept : c.Kept added := Kept.empty.after calls
  refine ⟨fun term handles withHessian ↦ ⟨?_, fun expected actual ↦ ?_⟩, ?_, ?_, hkept.terms,
    hkept.bindings⟩
  · exact Graph.adding_add hkept.indexed c.graph term handles withHessian
  · exact Graph.add_eq_arityMismatch_iff hkept.indexed
  · exact fun _ _ h ↦ graph_perform_of_failure h
  · exact hkept.bindings_isPrefix_after

end Catalog

namespace Small

/-- A pair is registered and has a term, in which its block comes up; the terms are released. -/
def releasing : List (CatalogCall Int) :=
  [.register (.array pair) .null none, .add squares [.array pair] true, .closeGraph]

/-- A block of some numbers. -/
def row (n : Nat) : Block := { id := 7, shape := [n], cells := List.range n }

/-- A term of as many numbers. -/
def rowTerm (n : Nat) : Term Int :=
  .total 7 "Row" [n] (fun _ ↦ 0) (fun arguments ↦ arguments.map fun _ ↦ []) (fun _ ↦ [])
    fun _ ↦ Term.noEnclosure "Row"

/-- The arguments are looked at in order: the second block is of another size, and only the third
one is not registered. The graph is as it was. -/
theorem failed_addition :
    let c := ({} : Catalog Int).after releasing
    (c.perform (.add product [.array pair, .array pair, .array spare] true)).2 =
        some (.argumentMismatch 1 1 2) ∧
      (c.perform (.add product [.array pair, .array pair, .array spare] true)).1.graph = c.graph :=
  have hfailure : ((({} : Catalog Int).after releasing).perform
      (.add product [.array pair, .array pair, .array spare] true)).2 =
      some (.argumentMismatch 1 1 2) := rfl
  ⟨hfailure, (Catalog.adding_after releasing).2.1 _ _ hfailure⟩

/-- A term on a registered block of the right size may find no room. -/
theorem perform_add_row {n : Nat} (hroom : Allocation.byteLimit < 8 * (n * n))
    (hcount : 8 * (n * n) ≤ Allocation.wordLimit) :
    ((({} : Catalog Int).after [.register (.array (row n)) (.int n) none]).perform
      (.add (rowTerm n) [.array (row n)] true)).2 = some (.storage "Hessian blocks" [n, n]) := by
  have hpos : 0 < n := by
    rcases Nat.eq_zero_or_pos n with rfl | hpos
    · simp at hroom
    · exact hpos
  have hsize : n ≤ (row n).size := by rw [Block.size, row, List.length_range]
  let v : Variable Int := ({} : Registry Int).newVariable (row n) n n none
  have hregister : (({} : Catalog Int).perform (.register (.array (row n)) (.int n) none)).1 =
      ⟨⟨[v], 0 + n⟩, {}⟩ := by
    have hrun := Registry.run_register_new (r := ({} : Registry Int)) rfl rfl rfl hpos hsize
      (fun t (h : none = some t) ↦ nomatch h) []
    rw [Catalog.perform, hrun]
    rfl
  have hlookup : (⟨[v], 0 + n⟩ : Registry Int).lookup (.array (row n)) = some v := rfl
  have hcheck : Graph.checkBlocks [n] = .error (.storage "Hessian blocks" [↑n, ↑n]) := by
    have hcountable := Allocation.Countable.of_squares hcount hcount hcount
    have hone : Allocation.checkOr (.storage "Hessian blocks" [↑n, ↑n]) [(n : Int), ↑n] =
        .error (.storage "Hessian blocks" [↑n, ↑n]) :=
      hcountable.checkOr_eq_error_iff.2 ⟨hroom, rfl⟩
    have hrow : Graph.checkRow [n] n = .error (.storage "Hessian blocks" [↑n, ↑n]) := by
      rw [Graph.checkRow, List.forIn_cons, List.sum_singleton, hone]
      rfl
    rw [Graph.checkBlocks_eq, List.forIn_cons, hrow]
    rfl
  have harguments : Graph.bindArguments ⟨[v], 0 + n⟩ 0 [.array (row n)] (rowTerm n).dimensions =
      .ok [0] := by
    rw [rowTerm, Term.total, Graph.bindArguments, hlookup]
    exact if_neg (not_not.2 rfl)
  have hlength : [Handle.array (row n)].length = (rowTerm n).arity := rfl
  have hsizes : (rowTerm n).sizes = [n] := rfl
  have hadd : ({} : Graph Int).add ⟨[v], 0 + n⟩ (rowTerm n) [.array (row n)] true =
      .error (.storage "Hessian blocks" [n, n]) := by
    rw [Graph.add, if_neg (not_not.2 hlength), harguments, hsizes]
    simp only [hcheck]
    rfl
  rw [Catalog.after, List.foldl_cons, List.foldl_nil, hregister, Catalog.perform, hadd]

/-- Once terms have been released they are no longer among the distinct ones, though their bindings
are there; and a term on a registered block of the right size may find no room. -/
theorem released_terms :
    (¬∀ calls : List (CatalogCall Int), (({} : Catalog Int).after calls).graph.terms =
        Graph.distinct ((({} : Catalog Int).after calls).graph.bindings.map Binding.term)) ∧
      ((({} : Catalog Int).after [.register (.array (row (2 ^ 22 + 1))) (.int ↑(2 ^ 22 + 1 : Nat))
          none]).perform (.add (rowTerm (2 ^ 22 + 1)) [.array (row (2 ^ 22 + 1))] true)).2 =
        some (.storage "Hessian blocks" [↑(2 ^ 22 + 1 : Nat), ↑(2 ^ 22 + 1 : Nat)]) := by
  constructor
  · intro h
    have hlength := congrArg List.length (h releasing)
    exact absurd hlength (by decide)
  · exact perform_add_row (by decide) (by decide)

end Small

end Summand
