import Mathlib.Data.List.Forall2
import Summand.Proofs.Accumulation
import Summand.Proofs.Registry

/-!
# Bound arguments

A term that has been added is bound to variables of the dimensions of its arguments, and has room
for its second derivatives if Hessians can be computed (`Binding.Bound`). Bindings stay bound while
variables are registered, and the storage of the workers has room for them
(`Binding.Bound.within`).

Hessian blocks are left over from evaluations. A binding is `bare` once it has forgotten them; what
it adds to the sums does not depend on them (`Binding.accumulate_bare`), and neither do the blocks
that it has after a Hessian evaluation (`Binding.afterward_hessian_bare`).
-/

namespace Summand

variable {α : Type}

/-! ### Bare bindings -/

namespace Binding

section Zero

variable [Zero α]

/-- A binding that has forgotten the entries of its Hessian blocks. -/
def bare (b : Binding α) : Binding α := { b with hessianBlocks := b.hessianBlocks.map zeroedBlocks }

@[simp] theorem bare_bare (b : Binding α) : b.bare.bare = b.bare := by
  cases h : b.hessianBlocks <;> simp [bare, h, zeroedBlocks_zeroedBlocks]

theorem zeroedBlocks_zeroBlocks (sizes : List Nat) :
    zeroedBlocks (Graph.zeroBlocks sizes : HessianBlocks α) = Graph.zeroBlocks sizes := by
  simp [zeroedBlocks, Graph.zeroBlocks, Buffer.zeroMatrix]

/-- Evaluating a binding hands its term the same things whatever its blocks hold. -/
theorem evaluated_bare (mode : Mode) (registry : Registry α) (b : Binding α) :
    (b.bare.evaluated mode registry).1 = (b.evaluated mode registry).1 ∧
      (b.bare.evaluated mode registry).2.2 = (b.evaluated mode registry).2.2 := by
  have hvars : Graph.argumentVariables registry b.bare = Graph.argumentVariables registry b := rfl
  have hterm : b.bare.term = b.term := rfl
  rw [evaluated, evaluated, hvars]
  cases mode <;> cases hb : b.hessianBlocks <;>
    simp [derivatives, bare, hb, zeroedBlocks_zeroedBlocks]

/-- The blocks of a Hessian evaluation do not depend on those before it. -/
theorem afterward_hessian_bare (registry : Registry α) (b : Binding α) :
    b.bare.afterward .hessian registry = b.afterward .hessian registry := by
  have hvars : Graph.argumentVariables registry b.bare = Graph.argumentVariables registry b := rfl
  simp only [afterward, evaluated, hvars]
  cases hb : b.hessianBlocks <;> simp [derivatives, bare, hb, zeroedBlocks_zeroedBlocks]

/-- An evaluation changes nothing of a binding but the entries of its blocks. -/
@[simp] theorem bare_afterward (mode : Mode) (registry : Registry α) (b : Binding α) :
    (b.afterward mode registry).bare = b.bare := by
  cases mode <;> cases hb : b.hessianBlocks <;>
    simp [afterward, bare, evaluated, derivatives, hb, zeroedBlocks_conformBlocks,
      zeroedBlocks_zeroedBlocks]

end Zero

theorem accumulate_bare [Zero α] [Add α] [Storable α] (mode : Mode) (registry : Registry α)
    (x : List α) (b : Binding α) (sums : α × List α) :
    b.bare.accumulate mode registry x sums = b.accumulate mode registry x sums := by
  obtain ⟨hbuffers, hresult⟩ := b.evaluated_bare mode registry
  cases mode <;> simp only [accumulate, hbuffers, hresult] <;> rfl

end Binding

/-- A registry has the variables of a binding's arguments. -/
theorem Graph.mem_of_mem_argumentVariables {r : Registry α} {b : Binding α} {v : Variable α}
    (hv : v ∈ argumentVariables r b) : v ∈ r.entries := by
  obtain ⟨i, -, hi⟩ := List.mem_filterMap.1 hv
  exact List.mem_of_getElem? hi

theorem Graph.mem_of_mem_boundVariables {g : Graph α} {r : Registry α} {v : Variable α}
    (hv : v ∈ g.boundVariables r) : v ∈ r.entries := by
  obtain ⟨b, -, hv⟩ := List.mem_flatMap.1 hv
  exact mem_of_mem_argumentVariables hv

/-- The variables of a binding's arguments are those of its indices. -/
theorem Graph.index_mem_indices {r : Registry α} (h : r.Laid) {b : Binding α} {v : Variable α}
    (hv : v ∈ argumentVariables r b) : v.index ∈ b.indices := by
  obtain ⟨i, hi, hget⟩ := List.mem_filterMap.1 hv
  rwa [h.index_eq hget]

/-! ### Bound bindings -/

namespace Binding

/-- The arguments of a binding have variables of their dimensions, and there are Hessian blocks of
these dimensions if Hessians can be computed. -/
structure Bound [Zero α] (r : Registry α) (withHessian : Bool) (b : Binding α) : Prop where
  arguments : List.Forall₂
    (fun i (d : Int) ↦ ∃ v, r.entries[i]? = some v ∧ (v.userDimension : Int) = d)
    b.indices b.term.dimensions
  blocks : b.bare.hessianBlocks =
    if withHessian then some (Graph.zeroBlocks b.term.sizes) else none
  room : withHessian = true → Graph.checkBlocks b.term.sizes = .ok ()

variable [Zero α] {r s : Registry α} {withHessian : Bool} {b : Binding α}

/-- The arguments stay bound as the registry grows. -/
theorem Bound.extend (h : b.Bound r withHessian) (hs : r.Extends s) : b.Bound s withHessian := by
  refine ⟨h.arguments.imp ?_, h.blocks, h.room⟩
  rintro i d ⟨v, hv, hd⟩
  obtain ⟨w, hw, hdim⟩ := hs hv
  exact ⟨w, hw, by rw [hdim, hd]⟩

theorem bound_bare_iff : b.bare.Bound r withHessian ↔ b.Bound r withHessian := by
  constructor
  · rintro ⟨h₁, h₂, h₃⟩
    exact ⟨h₁, by rw [bare_bare] at h₂; exact h₂, h₃⟩
  · rintro ⟨h₁, h₂, h₃⟩
    exact ⟨h₁, by rw [bare_bare]; exact h₂, h₃⟩

/-- The variables of the arguments are as large as the term says. -/
theorem Bound.map_userDimension (h : b.Bound r withHessian) :
    (Graph.argumentVariables r b).map Variable.userDimension = b.term.sizes := by
  have key {indices : List Nat} {dimensions : List Int} (h : List.Forall₂
      (fun i (d : Int) ↦ ∃ v, r.entries[i]? = some v ∧ (v.userDimension : Int) = d)
      indices dimensions) :
      (indices.filterMap (r.entries[·]?)).map Variable.userDimension =
        dimensions.map Int.toNat := by
    induction h with
    | nil => rfl
    | @cons i d indices dimensions hd _ ih =>
      obtain ⟨v, hv, rfl⟩ := hd
      rw [List.filterMap_cons_some hv, List.map_cons, List.map_cons, ih, Int.toNat_natCast]
  exact key h.arguments

theorem Bound.length_argumentVariables (h : b.Bound r withHessian) :
    (Graph.argumentVariables r b).length = b.arity := by
  have hlength := congrArg List.length h.map_userDimension
  rw [List.length_map, Term.sizes, List.length_map] at hlength
  rw [hlength, arity, h.arguments.length_eq]

end Binding

/-! ### Room for all bindings -/

namespace Graph

theorem le_foldl_max {β : Type} (f : β → Nat) (l : List β) (n : Nat) :
    n ≤ l.foldl (fun n b ↦ max n (f b)) n ∧
      ∀ b ∈ l, f b ≤ l.foldl (fun n b ↦ max n (f b)) n := by
  induction l generalizing n with
  | nil => simp
  | cons b l ih =>
    obtain ⟨hle, hall⟩ := ih (max n (f b))
    refine ⟨Nat.le_trans (Nat.le_max_left _ _) hle, ?_⟩
    intro c hc
    rcases List.mem_cons.1 hc with rfl | hc
    · exact Nat.le_trans (Nat.le_max_right _ _) hle
    · exact hall c hc

theorem arity_le_maxArity {g : Graph α} {b : Binding α} (hb : b ∈ g.bindings) :
    b.arity ≤ g.maxArity := by
  rw [maxArity]
  rcases hg : g.bindings with - | ⟨c, rest⟩
  · simp [hg] at hb
  · obtain ⟨hle, hall⟩ := le_foldl_max Binding.arity rest c.arity
    rw [hg] at hb
    rcases List.mem_cons.1 hb with rfl | hb
    · exact hle
    · exact hall b hb

theorem userDimension_le_max {r : Registry α} {v : Variable α} (hv : v ∈ r.entries) :
    v.userDimension ≤ r.maxUserDimension := by
  rw [Registry.maxUserDimension]
  rcases hr : r.entries with - | ⟨w, rest⟩
  · simp [hr] at hv
  · obtain ⟨hle, hall⟩ := le_foldl_max Variable.userDimension rest w.userDimension
    rw [hr] at hv
    rcases List.mem_cons.1 hv with rfl | hv
    · exact hle
    · exact hall v hv

end Graph

/-- The scratch of a worker has room for every binding. -/
theorem Binding.Bound.within [Zero α] {r : Registry α} {withHessian : Bool} {g : Graph α}
    {b : Binding α} (h : b.Bound r withHessian) (hb : b ∈ g.bindings) :
    b.Within r g.maxArity r.maxUserDimension where
  rows := h.length_argumentVariables ▸ Graph.arity_le_maxArity hb
  columns _ hv := Graph.userDimension_le_max (Graph.mem_of_mem_argumentVariables hv)

/-! ### Addition -/

namespace Graph

variable {r : Registry α}

/-- A handle is that of a variable exactly if its block is registered. -/
theorem lookup_eq_some {handle : Handle} {v : Variable α} (h : r.lookup handle = some v) :
    v ∈ r.entries ∧ ∃ block, handle = .array block ∧ r.find? block.id = some v := by
  cases handle with
  | object typeName => simp [Registry.lookup] at h
  | array block => exact ⟨(Registry.find?_eq_some h).1, block, rfl, h⟩

theorem bindArguments_eq_ok (hr : r.Laid) {k : Nat} {handles : List Handle}
    {dimensions : List Int} (hlength : handles.length = dimensions.length) {indices : List Nat}
    (h : bindArguments r k handles dimensions = .ok indices) :
    List.Forall₂ (fun i (d : Int) ↦ ∃ v, r.entries[i]? = some v ∧ (v.userDimension : Int) = d)
      indices dimensions := by
  induction handles generalizing k dimensions indices with
  | nil =>
    obtain rfl := List.length_eq_zero_iff.1 hlength.symm
    cases h
    exact .nil
  | cons handle handles ih =>
    obtain - | ⟨d, dimensions⟩ := dimensions
    · simp at hlength
    rw [bindArguments] at h
    rcases hv : r.lookup handle with - | v
    · simp [hv] at h
    rw [hv] at h
    dsimp only at h
    split at h
    · cases h
    rename_i hd
    obtain ⟨rest, hrest, rfl⟩ := map_eq_ok_iff.1 h
    have hindex : r.entries[v.index]? = some v := hr.getElem?_index (lookup_eq_some hv).1
    have hdim : (v.userDimension : Int) = d := by simpa using hd
    exact .cons ⟨v, hindex, hdim⟩ (ih (by simpa using hlength) hrest)

/-- A term that is added is bound. -/
theorem add_eq_ok [Zero α] (hr : r.Laid) {g g' : Graph α} {term : Term α} {handles : List Handle}
    {withHessian : Bool} (h : g.add r term handles withHessian = .ok g') :
    ∃ b : Binding α, b.Bound r withHessian ∧
      g' = ⟨g.bindings ++ [b], noteTerm g.terms term⟩ := by
  rw [add] at h
  dsimp only at h
  split at h
  · cases h
  rename_i harity
  obtain ⟨indices, hindices, h⟩ := bind_eq_ok_iff.1 h
  have harguments := bindArguments_eq_ok hr (by simpa [Term.arity] using harity) hindices
  cases withHessian with
  | false =>
    cases h
    exact ⟨_, ⟨harguments, rfl, fun h ↦ nomatch h⟩, rfl⟩
  | true =>
    obtain ⟨u, hroom, h⟩ := bind_eq_ok_iff.1 h
    cases h
    exact ⟨_, ⟨harguments, by simp [Binding.bare, Binding.zeroedBlocks_zeroBlocks],
      fun _ ↦ hroom⟩, rfl⟩

/-- Arguments that are bound are bound again by the blocks of their variables. -/
theorem bindArguments_of_bound (hr : r.Laid) {k : Nat} {indices : List Nat} {dimensions : List Int}
    (h : List.Forall₂ (fun i (d : Int) ↦ ∃ v, r.entries[i]? = some v ∧ (v.userDimension : Int) = d)
      indices dimensions) :
    bindArguments r k ((indices.filterMap (r.entries[·]?)).map fun v ↦ .array v.block) dimensions =
      .ok indices := by
  induction h generalizing k with
  | nil => rfl
  | @cons i d indices dimensions hd _ ih =>
    obtain ⟨v, hv, rfl⟩ := hd
    have hindex : v.index = i := hr.index_eq hv
    -- The block of a registered variable is found under its own identity.
    have hlookup : r.lookup (.array v.block) = some v := hr.find?_eq (List.mem_of_getElem? hv)
    rw [List.filterMap_cons_some hv, List.map_cons, bindArguments, hlookup]
    simp only [ne_eq, not_true, if_false, ih, hindex]
    rfl

/-- A bound term can be added anew on the blocks of its arguments. -/
theorem add_of_bound [Zero α] (hr : r.Laid) {g : Graph α} {b : Binding α} {withHessian : Bool}
    (hb : b.Bound r withHessian) :
    g.add r b.term ((argumentVariables r b).map fun v ↦ .array v.block) withHessian =
      .ok ⟨g.bindings ++ [b.bare], noteTerm g.terms b.term⟩ := by
  have hlength : ((argumentVariables r b).map fun v ↦ Handle.array v.block).length =
      b.term.arity := by
    rw [List.length_map, hb.length_argumentVariables, Binding.arity, hb.arguments.length_eq,
      Term.arity]
  have hblocks := hb.blocks
  rw [add, if_neg (by simpa using hlength), argumentVariables,
    bindArguments_of_bound hr hb.arguments]
  cases withHessian with
  | false =>
    simp only [Bool.false_eq_true, if_false] at hblocks
    rw [show b.bare = ⟨b.term, b.indices, none⟩ by rw [← hblocks]; rfl]
    rfl
  | true =>
    simp only [if_true] at hblocks
    rw [show b.bare = ⟨b.term, b.indices, some (zeroBlocks b.term.sizes)⟩ by
      rw [← hblocks]; rfl]
    simp only [if_true, hb.room rfl]
    rfl

end Graph

end Summand
