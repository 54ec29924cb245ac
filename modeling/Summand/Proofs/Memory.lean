import Mathlib.Data.List.Nodup
import Summand.Memory

/-!
# What arrays hold

A block is a proper array of a memory if it has a cell of the memory for each of its entries, and no
two entries share a cell (`Block.Proper`). What is stored in such a block is read from it again,
rounded to the element type (`Memory.read_store`); blocks that have no cell in common with it hold
what they held before (`Memory.read_store_of_disjoint`).
-/

namespace Summand

variable {α : Type}

/-- The cells of a block are different cells of the memory, as many as its shape has entries. -/
structure Block.Proper (m : Memory α) (b : Block) : Prop where
  nodup : b.cells.Nodup
  lt : ∀ a ∈ b.cells, a < m.cells.size
  volume : b.cells.length = Grid.volume b.shape

/-- A proper array has a cell for each place of its sizes. -/
theorem Block.Proper.length_eq_volume {m : Memory α} {b : Block} (h : b.Proper m) :
    b.cells.length = Grid.volume (b.sizes.map Int.toNat) := by
  have hshape : b.sizes.map Int.toNat = b.shape := by
    rw [Block.sizes, List.map_map]
    exact List.map_id b.shape
  rw [hshape, h.volume]

/-- A proper row has a cell for each place of a vector of its size. -/
theorem Block.Proper.length_of_sizes {m : Memory α} {b : Block} (h : b.Proper m) {n : Int}
    (hsizes : b.sizes = [n]) : b.cells.length = n.toNat := by
  rw [h.length_eq_volume, hsizes]
  simp [Grid.volume]

/-- Blocks have no cell in common. -/
def Block.Disjoint (b c : Block) : Prop := ∀ a ∈ b.cells, a ∉ c.cells

instance (b c : Block) : Decidable (b.Disjoint c) :=
  inferInstanceAs (Decidable (∀ a ∈ b.cells, a ∉ c.cells))

namespace Memory

variable [Storable α]

@[simp] theorem size_writeCells (element : ElementType) (addresses : List Nat) (values : List α)
    (cells : Array α) : (writeCells element addresses values cells).size = cells.size := by
  fun_induction writeCells element addresses values cells <;> simp_all

/-- Cells that are not written keep what they hold. -/
theorem getD_writeCells_of_notMem {element : ElementType} {addresses : List Nat} {values : List α}
    {cells : Array α} {a : Nat} (h : a ∉ addresses) (d : α) :
    (writeCells element addresses values cells).getD a d = cells.getD a d := by
  fun_induction writeCells element addresses values cells with
  | case1 b addresses v values cells ih =>
    obtain ⟨hne, hnot⟩ : a ≠ b ∧ a ∉ addresses := by simpa using h
    rw [ih hnot]
    simp [Array.getD_eq_getD_getElem?, Array.getElem?_setIfInBounds_ne (Ne.symm hne)]
  | case2 => rfl

/-- Different cells hold the values that are written to them. -/
theorem map_getD_writeCells {element : ElementType} {addresses : List Nat} {values : List α}
    {cells : Array α} (hnodup : addresses.Nodup) (hlt : ∀ a ∈ addresses, a < cells.size)
    (hlength : values.length = addresses.length) (d : α) :
    addresses.map (fun a ↦ (writeCells element addresses values cells).getD a d) =
      values.map (Storable.narrow element) := by
  induction addresses generalizing values cells with
  | nil =>
    obtain rfl := List.length_eq_zero_iff.1 hlength
    rfl
  | cons a addresses ih =>
    obtain - | ⟨v, values⟩ := values
    · simp at hlength
    obtain ⟨hnot, hnodup⟩ := List.nodup_cons.1 hnodup
    have ha := hlt a List.mem_cons_self
    -- The writes that follow go to other cells, so the first value is there in the end.
    have hhead : (writeCells element addresses values
        (cells.setIfInBounds a (Storable.narrow element v))).getD a d =
          Storable.narrow element v := by
      rw [getD_writeCells_of_notMem hnot]
      simp [Array.getD_eq_getD_getElem?, ha]
    rw [List.map_cons, List.map_cons, writeCells, hhead]
    exact congrArg _ (ih hnodup (fun b hb ↦ by
      simpa using hlt b (List.mem_cons_of_mem a hb)) (by simpa using hlength))

variable [Zero α] {m : Memory α} {b c : Block} {values : List α}

/-- A proper array holds what has been stored in it. -/
theorem read_store (h : b.Proper m) (hlength : values.length = b.cells.length) :
    (m.store b values).read b = values.map (Storable.narrow b.element) :=
  map_getD_writeCells h.nodup h.lt hlength 0

omit [Zero α] in
/-- Storing moves no array. -/
theorem proper_store (h : b.Proper m) : b.Proper (m.store c values) :=
  ⟨h.nodup, fun a ha ↦ by simpa [store] using h.lt a ha, h.volume⟩

omit [Storable α] [Zero α] in
/-- A target that there is becomes what it is made. -/
theorem target_setTarget {position : Nat} (h : position < m.targets.size)
    (target : HessianTarget α) : (m.setTarget position target).target position = target := by
  simp [Memory.target, setTarget, Array.getD_eq_getD_getElem?, h]

/-- An array holds what it held before another one was stored in. -/
theorem read_store_of_disjoint (h : b.Disjoint c) : (m.store c values).read b = m.read b :=
  List.map_congr_left fun a ha ↦ getD_writeCells_of_notMem (h a ha) 0

end Memory

end Summand
