import Mathlib.Algebra.BigOperators.Fin
import Mathlib.Algebra.BigOperators.Ring.Finset
import Mathlib.Data.List.GetD
import Summand.Objective.Evaluation
import Summand.Proofs.ChainRule

/-!
# Matrices as bilinear forms

A matrix of second derivatives is used by its products with two directions (`Buffer.bilinear`), and
it is told by them: products with unit vectors are its entries (`Buffer.bilinear_unit`). A block
that is added to a place of a matrix adds the product of the block with the parts of the directions
at that place (`Buffer.bilinear_addBlock`), wherever other blocks have been added. So sums of many
blocks that overlap are sums of products. A transposed block has the products with the directions
exchanged (`Buffer.bilinear_transposed`), and a matrix that has the same products for exchanged
directions is symmetric (`Buffer.Shaped.transposed_self`).
-/

namespace Summand

variable {α β γ : Type}

namespace Buffer

/-- An entry of a matrix. -/
def entry [Zero α] (m : List (List α)) (i j : Nat) : α := (m.getD i []).getD j 0

/-- A matrix has the entries of another one with rows and columns exchanged. -/
def Transposed [Zero α] (m m' : List (List α)) : Prop := ∀ i j, entry m i j = entry m' j i

/-- The vector of a length that is one at a position and zero elsewhere. -/
def unit [Zero α] [One α] (n i : Nat) : List α := (zeros n).set i 1

@[simp] theorem length_unit [Zero α] [One α] (n i : Nat) : (unit n i : List α).length = n := by
  rw [unit, List.length_set, length_zeros]

/-- The product of a matrix with two directions. -/
def bilinear [Zero α] [Add α] [Mul α] (d : List α) (m : List (List α)) (e : List α) : α :=
  dot d (m.map (dot · e))

/-! ### Changes of a part -/

/-- A part is changed in the image of a vector as it is in the vector. -/
theorem map_combinePart {β' γ' : Type} {f : β → γ → β} {f' : β' → γ' → β'} {g : β → β'} {k : γ → γ'}
    {v : List β} {w : List γ} (h : ∀ x ∈ v, ∀ y ∈ w, g (f x y) = f' (g x) (k y)) (offset : Nat) :
    (combinePart f offset w v).map g = combinePart f' offset (w.map k) (v.map g) := by
  fun_induction combinePart f offset w v with
  | case1 => rfl
  | case2 offset v =>
    rw [List.map_nil]
    cases v <;> cases offset <;> rfl
  | case3 x v y w ih =>
    rw [List.map_cons, h x List.mem_cons_self y List.mem_cons_self]
    exact congrArg _ (ih fun x hx y hy ↦
      h x (List.mem_cons_of_mem _ hx) y (List.mem_cons_of_mem _ hy))
  | case4 offset x v w hw ih =>
    obtain - | ⟨y, w⟩ := w
    · exact absurd rfl hw
    · exact congrArg _ (ih fun x hx y hy ↦ h x (List.mem_cons_of_mem _ hx) y hy)

/-- A change of a part keeps what the change of every entry keeps. -/
theorem map_combinePart_of_keep {δ : Type} {f : β → γ → β} {g : β → δ} (h : ∀ x y, g (f x y) = g x)
    (offset : Nat) (w : List γ) (v : List β) : (combinePart f offset w v).map g = v.map g := by
  fun_induction combinePart f offset w v <;> simp_all

section Rows

variable {m : List (List α)} {r c i : Nat}

theorem Shaped.length_row (hm : Shaped r c m) (hi : i < r) : (m.getD i []).length = c := by
  have hi : i < m.length := hm.rows.symm ▸ hi
  rw [List.getD_eq_getElem?_getD, List.getElem?_eq_getElem hi]
  exact hm.columns _ (List.getElem_mem hi)

/-- Where a matrix has no entries there are zeros. -/
theorem Shaped.entry_eq_zero [Zero α] (hm : Shaped r c m) {j : Nat} (h : ¬ (i < r ∧ j < c)) :
    entry m i j = 0 := by
  rw [entry]
  by_cases hi : i < r
  · have hrow := hm.length_row hi
    exact List.getD_eq_default _ _ (by omega)
  · have hrows := hm.rows
    rw [List.getD_eq_default m [] (by omega)]
    rfl

theorem Shaped.getD_map [Zero α] (hm : Shaped r c m) (f : List α → α) (hi : i < r) :
    (m.map f).getD i 0 = f (m.getD i []) := by
  have hi : i < m.length := hm.rows.symm ▸ hi
  rw [List.getD_eq_getElem?_getD, List.getD_eq_getElem?_getD, List.getElem?_map,
    List.getElem?_eq_getElem hi]
  rfl

end Rows

section Products

variable [CommSemiring α]

theorem dot_comm (v w : List α) : dot v w = dot w v := by
  rw [dot, dot, List.zipWith_comm_of_comm mul_comm]

/-- What is added to a part of a vector adds its product with that part of a direction. -/
theorem dot_combinePart {offset : Nat} {w v e : List α} (h : offset + w.length ≤ v.length)
    (he : e.length = v.length) :
    dot (combinePart (· + ·) offset w v) e = dot v e + dot w (part offset w.length e) := by
  fun_induction combinePart (· + ·) offset w v generalizing e with
  | case1 offset w =>
    have hw : w.length = 0 := by
      rw [List.length_nil] at h
      omega
    rw [List.length_eq_zero_iff.1 hw]
    simp [dot]
  | case2 => simp [dot]
  | case3 x v y w ih =>
    obtain - | ⟨c, e⟩ := e
    · simp at he
    have hrest := ih (e := e) (by simpa using h) (by simpa using he)
    simp only [dot, part, List.drop_zero, List.zipWith_cons_cons, List.sum_cons, List.length_cons,
      List.take_succ_cons] at hrest ⊢
    rw [hrest, add_mul, add_add_add_comm]
  | case4 offset x v w hw ih =>
    obtain - | ⟨c, e⟩ := e
    · simp at he
    have hrest := ih (e := e) (by simp at h; omega) (by simpa using he)
    simp only [dot, part, List.zipWith_cons_cons, List.sum_cons, List.drop_succ_cons] at hrest ⊢
    rw [hrest, ← AddSemigroup.add_assoc]

theorem dot_eq_sum {n : Nat} {v w : List α} (hv : v.length = n) (hw : w.length = n) :
    dot v w = ∑ i ∈ Finset.range n, v.getD i 0 * w.getD i 0 := by
  induction n generalizing v w with
  | zero =>
    rw [List.length_eq_zero_iff.1 hv]
    rfl
  | succ n ih =>
    obtain - | ⟨a, v⟩ := v
    · simp at hv
    obtain - | ⟨b, w⟩ := w
    · simp at hw
    have hrest := ih (v := v) (w := w) (by simpa using hv) (by simpa using hw)
    rw [Finset.sum_range_succ', add_comm]
    simp only [dot, List.zipWith_cons_cons, List.sum_cons, List.getD_cons_succ,
      List.getD_cons_zero] at hrest ⊢
    rw [hrest]

theorem dot_unit {n i : Nat} {v : List α} (hv : v.length = n) (hi : i < n) :
    dot (unit n i) v = v.getD i 0 := by
  rw [dot_eq_sum (length_unit n i) hv, Finset.sum_eq_single i]
  · simp [unit, hi]
  · intro j _ hj
    have hzero : (unit n i : List α).getD j 0 = 0 := by
      rw [unit, List.getD_eq_getElem?_getD, List.getElem?_set_ne hj.symm, getElem?_zeros]
      split <;> rfl
    rw [hzero, zero_mul]
  · intro hnot
    exact absurd (Finset.mem_range.2 hi) hnot

/-! ### Products of a matrix -/

variable {d e : List α} {m : List (List α)} {r c n : Nat}

theorem bilinear_zeros_left (n : Nat) (m : List (List α)) (e : List α) :
    bilinear (zeros n) m e = 0 := dot_zeros n _

theorem bilinear_zeros_right (n : Nat) (d : List α) (m : List (List α)) :
    bilinear d m (zeros n) = 0 := by
  have hzero : (dot · (zeros n : List α)) = fun _ ↦ 0 := by
    funext row
    rw [dot_comm, dot_zeros]
  have hzeros : m.map (fun _ ↦ (0 : α)) = zeros m.length := List.map_const'
  rw [bilinear, hzero, hzeros, dot_comm, dot_zeros]

theorem bilinear_zeroMatrix (r c : Nat) (d e : List α) : bilinear d (zeroMatrix r c) e = 0 := by
  have hzeros : (zeroMatrix r c).map (dot · e) = zeros r := by
    rw [zeroMatrix, List.map_replicate, dot_zeros, zeros]
  rw [bilinear, hzeros, dot_comm, dot_zeros]

/-- A matrix has the sum of its entries, each multiplied by an entry of either direction. -/
theorem bilinear_eq_sum (hm : Shaped r c m) (hd : d.length = r) (he : e.length = c) :
    bilinear d m e =
      ∑ i ∈ Finset.range r, ∑ j ∈ Finset.range c, d.getD i 0 * (entry m i j * e.getD j 0) := by
  rw [bilinear, dot_eq_sum hd ((List.length_map _).trans hm.rows)]
  refine Finset.sum_congr rfl fun i hi ↦ ?_
  have hi := Finset.mem_range.1 hi
  rw [hm.getD_map _ hi, dot_eq_sum (hm.length_row hi) he, Finset.mul_sum]
  rfl

/-- Products with unit vectors are entries. -/
theorem bilinear_unit (hm : Shaped r c m) {i j : Nat} (hi : i < r) (hj : j < c) :
    bilinear (unit r i) m (unit c j) = entry m i j := by
  rw [bilinear, dot_unit ((List.length_map _).trans hm.rows) hi, hm.getD_map _ hi, dot_comm,
    dot_unit (hm.length_row hi) hj]
  rfl

/-- A transposed matrix has the products with the directions exchanged. -/
theorem bilinear_transposed {m' : List (List α)} (hm : Shaped r c m) (hm' : Shaped c r m')
    (h : Transposed m m') (hd : d.length = r) (he : e.length = c) :
    bilinear d m e = bilinear e m' d := by
  rw [bilinear_eq_sum hm hd he, bilinear_eq_sum hm' he hd, Finset.sum_comm]
  refine Finset.sum_congr rfl fun j _ ↦ Finset.sum_congr rfl fun i _ ↦ ?_
  rw [h i j, mul_comm, mul_comm (entry m' j i), mul_assoc]

/-- A matrix that has the same products for exchanged directions is symmetric. -/
theorem Shaped.transposed_self (hm : Shaped n n m) (h : ∀ d e : List α, d.length = n →
    e.length = n → bilinear d m e = bilinear e m d) : Transposed m m := by
  intro i j
  by_cases hij : i < n ∧ j < n
  · rw [← bilinear_unit hm hij.1 hij.2, ← bilinear_unit hm hij.2 hij.1]
    exact h _ _ (length_unit n i) (length_unit n j)
  · rw [hm.entry_eq_zero hij, hm.entry_eq_zero (mt And.symm hij)]

/-- A part of a unit vector in which its one does not lie is zero. -/
theorem part_unit {offset count i : Nat} (h : offset + count ≤ n)
    (hi : ¬ (offset ≤ i ∧ i < offset + count)) :
    part offset count (unit n i : List α) = zeros count := by
  apply List.ext_getElem?
  intro k
  rw [getElem?_part, getElem?_zeros]
  by_cases hk : k < count
  · rw [if_pos hk, if_pos hk, unit, List.getElem?_set_ne (by omega), getElem?_zeros,
      if_pos (by omega)]
  · rw [if_neg hk, if_neg hk]

end Products

end Buffer

/-! ### Blocks that are added -/

section Blocks

open Buffer Objective

variable [CommSemiring α] [Storable α] {r c n : Nat} {m : List (List α)}

theorem Objective.shaped_addBlock (hm : Shaped r c m) (element : ElementType) (row column : Nat)
    (block : List (List α)) : Shaped r c (addBlock element row column block m) := by
  have hlengths := map_combinePart_of_keep (fun (x y : List α) ↦ length_combinePart
    (fun a b ↦ Storable.narrow element (a + b)) column y x) row block m
  exact shaped_iff.2 (hlengths.trans (shaped_iff.1 hm))

/-- A block that is added to a place of a matrix adds its product with the parts of the directions
there. -/
theorem Objective.bilinear_addBlock [ExactStorage α] (element : ElementType) {row column : Nat}
    {block : List (List α)} {d e : List α} (hm : Shaped n n m) (hblock : Shaped r c block)
    (hrow : row + r ≤ n) (hcolumn : column + c ≤ n) (hd : d.length = n) (he : e.length = n) :
    bilinear d (addBlock element row column block m) e =
      bilinear d m e + bilinear (part row r d) block (part column c e) := by
  have hnarrow : (fun a b : α ↦ Storable.narrow element (a + b)) = (· + ·) := by
    funext a b
    exact ExactStorage.narrow_eq element (a + b)
  -- The products of the rows with the second direction change as the rows do.
  have hrows : (addBlock element row column block m).map (dot · e) =
      combinePart (· + ·) row (block.map (dot · (part column c e))) (m.map (dot · e)) := by
    rw [addBlock, hnarrow]
    refine map_combinePart (fun x hx y hy ↦ ?_) row
    have hx := hm.columns x hx
    have hy := hblock.columns y hy
    show dot (combinePart (· + ·) column y x) e = _
    rw [dot_combinePart (by omega) (by omega), hy]
  have hlength : (block.map (dot · (part column c e))).length = r := by
    rw [List.length_map, hblock.rows]
  have hlength' : (m.map (dot · e)).length = n := by
    rw [List.length_map, hm.rows]
  rw [bilinear, hrows, dot_comm, dot_combinePart (by omega) (by omega), hlength, dot_comm,
    dot_comm (block.map _)]
  rfl

end Blocks

end Summand
