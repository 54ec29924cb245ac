import Summand.Proofs.CompressedColumns

/-!
# Sorting loses nothing

Long columns are split and sorted by exchanges in place (`Arrangement.arrange`). Whatever the
exchanges do to the order, entries are neither lost nor made up: every step only swaps two of them.
So a matrix may be assembled of columns that are arranged so, or left as they are
(`Arrangement.permutes_arrangeAll`, `SparseMatrix.permutes_id`). Short columns are not split at all
(`Arrangement.keepsUpTo_arrangeAll`).
-/

namespace Summand

variable {α : Type}

theorem SparseMatrix.permutes_id : Permutes (id : List (List (Nat × α)) → List (List (Nat × α))) :=
  fun _ ↦ List.forall₂_same.2 fun _ _ ↦ .refl _

namespace Arrangement

theorem perm_swapIfInBounds (a : Array (Nat × α)) (i j : Nat) :
    (a.swapIfInBounds i j).toList.Perm a.toList := by
  unfold Array.swapIfInBounds
  split
  · split
    · exact (Array.swap_perm _ _).toList
    · exact .refl _
  · exact .refl _

/-! ### Splitting -/

theorem perm_exchange (pivot steps first last : Nat) (a : Array (Nat × α)) :
    (exchange pivot steps first last a).1.toList.Perm a.toList := by
  induction steps generalizing first last a with
  | zero => exact .refl _
  | succ steps ih =>
    rw [exchange]
    split
    · exact (ih _ _ _).trans (perm_swapIfInBounds a _ _)
    · exact .refl _

/-! ### Heaps -/

theorem perm_sink (first count node : Nat) (a : Array (Nat × α)) :
    (sink first count node a).1.toList.Perm a.toList := by
  induction node, a using sink.induct first count with
  | case1 node a hlt child ih =>
    rw [sink, if_pos hlt]
    exact ih.trans (perm_swapIfInBounds a _ _)
  | case2 node a hlt =>
    rw [sink, if_neg hlt]

theorem perm_rise (first top node : Nat) (a : Array (Nat × α)) :
    (rise first top node a).toList.Perm a.toList := by
  induction node, a using rise.induct first top with
  | case1 node a parent hup ih =>
    rw [rise, if_pos hup]
    exact ih.trans (perm_swapIfInBounds a _ _)
  | case2 node a parent hup =>
    rw [rise, if_neg hup]

theorem perm_settle (first count node : Nat) (a : Array (Nat × α)) :
    (settle first count node a).toList.Perm a.toList :=
  (perm_rise first node _ _).trans (perm_sink first count node a)

/-- Steps that permute permute together. -/
theorem perm_foldr {step : Nat → Array (Nat × α) → Array (Nat × α)}
    (hstep : ∀ k a, (step k a).toList.Perm a.toList) (a : Array (Nat × α)) (ks : List Nat) :
    (ks.foldr step a).toList.Perm a.toList := by
  induction ks with
  | nil => exact .refl _
  | cons k ks ih => exact (hstep k _).trans ih

theorem perm_heapSort (first count : Nat) (a : Array (Nat × α)) :
    (heapSort first count a).toList.Perm a.toList := by
  have hheap : (heapify first count a).toList.Perm a.toList :=
    perm_foldr (perm_settle first count) a _
  refine (perm_foldr (fun k b ↦ ?_) _ _).trans hheap
  exact (perm_settle first (k + 1) 0 _).trans (perm_swapIfInBounds b _ _)

/-! ### Columns -/

theorem perm_split (depth first last : Nat) (a : Array (Nat × α)) :
    (split depth first last a).toList.Perm a.toList := by
  induction depth generalizing first last a with
  | zero =>
    rw [split]
    split
    · exact .refl _
    · exact perm_heapSort _ _ _
  | succ depth ih =>
    rw [split]
    split
    · exact .refl _
    · have hpivot : (pivotToFront first last a).toList.Perm a.toList := perm_swapIfInBounds a _ _
      have hparts := perm_exchange (rowAt (pivotToFront first last a) first)
        (pivotToFront first last a).size (first + 1) last (pivotToFront first last a)
      exact ((ih _ _ _).trans (ih _ _ _)).trans (hparts.trans hpivot)

theorem permutes_arrangeAll :
    SparseMatrix.Permutes (arrangeAll : List (List (Nat × α)) → List (List (Nat × α))) := by
  intro columns
  rw [arrangeAll]
  split
  · exact List.forall₂_same.2 fun _ _ ↦ .refl _
  · refine List.forall₂_map_right_iff.2 (List.forall₂_same.2 fun column _ ↦ ?_)
    exact perm_split _ _ _ column.toArray

/-- A short column is left as it is. -/
theorem arrange_of_length_le {column : List (Nat × α)} (h : column.length ≤ shortLength) :
    arrange column = column := by
  rw [arrange]
  cases 2 * Nat.log2 column.length <;> rw [split, Nat.sub_zero, if_pos h]

theorem keepsUpTo_arrangeAll : SparseMatrix.KeepsUpTo shortLength
    (arrangeAll : List (List (Nat × α)) → List (List (Nat × α))) := by
  intro columns
  rw [arrangeAll]
  split
  · exact List.forall₂_same.2 fun _ _ _ _ ↦ rfl
  · refine List.forall₂_map_right_iff.2 (List.forall₂_same.2 fun column _ hlength row ↦ ?_)
    rw [arrange_of_length_le hlength]

end Arrangement

end Summand
