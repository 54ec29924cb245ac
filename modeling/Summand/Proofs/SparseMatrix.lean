import Summand.Proofs.Listing
import Summand.Sparse

/-!
# The full matrix of a sparse one

A sparse matrix that has been assembled from coordinates and values stands for the full matrix that
has, at each place, the sum of the values of that coordinate from the left
(`SparseMatrix.toRows_assemble`). For that the arrangement of the columns must keep the order of the
entries of each row (`SparseMatrix.KeepsOrder`); sorting keeps it, since it is stable.
-/

namespace Summand.SparseMatrix

variable {α : Type}

/-! ### Columns -/

/-- The entries of a column, in order. -/
def columnAt (j : Nat) (entries : List ((Nat × Nat) × α)) : List (Nat × α) :=
  entries.filterMap fun e ↦ if e.1.2 = j then some (e.1.1, e.2) else none

theorem columnAt_cons_self (i j : Nat) (v : α) (entries : List ((Nat × Nat) × α)) :
    columnAt j (((i, j), v) :: entries) = (i, v) :: columnAt j entries := by
  simp [columnAt]

theorem columnAt_cons_of_ne {j j' : Nat} (h : j' ≠ j) (i : Nat) (v : α)
    (entries : List ((Nat × Nat) × α)) :
    columnAt j (((i, j'), v) :: entries) = columnAt j entries := by
  simp [columnAt, h]

theorem columnsOf_eq (size : Nat) (entries : List ((Nat × Nat) × α)) :
    columnsOf size entries = (List.range size).map (columnAt · entries) := by
  induction entries with
  | nil =>
    simp only [columnsOf, columnAt, List.foldr_nil, List.filterMap_nil]
    rw [List.map_const', List.length_range]
    simp
  | cons e entries ih =>
    obtain ⟨⟨i, j⟩, v⟩ := e
    -- The entry is put at the front of its own column; the other columns stay as they are.
    rw [columnsOf, List.foldr_cons, Array.toList_modify, ← columnsOf, ih]
    apply List.ext_getElem?
    intro k
    rw [List.getElem?_modify, List.getElem?_map, List.getElem?_map]
    rcases Nat.lt_or_ge k size with hk | hk
    · rw [List.getElem?_range hk]
      by_cases hjk : j = k
      · subst hjk
        simp [columnAt_cons_self]
      · simp [columnAt_cons_of_ne hjk, hjk]
    · rw [List.getElem?_eq_none (by simpa using hk)]
      rfl

/-- What a column has in a row is what the matrix has there. -/
theorem valuesAt_columnAt (i j : Nat) (entries : List ((Nat × Nat) × α)) :
    valuesAt i (columnAt j entries) = valuesAt (i, j) entries := by
  induction entries with
  | nil => rfl
  | cons e entries ih =>
    obtain ⟨⟨i', j'⟩, v⟩ := e
    by_cases hj : j' = j
    · subst hj
      rw [columnAt_cons_self]
      by_cases hi : i' = i
      · rw [hi, valuesAt_cons_self, valuesAt_cons_self, ih]
      · rw [valuesAt_cons_of_ne hi, valuesAt_cons_of_ne (by simp [hi]), ih]
    · rw [columnAt_cons_of_ne hj, valuesAt_cons_of_ne (by simp [hj]), ih]

/-- An arrangement of columns keeps the order of the entries of each row. -/
def KeepsOrder (arrangement : List (List (Nat × α)) → List (List (Nat × α))) : Prop :=
  ∀ columns, List.Forall₂ (fun column arranged ↦ ∀ row, valuesAt row arranged = valuesAt row column)
    columns (arrangement columns)

/-! ### Sorting -/

theorem pairwise_mergeSort_rows (column : List (Nat × α)) :
    (column.mergeSort fun e f ↦ e.1 ≤ f.1).Pairwise fun e f ↦ e.1 ≤ f.1 := by
  have h : (column.mergeSort fun e f ↦ e.1 ≤ f.1).Pairwise fun e f ↦ decide (e.1 ≤ f.1) = true :=
    List.pairwise_mergeSort (fun _ _ _ h h' ↦ by simp only [decide_eq_true_eq] at *; omega)
      (fun _ _ ↦ by simp only [Bool.or_eq_true, decide_eq_true_eq]; omega) column
  simpa using h

/-- Sorting is stable: it keeps the order of the entries of each row. -/
theorem valuesAt_mergeSort (i : Nat) (column : List (Nat × α)) :
    valuesAt i (column.mergeSort fun e f ↦ e.1 ≤ f.1) = valuesAt i column := by
  set sorted := column.mergeSort fun e f ↦ e.1 ≤ f.1 with hsorted
  -- The entries of one row are in order already, so they stand in the same order when sorted.
  have hrow : (column.filter (·.1 = i)).Pairwise fun e f ↦ decide (e.1 ≤ f.1) = true := by
    apply List.pairwise_iff_forall_sublist.2
    intro e f hsub
    have he := List.of_mem_filter (hsub.subset List.mem_cons_self)
    have hf := List.of_mem_filter (hsub.subset (List.mem_cons_of_mem e List.mem_cons_self))
    simp only [decide_eq_true_eq] at *
    omega
  have hsub : (column.filter (·.1 = i)).Sublist sorted :=
    List.sublist_mergeSort
      (fun _ _ _ h h' ↦ by simp only [decide_eq_true_eq] at *; omega)
      (fun _ _ ↦ by simp only [Bool.or_eq_true, decide_eq_true_eq]; omega) hrow
      List.filter_sublist
  have hfilter : (column.filter (·.1 = i)).Sublist (sorted.filter (·.1 = i)) := by
    have := hsub.filter (·.1 = i)
    rwa [List.filter_filter, List.filter_congr fun e _ ↦ Bool.and_self _] at this
  -- Nothing else is in that row after sorting, for there are as many entries as before.
  have hlength : (column.filter (·.1 = i)).length = (sorted.filter (·.1 = i)).length :=
    ((List.mergeSort_perm column _).filter _).length_eq.symm
  rw [valuesAt_eq_map_filter, valuesAt_eq_map_filter, hfilter.eq_of_length hlength]

/-! ### Runs -/

/-- Rows ascend, and none occurs twice. -/
def Ascends (column : List (Nat × α)) : Prop := column.Pairwise fun e f ↦ e.1 < f.1

section AddRuns

variable [Add α]

/-- Adding up brings in no row. -/
theorem mem_addRuns {row : Nat} {sum : α} {rest : List (Nat × α)} {e : Nat × α}
    (he : e ∈ addRuns row sum rest) : e.1 = row ∨ ∃ f ∈ rest, f.1 = e.1 := by
  fun_induction addRuns row sum rest with
  | case1 row sum =>
    rw [List.mem_singleton.1 he]
    exact .inl rfl
  | case2 sum row v rest ih =>
    rcases ih he with h | ⟨f, hf, h⟩
    · exact .inl h
    · exact .inr ⟨f, List.mem_cons_of_mem _ hf, h⟩
  | case3 row sum r v rest hne ih =>
    rcases List.mem_cons.1 he with rfl | he
    · exact .inl rfl
    rcases ih he with h | ⟨f, hf, h⟩
    · exact .inr ⟨_, List.mem_cons_self, h.symm⟩
    · exact .inr ⟨f, List.mem_cons_of_mem _ hf, h⟩

theorem ascends_addRuns {row : Nat} {sum : α} {rest : List (Nat × α)}
    (h : ((row, sum) :: rest).Pairwise fun e f ↦ e.1 ≤ f.1) : Ascends (addRuns row sum rest) := by
  fun_induction addRuns row sum rest with
  | case1 row sum => exact List.pairwise_singleton _ _
  | case2 sum row v rest ih => exact ih (List.pairwise_cons.2 (List.pairwise_cons.1 h.of_cons))
  | case3 row sum r v rest hne ih =>
    obtain ⟨hle, hrest⟩ := List.pairwise_cons.1 h
    have hlt : row < r := by
      have := hle _ List.mem_cons_self
      dsimp only at this
      omega
    refine List.pairwise_cons.2 ⟨?_, ih hrest⟩
    intro e he
    rcases mem_addRuns he with h | ⟨f, hf, h⟩
    · dsimp only
      omega
    · have := (List.pairwise_cons.1 hrest).1 f hf
      dsimp only at this ⊢
      omega

/-- Of each row one value is left. -/
theorem valuesAt_addRuns {row : Nat} {sum : α} {rest : List (Nat × α)}
    (h : ((row, sum) :: rest).Pairwise fun e f ↦ e.1 ≤ f.1) (i : Nat) :
    valuesAt i (addRuns row sum rest) = addedUp (valuesAt i ((row, sum) :: rest)) := by
  fun_induction addRuns row sum rest with
  | case1 row sum =>
    by_cases hi : row = i
    · subst hi
      rw [valuesAt_cons_self]
      rfl
    · rw [valuesAt_cons_of_ne hi]
      rfl
  | case2 sum row v rest ih =>
    rw [ih (List.pairwise_cons.2 (List.pairwise_cons.1 h.of_cons))]
    by_cases hi : row = i
    · subst hi
      rw [valuesAt_cons_self, valuesAt_cons_self, valuesAt_cons_self]
      rfl
    · rw [valuesAt_cons_of_ne hi, valuesAt_cons_of_ne hi, valuesAt_cons_of_ne hi]
  | case3 row sum r v rest hne ih =>
    by_cases hi : row = i
    · -- The row has come to its end, so that nothing is added to the sum any more.
      subst hi
      have hascends := ascends_addRuns h
      rw [addRuns, if_neg hne] at hascends
      have hadded : valuesAt row (addRuns r v rest) = [] := valuesAt_eq_nil fun e he ↦
        Nat.ne_of_gt ((List.pairwise_cons.1 hascends).1 e he)
      have hlater : valuesAt row ((r, v) :: rest) = [] := valuesAt_eq_nil fun e he ↦ by
        have hr : row ≤ r := (List.pairwise_cons.1 h).1 _ List.mem_cons_self
        rcases List.mem_cons.1 he with rfl | he
        · exact hne
        · have hre : r ≤ e.1 := (List.pairwise_cons.1 h.of_cons).1 e he
          omega
      rw [valuesAt_cons_self, valuesAt_cons_self, hadded, hlater]
      rfl
    · rw [valuesAt_cons_of_ne hi, valuesAt_cons_of_ne hi, ih h.of_cons]

/-- A column that has been added up ascends. -/
theorem ascends_addUp (column : List (Nat × α)) : Ascends (addUp column) := by
  have hsorted := pairwise_mergeSort_rows column
  rw [addUp]
  generalize column.mergeSort (fun e f ↦ decide (e.1 ≤ f.1)) = sorted at hsorted ⊢
  rcases sorted with - | ⟨⟨row, value⟩, rest⟩
  · exact .nil
  · exact ascends_addRuns hsorted

/-- A column that has been added up has the values of each row added up. -/
theorem valuesAt_addUp (column : List (Nat × α)) (i : Nat) :
    valuesAt i (addUp column) = addedUp (valuesAt i column) := by
  have hsorted := pairwise_mergeSort_rows column
  rw [← valuesAt_mergeSort i column, addUp]
  generalize column.mergeSort (fun e f ↦ decide (e.1 ≤ f.1)) = sorted at hsorted ⊢
  rcases sorted with - | ⟨⟨row, value⟩, rest⟩
  · rfl
  · exact valuesAt_addRuns hsorted i

end AddRuns

/-! ### Full columns and rows -/

/-- The columns of a matrix that is made of columns. -/
theorem columns_ofColumns (columns : List (List (Nat × α))) :
    (ofColumns columns).columns = columns := by
  have key (total : Nat) : splitColumns (starts total columns) columns.flatten = columns := by
    induction columns generalizing total with
    | nil => rfl
    | cons column columns ih =>
      have hrest := ih (total + column.length)
      cases columns with
      | nil => simp [starts, splitColumns]
      | cons next rest =>
        simp only [starts, splitColumns, List.flatten_cons, Nat.add_sub_cancel_left] at hrest ⊢
        rw [List.take_left, List.drop_left, hrest]
  rw [SparseMatrix.columns, ofColumns]
  dsimp only
  rw [← key 0, key 0, ← List.unzip_fst, ← List.unzip_snd, List.zip_unzip]
  exact key 0

section Full

variable [Zero α] [Add α]

/-- A full column has the sum of each row. -/
theorem spread_eq {column : List (Nat × α)} (h : Ascends column) (count row : Nat)
    (hrow : ∀ e ∈ column, row ≤ e.1) : spread count row column =
      (List.range' row count).map fun i ↦ leftSum (valuesAt i column) := by
  induction count generalizing row column with
  | zero => rfl
  | succ count ih =>
    rw [List.range'_succ, List.map_cons]
    rcases column with - | ⟨⟨r, v⟩, rest⟩
    · rw [spread, ih h (row + 1) (by simp)]
      rfl
    · obtain ⟨hlt, hrest⟩ := List.pairwise_cons.1 h
      have hle : row ≤ r := hrow _ List.mem_cons_self
      rw [spread]
      by_cases hr : r = row
      · -- The first entry is the one of this row, and the others belong further down.
        subst hr
        have hlater : valuesAt r rest = [] := valuesAt_eq_nil fun e he ↦ Nat.ne_of_gt (hlt e he)
        rw [if_pos rfl, ih hrest (r + 1) hlt, valuesAt_cons_self, hlater]
        refine congrArg (_ :: ·) (List.map_congr_left fun i hi ↦ ?_)
        have := List.mem_range'_1.1 hi
        rw [valuesAt_cons_of_ne (by omega)]
      · -- The column has nothing in this row, which is above all of its entries.
        have hnone : valuesAt row ((r, v) :: rest) = [] := valuesAt_eq_nil fun e he ↦ by
          rcases List.mem_cons.1 he with rfl | he
          · exact hr
          · have := hlt e he
            dsimp only at this
            omega
        rw [if_neg hr, ih h (row + 1) fun e he ↦ ?_, hnone, leftSum_nil]
        rcases List.mem_cons.1 he with rfl | he
        · dsimp only
          omega
        · have := hlt e he
          dsimp only at this
          omega

omit [Zero α] [Add α] in
/-- Columns of one height, put side by side. -/
theorem foldr_zipWith_cons {β : Type} (n : Nat) (f : β → Nat → α) (columns : List β) :
    (columns.map fun c ↦ (List.range n).map (f c)).foldr (List.zipWith List.cons)
      (List.replicate n []) = (List.range n).map fun i ↦ columns.map fun c ↦ f c i := by
  induction columns with
  | nil => simp [List.map_const']
  | cons c columns ih =>
    rw [List.map_cons, List.foldr_cons, ih, List.zipWith_map, List.zipWith_self]
    rfl

/-- The full matrix of ascending columns has the sums of their rows. -/
theorem toRows_ofColumns {columns : List (List (Nat × α))} (h : ∀ c ∈ columns, Ascends c) :
    (ofColumns columns).toRows = (List.range columns.length).map fun i ↦
      columns.map fun c ↦ leftSum (valuesAt i c) := by
  rw [toRows, columns_ofColumns, ← foldr_zipWith_cons]
  refine congrArg (List.foldr _ _) (List.map_congr_left fun c hc ↦ ?_)
  rw [spread_eq (h c hc) _ 0 (by simp), List.range_eq_range']
  rfl

/-- The full matrix of a sparse one that has been assembled has the sums of the coordinates'
values. -/
theorem toRows_assemble (hzero : ∀ v : α, 0 + v = v)
    {arrangement : List (List (Nat × α)) → List (List (Nat × α))} (h : KeepsOrder arrangement)
    (size : Nat) (coordinates : List (Nat × Nat)) (values : List α) :
    (assemble arrangement size coordinates values).toRows =
      square size fun i j ↦ leftSum (valuesAt (i, j) (coordinates.zip values)) := by
  have harranged := h (columnsOf size (coordinates.zip values))
  have hlength :
      ((arrangement (columnsOf size (coordinates.zip values))).map addUp).length = size := by
    rw [List.length_map, ← harranged.length_eq, columnsOf_eq, List.length_map, List.length_range]
  rw [assemble, toRows_ofColumns fun c hc ↦ ?_, hlength, square]
  · refine List.map_congr_left fun i _ ↦ ?_
    rw [columnsOf_eq, List.forall₂_map_left_iff] at harranged
    have hsums : List.Forall₂ (· = ·)
        ((List.range size).map fun j ↦ leftSum (valuesAt (i, j) (coordinates.zip values)))
        (((arrangement (columnsOf size (coordinates.zip values))).map addUp).map fun c ↦
          leftSum (valuesAt i c)) := by
      rw [List.map_map, List.forall₂_map_left_iff, List.forall₂_map_right_iff, columnsOf_eq]
      refine harranged.imp fun j arranged hj ↦ ?_
      rw [Function.comp_apply, valuesAt_addUp, leftSum_addedUp hzero, hj, valuesAt_columnAt]
    rw [List.forall₂_eq_eq_eq] at hsums
    exact hsums.symm
  · obtain ⟨column, -, rfl⟩ := List.mem_map.1 hc
    exact ascends_addUp column

end Full

/-! ### Coordinates -/

theorem checkIndices_eq_ok {axis size : Nat} {indices : List Int}
    (h : ∀ i ∈ indices, 0 ≤ i ∧ i < size) : checkIndices axis size indices = .ok () := by
  rw [checkIndices]
  split
  · rename_i greatest least hgreatest hleast
    have hg := h greatest (List.max?_mem hgreatest)
    have hl := h least (List.min?_mem hleast)
    rw [if_neg (by omega), if_neg (by omega)]
  · rfl

/-- Coordinates within the matrix are taken as they are. -/
theorem placed_eq_ok (size : Nat) {places : List (Nat × Nat)}
    (h : ∀ p ∈ places, p.1 < size ∧ p.2 < size) :
    placed size (places.map fun p ↦ ((p.1 : Int), (p.2 : Int))) = .ok places := by
  have hrows : checkIndices 0 size
      ((places.map fun p ↦ ((p.1 : Int), (p.2 : Int))).map Prod.fst) = .ok () :=
    checkIndices_eq_ok fun i hi ↦ by
      simp only [List.map_map, List.mem_map, Function.comp_apply] at hi
      obtain ⟨p, hp, rfl⟩ := hi
      have := (h p hp).1
      omega
  have hcolumns : checkIndices 1 size
      ((places.map fun p ↦ ((p.1 : Int), (p.2 : Int))).map Prod.snd) = .ok () :=
    checkIndices_eq_ok fun i hi ↦ by
      simp only [List.map_map, List.mem_map, Function.comp_apply] at hi
      obtain ⟨p, hp, rfl⟩ := hi
      have := (h p hp).2
      omega
  rw [placed, hrows, hcolumns]
  simp [bind, Except.bind, pure, Except.pure, Function.comp_def]

end Summand.SparseMatrix
