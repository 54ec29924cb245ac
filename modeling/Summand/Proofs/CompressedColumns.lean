import Mathlib.Algebra.BigOperators.Group.List.Basic
import Mathlib.Algebra.Ring.Nat
import Mathlib.Data.List.Basic
import Mathlib.Data.List.Sort
import Summand.Proofs.SparseMatrix

/-!
# What is stored in a matrix

A matrix that is made of ascending columns is in compressed columns as it should be
(`SparseMatrix.WellFormed`). One that has been assembled stores an entry exactly at the coordinates
that it has been given (`SparseMatrix.Permutes.exists_stores_iff`), and has the values of each
coordinate added up, in some order. What is stored where does not depend on the values, so that two
matrices of the same coordinates differ in nothing else
(`SparseMatrix.Permutes.sameStructure_assemble`).

Of the arrangement of the columns it is only asked that no entry is lost or made up
(`SparseMatrix.Permutes`). If it keeps the order within short columns (`SparseMatrix.KeepsUpTo`),
the values of the coordinates there are added up as they are given.
-/

namespace Summand.SparseMatrix

variable {α : Type}

/-! ### Well-formed matrices -/

/-- The columns lie side by side, each with ascending rows of the matrix. -/
structure WellFormed (m : SparseMatrix α) : Prop where
  length : m.columnStarts.length = m.size + 1
  first : m.columnStarts.head? = some 0
  ascending : m.columnStarts.Pairwise (· ≤ ·)
  last : m.columnStarts.getLast? = some m.rows.length
  values : m.values.length = m.rows.length
  columns : ∀ column ∈ m.columns, Ascends column ∧ ∀ e ∈ column, e.1 < m.size

/-- A matrix stores a value at a place. -/
def Stores (m : SparseMatrix α) (i j : Nat) (v : α) : Prop :=
  ∃ column, m.columns[j]? = some column ∧ (i, v) ∈ column

/-- Two matrices store entries at the same places. -/
structure SameStructure (m m' : SparseMatrix α) : Prop where
  size : m.size = m'.size
  columnStarts : m.columnStarts = m'.columnStarts
  rows : m.rows = m'.rows
  values : m.values.length = m'.values.length

theorem length_starts (total : Nat) (columns : List (List (Nat × α))) :
    (starts total columns).length = columns.length + 1 := by
  induction columns generalizing total with
  | nil => rfl
  | cons column columns ih => rw [starts, List.length_cons, ih, List.length_cons]

theorem head?_starts (total : Nat) (columns : List (List (Nat × α))) :
    (starts total columns).head? = some total := by
  cases columns <;> rfl

theorem le_of_mem_starts {total : Nat} {columns : List (List (Nat × α))} {k : Nat}
    (hk : k ∈ starts total columns) : total ≤ k := by
  induction columns generalizing total with
  | nil => exact Nat.le_of_eq (List.mem_singleton.1 hk).symm
  | cons column columns ih =>
    rcases List.mem_cons.1 hk with rfl | hk
    · exact Nat.le_refl _
    · exact Nat.le_trans (Nat.le_add_right _ _) (ih hk)

theorem pairwise_starts (total : Nat) (columns : List (List (Nat × α))) :
    (starts total columns).Pairwise (· ≤ ·) := by
  induction columns generalizing total with
  | nil => exact List.pairwise_singleton _ _
  | cons column columns ih =>
    refine List.pairwise_cons.2 ⟨fun k hk ↦ ?_, ih _⟩
    exact Nat.le_trans (Nat.le_add_right _ _) (le_of_mem_starts hk)

theorem getLast?_starts (total : Nat) (columns : List (List (Nat × α))) :
    (starts total columns).getLast? = some (total + columns.flatten.length) := by
  induction columns generalizing total with
  | nil => rfl
  | cons column columns ih =>
    rw [starts, List.getLast?_cons, ih, List.flatten_cons, List.length_append, Nat.add_assoc]
    rfl

/-- Where columns start is a matter of their lengths. -/
theorem starts_congr {β : Type} {columns : List (List (Nat × α))} {columns' : List (List (Nat × β))}
    (h : columns.map List.length = columns'.map List.length) (total : Nat) :
    starts total columns = starts total columns' := by
  induction columns generalizing columns' total with
  | nil =>
    obtain rfl : columns' = [] := by simpa using h.symm
    rfl
  | cons column columns ih =>
    obtain - | ⟨column', columns'⟩ := columns'
    · simp at h
    obtain ⟨hlength, h⟩ := List.cons.inj h
    rw [starts, starts, hlength, ih h]

theorem wellFormed_ofColumns {columns : List (List (Nat × α))}
    (h : ∀ column ∈ columns, Ascends column ∧ ∀ e ∈ column, e.1 < columns.length) :
    (ofColumns columns).WellFormed where
  length := length_starts 0 columns
  first := head?_starts 0 columns
  ascending := pairwise_starts 0 columns
  last := by
    show (starts 0 columns).getLast? = some (columns.flatten.map Prod.fst).length
    rw [getLast?_starts, Nat.zero_add, List.length_map]
  values := by
    show (columns.flatten.map Prod.snd).length = (columns.flatten.map Prod.fst).length
    rw [List.length_map, List.length_map]
  columns := by
    rw [columns_ofColumns]
    exact h

/-- Columns with the same rows make matrices of the same structure. -/
theorem SameStructure.ofColumns {columns columns' : List (List (Nat × α))}
    (h : columns.map (List.map Prod.fst) = columns'.map (List.map Prod.fst)) :
    (SparseMatrix.ofColumns columns).SameStructure (SparseMatrix.ofColumns columns') := by
  have hlengths : columns.map List.length = columns'.map List.length := by
    have := congrArg (List.map List.length) h
    simpa [List.map_map, Function.comp_def] using this
  have hrows : columns.flatten.map Prod.fst = columns'.flatten.map Prod.fst := by
    rw [List.map_flatten, List.map_flatten, h]
  have hcount : columns.length = columns'.length := by simpa using congrArg List.length h
  have hstored : columns.flatten.length = columns'.flatten.length := by
    simpa only [List.length_map] using congrArg List.length hrows
  refine ⟨hcount, starts_congr hlengths 0, hrows, ?_⟩
  show (columns.flatten.map Prod.snd).length = (columns'.flatten.map Prod.snd).length
  rw [List.length_map, List.length_map, hstored]

/-! ### Assembled columns -/

/-- An arrangement of columns changes the order of entries at most. -/
def Permutes (arrangement : List (List (Nat × α)) → List (List (Nat × α))) : Prop :=
  ∀ columns, List.Forall₂ (fun column arranged ↦ arranged.Perm column) columns (arrangement columns)

theorem mem_rows_addUp [Add α] {column : List (Nat × α)} {i : Nat} :
    i ∈ (addUp column).map Prod.fst ↔ i ∈ column.map Prod.fst := by
  rw [mem_map_fst_iff, mem_map_fst_iff, valuesAt_addUp, exists_mem_addedUp_iff]

/-- The rows of a column that has been added up are told by what rows there are. -/
theorem rows_addUp_congr [Add α] {column column' : List (Nat × α)}
    (h : ∀ i, i ∈ column.map Prod.fst ↔ i ∈ column'.map Prod.fst) :
    (addUp column).map Prod.fst = (addUp column').map Prod.fst := by
  have hascends (column : List (Nat × α)) : ((addUp column).map Prod.fst).Pairwise (· < ·) :=
    List.pairwise_map.2 (ascends_addUp column)
  refine (hascends column).eq_of_mem_iff (hascends column') fun i ↦ ?_
  rw [mem_rows_addUp, mem_rows_addUp, h]

/-- The rows of a column are those of its coordinates. -/
theorem mem_rows_columnAt {coordinates : List (Nat × Nat)} {values : List α}
    (hlength : coordinates.length ≤ values.length) (i j : Nat) :
    i ∈ (columnAt j (coordinates.zip values)).map Prod.fst ↔ (i, j) ∈ coordinates := by
  rw [mem_map_fst_iff, valuesAt_columnAt, ← mem_map_fst_iff, List.map_fst_zip hlength]

/-- What is stored in a column is what its entries come to once they are arranged. -/
theorem stores_assemble_iff [Add α]
    {arrangement : List (List (Nat × α)) → List (List (Nat × α))} {size : Nat}
    {coordinates : List (Nat × Nat)} {values : List α} {j : Nat} {arranged : List (Nat × α)}
    (h : (arrangement (columnsOf size (coordinates.zip values)))[j]? = some arranged) (i : Nat)
    (v : α) : (assemble arrangement size coordinates values).Stores i j v ↔
      v ∈ addedUp (valuesAt i arranged) := by
  rw [← valuesAt_addUp, mem_valuesAt, Stores, assemble, columns_ofColumns, List.getElem?_map, h]
  simp

namespace Permutes

variable [Add α] {arrangement : List (List (Nat × α)) → List (List (Nat × α))} {size : Nat}

section Columns

variable (h : Permutes arrangement) (coordinates : List (Nat × Nat)) (values : List α)

include h

/-- An assembled matrix has the size that it should have. -/
theorem size_assemble : (assemble arrangement size coordinates values).size = size := by
  show ((arrangement (columnsOf size (coordinates.zip values))).map addUp).length = size
  rw [List.length_map, ← (h _).length_eq, columnsOf_eq, List.length_map, List.length_range]

/-- There are as many columns as the matrix has. -/
theorem length_columns : (assemble arrangement size coordinates values).columns.length = size := by
  rw [assemble, columns_ofColumns]
  exact h.size_assemble coordinates values

/-- The columns of an assembled matrix are those of its coordinates, rearranged and added up. -/
theorem getElem?_columns {j : Nat} (hj : j < size) :
    ∃ arranged, arranged.Perm (columnAt j (coordinates.zip values)) ∧
      (assemble arrangement size coordinates values).columns[j]? = some (addUp arranged) := by
  have harranged := h (columnsOf size (coordinates.zip values))
  rw [columnsOf_eq, List.forall₂_map_left_iff] at harranged
  have hlt : j < (arrangement ((List.range size).map
      (columnAt · (coordinates.zip values)))).length := by
    rw [← harranged.length_eq, List.length_range]
    exact hj
  have hperm := harranged.get (by rwa [List.length_range]) hlt
  rw [List.get_eq_getElem, List.get_eq_getElem, List.getElem_range] at hperm
  refine ⟨_, hperm, ?_⟩
  rw [assemble, columns_ofColumns, columnsOf_eq, List.getElem?_map, List.getElem?_eq_getElem hlt]
  rfl

/-- The values of a place are added up to one, in some order. -/
theorem stores_iff (i : Nat) {j : Nat} (hj : j < size) :
    ∃ given, given.Perm (valuesAt (i, j) (coordinates.zip values)) ∧
      ∀ v, (assemble arrangement size coordinates values).Stores i j v ↔ v ∈ addedUp given := by
  obtain ⟨arranged, hperm, hcolumn⟩ := h.getElem?_columns coordinates values hj
  refine ⟨valuesAt i arranged, ?_, fun v ↦ ?_⟩
  · rw [← valuesAt_columnAt]
    exact perm_valuesAt hperm i
  · rw [← valuesAt_addUp, mem_valuesAt, Stores, hcolumn]
    simp

/-- Nothing is stored outside of the columns. -/
theorem lt_of_stores {i j : Nat} {v : α}
    (hv : (assemble arrangement size coordinates values).Stores i j v) : j < size := by
  obtain ⟨column, hcolumn, -⟩ := hv
  have hlt := (List.getElem?_eq_some_iff.1 hcolumn).1
  rwa [h.length_columns coordinates values] at hlt

end Columns

section Coordinates

variable {coordinates : List (Nat × Nat)} {values values' : List α}

/-- Something is stored exactly at the coordinates, be its value zero or not. -/
theorem exists_stores_iff (h : Permutes arrangement)
    (hlength : coordinates.length ≤ values.length) (hsize : ∀ p ∈ coordinates, p.2 < size)
    (i j : Nat) : (∃ v, (assemble arrangement size coordinates values).Stores i j v) ↔
      (i, j) ∈ coordinates := by
  by_cases hj : j < size
  · obtain ⟨given, hperm, hstores⟩ := h.stores_iff coordinates values i hj
    simp only [hstores, exists_mem_addedUp_iff, hperm.mem_iff]
    rw [← mem_map_fst_iff, List.map_fst_zip hlength]
  · refine iff_of_false ?_ fun hp ↦ hj (hsize _ hp)
    rintro ⟨v, hv⟩
    exact hj (h.lt_of_stores coordinates values hv)

/-- What is stored where does not depend on the values. -/
theorem sameStructure_assemble (h : Permutes arrangement)
    (hlength : coordinates.length ≤ values.length)
    (hlength' : coordinates.length ≤ values'.length) :
    (assemble arrangement size coordinates values).SameStructure
      (assemble arrangement size coordinates values') := by
  have hcolumns : (assemble arrangement size coordinates values).columns.map (List.map Prod.fst) =
      (assemble arrangement size coordinates values').columns.map (List.map Prod.fst) := by
    apply List.ext_getElem?
    intro j
    rw [List.getElem?_map, List.getElem?_map]
    by_cases hj : j < size
    · obtain ⟨arranged, hperm, hcolumn⟩ := h.getElem?_columns coordinates values hj
      obtain ⟨arranged', hperm', hcolumn'⟩ := h.getElem?_columns coordinates values' hj
      rw [hcolumn, hcolumn', Option.map_some, Option.map_some]
      refine congrArg some (rows_addUp_congr fun i ↦ ?_)
      rw [(hperm.map Prod.fst).mem_iff, (hperm'.map Prod.fst).mem_iff,
        mem_rows_columnAt hlength, mem_rows_columnAt hlength']
    · rw [List.getElem?_eq_none (by rw [h.length_columns]; omega),
        List.getElem?_eq_none (by rw [h.length_columns]; omega)]
  rw [assemble, assemble, columns_ofColumns, columns_ofColumns] at hcolumns
  exact .ofColumns hcolumns

/-- A matrix that has been assembled is in compressed columns as it should be. -/
theorem wellFormed (h : Permutes arrangement) (hlength : coordinates.length ≤ values.length)
    (hsize : ∀ p ∈ coordinates, p.1 < size ∧ p.2 < size) :
    (assemble arrangement size coordinates values).WellFormed := by
  have hcolumns : (assemble arrangement size coordinates values).columns =
      (arrangement (columnsOf size (coordinates.zip values))).map addUp := columns_ofColumns _
  have hcount : ((arrangement (columnsOf size (coordinates.zip values))).map addUp).length = size :=
    hcolumns ▸ h.length_columns coordinates values
  refine wellFormed_ofColumns fun column hcolumn ↦ ?_
  rw [hcount]
  obtain ⟨j, hget⟩ := List.getElem?_of_mem hcolumn
  have hj : j < size := hcount ▸ (List.getElem?_eq_some_iff.1 hget).1
  obtain ⟨arranged, hperm, harranged⟩ := h.getElem?_columns coordinates values hj
  rw [hcolumns, hget] at harranged
  obtain rfl := Option.some.inj harranged
  refine ⟨ascends_addUp arranged, fun e he ↦ ?_⟩
  have hrow := mem_rows_addUp.1 (List.mem_map_of_mem he)
  rw [(hperm.map Prod.fst).mem_iff, mem_rows_columnAt hlength] at hrow
  exact (hsize _ hrow).1

end Coordinates

end Permutes

/-! ### Short columns -/

/-- An arrangement keeps the order of the entries of each row in columns of up to a length. -/
def KeepsUpTo (length : Nat) (arrangement : List (List (Nat × α)) → List (List (Nat × α))) : Prop :=
  ∀ columns, List.Forall₂ (fun column arranged ↦ column.length ≤ length →
    ∀ row, valuesAt row arranged = valuesAt row column) columns (arrangement columns)

/-- The number of what is in a list is the sum of ones for it. -/
theorem countP_eq_sum {β : Type} (p : β → Prop) [DecidablePred p] (l : List β) :
    l.countP (p ·) = (l.map fun b ↦ if p b then 1 else 0).sum := by
  induction l with
  | nil => rfl
  | cons b l ih => rw [List.countP_cons, List.map_cons, List.sum_cons, ih, Nat.add_comm]; simp

/-- The length of a column is the number of all values that are given in it. -/
theorem length_columnAt {size : Nat} (j : Nat) {entries : List ((Nat × Nat) × α)}
    (h : ∀ e ∈ entries, e.1.1 < size) :
    (columnAt j entries).length =
      ((List.range size).map fun i ↦ (valuesAt (i, j) entries).length).sum := by
  induction entries with
  | nil => simp [columnAt]
  | cons e entries ih =>
    obtain ⟨⟨i, j'⟩, v⟩ := e
    have htail := ih fun e he ↦ h e (List.mem_cons_of_mem _ he)
    have hi : i < size := h _ List.mem_cons_self
    by_cases hj : j' = j
    · subst hj
      have hone (k : Nat) : (valuesAt (k, j') (((i, j'), v) :: entries)).length =
          (if k = i then 1 else 0) + (valuesAt (k, j') entries).length := by
        by_cases hk : k = i
        · rw [hk, valuesAt_cons_self, if_pos rfl, List.length_cons, Nat.add_comm]
        · rw [valuesAt_cons_of_ne fun heq ↦ hk (Prod.mk.inj heq).1.symm, if_neg hk, Nat.zero_add]
      have hcount : ((List.range size).map fun k ↦ if k = i then 1 else 0).sum = 1 := by
        rw [← countP_eq_sum]
        exact List.count_eq_one_of_mem List.nodup_range (List.mem_range.2 hi)
      simp only [hone, List.sum_map_add, hcount, columnAt_cons_self, List.length_cons, htail]
      omega
    · simp only [columnAt_cons_of_ne hj, htail,
        valuesAt_cons_of_ne fun heq ↦ hj (Prod.mk.inj heq).2]

/-- The values of a place in a short column are added up in order. -/
theorem KeepsUpTo.stores_iff [Add α]
    {arrangement : List (List (Nat × α)) → List (List (Nat × α))} {length size : Nat}
    (h : KeepsUpTo length arrangement) (coordinates : List (Nat × Nat)) (values : List α) (i : Nat)
    {j : Nat} (hj : j < size)
    (hlength : (columnAt j (coordinates.zip values)).length ≤ length) (v : α) :
    (assemble arrangement size coordinates values).Stores i j v ↔
      v ∈ addedUp (valuesAt (i, j) (coordinates.zip values)) := by
  have harranged := h (columnsOf size (coordinates.zip values))
  rw [columnsOf_eq, List.forall₂_map_left_iff] at harranged
  have hlt : j < (arrangement ((List.range size).map
      (columnAt · (coordinates.zip values)))).length := by
    rw [← harranged.length_eq, List.length_range]
    exact hj
  have hkept := harranged.get (by rwa [List.length_range]) hlt
  rw [List.get_eq_getElem, List.get_eq_getElem, List.getElem_range] at hkept
  rw [← valuesAt_columnAt, ← hkept hlength i]
  exact stores_assemble_iff (by rw [columnsOf_eq, List.getElem?_eq_getElem hlt]) i v

/-! ### Exact sums -/

section Exact

/-- Two ascending columns are the same if they have the same values at each row. -/
theorem Ascends.eq_of_valuesAt {column column' : List (Nat × α)} (h : Ascends column)
    (h' : Ascends column') (hvalues : ∀ i, valuesAt i column = valuesAt i column') :
    column = column' := by
  have hnodup {column : List (Nat × α)} (h : Ascends column) : column.Nodup :=
    h.imp fun hlt heq ↦ by rw [heq] at hlt; exact absurd hlt (lt_irrefl _)
  have hperm : column.Perm column' := by
    refine (List.perm_ext_iff_of_nodup (hnodup h) (hnodup h')).2 fun e ↦ ?_
    rw [← mem_valuesAt (k := e.1) (v := e.2), ← mem_valuesAt (k := e.1) (v := e.2), hvalues]
  exact hperm.eq_of_pairwise (fun e f _ _ hef hfe ↦ absurd hef hfe.asymm) h h'

variable [AddCommMonoid α]

/-- It does not matter in which order values are added up exactly. -/
theorem addedUp_perm {values values' : List α} (h : values.Perm values') :
    addedUp values = addedUp values' := by
  have key (values : List α) : addedUp values = if values.length = 0 then [] else [values.sum] := by
    cases values with
    | nil => rfl
    | cons v rest =>
      have hsum : rest.foldl (· + ·) v = (v :: rest).sum := by
        rw [List.sum_eq_foldl, List.foldl_cons, zero_add]
      exact congrArg (fun sum ↦ [sum]) hsum
  rw [key, key, h.length_eq, h.sum_eq]

/-- Matrices that are made of the same values at each place are the same, in whatever order the
values are given. -/
theorem Permutes.assemble_eq
    {arrangement arrangement' : List (List (Nat × α)) → List (List (Nat × α))}
    (h : Permutes arrangement) (h' : Permutes arrangement') (size : Nat)
    {coordinates coordinates' : List (Nat × Nat)} {values values' : List α}
    (hsame : ∀ i j, (valuesAt (i, j) (coordinates.zip values)).Perm
      (valuesAt (i, j) (coordinates'.zip values'))) :
    assemble arrangement size coordinates values =
      assemble arrangement' size coordinates' values' := by
  have hcolumns : (assemble arrangement size coordinates values).columns =
      (assemble arrangement' size coordinates' values').columns := by
    refine List.ext_getElem? fun j ↦ ?_
    by_cases hj : j < size
    · obtain ⟨arranged, hperm, hcolumn⟩ := h.getElem?_columns coordinates values hj
      obtain ⟨arranged', hperm', hcolumn'⟩ := h'.getElem?_columns coordinates' values' hj
      rw [hcolumn, hcolumn']
      refine congrArg some ((ascends_addUp arranged).eq_of_valuesAt (ascends_addUp arranged') ?_)
      intro i
      rw [valuesAt_addUp, valuesAt_addUp]
      refine addedUp_perm ((perm_valuesAt hperm i).trans (.trans ?_ (perm_valuesAt hperm' i).symm))
      rw [valuesAt_columnAt, valuesAt_columnAt]
      exact hsame i j
    · rw [List.getElem?_eq_none, List.getElem?_eq_none]
      · rw [h'.length_columns]
        omega
      · rw [h.length_columns]
        omega
  rw [assemble, assemble, columns_ofColumns, columns_ofColumns] at hcolumns
  rw [assemble, assemble, hcolumns]

end Exact

/-! ### Ones -/

/-- Ones at coordinates are as many at each as it occurs there. -/
theorem valuesAt_zip_ones (one : α) (coordinates : List (Nat × Nat)) (p : Nat × Nat) :
    valuesAt p (coordinates.zip (List.replicate coordinates.length one)) =
      List.replicate (coordinates.count p) one := by
  induction coordinates with
  | nil => rfl
  | cons q coordinates ih =>
    rw [List.length_cons, List.replicate_succ, List.zip_cons_cons]
    by_cases hq : q = p
    · subst hq
      rw [valuesAt_cons_self, ih, List.count_cons_self, List.replicate_succ]
    · rw [valuesAt_cons_of_ne hq, ih, List.count_cons_of_ne hq]

variable [Add α] [OfNat α 1] {number : Nat → α}

/-- Ones that are added to a number count on from it. -/
theorem foldl_ones (k m : Nat)
    (hnumber : ∀ l, m ≤ l → l < m + k → number l + 1 = number (l + 1)) :
    (List.replicate k (1 : α)).foldl (· + ·) (number m) = number (m + k) := by
  induction k generalizing m with
  | zero => rfl
  | succ k ih =>
    rw [List.replicate_succ, List.foldl_cons, hnumber m (Nat.le_refl m) (by omega),
      ih (m + 1) fun l hl hlt ↦ hnumber l (by omega) (by omega), Nat.add_right_comm, Nat.add_assoc]

/-- A matrix of ones has at each place the number of times that it occurs among the coordinates. -/
theorem Permutes.eq_number_of_stores
    {arrangement : List (List (Nat × α)) → List (List (Nat × α))} (h : Permutes arrangement)
    {size i j : Nat} {coordinates : List (Nat × Nat)} {v : α} (hone : number 1 = 1)
    (hnumber : ∀ k, 0 < k → k < coordinates.count (i, j) → number k + 1 = number (k + 1))
    (hv : (assemble arrangement size coordinates
      (List.replicate coordinates.length 1)).Stores i j v) :
    v = number (coordinates.count (i, j)) := by
  have hj := h.lt_of_stores _ _ hv
  obtain ⟨given, hperm, hstores⟩ :=
    h.stores_iff coordinates (List.replicate coordinates.length 1) i hj
  rw [valuesAt_zip_ones, List.perm_replicate] at hperm
  have hv := (hstores v).1 hv
  rw [hperm] at hv
  rcases hcount : coordinates.count (i, j) with - | k <;> rw [hcount] at hv hnumber
  · cases hv
  · rw [List.replicate_succ, addedUp, List.mem_singleton] at hv
    calc
      v = (List.replicate k (1 : α)).foldl (· + ·) (number 1) := by rw [hv, hone]
      _ = number (1 + k) := foldl_ones k 1 fun l hl hlt ↦ hnumber l hl (by omega)
      _ = number (k + 1) := by rw [Nat.add_comm]

end Summand.SparseMatrix
