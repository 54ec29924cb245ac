import Mathlib.Data.List.Forall2
import Summand.Proofs.Buffer

/-!
# Listed values

A matrix can be given by a list of coordinates with values, in which a coordinate may occur more
than once. What such a list has at a key are its values in the order of the list (`valuesAt`), and
these are added up from the left, beginning with zero (`leftSum`). Nothing more is asked of addition
than that zero can be left out on the left.

A full matrix is given by the function of its entries (`square`).
-/

namespace Summand

variable {α β : Type}

/-! ### Sums from the left -/

/-- The sum of values that are added from left to right. -/
def leftSum [Zero α] [Add α] (values : List α) : α := values.foldl (· + ·) 0

section LeftSum

variable [Zero α] [Add α]

@[simp] theorem leftSum_nil : leftSum ([] : List α) = 0 := rfl

end LeftSum

/-- Values added up from the first one on, none if there are none. -/
def addedUp [Add α] : List α → List α
  | [] => []
  | v :: rest => [rest.foldl (· + ·) v]

/-- Adding up some values at once changes no sum. -/
theorem leftSum_addedUp [Zero α] [Add α] (h : ∀ v : α, 0 + v = v) (values : List α) :
    leftSum (addedUp values) = leftSum values := by
  rcases values with - | ⟨v, rest⟩
  · rfl
  · rw [addedUp, leftSum, leftSum, List.foldl_cons, List.foldl_cons, h, h, List.foldl_nil]

theorem exists_mem_addedUp_iff [Add α] {values : List α} :
    (∃ v, v ∈ addedUp values) ↔ ∃ v, v ∈ values := by
  rcases values with - | ⟨v, rest⟩
  · rfl
  · exact iff_of_true ⟨_, List.mem_singleton_self _⟩ ⟨v, List.mem_cons_self⟩

/-! ### Values at a key -/

/-- The values of a key in a list of keys and values. -/
def valuesAt {κ : Type} [DecidableEq κ] (k : κ) (l : List (κ × α)) : List α :=
  l.flatMap fun e ↦ if e.1 = k then [e.2] else []

section ValuesAt

variable {κ : Type} [DecidableEq κ]

@[simp] theorem valuesAt_nil (k : κ) : valuesAt k ([] : List (κ × α)) = [] := rfl

theorem valuesAt_cons_self (k : κ) (v : α) (l : List (κ × α)) :
    valuesAt k ((k, v) :: l) = v :: valuesAt k l := by
  simp [valuesAt]

theorem valuesAt_cons_of_ne {k k' : κ} (h : k' ≠ k) (v : α) (l : List (κ × α)) :
    valuesAt k ((k', v) :: l) = valuesAt k l := by
  simp [valuesAt, h]

theorem valuesAt_flatMap (k : κ) (l : List β) (f : β → List (κ × α)) :
    valuesAt k (l.flatMap f) = l.flatMap fun b ↦ valuesAt k (f b) := List.flatMap_assoc

theorem valuesAt_eq_nil {k : κ} {l : List (κ × α)} (h : ∀ e ∈ l, e.1 ≠ k) : valuesAt k l = [] :=
  List.flatMap_eq_nil_iff.2 fun e he ↦ if_neg (h e he)

/-- The values of a key are those of the entries that have it. -/
theorem valuesAt_eq_map_filter (k : κ) (l : List (κ × α)) :
    valuesAt k l = (l.filter (·.1 = k)).map Prod.snd := by
  induction l with
  | nil => rfl
  | cons e l ih =>
    obtain ⟨k', v⟩ := e
    by_cases h : k' = k
    · subst h
      rw [valuesAt_cons_self, ih]
      simp
    · rw [valuesAt_cons_of_ne h, ih]
      simp [h]

theorem mem_valuesAt {k : κ} {v : α} {l : List (κ × α)} : v ∈ valuesAt k l ↔ (k, v) ∈ l := by
  simp [valuesAt_eq_map_filter]

/-- There are values of the keys that occur. -/
theorem mem_map_fst_iff {k : κ} {l : List (κ × α)} :
    k ∈ l.map Prod.fst ↔ ∃ v, v ∈ valuesAt k l := by
  simp [mem_valuesAt]

/-- The values of a key are rearranged as the list is. -/
theorem perm_valuesAt {l l' : List (κ × α)} (h : l.Perm l') (k : κ) :
    (valuesAt k l).Perm (valuesAt k l') := by
  rw [valuesAt_eq_map_filter, valuesAt_eq_map_filter]
  exact (h.filter _).map _

end ValuesAt

/-! ### Lists side by side -/

theorem map_eq_of_forall₂ {γ : Type} {R : α → β → Prop} {l : List α} {m : List β}
    (h : List.Forall₂ R l m) {f : α → γ} {g : β → γ} (hfg : ∀ a b, R a b → f a = g b) :
    l.map f = m.map g := by
  rw [← List.forall₂_eq_eq_eq, List.forall₂_map_left_iff, List.forall₂_map_right_iff]
  exact h.imp hfg

/-- Lists put together from parts of the same lengths have the same length. -/
theorem length_flatMap_congr {γ δ : Type} {f : α → List γ} {g : β → List δ} {l : List α}
    {m : List β} (h : List.Forall₂ (fun a b ↦ (f a).length = (g b).length) l m) :
    (l.flatMap f).length = (m.flatMap g).length := by
  induction h with
  | nil => rfl
  | cons hhead _ ih =>
    rw [List.flatMap_cons, List.flatMap_cons, List.length_append, List.length_append, hhead, ih]

/-- Lists put together from parts of the same lengths stand side by side part by part. -/
theorem zip_flatMap {γ δ : Type} {f : α → List γ} {g : β → List δ} {l : List α} {m : List β}
    (h : List.Forall₂ (fun a b ↦ (f a).length = (g b).length) l m) :
    (l.flatMap f).zip (m.flatMap g) = (l.zip m).flatMap fun p ↦ (f p.1).zip (g p.2) := by
  induction h with
  | nil => rfl
  | cons hhead _ ih =>
    rw [List.flatMap_cons, List.flatMap_cons, List.zip_append hhead, ih, List.zip_cons_cons,
      List.flatMap_cons]

/-! ### Placed vectors -/

/-- What a vector that begins at an offset has at a position. -/
def placedAt (offset : Nat) (w : List α) (i : Nat) : Option α :=
  if offset ≤ i then w[i - offset]? else none

/-- Of a vector with the numbers of its positions beside it, one entry has a given number. -/
theorem flatMap_range'_zip {γ : Type} (offset i : Nat) (w : List α) (f : α → List γ) :
    ((List.range' offset w.length).zip w).flatMap (fun p ↦ if p.1 = i then f p.2 else []) =
      (placedAt offset w i).elim [] f := by
  induction w generalizing offset with
  | nil => simp [placedAt]
  | cons a w ih =>
    rw [List.length_cons, List.range'_succ, List.zip_cons_cons, List.flatMap_cons, ih, placedAt,
      placedAt]
    -- The head is before the wanted position, at it, or behind it.
    rcases Nat.lt_trichotomy offset i with hlt | rfl | hgt
    · rw [if_neg (Nat.ne_of_lt hlt), if_pos (Nat.succ_le_of_lt hlt), if_pos (Nat.le_of_lt hlt),
        List.nil_append, show i - offset = i - (offset + 1) + 1 by omega, List.getElem?_cons_succ]
    · rw [if_pos rfl, if_neg (Nat.not_succ_le_self offset), if_pos (Nat.le_refl offset)]
      simp
    · rw [if_neg (Nat.ne_of_gt hgt), if_neg (by omega), if_neg (by omega)]
      rfl

/-- Combining with a placed vector changes the entries at its positions. -/
theorem getElem?_combinePart (f : β → α → β) (offset : Nat) (w : List α) (v : List β) (i : Nat) :
    (Buffer.combinePart f offset w v)[i]? =
      v[i]?.map fun y ↦ (placedAt offset w i).elim y (f y) := by
  fun_induction Buffer.combinePart f offset w v generalizing i with
  | case1 => rfl
  | case2 offset v hv => simp [placedAt]
  | case3 y v a w ih =>
    cases i with
    | zero => rfl
    | succ i =>
      rw [List.getElem?_cons_succ, List.getElem?_cons_succ, ih]
      simp [placedAt]
  | case4 offset y v w hw ih =>
    cases i with
    | zero => simp [placedAt]
    | succ i =>
      rw [List.getElem?_cons_succ, List.getElem?_cons_succ, ih]
      simp [placedAt]

/-- Combining with a placed vector, position by position. -/
theorem combinePart_range (f : β → α → β) (offset : Nat) (w : List α) (n : Nat) (g : Nat → β) :
    Buffer.combinePart f offset w ((List.range n).map g) =
      (List.range n).map fun i ↦ (placedAt offset w i).elim (g i) (f (g i)) := by
  apply List.ext_getElem?
  intro i
  rw [getElem?_combinePart, List.getElem?_map, List.getElem?_map]
  rcases Nat.lt_or_ge i n with hi | hi
  · rw [List.getElem?_range hi]
    rfl
  · rw [List.getElem?_eq_none (by simpa using hi)]
    rfl

/-! ### Full matrices -/

/-- The matrix of a size with given entries. -/
def square (n : Nat) (f : (row column : Nat) → α) : List (List α) :=
  (List.range n).map fun i ↦ (List.range n).map (f i)

theorem shaped_square (n : Nat) (f : Nat → Nat → α) : Buffer.Shaped n n (square n f) := by
  refine ⟨by simp [square], ?_⟩
  intro row hrow
  obtain ⟨i, -, rfl⟩ := List.mem_map.1 hrow
  simp

theorem square_congr {n : Nat} {f g : Nat → Nat → α} (h : ∀ i < n, ∀ j < n, f i j = g i j) :
    square n f = square n g :=
  List.map_congr_left fun i hi ↦ List.map_congr_left fun j hj ↦
    h i (List.mem_range.1 hi) j (List.mem_range.1 hj)

/-- Steps that each add values to every entry of a matrix add all of these values in order. -/
theorem foldl_square {n : Nat} {op : α → α → α} {step : List (List α) → β → List (List α)}
    {added : β → (row column : Nat) → List α} {l : List β}
    (h : ∀ b ∈ l, ∀ f : Nat → Nat → α, step (square n f) b =
      square n fun i j ↦ (added b i j).foldl op (f i j)) (f : Nat → Nat → α) :
    l.foldl step (square n f) =
      square n fun i j ↦ (l.flatMap fun b ↦ added b i j).foldl op (f i j) := by
  induction l generalizing f with
  | nil => rfl
  | cons b l ih =>
    rw [List.foldl_cons, h b List.mem_cons_self, ih fun c hc ↦ h c (List.mem_cons_of_mem b hc)]
    simp only [List.flatMap_cons, List.foldl_append]

end Summand
