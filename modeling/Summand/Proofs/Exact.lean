import Mathlib.Algebra.Group.Int.Defs
import Summand.Proofs.Slices
import Summand.Proofs.Values
import Summand.Transform.Elementwise

/-!
# Exact arithmetic

Floating-point sums depend on the order of the additions. What is said about sums of several workers
holds for numbers whose addition is associative, with zero as its unit, and which every cell keeps
as they are (`ExactStorage`); the integers are such numbers. Vectors of one length are added entry
by entry (`Buffer.add`), and the sums of a worker are a value and a vector (`Sums`).

Transforms are asked to add what they pull back to what an array holds (`Transform.AddsTo`), and to
do nothing else to it.
-/

namespace Summand

variable {α : Type}

/-! ### Numbers -/

/-- Every cell keeps a number as it is. -/
class ExactStorage (α : Type) [Storable α] : Prop where
  narrow_eq : ∀ (element : ElementType) (x : α), Storable.narrow element x = x

instance : Storable Int where
  narrow _ x := x
  narrow_float64 _ := rfl
  ofInt? := some

instance : ExactStorage Int := ⟨fun _ _ ↦ rfl⟩

/-! ### Vectors -/

namespace Buffer

/-- The sum of two vectors, entry by entry. -/
def add [Add α] (v w : List α) : List α := List.zipWith (· + ·) v w

@[simp] theorem length_add [Add α] (v w : List α) :
    (add v w).length = min v.length w.length := List.length_zipWith

theorem getElem?_add [Add α] (v w : List α) (i : Nat) :
    (add v w)[i]? = v[i]?.bind fun a ↦ w[i]?.map (a + ·) := by
  rw [add, List.getElem?_zipWith]
  cases v[i]? <;> cases w[i]? <;> rfl

theorem getElem?_zeros [Zero α] (n i : Nat) :
    (zeros n : List α)[i]? = if i < n then some 0 else none := List.getElem?_replicate

variable [AddMonoid α]

theorem add_assoc (u v w : List α) : add (add u v) w = add u (add v w) := by
  apply List.ext_getElem?
  intro i
  simp only [getElem?_add]
  cases u[i]? <;> cases v[i]? <;> cases w[i]? <;> simp [AddSemigroup.add_assoc]

theorem add_zeros {v : List α} {n : Nat} (h : v.length = n) : add v (zeros n) = v := by
  apply List.ext_getElem?
  intro i
  rw [getElem?_add, getElem?_zeros]
  rcases Nat.lt_or_ge i n with hi | hi
  · simp [hi, h]
  · simp [Nat.not_lt.2 hi, h]

theorem zeros_add {v : List α} {n : Nat} (h : v.length = n) : add (zeros n) v = v := by
  apply List.ext_getElem?
  intro i
  rw [getElem?_add, getElem?_zeros]
  rcases Nat.lt_or_ge i n with hi | hi
  · simp [hi, h]
  · simp [Nat.not_lt.2 hi, h]

theorem length_foldl_add {n : Nat} {vectors : List (List α)} (h : ∀ v ∈ vectors, v.length = n)
    {sum : List α} (hsum : sum.length = n) : (vectors.foldl add sum).length = n := by
  induction vectors generalizing sum with
  | nil => exact hsum
  | cons v vectors ih =>
    apply ih fun w hw ↦ h w (List.mem_cons_of_mem v hw)
    simp [hsum, h v List.mem_cons_self]

/-- Zeros, however often they are added, add nothing. -/
theorem foldl_add_replicate_zeros {n : Nat} {sum : List α} (h : sum.length = n) (k : Nat) :
    (List.replicate k (zeros n)).foldl add sum = sum := by
  induction k with
  | zero => rfl
  | succ k ih => rw [List.replicate_succ, List.foldl_cons, add_zeros h, ih]

end Buffer

/-! ### Sums -/

/-- A value and a gradient. -/
abbrev Sums (α : Type) := α × List α

namespace Sums

/-- Sums that are added to others. -/
def add [Add α] (s t : Sums α) : Sums α := (s.1 + t.1, Buffer.add s.2 t.2)

/-- The sums of nothing, with a gradient of a length. -/
def none [Zero α] (n : Nat) : Sums α := (0, Buffer.zeros n)

variable [AddMonoid α]

theorem add_assoc (s t u : Sums α) : add (add s t) u = add s (add t u) :=
  Prod.ext (AddSemigroup.add_assoc _ _ _) (Buffer.add_assoc _ _ _)

theorem add_none {s : Sums α} {n : Nat} (h : s.2.length = n) : add s (none n) = s :=
  Prod.ext (AddMonoid.add_zero _) (Buffer.add_zeros h)

/-- All sums of a list added up. -/
def combine (n : Nat) (sums : List (Sums α)) : Sums α := sums.foldl add (none n)

theorem fst_foldl_add (sums : List (Sums α)) (s : Sums α) :
    (sums.foldl add s).1 = sums.foldl (fun sum s ↦ sum + s.1) s.1 := by
  induction sums generalizing s with
  | nil => rfl
  | cons t sums ih => exact ih _

theorem snd_foldl_add (sums : List (Sums α)) (s : Sums α) :
    (sums.foldl add s).2 = (sums.map Prod.snd).foldl Buffer.add s.2 := by
  induction sums generalizing s with
  | nil => rfl
  | cons t sums ih => exact ih _

/-- The gradient of sums together is as long as those of all of them. -/
theorem length_combine {n : Nat} {sums : List (Sums α)} (h : ∀ s ∈ sums, s.2.length = n) :
    (combine n sums).2.length = n := by
  rw [combine, snd_foldl_add]
  apply Buffer.length_foldl_add ?_ (Buffer.length_zeros n)
  intro v hv
  obtain ⟨s, hs, rfl⟩ := List.mem_map.1 hv
  exact h s hs

end Sums

/-! ### Slices -/

/-- A flat vector of zeros but for a slice. -/
def Variable.embed [Zero α] (v : Variable α) (n : Nat) (c : List α) : List α :=
  v.setSlice c (Buffer.zeros n)

@[simp] theorem Variable.length_embed [Zero α] (v : Variable α) (n : Nat) (c : List α) :
    (v.embed n c).length = n := by
  rw [embed, length_setSlice, Buffer.length_zeros]

/-- Adding to a slice is adding a vector that is zero elsewhere. -/
theorem Variable.setSlice_add [AddMonoid α] (v : Variable α) {n : Nat} {x c : List α}
    (hx : x.length = n) (hc : c.length = (v.span n).2) :
    v.setSlice (Buffer.add (v.slice x) c) x = Buffer.add x (v.embed n c) := by
  have hle := v.span_le n
  have hslice := v.length_slice_eq_span hx
  apply List.ext_getElem?
  intro i
  rw [getElem?_setSlice hx (by simp [hslice, hc]), Buffer.getElem?_add, Buffer.getElem?_add,
    embed, getElem?_setSlice (Buffer.length_zeros n) hc, v.getElem?_slice hx]
  by_cases hi : (v.span n).1 ≤ i ∧ i < (v.span n).1 + (v.span n).2
  · rw [if_pos hi, if_pos hi, if_pos (by omega), Nat.add_sub_cancel' hi.1]
  · -- Outside of the slice a zero is added.
    rw [if_neg hi, if_neg hi, Buffer.getElem?_zeros]
    rcases Nat.lt_or_ge i n with hlt | hge
    · simp [hlt, hx]
    · simp [Nat.not_lt.2 hge, hx]

/-! ### Transforms that add -/

namespace Transform

variable [Zero α]

/-- What a gradient is pulled back to at a point in an array of a size, that is, what becomes of
zeros. -/
def pulledTo (t : Transform α) (size : Nat) (point gradient : List α) : Except Failure (List α) :=
  (t.projectedVector (Buffer.zeros size) point gradient).complete

/-- What a gradient is pulled back to in an array of the size that the transform asks for. -/
def pulled (t : Transform α) (point gradient : List α) : Except Failure (List α) :=
  t.pulledTo t.inputDimension.toNat point gradient

/-- Pulling a gradient of the right size back adds to an array of a size what zeros would become,
and fails if that fails. -/
structure AddsTo [Add α] (size : Nat) (t : Transform α) : Prop where
  length : ∀ {point gradient c : List α}, (gradient.length : Int) = t.outputDimension →
    t.pulledTo size point gradient = .ok c → c.length = size
  project : ∀ {accumulator gradient : List α}, accumulator.length = size →
    (gradient.length : Int) = t.outputDimension → ∀ point : List α,
      (t.projectedVector accumulator point gradient).complete =
        (t.pulledTo size point gradient).map (Buffer.add accumulator)

/-- Pulling a gradient back adds to an array of the size that the transform asks for. -/
structure Adds [Add α] (t : Transform α) : Prop where
  natural : 0 ≤ t.inputDimension
  addsTo : t.AddsTo t.inputDimension.toNat

end Transform

/-- What a vector adds to another one in place is what it adds to zeros. -/
theorem Grid.combine_add_vector [AddMonoid α] (v w : List α) :
    ((vector v).combine (· + ·) (vector w)).map entries =
      (((vector (Buffer.zeros v.length)).combine (· + ·) (vector w)).map entries).map
        (Buffer.add v) := by
  rw [combine, combine, shape_vector, shape_vector, shape_vector, Buffer.length_zeros]
  rcases join? [v.length] [w.length] with - | joined
  · rfl
  dsimp only
  by_cases hjoined : joined = [v.length]
  · subst hjoined
    rw [if_neg (not_not.2 rfl), if_neg (not_not.2 rfl)]
    rcases hstretch : (vector w).stretchTo [v.length] with failure | s
    · rfl
    · have hs := length_stretchTo_vector hstretch
      exact congrArg Except.ok (congrArg (Buffer.add v) (Buffer.zeros_add hs).symm)
  · rw [if_pos hjoined, if_pos hjoined]
    rfl

namespace Elementwise

variable [Mul α] (e : Elementwise α) (id : Nat)

/-- The gradient times the derivatives is added, as far as these can be multiplied. -/
theorem complete_projectedVector [Add α] (accumulator point gradient : List α) :
    ((e.toTransform id).projectedVector accumulator point gradient).complete =
      Grid.zipWith (· * ·) (.vector gradient) (.vector (point.map e.derivative)) >>= fun p ↦
        ((Grid.vector accumulator).combine (· + ·) (.vector p.entries)).map Grid.entries := by
  simp only [Transform.projectedVector, Progress.complete_map, toTransform,
    Progress.complete_once, addGradient, Grid.map_vector]
  rcases hp : Grid.zipWith (· * ·) (Grid.vector gradient) (Grid.vector (point.map e.derivative))
    with failure | p
  · rfl
  · rw [Grid.eq_vector_of_zipWith hp]
    rfl

/-- Transforms by scalar maps add to arrays of all sizes. -/
theorem addsTo [AddMonoid α] (size : Nat) : (e.toTransform id).AddsTo size := by
  constructor
  · intro point gradient c _ h
    rw [Transform.pulledTo, complete_projectedVector] at h
    obtain ⟨p, -, h⟩ := bind_eq_ok_iff.1 h
    rw [Grid.length_combine_vector h, Buffer.length_zeros]
  · intro accumulator gradient hlength _ point
    rw [Transform.pulledTo, complete_projectedVector, complete_projectedVector, ← hlength]
    rcases Grid.zipWith (· * ·) (Grid.vector gradient) (Grid.vector (point.map e.derivative))
      with failure | p
    · rfl
    · exact Grid.combine_add_vector accumulator p.entries

theorem adds [AddMonoid α] : (e.toTransform id).Adds :=
  ⟨Int.natCast_nonneg _, e.addsTo id _⟩

end Elementwise

end Summand
