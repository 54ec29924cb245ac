import Summand.Objective.Copying
import Summand.Proofs.Registry

/-!
# The values of variables at a point

Before an evaluation the scratch of every variable takes the user-space value of a point.
`Variable.valued` says what that value is without the steps that lead there, and
`Registry.valued` does so for all variables, with the first failure in registration order. However
far the copying comes, nothing but scratch values changes, and these keep their lengths.
-/

namespace Summand

variable {α : Type}

/-! ### Stretching vectors -/

@[simp] theorem Grid.shape_vector (v : List α) : (vector v).shape = [v.length] := rfl

@[simp] theorem Grid.map_vector {β : Type} (f : α → β) (v : List α) :
    (vector v).map f = vector (v.map f) := by
  simp [map, vector]

theorem Grid.length_stretchTo_vector {v w : List α} {n : Nat}
    (h : (Grid.vector v).stretchTo [n] = .ok w) : w.length = n := by
  rw [stretchTo, stretch?, vector] at h
  dsimp only at h
  split at h
  · rename_i heq
    cases h
    simpa using heq
  rename_i hne
  have hlength : v.length ≠ n := by simpa using hne
  rw [stretchEntries?] at h
  -- Only a single number can be stretched to another length.
  by_cases hone : v.length = 1
  · have hne : 1 ≠ n := hone ▸ hlength
    simp only [List.length_nil, Nat.lt_irrefl, if_false, hone, hne, if_true, stretchEntries?,
      Option.map_some, Option.elim_some, Except.ok.injEq] at h
    rw [← h]
    simp [hone]
  · simp only [List.length_nil, Nat.lt_irrefl, if_false, hlength, hone, Option.elim_none] at h
    cases h

/-- A vector of the right length is not stretched. -/
theorem Grid.stretchTo_vector {v : List α} {n : Nat} (h : v.length = n) :
    (Grid.vector v).stretchTo [n] = .ok v := by
  subst h
  simp [stretchTo, stretch?, vector]

/-! ### Combining vectors -/

/-- Shapes of vectors are joined to that of a vector. -/
theorem Grid.join?_singleton {m n : Nat} {shape : List Nat} (h : join? [m] [n] = some shape) :
    ∃ k, shape = [k] := by
  have hreversed : ∃ k, reversedJoin? [m] [n] = some [k] ∨ reversedJoin? [m] [n] = none := by
    unfold reversedJoin?
    split
    · exact ⟨m, .inl rfl⟩
    · split
      · exact ⟨n, .inl rfl⟩
      · exact ⟨0, .inr rfl⟩
  obtain ⟨k, hk | hk⟩ := hreversed <;>
    rw [join?, List.reverse_singleton, List.reverse_singleton, hk] at h <;> cases h
  exact ⟨k, rfl⟩

/-- Vectors that are combined make a vector. -/
theorem Grid.eq_vector_of_zipWith {f : α → α → α} {v w : List α} {p : Grid α}
    (h : Grid.zipWith f (vector v) (vector w) = .ok p) : p = vector p.entries := by
  have hstretch {u s : List α} {n : Nat} (hs : (vector u).stretch? [n] = some s) :
      s.length = n := Grid.length_stretchTo_vector (v := u) (by rw [stretchTo, hs]; rfl)
  have key {shape : List Nat} (hshape : ∃ n, shape = [n])
      (h : (do return ⟨shape, List.zipWith f (← (vector v).stretch? shape)
        (← (vector w).stretch? shape)⟩ : Option (Grid α)) = some p) : p = vector p.entries := by
    obtain ⟨n, rfl⟩ := hshape
    obtain ⟨s, hs, h⟩ := Option.bind_eq_some_iff.1 h
    obtain ⟨t, ht, h⟩ := Option.bind_eq_some_iff.1 h
    cases h
    simp [vector, hstretch hs, hstretch ht]
  have hsome {result : Option (Grid α)} {failure : Failure}
      (h : result.elim (Except.error failure) Except.ok = .ok p) : result = some p := by
    cases result with
    | none => cases h
    | some q => exact congrArg some (Except.ok.inj h)
  have h := hsome h
  split at h
  · exact key ⟨v.length, rfl⟩ h
  · obtain ⟨shape, hjoin, h⟩ := Option.bind_eq_some_iff.1 h
    exact key (Grid.join?_singleton hjoin) h

/-- Vectors of one length are combined entry by entry. -/
theorem Grid.zipWith_vector (f : α → α → α) {v w : List α} (h : v.length = w.length) :
    Grid.zipWith f (vector v) (vector w) = .ok (vector (List.zipWith f v w)) := by
  have hstretch {u : List α} {n : Nat} (hu : u.length = n) :
      (vector u).stretch? [n] = some u := by
    rw [stretch?, if_pos (by rw [shape_vector, hu])]
    rfl
  have hshape : (vector v).shape = (vector w).shape := by rw [shape_vector, shape_vector, h]
  rw [zipWith]
  simp only [hshape, if_true, shape_vector, Option.bind_eq_bind, Option.bind_some, hstretch h,
    hstretch rfl]
  simp [vector, h]

/-- Vectors of one length combine entry by entry. -/
theorem Grid.combine_vector (f : α → α → α) {v w : List α} (h : v.length = w.length) :
    (vector v).combine f (vector w) = .ok (vector (List.zipWith f v w)) := by
  have hjoin : join? [v.length] [w.length] = some [v.length] := by
    simp [join?, reversedJoin?, h]
  rw [combine, shape_vector, shape_vector, hjoin]
  simp only [ne_eq, not_true, if_false, stretchTo_vector h.symm]
  exact congrArg Except.ok (by simp [vector, h])

/-- A vector keeps its length when another one is added in place. -/
theorem Grid.length_combine_vector {f : α → α → α} {u v w : List α}
    (h : ((vector v).combine f (vector w)).map entries = .ok u) : u.length = v.length := by
  obtain ⟨p, hp, rfl⟩ := map_eq_ok_iff.1 h
  rw [combine, shape_vector] at hp
  split at hp
  · cases hp
  split at hp
  · cases hp
  · rename_i joined _ hjoined
    obtain rfl : joined = [v.length] := not_not.1 hjoined
    obtain ⟨s, hs, hp⟩ := bind_eq_ok_iff.1 hp
    cases hp
    simp [vector, length_stretchTo_vector hs]

namespace Objective

/-! ### One variable -/

@[simp] theorem length_scratchAt (v : Variable α) (x : List α) :
    (scratchAt v x).state.length = v.scratch.length := by
  unfold scratchAt
  cases v.transform with
  | none => exact Progress.measure_once List.length fun next h ↦ Grid.length_stretchTo_vector h
  | some t => exact Buffer.length_conform _ _

end Objective

/-- A variable with the value of a point in its scratch. -/
def Variable.valued (v : Variable α) (x : List α) : Except Failure (Variable α) :=
  (Objective.scratchAt v x).complete.map fun scratch ↦ { v with scratch }

/-! ### All variables -/

/-- The registry with the values of a point in the scratch of its variables. -/
def Registry.valued (r : Registry α) (x : List α) : Except Failure (Registry α) :=
  (r.entries.mapM (Variable.valued · x)).map fun entries ↦ { r with entries }

namespace Objective

/-- The values are copied up to the first variable that fails. -/
theorem scratchedAt_eq (x : List α) (entries : List (Variable α)) :
    entries.mapM (Variable.valued · x) =
      match (scratchedAt x entries).2 with
      | none => .ok (scratchedAt x entries).1
      | some failure => .error failure := by
  induction entries with
  | nil => rfl
  | cons v rest ih =>
    rw [List.mapM_cons, ih, scratchedAt, Variable.valued]
    dsimp only
    rcases hfailure : (scratchAt v x).failure with - | failure
    · rw [Progress.complete_of_no_failure hfailure]
      rcases scratchedAt x rest with ⟨entries, - | failure⟩ <;> rfl
    · rw [Progress.complete_of_failure hfailure]
      rfl

/-- Copying changes scratch values only. -/
theorem map_bare_scratchedAt [Zero α] (x : List α) (entries : List (Variable α)) :
    (scratchedAt x entries).1.map Variable.bare = entries.map Variable.bare := by
  induction entries with
  | nil => rfl
  | cons v rest ih =>
    have hv := v.bare_scratch (length_scratchAt v x)
    rw [scratchedAt]
    dsimp only
    split
    · rw [List.map_cons, List.map_cons, hv]
    · rw [List.map_cons, List.map_cons, hv, ih]

end Objective

/-- The values of a point are put into scratch and nowhere else. -/
theorem Registry.map_bare_valued [Zero α] {r s : Registry α} {x : List α}
    (h : r.valued x = .ok s) :
    r.entries.map Variable.bare = s.entries.map Variable.bare ∧
      r.totalScalars = s.totalScalars := by
  obtain ⟨entries, hentries, rfl⟩ := map_eq_ok_iff.1 h
  rw [Objective.scratchedAt_eq] at hentries
  have hbare := Objective.map_bare_scratchedAt x r.entries
  split at hentries
  · cases hentries
    exact ⟨hbare.symm, rfl⟩
  · cases hentries

end Summand
