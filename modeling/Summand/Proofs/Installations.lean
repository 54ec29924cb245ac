import Summand.Proofs.Registrations
import Summand.Proofs.Release

/-!
# Installations of transforms

A registration installs a transform if it puts it on a variable that does not carry it already.
Installations and releases balance: as long as the objective is open, the releases of a transform
and the variables that carry it are together as many as its installations, and once the objective
has been closed, its releases alone are (`Scene.Reached.releases_eq_installations`). So a transform
that has been installed once is released once, and not while a variable carries it; one that has
only been passed to registrations that failed is not released.

There is no more to it: a transform that two variables carry is released for each of them, and for
the first one while the other still carries it (`Small.released_of_shared`).
-/

namespace Summand

variable {α : Type}

namespace Registry

variable {r : Registry α}

/-- Another transform on a variable takes the place of the one that it carried. -/
theorem Laid.count_installed_setVariable (h : r.Laid) {v : Variable α} (hv : v ∈ r.entries)
    (transform : Option (Transform α)) (id : Nat) :
    (r.setVariable { v with transform }).installed.count id + (carried v.transform).count id =
      r.installed.count id + (carried transform).count id := by
  obtain ⟨earlier, later, hr⟩ := List.append_of_mem hv
  have hset : (r.setVariable { v with transform }).entries =
      earlier ++ { v with transform } :: later := by
    show r.entries.set v.index _ = _
    rw [(h.split hr).1, hr, List.set_append_right _ _ (Nat.le_refl _), Nat.sub_self]
    rfl
  simp only [installed, hset, hr, List.flatMap_append, List.flatMap_cons, List.count_append]
  omega

/-- What is released for the sake of another transform is what the variable carried, unless it is
the same one. -/
theorem releasesOf_released (v : Variable α) (transform : Option (Transform α)) :
    releasesOf (released v transform) =
      if sameTransform v.transform transform then [] else (carried v.transform).map .transform := by
  unfold released
  rcases v.transform with - | previous
  · simp [carried]
  · dsimp only
    split
    · rfl
    · rfl

/-- The transform that a registration installs if it succeeds. -/
def newlyInstalled (r : Registry α) (handle : Handle) (transform : Option (Transform α)) :
    List Nat :=
  match r.lookup handle with
  | none => carried transform
  | some v => if sameTransform v.transform transform then [] else carried transform

variable [Zero α] {s : Registry α} {handle : Handle} {transform : Option (Transform α)}
  {index : Nat} {added : List (Event α)}

/-- A registration that succeeds releases a transform as often as one less variable carries it, or
installs it. -/
theorem Registering.balance (h : r.Laid)
    (hs : Registering r handle transform (.ok (s, index)) added) (id : Nat) :
    (releasesOf added).count (.transform id) + s.installed.count id =
      r.installed.count id + (r.newlyInstalled handle transform).count id := by
  cases hs with
  | @replaced block v hhandle hv _ =>
    have hbalance := h.count_installed_setVariable (find?_eq_some hv).1 transform id
    have hlookup : r.lookup handle = some v := by rw [hhandle]; exact hv
    rw [releasesOf_released, newlyInstalled, hlookup]
    dsimp only
    split
    · rename_i hsame
      have hcarried : carried v.transform = carried transform :=
        congrArg Option.toList (by simpa [sameTransform] using hsame)
      rw [hcarried] at hbalance
      simp only [List.count_nil]
      omega
    · rw [Release.count_transform_map_transform]
      omega
  | @added block user solver text hhandle hnone hfits =>
    have hlookup : r.lookup handle = none := by rw [hhandle]; exact hnone
    rw [newlyInstalled, hlookup]
    simp [installed, newVariable]

/-- A registration that fails releases nothing if nothing fails to be released. -/
theorem Registering.releasesOf_eq_nil (h : r.Willing) {failure : Failure}
    (hs : Registering r handle transform (.error failure) added) : releasesOf added = [] := by
  cases hs with
  | rejected => rfl
  | unreleased _ hv hprevious hfailure =>
    rw [h _ (find?_eq_some hv).1 _ hprevious] at hfailure
    cases hfailure

end Registry

/-! ### Sequences of registrations -/

section Sequences

open Objective Registry

variable [Zero α] [Add α] [OfNat α 1] [Storable α] {s : Scene α}

/-- The transform that a registration installs, if it does. -/
def Scene.installation (s : Scene α) (g : Registration α) : List Nat :=
  if (g.call.perform.run s).1.isOk then s.objective.registry.newlyInstalled g.handle g.transform
  else []

/-- The transforms that registrations install one after another. -/
def Scene.installations (s : Scene α) : List (Registration α) → List Nat
  | [] => []
  | g :: rest => s.installation g ++ (g.call.perform.run s).2.installations rest

/-- What registrations install has been passed to one of them that succeeded. -/
theorem Scene.exists_accepted_of_mem_installations {registrations : List (Registration α)}
    {id : Nat}
    (h : id ∈ s.installations registrations) :
    ∃ g ∈ s.accepted registrations, ∃ t, g.transform = some t ∧ t.id = id := by
  induction registrations generalizing s with
  | nil => cases h
  | cons g rest ih =>
    rcases List.mem_append.1 h with h | h
    · rw [installation] at h
      split at h
      · rename_i hok
        have hmem : id ∈ carried g.transform := by
          unfold newlyInstalled at h
          split at h
          · exact h
          split at h
          · cases h
          · exact h
        obtain ⟨t, ht, hid⟩ := Option.map_eq_some_iff.1 (Option.mem_toList.1 hmem)
        refine ⟨g, ?_, t, ht, hid⟩
        simp [accepted, hok]
      · cases h
    · obtain ⟨g', hg', ht⟩ := ih h
      refine ⟨g', ?_, ht⟩
      unfold accepted
      dsimp only
      split
      · exact List.mem_cons_of_mem _ hg'
      · exact hg'

/-- An open objective whose transforms do not fail to be released, with as many releases and
carriers of every transform as have been counted. -/
structure Scene.Balanced (s : Scene α) (count : Nat → Nat) : Prop where
  opened : s.objective.closed = false
  laid : s.objective.registry.Laid
  willing : s.objective.registry.Willing
  balance : ∀ id,
    s.releases.count (.transform id) + s.objective.registry.installed.count id = count id

/-- A registration adds to the count what it installs. -/
theorem Scene.Balanced.step {count : Nat → Nat} (h : s.Balanced count) (g : Registration α)
    (hwilling : ∀ t, g.transform = some t → t.closeFailure = none) :
    (g.call.perform.run s).2.Balanced (fun id ↦ count id + (s.installation g).count id) ∧
      (g.call.perform.run s).2.objective.graph = s.objective.graph := by
  have hrun := g.registered_run h.opened
  rw [installation]
  generalize g.call.perform.run s = ending at hrun ⊢
  cases hrun with
  | @failed failure added hregistering =>
    refine ⟨⟨h.opened, h.laid, h.willing, fun id ↦ ?_⟩, rfl⟩
    have hbalance := h.balance id
    have hnothing := hregistering.releasesOf_eq_nil h.willing
    simpa [releases, hnothing, Except.isOk, Except.toBool, invalidate] using hbalance
  | @done registry index added hregistering =>
    refine ⟨⟨h.opened, (hregistering.laid h.laid).1,
      hregistering.forall_transforms h.willing hwilling, fun id ↦ ?_⟩, rfl⟩
    have hbalance := h.balance id
    have hadded := hregistering.balance h.laid id
    simp only [releases, releasesOf_append, List.count_append, Except.isOk, Except.toBool, if_true]
      at hbalance ⊢
    omega

/-- So do registrations one after another. -/
theorem Scene.Balanced.run {count : Nat → Nat} (h : s.Balanced count)
    {registrations : List (Registration α)}
    (hwilling : ∀ g ∈ registrations, ∀ t, g.transform = some t → t.closeFailure = none) :
    (s.registered registrations).Balanced
        (fun id ↦ count id + (s.installations registrations).count id) ∧
      (s.registered registrations).objective.graph = s.objective.graph := by
  induction registrations generalizing s count with
  | nil => exact ⟨h, rfl⟩
  | cons g rest ih =>
    obtain ⟨hstep, hgraph⟩ := h.step g (hwilling g List.mem_cons_self)
    obtain ⟨hrest, hgraph'⟩ := ih hstep fun g' hg' ↦ hwilling g' (List.mem_cons_of_mem g hg')
    refine ⟨?_, hgraph'.trans hgraph⟩
    simp only [installations, List.count_append, ← Nat.add_assoc]
    exact hrest

/-- Whatever has been done with an open objective, registrations in any order, successful or not,
and the closing at the end release every transform as often as it has been installed and not been
released before. Until then, the variables that carry it make up for the releases that are to come.
A transform that no successful registration has passed is not installed. -/
theorem Scene.Reached.releases_eq_installations (h : s.Reached) (hopen : s.objective.closed = false)
    (hterms : s.objective.graph.Willing) (htransforms : s.objective.registry.Willing)
    {registrations : List (Registration α)}
    (hwilling : ∀ g ∈ registrations, ∀ t, g.transform = some t → t.closeFailure = none) :
    ∃ u, (Call.close.perform : Action α Unit).run (s.registered registrations) = (.ok (), u) ∧
      u.objective.registry.installed = [] ∧
      ∀ id,
        (s.registered registrations).releases.count (.transform id) +
            (s.registered registrations).objective.registry.installed.count id =
          s.releases.count (.transform id) + s.objective.registry.installed.count id +
            (s.installations registrations).count id ∧
        u.releases.count (.transform id) =
          s.releases.count (.transform id) + s.objective.registry.installed.count id +
            (s.installations registrations).count id ∧
        ((∀ g ∈ s.accepted registrations, ∀ t, g.transform = some t → t.id ≠ id) →
          (s.installations registrations).count id = 0) := by
  have hstart : s.Balanced fun id ↦
      s.releases.count (.transform id) + s.objective.registry.installed.count id :=
    ⟨hopen, (h.sound hopen).laid, htransforms, fun _ ↦ rfl⟩
  obtain ⟨hend, hgraph⟩ := hstart.run hwilling
  refine ⟨_, run_close hend.opened (hgraph ▸ hterms) hend.willing, installed_cleared _, fun id ↦ ?_⟩
  have hbalance := hend.balance id
  refine ⟨hbalance, ?_, fun hnone ↦ List.count_eq_zero.2 fun hmem ↦ ?_⟩
  · -- What is released at the end is what is still carried.
    show (releasesOf (_ ++ _ ++ _)).count _ = _
    rw [releasesOf_append, releasesOf_append, releasesOf_map_termReleased,
      releasesOf_map_transformReleased, List.count_append, List.count_append,
      Release.count_transform_map_term, Release.count_transform_map_transform]
    exact hbalance
  · obtain ⟨g, hg, t, ht, hid⟩ := exists_accepted_of_mem_installations hmem
    exact hnone g hg t ht hid

end Sequences

namespace Small

/-- The transform of a variable that is given up again has been released once when all is closed. -/
theorem released_once :
    ∃ u, (Call.close.perform : Action Int Unit).run (start.registered registrations) = (.ok (), u) ∧
      u.releases.count (.transform tripled.id) = 1 := by
  have hterms : start.objective.graph.Willing := fun _ ht ↦ nomatch ht
  have htransforms : start.objective.registry.Willing := fun _ hv ↦ nomatch hv
  have hwilling : ∀ g ∈ registrations, ∀ t, g.transform = some t → t.closeFailure = none := by
    simp [registrations, tripled, Elementwise.toTransform]
  obtain ⟨u, hrun, -, hcount⟩ :=
    (reached_after []).releases_eq_installations (s := start) rfl hterms htransforms hwilling
  refine ⟨u, hrun, (hcount tripled.id).2.1.trans ?_⟩
  rfl

/-- Two variables with one transform. -/
def sharing : List (Registration Int) :=
  [⟨.array single, .null, some tripled⟩, ⟨.array spare, .null, some tripled⟩]

/-- A transform that two variables carry is released twice, and it may be released while one of them
still carries it. -/
theorem released_of_shared :
    (start.accepted sharing).length = 2 ∧
      (∃ u, (Call.close.perform : Action Int Unit).run (start.registered sharing) = (.ok (), u) ∧
        u.releases = [.transform tripled.id, .transform tripled.id]) ∧
      ∃ t, (Registration.call ⟨.array single, .null, none⟩).perform.run (start.registered sharing) =
          (.ok (), t) ∧
        t.releases = [.transform tripled.id] ∧ t.objective.closed = false ∧
        t.objective.registry.installed = [tripled.id] :=
  ⟨rfl, ⟨_, rfl, rfl⟩, _, rfl, rfl, rfl, rfl⟩

end Small

end Summand
