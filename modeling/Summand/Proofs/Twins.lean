import Summand.Proofs.HistoryIndependence
import Summand.Proofs.Regrouping
import Summand.Proofs.Relocation

/-!
# Evaluation beside another order of registration

Two registries may have the same variables in different orders. The variables of one block in both
are twins. At points whose entries correspond, twins take the same values, or some variable fails in
both registries (`Registry.Permuted.valued`). Bindings of one term to twins are alike
(`Binding.Alike`): they hand their terms the same values, and what these come to is added at
positions that correspond. So sums of alike bindings have the same value, and gradients that
correspond (`Binding.accumulateFrom_relocates`), and alike bindings have the same at coordinates of
their Hessian blocks that correspond (`Binding.SameHessian.contributions_eq`).

Nothing is asked of addition here. The same values are added in the same order, entry by entry.
-/

namespace Summand

variable {α : Type}

/-! ### Values -/

namespace Registry

/-- Twins hold the same values, unless a transform overwrites what they hold. -/
def Refilled (r r' : Registry α) : Prop :=
  ∀ v v', Twin r r' v v' →
    v.scratch = v'.scratch ∨ ∀ t, v.transform = some t → t.Overwrites

/-- Two registries have the same variables in any order, with the same values. -/
structure Twins (r r' : Registry α) : Prop extends Permuted r r' where
  scratch : ∀ v v', Twin r r' v v' → v.scratch = v'.scratch

section Bare

variable [Zero α] {r r' s s' : Registry α} {σ : ℕ → ℕ}

theorem map_unplaced_of_bare (h : r.entries.map Variable.bare = s.entries.map Variable.bare) :
    r.entries.map Variable.unplaced = s.entries.map Variable.unplaced := by
  have key (r : Registry α) : r.entries.map Variable.unplaced =
      (r.entries.map Variable.bare).map Variable.unplaced := by
    rw [List.map_map]
    rfl
  rw [key r, key s, h]

variable (hr : r.entries.map Variable.bare = s.entries.map Variable.bare)
  (hr' : r'.entries.map Variable.bare = s'.entries.map Variable.bare)

include hr hr'

/-- Twins come from twins that differ in values at most. -/
theorem Twin.exists_of_bare {w w' : Variable α} (h : Twin s s' w w') :
    ∃ v v', Twin r r' v v' ∧ v.bare = w.bare ∧ v'.bare = w'.bare := by
  obtain ⟨v, hv, heq⟩ := exists_mem_of_bare hr h.left
  obtain ⟨v', hv', heq'⟩ := exists_mem_of_bare hr' h.right
  have hblock : v.block = w.block := (congrArg Variable.block heq :)
  have hblock' : v'.block = w'.block := (congrArg Variable.block heq' :)
  exact ⟨v, v', ⟨hv, hv', by rw [hblock, h.block, hblock']⟩, heq, heq'⟩

theorem Permuted.of_bare (h : Permuted r r') (htotal : r.totalScalars = s.totalScalars)
    (htotal' : r'.totalScalars = s'.totalScalars) : Permuted s s' where
  laid := h.laid.of_bare hr htotal
  laid' := h.laid'.of_bare hr' htotal'
  natural := h.natural.of_bare hr
  natural' := h.natural'.of_bare hr'
  perm := map_unplaced_of_bare hr ▸ map_unplaced_of_bare hr' ▸ h.perm

theorem Relocation.of_bare (h : Relocation r r' σ) : Relocation s s' σ := by
  intro w w' htwin k hk
  obtain ⟨v, v', htwin, hv, hv'⟩ := htwin.exists_of_bare hr hr'
  have hoffset : v.offset = w.offset := (congrArg Variable.offset hv :)
  have hoffset' : v'.offset = w'.offset := (congrArg Variable.offset hv' :)
  have hdim : v.solverDimension = w.solverDimension := (congrArg Variable.solverDimension hv :)
  rw [← hoffset, ← hoffset']
  exact h v v' htwin k (hdim ▸ hk)

end Bare

variable {r r' : Registry α} {σ : ℕ → ℕ}

/-- Twins take the same value at points where their slices are the same. -/
theorem Permuted.complete_scratchAt (h : Permuted r r') {v v' : Variable α}
    (htwin : Twin r r' v v')
    (hscratch : v.scratch = v'.scratch ∨ ∀ t, v.transform = some t → t.Overwrites)
    {x x' : List α} (hslice : v.slice x = v'.slice x') :
    (Objective.scratchAt v x).complete = (Objective.scratchAt v' x').complete := by
  have hfits := h.laid.fits v htwin.left
  have hlength : v'.scratch.length = v.scratch.length := by
    rw [hfits.scratch, (h.laid'.fits v' htwin.right).scratch, h.userDimension_eq htwin]
  rw [Objective.scratchAt, Objective.scratchAt, ← h.transform_eq htwin, ← hslice]
  rcases ht : v.transform with - | t
  · simp only [Progress.complete_once, hlength]
  · rcases hscratch with hsame | hoverwrites
    · rw [hsame]
    · apply (hoverwrites t ht).toUser ?_ hlength
      rw [(hfits.transform_dimensions ht).1, hfits.scratch]

/-- The variables of both registries take their values together, and twins take the same ones. -/
theorem Permuted.valued [Zero α] (h : Permuted r r') (hrefilled : Refilled r r')
    (hσ : Relocation r r' σ) {x x' : List α} (hx : Relocates σ r.totalScalars.toNat x x') :
    Together Twins (r.valued x) (r'.valued x') := by
  have htwins {v v' : Variable α} (htwin : Twin r r' v v') :=
    h.complete_scratchAt htwin (hrefilled v v' htwin) (hσ.slice_eq h htwin hx)
  have hiff : (∃ m, r.entries.mapM (Variable.valued · x) = .ok m) ↔
      ∃ m, r'.entries.mapM (Variable.valued · x') = .ok m := by
    rw [exists_mapM_iff, exists_mapM_iff]
    constructor
    · intro hall v' hv'
      obtain ⟨v, htwin⟩ := h.symm.exists_twin hv'
      obtain ⟨w, hw⟩ := hall v htwin.right
      obtain ⟨scratch, hs, -⟩ := map_eq_ok_iff.1 hw
      rw [htwins htwin.symm] at hs
      exact ⟨_, map_eq_ok_iff.2 ⟨scratch, hs, rfl⟩⟩
    · intro hall v hv
      obtain ⟨v', htwin⟩ := h.exists_twin hv
      obtain ⟨w, hw⟩ := hall v' htwin.right
      obtain ⟨scratch, hs, -⟩ := map_eq_ok_iff.1 hw
      rw [← htwins htwin] at hs
      exact ⟨_, map_eq_ok_iff.2 ⟨scratch, hs, rfl⟩⟩
  rcases hr : r.valued x with e | s <;> rcases hr' : r'.valued x' with e' | s'
  · exact .error
  · obtain ⟨entries, hentries, -⟩ := map_eq_ok_iff.1 hr'
    obtain ⟨m, hm⟩ := hiff.2 ⟨entries, hentries⟩
    rw [Registry.valued, hm] at hr
    cases hr
  · obtain ⟨entries, hentries, -⟩ := map_eq_ok_iff.1 hr
    obtain ⟨m, hm⟩ := hiff.1 ⟨entries, hentries⟩
    rw [Registry.valued, hm] at hr'
    cases hr'
  · have hbare := map_bare_valued hr
    have hbare' := map_bare_valued hr'
    refine .ok { h.of_bare hbare.1 hbare'.1 hbare.2 hbare'.2 with scratch := ?_ }
    intro w w' htwin
    obtain ⟨entries, hentries, rfl⟩ := map_eq_ok_iff.1 hr
    obtain ⟨entries', hentries', rfl⟩ := map_eq_ok_iff.1 hr'
    obtain ⟨v, hv, hw⟩ := exists_mem_of_mapM hentries htwin.left
    obtain ⟨v', hv', hw'⟩ := exists_mem_of_mapM hentries' htwin.right
    obtain ⟨scratch, hs, rfl⟩ := map_eq_ok_iff.1 hw
    obtain ⟨scratch', hs', rfl⟩ := map_eq_ok_iff.1 hw'
    rw [htwins ⟨hv, hv', htwin.block⟩, hs'] at hs
    exact (Except.ok.inj hs).symm

end Registry

/-! ### Bindings -/

open Registry

/-- Two bindings put one term on the variables of the same blocks. -/
structure Binding.SameBlocks (r r' : Registry α) (b b' : Binding α) : Prop where
  term : b.term = b'.term
  blocks : (Graph.argumentVariables r b).map Variable.block =
    (Graph.argumentVariables r' b').map Variable.block

/-- Two bindings put one term on twins, and have blocks of the same sizes for its second
derivatives. -/
structure Binding.Alike [Zero α] (r r' : Registry α) (b b' : Binding α) : Prop where
  term : b.term = b'.term
  vars : List.Forall₂ (Twin r r') (Graph.argumentVariables r b)
    (Graph.argumentVariables r' b')
  hessianBlocks : b.bare.hessianBlocks = b'.bare.hessianBlocks

namespace Binding

variable [Zero α] {r r' s s' : Registry α} {b b' : Binding α}

theorem SameBlocks.alike (h : b.SameBlocks r r' b') {withHessian : Bool}
    (hb : b.Bound r withHessian) (hb' : b'.Bound r' withHessian) : Alike r r' b b' where
  term := h.term
  vars := by
    have key {vars vars' : List (Variable α)} (hv : ∀ v ∈ vars, v ∈ r.entries)
        (hv' : ∀ v ∈ vars', v ∈ r'.entries)
        (hblocks : vars.map Variable.block = vars'.map Variable.block) :
        List.Forall₂ (Twin r r') vars vars' := by
      induction vars generalizing vars' with
      | nil =>
        obtain rfl : vars' = [] := by simpa using hblocks.symm
        exact .nil
      | cons v vars ih =>
        obtain - | ⟨v', vars'⟩ := vars'
        · simp at hblocks
        obtain ⟨hhead, htail⟩ := List.cons.inj hblocks
        exact .cons ⟨hv v List.mem_cons_self, hv' v' List.mem_cons_self, hhead⟩
          (ih (fun w hw ↦ hv w (List.mem_cons_of_mem v hw))
            (fun w hw ↦ hv' w (List.mem_cons_of_mem v' hw)) htail)
    exact key (fun v hv ↦ Graph.mem_of_mem_argumentVariables hv)
      (fun v hv ↦ Graph.mem_of_mem_argumentVariables hv) h.blocks
  hessianBlocks := by rw [hb.blocks, hb'.blocks, h.term]

omit [Zero α] in
theorem SameBlocks.of_bare [Zero α] (h : b.SameBlocks r r' b')
    (hr : r.entries.map Variable.bare = s.entries.map Variable.bare)
    (hr' : r'.entries.map Variable.bare = s'.entries.map Variable.bare) :
    b.SameBlocks s s' b' where
  term := h.term
  blocks := by
    have key (r : Registry α) (b : Binding α) :
        (Graph.argumentVariables r b).map Variable.block =
          (Graph.argumentVariables { r with entries := r.entries.map Variable.bare } b.bare).map
            Variable.block := by
      rw [← Objective.map_bare_argumentVariables, List.map_map]
      rfl
    have hblocks := h.blocks
    rw [key r, key r', Graph.argumentVariables, Graph.argumentVariables] at hblocks
    rw [key s, key s', Graph.argumentVariables, Graph.argumentVariables, ← hr, ← hr']
    exact hblocks

namespace Alike

variable (h : Alike r r' b b') (twins : Twins r r')

include h

theorem map_eq {β : Type} {f : Variable α → β} (hf : ∀ v v', Twin r r' v v' → f v = f v') :
    (Graph.argumentVariables r b).map f = (Graph.argumentVariables r' b').map f :=
  map_eq_of_forall₂ h.vars hf

include twins

/-- Terms come to the same derivatives and the same value on twins. -/
theorem evaluated_bare_eq (mode : Mode) :
    b.bare.evaluated mode r = b'.bare.evaluated mode r' := by
  have hscratch := h.map_eq (f := Variable.scratch) twins.scratch
  have hclean := h.map_eq (f := fun v ↦ (Buffer.zeros v.userDimension : List α)) fun v v' htwin ↦ by
    rw [twins.userDimension_eq htwin]
  have hterm : b.bare.term = b'.bare.term := h.term
  rw [evaluated, evaluated]
  change b.bare.derivatives mode ((Graph.argumentVariables r b).map Variable.scratch)
      (cleanBuffers (Graph.argumentVariables r b)) =
    b'.bare.derivatives mode ((Graph.argumentVariables r' b').map Variable.scratch)
      (cleanBuffers (Graph.argumentVariables r' b'))
  rw [hscratch, cleanBuffers, hclean, ← cleanBuffers]
  simp only [derivatives, hterm, h.hessianBlocks]

theorem hessianBlocks_afterward :
    (b.afterward .hessian r).hessianBlocks = (b'.afterward .hessian r').hessianBlocks := by
  rw [← afterward_hessian_bare, ← afterward_hessian_bare r', afterward_of_ne_value (by simp),
    afterward_of_ne_value (by simp), h.evaluated_bare_eq twins]

end Alike

end Binding

/-! ### Sums -/

section Sums

variable [Add α]

namespace Binding

variable {r r' : Registry α} {σ : ℕ → ℕ} {x x' : List α}

/-- Gradients of the arguments are added at the slices of twins. -/
theorem scatter_relocates (h : Permuted r r') (hσ : Relocation r r' σ)
    (hx : Relocates σ r.totalScalars.toNat x x') {vars vars' : List (Variable α)}
    (hvars : List.Forall₂ (Twin r r') vars vars') (gradients : List (List α))
    {accumulator accumulator' : List α}
    (hacc : Relocates σ r.totalScalars.toNat accumulator accumulator') :
    Together (Relocates σ r.totalScalars.toNat) (scatter x vars gradients accumulator).complete
      (scatter x' vars' gradients accumulator').complete := by
  induction hvars generalizing gradients accumulator accumulator' with
  | nil => exact .ok hacc
  | @cons v v' vars vars' htwin _ ih =>
    obtain - | ⟨g, gradients⟩ := gradients
    · exact .ok hacc
    have hslice := hσ.slice_eq h htwin hacc
    have hadded : v'.addedTo (v'.slice accumulator') (v'.slice x') g =
        v.addedTo (v.slice accumulator) (v.slice x) g := by
      rw [Variable.addedTo, Variable.addedTo, h.transform_eq htwin, hslice,
        hσ.slice_eq h htwin hx]
    rw [complete_scatter_cons, complete_scatter_cons, complete_scatterOne, complete_scatterOne,
      hadded]
    refine Together.bind (R := Relocates σ r.totalScalars.toNat) ?_
      fun a a' _ _ ha ↦ ih gradients ha
    refine Together.map (R := fun c c' ↦ c = c') (.same fun _ _ ↦ rfl) ?_
    rintro c _ hc - rfl
    refine hσ.setSlice h htwin hacc ?_
    rw [Variable.length_addedTo hc, (h.liesIn htwin).length_slice hacc.length]

variable [Zero α] [Storable α] {mode : Mode}

/-- Two sums have the same value, and gradients that correspond. -/
def SumsRelocate (σ : ℕ → ℕ) (n : ℕ) (s s' : α × List α) : Prop :=
  s.1 = s'.1 ∧ Relocates σ n s.2 s'.2

theorem Alike.accumulate {b b' : Binding α} (h : Alike r r' b b') (twins : Twins r r')
    (hσ : Relocation r r' σ) (hx : mode ≠ .value → Relocates σ r.totalScalars.toNat x x')
    {s s' : α × List α} (hs : SumsRelocate σ r.totalScalars.toNat s s') :
    Together (SumsRelocate σ r.totalScalars.toNat) (b.accumulate mode r x s)
      (b'.accumulate mode r' x' s') := by
  by_cases hmode : mode = .value
  · subst hmode
    rw [Binding.accumulate, Binding.accumulate, ← h.term, ← h.map_eq twins.scratch]
    refine Together.bind (R := Eq) (.same fun _ _ ↦ rfl) ?_
    rintro value _ - - rfl
    exact .ok ⟨by rw [hs.1], hs.2⟩
  · rw [← accumulate_bare, ← accumulate_bare mode r', accumulate_of_ne_value hmode,
      accumulate_of_ne_value hmode, h.evaluated_bare_eq twins]
    refine Together.bind (R := Eq) (.same fun _ _ ↦ rfl) ?_
    rintro value _ - - rfl
    refine (scatter_relocates twins.toPermuted hσ (hx hmode) h.vars _ hs.2).bind ?_
    intro g g' _ _ hg
    exact .ok ⟨by rw [hs.1], hg⟩

theorem accumulateFrom_relocates (twins : Twins r r') (hσ : Relocation r r' σ)
    (hx : mode ≠ .value → Relocates σ r.totalScalars.toNat x x') (position : ℕ)
    {bindings bindings' : List (Binding α)} (h : List.Forall₂ (Alike r r') bindings bindings')
    {s s' : α × List α} (hs : SumsRelocate σ r.totalScalars.toNat s s') :
    Together (SumsRelocate σ r.totalScalars.toNat) (accumulateFrom mode r x position bindings s)
      (accumulateFrom mode r' x' position bindings' s') := by
  induction h generalizing position s s' with
  | nil => exact .ok hs
  | @cons b b' _ _ hb _ ih =>
    rw [accumulateFrom, accumulateFrom]
    have hnext : Together (SumsRelocate σ r.totalScalars.toNat) (b.accumulate mode r x s)
        (b'.accumulate mode r' x' s') := hb.accumulate twins hσ hx hs
    generalize b.accumulate mode r x s = next at hnext
    generalize b'.accumulate mode r' x' s' = next' at hnext
    cases hnext with
    | error => exact .error
    | ok hnext => exact ih (position + 1) hnext

end Binding

end Sums

/-! ### Hessian blocks -/

namespace Binding

/-- Two bindings have the same Hessian blocks, for twins. -/
structure SameHessian (r r' : Registry α) (b b' : Binding α) : Prop where
  vars : List.Forall₂ (Twin r r') (Graph.argumentVariables r b) (Graph.argumentVariables r' b')
  blocks : b.hessianBlocks = b'.hessianBlocks

theorem Alike.sameHessian [Zero α] {r r' : Registry α} {b b' : Binding α} (h : Alike r r' b b')
    (twins : Twins r r') :
    SameHessian r r' (b.afterward .hessian r) (b'.afterward .hessian r') where
  vars := h.vars
  blocks := h.hessianBlocks_afterward twins

/-- Parts of two zipped lists agree if the items do that stand beside one item. -/
theorem flatMap_zip_congr {β β' γ δ : Type} {R : β → β' → Prop} {S : β → γ → Prop} {l : List β}
    {l' : List β'} {m : List γ} (h : List.Forall₂ R l l') (hm : List.Forall₂ S l m)
    {f : β × γ → List δ} {g : β' × γ → List δ}
    (hfg : ∀ b b' c, R b b' → S b c → f (b, c) = g (b', c)) :
    (l.zip m).flatMap f = (l'.zip m).flatMap g := by
  induction hm generalizing l' with
  | nil =>
    cases h
    rfl
  | cons hc _ ih =>
    cases h with
    | cons hb hrest =>
      rw [List.zip_cons_cons, List.zip_cons_cons, List.flatMap_cons, List.flatMap_cons,
        hfg _ _ _ hb hc, ih hrest]

variable {r r' : Registry α} {σ : ℕ → ℕ} {v v' w w' : Variable α}

/-- A block has the same at coordinates that correspond. -/
theorem blockAt_eq (h : Permuted r r') (hσ : Relocation r r' σ) (hv : Twin r r' v v')
    (hw : Twin r r' w w') {block : List (List α)}
    (hshaped : Buffer.Shaped v.solverDimension.toNat w.solverDimension.toNat block) {i j : ℕ}
    (hi : i < r.totalScalars.toNat) (hj : j < r.totalScalars.toNat) :
    blockAt v'.offset.toNat w'.offset.toNat block (σ i) (σ j) =
      blockAt v.offset.toNat w.offset.toNat block i j := by
  rw [blockAt, blockAt, hσ.placedAt_eq h hv hshaped.rows hi]
  rcases hline : placedAt v.offset.toNat block i with - | line
  · rfl
  · have hmem : line ∈ block := by
      rw [placedAt] at hline
      split at hline
      · exact List.mem_of_getElem? hline
      · cases hline
    rw [Option.elim_some, Option.elim_some,
      hσ.placedAt_eq h hw (hshaped.columns line hmem) hj]

/-- So do all blocks of a binding. -/
theorem SameHessian.contributions_eq {b b' : Binding α} (hb : SameHessian r r' b b')
    (h : Permuted r r') (hσ : Relocation r r' σ)
    (hplain : ∀ v ∈ Graph.argumentVariables r b, v.solverDimension = v.userDimension)
    {blocks : HessianBlocks α} (hblocks : b.hessianBlocks = some blocks)
    (hconforms : Conforms (Graph.argumentVariables r b) blocks) {i j : ℕ}
    (hi : i < r.totalScalars.toNat) (hj : j < r.totalScalars.toNat) :
    b'.contributions r' (σ i) (σ j) = b.contributions r i j := by
  have hvars := (List.forall₂_and_left _ _).2 ⟨hplain, hb.vars⟩
  rw [contributions, contributions, ← hb.blocks, hblocks, Option.getD_some]
  refine (flatMap_zip_congr hvars hconforms fun v v' row hv hrow ↦ ?_).symm
  refine flatMap_zip_congr hvars hrow fun w w' block hw hshaped ↦ ?_
  refine (blockAt_eq h hσ hv.2 hw.2 ?_ hi hj).symm
  rwa [hv.1, hw.1, Int.toNat_natCast, Int.toNat_natCast]

end Binding

end Summand
