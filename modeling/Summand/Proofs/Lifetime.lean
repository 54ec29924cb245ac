import Summand.Proofs.FailedQueries
import Summand.Proofs.Holdings
import Summand.Proofs.Registrations

/-!
# The lifetime of an objective

A history records every call since an objective was created, with what came of it (`Scene.Past`). It
tells which terms have been added, and whether the objective has been closed. A term is released
when the objective is closed for the first time, once for all of its bindings, if the objective owns
its terms and has accepted the term; it is released at no other time (`Scene.Past.lifetime`).

From then on, the objective refuses all calls that need it open, and stays as it is. Closing it once
more does nothing.
-/

namespace Summand

variable {α : Type}

/-! ### Histories -/

namespace Call

/-- A call that closes. -/
def isClose : Call α → Bool
  | .close => true
  | _ => false

/-- A call that may change what the objective holds. -/
def changesHoldings : Call α → Bool
  | .register .. | .addTerm .. | .close => true
  | _ => false

/-- Closed objectives can be closed again, and their statistics can be read and reset. -/
def needsOpen : Call α → Bool
  | .close | .timingReport | .resetStatistics => false
  | _ => true

/-- The term of a call that has added one. -/
def added? : Call α × Except Failure Unit → Option Nat
  | (.addTerm term _, .ok _) => some term.id
  | _ => none

end Call

/-- The terms that calls have added. -/
def addedTerms (calls : List (Call α × Except Failure Unit)) : List Nat :=
  calls.filterMap Call.added?

@[simp] theorem addedTerms_append (calls later : List (Call α × Except Failure Unit)) :
    addedTerms (calls ++ later) = addedTerms calls ++ addedTerms later :=
  List.filterMap_append

/-- No term and no transform that has been passed fails to be released. -/
structure WillingCalls (calls : List (Call α × Except Failure Unit)) : Prop where
  terms : ∀ term handles result, (.addTerm term handles, result) ∈ calls →
    term.closeFailure = none
  transforms : ∀ handle dimension transform result,
    (.register handle dimension (some transform), result) ∈ calls → transform.closeFailure = none

section Past

variable [Zero α] [Add α] [OfNat α 1] [Storable α]

/-- The calls that have led from one scene to another, with their results. Between calls the memory
and the platform may change. -/
inductive Scene.Past (s : Scene α) : List (Call α × Except Failure Unit) → Scene α → Prop
  | start : Past s [] s
  | called {calls : List (Call α × Except Failure Unit)} {t : Scene α} (h : Past s calls t)
      (call : Call α) :
      Past s (calls ++ [(call, (call.perform.run t).1)]) (call.perform.run t).2
  | moved {calls : List (Call α × Except Failure Unit)} {t : Scene α} (h : Past s calls t)
      (memory : Memory α) (platform : Platform α) : Past s calls { t with memory, platform }

end Past

namespace WillingCalls

variable {calls later : List (Call α × Except Failure Unit)}

theorem of_append (h : WillingCalls (calls ++ later)) : WillingCalls calls where
  terms term handles result hmem := h.terms term handles result (List.mem_append_left _ hmem)
  transforms handle dimension transform result hmem :=
    h.transforms handle dimension transform result (List.mem_append_left _ hmem)

end WillingCalls

/-! ### Calls -/

section Calls

open Summand.Action Objective

/-- A registration releases no term. -/
theorem Registry.Registering.count_term [Zero α] {r : Registry α} {handle : Handle}
    {transform : Option (Transform α)} {result : Except Failure (Registry α × Nat)}
    {added : List (Event α)} (h : Registering r handle transform result added) (id : Nat) :
    (releasesOf added).count (.term id) = 0 := by
  cases h with
  | rejected => rfl
  | unreleased _ _ _ _ => rfl
  | @replaced _ v _ _ _ =>
    unfold released
    split
    · rfl
    split
    · rfl
    · rfl
  | added _ _ _ => rfl

/-- The distinct terms after one more has been noted. -/
theorem Graph.mem_held_noteTerm {terms : List (Term α)} {term : Term α} {id : Nat} :
    id ∈ (noteTerm terms term).map Term.id ↔ id ∈ terms.map Term.id ∨ id = term.id := by
  rw [noteTerm]
  split
  · rename_i hany
    obtain ⟨t, ht, hid⟩ := List.any_eq_true.1 hany
    refine ⟨.inl, ?_⟩
    rintro (h | rfl)
    · exact h
    · exact List.mem_map.2 ⟨t, ht, by simpa using hid⟩
  · simp

theorem Graph.nodup_noteTerm {terms : List (Term α)} (h : (terms.map Term.id).Nodup)
    (term : Term α) : ((noteTerm terms term).map Term.id).Nodup := by
  rw [noteTerm]
  split
  · exact h
  · rename_i hany
    rw [List.map_append, List.map_singleton, List.nodup_append]
    refine ⟨h, by simp, ?_⟩
    rintro id hid _ hterm rfl
    obtain ⟨t, ht, hid⟩ := List.mem_map.1 hid
    rw [List.mem_singleton] at hterm
    exact hany (List.any_eq_true.2 ⟨t, ht, by simp [hid, hterm]⟩)

variable [Zero α] [Add α] [OfNat α 1] [Storable α] {s t : Scene α}
  {calls : List (Call α × Except Failure Unit)}

/-- Calls that neither build nor close change nothing that the objective holds. -/
theorem holdings_perform {call : Call α} (hcall : call.changesHoldings = false) :
    (call.perform.run t).2.objective.holdings = t.objective.holdings ∧
      (call.perform.run t).2.releases = t.releases := by
  suffices h : KeepsHoldings t.objective.holdings t.releases call.perform from h.of_run t ⟨rfl, rfl⟩
  cases call with
  | register handle dimension transform => cases hcall
  | addTerm term handles => cases hcall
  | setWorkerCount given =>
    refine .bind (.checkOpen _) fun _ ↦ .bind (.liftM _) fun workerCount ↦
      .bind .objective fun o ↦ ?_
    dsimp only
    split
    · exact .bind (keepsHoldings_log _ _ _) fun _ ↦ keepsHoldings_modifyObjective fun _ ↦ rfl
    · exact .pure _
  | copyPointToBlocks x => exact keeps_copyPointToBlocks (fun _ _ h ↦ h) x
  | copyBlocksToPoint => exact .bind keeps_copyBlocksToPoint fun _ ↦ .pure _
  | query q => exact .bind (keepsHoldings_perform q) fun _ ↦ .pure _
  | timingReport =>
    exact .bind (.bind .objective fun o ↦ .bind (keepsHoldings_log _ _ _) fun _ ↦ .pure _)
      fun _ ↦ .pure _
  | resetStatistics => exact ⟨fun _ hs ↦ hs⟩
  | close => cases hcall

/-- A closed objective refuses what needs it open, and stays as it is. -/
theorem run_of_closed (hclosed : t.objective.closed = true) {call : Call α}
    (hcall : call.needsOpen = true) :
    ∃ operation, call.perform.run t = (.error (.closed operation), t) := by
  have hrefused (operation : String) (f : Unit → Action α Unit) :
      (checkOpen operation >>= f).run t = (.error (.closed operation), t) :=
    run_bind_of_error (run_checkOpen_of_closed operation hclosed)
  cases call with
  | register handle dimension transform => exact ⟨_, hrefused _ _⟩
  | addTerm term handles => exact ⟨_, hrefused _ _⟩
  | setWorkerCount given => exact ⟨_, hrefused _ _⟩
  | copyPointToBlocks x => exact ⟨_, hrefused _ _⟩
  | copyBlocksToPoint =>
    exact ⟨_, run_bind_of_error (run_bind_of_error (run_checkOpen_of_closed _ hclosed))⟩
  | query q =>
    obtain ⟨operation, hrun⟩ := run_perform_of_closed q hclosed
    exact ⟨operation, run_bind_of_error hrun⟩
  | timingReport => cases hcall
  | resetStatistics => cases hcall
  | close => cases hcall

/-- Whatever is called, a closed objective holds on to what it has and releases nothing more. -/
theorem holdings_perform_of_closed (hclosed : t.objective.closed = true) (call : Call α) :
    (call.perform.run t).2.objective.holdings = t.objective.holdings ∧
      (call.perform.run t).2.releases = t.releases := by
  rcases hcall : call.needsOpen with - | -
  · cases call with
    | close =>
      have hrun : (Call.close.perform : Action α Unit).run t = (.ok (), t) :=
        run_close_of_closed hclosed
      rw [hrun]
      exact ⟨rfl, rfl⟩
    | timingReport => exact holdings_perform rfl
    | resetStatistics => exact holdings_perform rfl
    | _ => cases hcall
  · obtain ⟨operation, hrun⟩ := run_of_closed hclosed hcall
    rw [hrun]
    exact ⟨rfl, rfl⟩

/-- So it is after any number of calls. -/
theorem Scene.Past.holdings_of_closed (hclosed : s.objective.closed = true) (h : s.Past calls t) :
    t.objective.holdings = s.objective.holdings ∧ t.releases = s.releases := by
  induction h with
  | start => exact ⟨rfl, rfl⟩
  | called _ call ih =>
    have hstill := (congrArg Holdings.closed ih.1).trans hclosed
    obtain ⟨hholdings, hreleases⟩ := holdings_perform_of_closed hstill call
    exact ⟨hholdings.trans ih.1, hreleases.trans ih.2⟩
  | moved _ _ _ ih => exact ih

/-! ### What has been added and released -/

/-- An open objective holds the terms that have been added and has released none; a closed one has
released those that it owned. -/
structure Scene.Accounted (s : Scene α) (calls : List (Call α × Except Failure Unit))
    (t : Scene α) :
    Prop where
  settings : t.objective.settings = s.objective.settings
  closed : t.objective.closed = calls.any (·.1.isClose)
  held : t.objective.closed = false →
    t.objective.graph.held.Nodup ∧ ∀ id, id ∈ t.objective.graph.held ↔ id ∈ addedTerms calls
  terms : t.objective.closed = false → t.objective.graph.Willing
  transforms : t.objective.closed = false → t.objective.registry.Willing
  released : ∀ id, t.releases.count (.term id) = s.releases.count (.term id) +
    if t.objective.closed = true ∧ s.objective.settings.ownership = some .owned ∧
      id ∈ addedTerms calls then 1 else 0

namespace Scene.Accounted

variable {u : Scene α} {c : Call α × Except Failure Unit}

omit [Zero α] [Add α] [OfNat α 1] [Storable α] in
/-- A call that changes nothing held, and releases nothing, leaves the accounts as they are. -/
theorem of_holdings (h : s.Accounted calls t) (hadded : Call.added? c = none)
    (hclose : c.1.isClose = true → t.objective.closed = true)
    (hholdings : u.objective.holdings = t.objective.holdings)
    (hreleases : u.releases = t.releases) :
    s.Accounted (calls ++ [c]) u := by
  have hsettings : u.objective.settings = t.objective.settings :=
    congrArg Holdings.settings hholdings
  have hclosed : u.objective.closed = t.objective.closed := congrArg Holdings.closed hholdings
  have hterms : u.objective.graph.terms = t.objective.graph.terms :=
    congrArg Holdings.terms hholdings
  have htransforms : u.objective.registry.entries.map Variable.transform =
      t.objective.registry.entries.map Variable.transform := congrArg Holdings.transforms hholdings
  have hcalls : addedTerms (calls ++ [c]) = addedTerms calls := by
    rw [addedTerms_append, addedTerms, addedTerms, List.filterMap_cons, hadded]
    simp
  constructor
  · exact hsettings.trans h.settings
  · rw [hclosed, h.closed, List.any_append, List.any_cons, List.any_nil, Bool.or_false]
    rcases hc : c.1.isClose with - | -
    · exact (Bool.or_false _).symm
    · rw [← h.closed, hclose hc, Bool.true_or]
  · rw [hclosed, hcalls, Graph.held, hterms]
    exact h.held
  · rw [hclosed, Graph.Willing, hterms]
    exact h.terms
  · rw [hclosed, Registry.willing_iff, htransforms, ← Registry.willing_iff]
    exact h.transforms
  · rw [hclosed, hcalls, hreleases]
    exact h.released

omit [Zero α] [Add α] [OfNat α 1] [Storable α] in
/-- A call that leaves the objective open releases no term. -/
theorem of_open (h : s.Accounted calls t) (hopen : t.objective.closed = false)
    (hcall : c.1.isClose = false) (hsettings : u.objective.settings = t.objective.settings)
    (hclosed : u.objective.closed = false) (hnodup : u.objective.graph.held.Nodup)
    (hheld : ∀ id, id ∈ u.objective.graph.held ↔ id ∈ t.objective.graph.held ∨
      id ∈ addedTerms [c])
    (hterms : u.objective.graph.Willing) (htransforms : u.objective.registry.Willing)
    (hreleased : ∀ id, u.releases.count (.term id) = t.releases.count (.term id)) :
    s.Accounted (calls ++ [c]) u where
  settings := hsettings.trans h.settings
  closed := by
    rw [List.any_append, ← h.closed, hopen, hclosed, List.any_cons, hcall]
    rfl
  held _ := by
    refine ⟨hnodup, fun id ↦ ?_⟩
    rw [addedTerms_append, List.mem_append, hheld, (h.held hopen).2]
  terms _ := hterms
  transforms _ := htransforms
  released id := by
    have hbefore := h.released id
    rw [hopen] at hbefore
    rw [hreleased, hbefore, hclosed]
    simp

theorem step_register (h : s.Accounted calls t) (hopen : t.objective.closed = false)
    {handle : Handle} {dimension : Json} {transform : Option (Transform α)}
    (hwilling : ∀ u, transform = some u → u.closeFailure = none) :
    s.Accounted
      (calls ++ [(.register handle dimension transform,
        ((Call.register handle dimension transform).perform.run t).1)])
      ((Call.register handle dimension transform).perform.run t).2 := by
  have hrun := Registration.registered_run ⟨handle, dimension, transform⟩ hopen
  show s.Accounted
    (calls ++ [(_, ((Registration.call ⟨handle, dimension, transform⟩).perform.run t).1)])
    ((Registration.call ⟨handle, dimension, transform⟩).perform.run t).2
  generalize (Registration.call ⟨handle, dimension, transform⟩).perform.run t = ending at hrun
  have hreleased {added : List (Event α)} {result : Except Failure (Registry α × Nat)}
      (hregistering : Registry.Registering t.objective.registry handle transform result added)
      (id : Nat) :
      (releasesOf (t.events ++ added)).count (.term id) = t.releases.count (.term id) := by
    rw [releasesOf_append, List.count_append, hregistering.count_term, Nat.add_zero, releases]
  cases hrun with
  | failed hregistering =>
    exact h.of_open hopen rfl rfl hopen (h.held hopen).1 (fun id ↦ (or_iff_left (nomatch ·)).symm)
      (h.terms hopen) (h.transforms hopen) (hreleased hregistering)
  | done hregistering =>
    exact h.of_open hopen rfl rfl hopen (h.held hopen).1 (fun id ↦ (or_iff_left (nomatch ·)).symm)
      (h.terms hopen) (hregistering.forall_transforms (h.transforms hopen) hwilling)
      (hreleased hregistering)

theorem step_addTerm (h : s.Accounted calls t) (hopen : t.objective.closed = false)
    (hlaid : t.objective.registry.Laid) {term : Term α} {handles : List Handle}
    (hwilling : term.closeFailure = none) :
    s.Accounted
      (calls ++ [(.addTerm term handles, ((Call.addTerm term handles).perform.run t).1)])
      ((Call.addTerm term handles).perform.run t).2 := by
  show s.Accounted (calls ++ [(_, ((addTerm term handles).run t).1)])
    ((addTerm term handles).run t).2
  rw [run_addTerm hopen]
  rcases hadd : t.objective.graph.add t.objective.registry term handles
    t.objective.settings.allowsHessian with failure | graph
  · exact h.of_open hopen rfl rfl hopen (h.held hopen).1 (fun id ↦ (or_iff_left (nomatch ·)).symm)
      (h.terms hopen) (h.transforms hopen) fun _ ↦ rfl
  · obtain ⟨b, -, rfl⟩ := Graph.add_eq_ok hlaid hadd
    refine h.of_open hopen rfl rfl hopen (Graph.nodup_noteTerm (h.held hopen).1 term) ?_ ?_
      (h.transforms hopen) fun _ ↦ rfl
    · intro id
      refine Graph.mem_held_noteTerm.trans (or_congr_right ?_)
      exact List.mem_singleton.symm
    · intro t' ht'
      replace ht' : t' ∈ Graph.noteTerm t.objective.graph.terms term := ht'
      rw [Graph.noteTerm] at ht'
      split at ht'
      · exact h.terms hopen t' ht'
      rcases List.mem_append.1 ht' with ht' | ht'
      · exact h.terms hopen t' ht'
      · rw [List.mem_singleton.1 ht']
        exact hwilling

/-- The first closing releases the terms that have been added, if the objective owns them. -/
theorem step_close (h : s.Accounted calls t) (hopen : t.objective.closed = false) :
    s.Accounted (calls ++ [(.close, (Call.close.perform.run t).1)])
      (Call.close.perform.run t).2 := by
  show s.Accounted (calls ++ [(_, (close.run t).1)]) (close.run t).2
  rw [run_close hopen (h.terms hopen) (h.transforms hopen)]
  have hcalls : addedTerms (calls ++ [(Call.close, .ok ())]) = addedTerms calls := by
    rw [addedTerms_append]
    exact List.append_nil _
  refine ⟨h.settings, by simp [afterClose, Call.isClose], fun hstill ↦ (nomatch hstill),
    fun hstill ↦ (nomatch hstill), fun hstill ↦ (nomatch hstill), fun id ↦ ?_⟩
  have hbefore := h.released id
  rw [hopen] at hbefore
  rw [hcalls]
  show (releasesOf (_ ++ _ ++ _)).count _ = _
  rw [releasesOf_append, releasesOf_append, releasesOf_map_termReleased,
    releasesOf_map_transformReleased, List.count_append, List.count_append,
    Release.count_term_map_term, Release.count_term_map_transform]
  replace hbefore : (releasesOf t.events).count (.term id) = s.releases.count (.term id) := by
    simpa [releases] using hbefore
  rw [hbefore, owed, h.settings, Nat.add_zero]
  congr 1
  by_cases howned : s.objective.settings.ownership = some .owned
  · -- A term that is held is held once.
    obtain ⟨hnodup, hheld⟩ := h.held hopen
    rw [if_pos howned, hnodup.count]
    simp [howned, hheld, afterClose]
  · simp [howned]

/-- Whatever is called, the accounts stay right. -/
theorem step (h : s.Accounted calls t) (ht : t.Reached) {call : Call α}
    (hwilling : WillingCalls (calls ++ [(call, (call.perform.run t).1)])) :
    s.Accounted (calls ++ [(call, (call.perform.run t).1)]) (call.perform.run t).2 := by
  have hlast : (call, (call.perform.run t).1) ∈ calls ++ [(call, (call.perform.run t).1)] := by simp
  rcases hopen : t.objective.closed with - | -
  · cases call with
    | register handle dimension transform =>
      refine h.step_register hopen ?_
      rintro transform rfl
      exact hwilling.transforms _ _ _ _ hlast
    | addTerm term handles =>
      exact h.step_addTerm hopen (ht.sound hopen).laid (hwilling.terms _ _ _ hlast)
    | close => exact h.step_close hopen
    | _ =>
      exact h.of_holdings rfl (nomatch ·) (holdings_perform rfl).1 (holdings_perform rfl).2
  · obtain ⟨hholdings, hreleases⟩ := holdings_perform_of_closed hopen call
    refine h.of_holdings ?_ (fun _ ↦ hopen) hholdings hreleases
    -- A closed objective adds no term.
    rcases hcall : call.needsOpen with - | -
    · cases call with
      | addTerm term handles => cases hcall
      | _ => rfl
    · obtain ⟨operation, hrun⟩ := run_of_closed hopen hcall
      rw [hrun]
      cases call <;> rfl

end Scene.Accounted

/-! ### Whole histories -/

theorem Scene.Past.reached (h : s.Past calls t) (hs : s.Reached) : t.Reached := by
  induction h with
  | start => exact hs
  | called _ call ih => exact ih.called call
  | moved _ memory platform ih => exact ih.moved memory platform

/-- One history may go on after another. -/
theorem Scene.Past.trans {u : Scene α} {later : List (Call α × Except Failure Unit)}
    (h : s.Past calls t) (h' : t.Past later u) : s.Past (calls ++ later) u := by
  induction h' with
  | start => rwa [List.append_nil]
  | called _ call ih =>
    rw [← List.append_assoc]
    exact ih.called call
  | moved _ memory platform ih => exact ih.moved memory platform

/-- Calls with what comes of them one after another. -/
def Scene.recorded (s : Scene α) : List (Call α) → List (Call α × Except Failure Unit)
  | [] => []
  | call :: rest => (call, (call.perform.run s).1) :: (call.perform.run s).2.recorded rest

theorem Scene.past_after (s : Scene α) (calls : List (Call α)) :
    s.Past (s.recorded calls) (s.after calls) := by
  induction calls generalizing s with
  | nil => exact .start
  | cons call rest ih => exact (Past.start.called call).trans (ih _)

omit [Zero α] [Add α] [OfNat α 1] [Storable α] in
/-- An objective that has just been created holds nothing but its settings. -/
theorem create_eq_ok {processors : Nat} {settings : Settings} {o : Objective α}
    (h : Objective.create processors settings = .ok o) :
    ∃ workerCount, o = { settings, workerCount } := by
  obtain ⟨workerCount, -, heq⟩ := bind_eq_ok_iff.1 h
  exact ⟨workerCount, (Except.ok.inj heq).symm⟩

omit [Zero α] [Add α] [OfNat α 1] [Storable α] in
theorem Scene.Accounted.created {processors : Nat} {settings : Settings}
    (h : Objective.create processors settings = .ok s.objective) : s.Accounted [] s := by
  obtain ⟨workerCount, heq⟩ := create_eq_ok h
  obtain ⟨objective, memory, events, platform⟩ := s
  cases heq
  exact ⟨rfl, rfl, fun _ ↦ ⟨List.nodup_nil, fun _ ↦ Iff.rfl⟩, fun _ _ ht ↦ (nomatch ht),
    fun _ _ hv ↦ (nomatch hv), fun _ ↦ by simp [addedTerms]⟩

theorem Scene.Past.accounted {processors : Nat} {settings : Settings}
    (hcreated : Objective.create processors settings = .ok s.objective) (h : s.Past calls t)
    (hwilling : WillingCalls calls) : s.Accounted calls t := by
  have hs : s.Reached := .created hcreated s.memory s.events s.platform
  induction h with
  | start => exact .created hcreated
  | called h call ih => exact (ih hwilling.of_append).step (h.reached hs) hwilling
  | moved h memory platform ih =>
    obtain ⟨h₁, h₂, h₃, h₄, h₅, h₆⟩ := ih hwilling
    exact ⟨h₁, h₂, h₃, h₄, h₅, h₆⟩

/-- Whatever is called on an objective since it was created, as long as nothing fails to be
released: it is closed once it has been told to close. A term has then been released once if the
objective owns its terms and some call has added the term; it has not been released if not, nor
before. A closed objective refuses every call that needs it open, stays as it is in every such call
and when it is closed again, and whatever is called keeps its numbers of variables, scalars and
bindings, with what has been released. Closing keeps these numbers, too. -/
theorem Scene.Past.lifetime {processors : Nat} {settings : Settings}
    (hcreated : Objective.create processors settings = .ok s.objective) (h : s.Past calls t)
    (hwilling : WillingCalls calls) :
    t.objective.closed = calls.any (·.1.isClose) ∧
      (∀ id, t.releases.count (.term id) = s.releases.count (.term id) +
        if t.objective.closed = true ∧ settings.ownership = some .owned ∧ id ∈ addedTerms calls
        then 1 else 0) ∧
      (t.objective.closed = true →
        (Call.close.perform : Action α Unit).run t = (.ok (), t) ∧
        (∀ call : Call α, call.needsOpen = true →
          ∃ operation, call.perform.run t = (.error (.closed operation), t)) ∧
        ∀ later u, t.Past later u → u.objective.closed = true ∧ u.releases = t.releases ∧
          u.objective.registry.count = t.objective.registry.count ∧
          u.objective.totalScalars = t.objective.totalScalars ∧
          u.objective.graph.size = t.objective.graph.size) ∧
      ∃ u, (Call.close.perform : Action α Unit).run t = (.ok (), u) ∧
        u.objective.closed = true ∧
        u.objective.registry.count = t.objective.registry.count ∧
        u.objective.totalScalars = t.objective.totalScalars ∧
        u.objective.graph.size = t.objective.graph.size := by
  have haccounted := h.accounted hcreated hwilling
  have hsettings : s.objective.settings = settings := by
    obtain ⟨workerCount, heq⟩ := create_eq_ok hcreated
    rw [heq]
  have hcount (u v : Scene α) (hsame : u.objective.holdings = v.objective.holdings) :
      u.objective.registry.count = v.objective.registry.count := by
    simpa [Registry.count, holdings] using congrArg (List.length ∘ Holdings.transforms) hsame
  refine ⟨haccounted.closed, hsettings ▸ haccounted.released, fun hclosed ↦ ⟨?_, ?_, ?_⟩, ?_⟩
  · exact run_close_of_closed hclosed
  · exact fun call hcall ↦ run_of_closed hclosed hcall
  · intro later u hlater
    obtain ⟨hholdings, hreleases⟩ := hlater.holdings_of_closed hclosed
    exact ⟨(congrArg Holdings.closed hholdings).trans hclosed, hreleases, hcount _ _ hholdings,
      congrArg Holdings.scalars hholdings, congrArg Holdings.size hholdings⟩
  · rcases hopen : t.objective.closed with - | -
    · refine ⟨_, run_close hopen (haccounted.terms hopen) (haccounted.transforms hopen), rfl, ?_,
        rfl, ?_⟩
      · simp [afterClose, Registry.cleared, Registry.count]
      · show Graph.size (if _ then _ else _) = _
        split <;> rfl
    · exact ⟨t, run_close_of_closed hopen, hopen, rfl, rfl, rfl⟩

end Calls

namespace Small

/-- A term is added twice and once in vain, and the objective is closed twice. -/
def closing : List (Call Int) :=
  [.register (.array pair) .null none, .addTerm squares [.array pair],
    .addTerm squares [.array pair], .addTerm product [.array pair], .close,
    .addTerm squares [.array pair], .close]

/-- The term that has been added is released once, and the other one is not. -/
theorem released_of_closing :
    (start.after closing).objective.closed = true ∧
      (start.after closing).releases.count (.term squares.id) = 1 ∧
      (start.after closing).releases.count (.term product.id) = 0 := by
  have hcreated : Objective.create 1 { workerCount := .int 2 } = .ok start.objective := rfl
  have hcalls : (start.recorded closing).map Prod.fst = closing := rfl
  have hwilling : WillingCalls (start.recorded closing) := by
    constructor
    · intro term handles result hmem
      have hcall := hcalls ▸ List.mem_map_of_mem (f := Prod.fst) hmem
      simp only [closing, List.mem_cons, Call.addTerm.injEq] at hcall
      aesop
    · intro handle dimension transform result hmem
      have hcall := hcalls ▸ List.mem_map_of_mem (f := Prod.fst) hmem
      simp [closing] at hcall
  obtain ⟨hclosed, hreleased, -⟩ := (start.past_after closing).lifetime hcreated hwilling
  exact ⟨hclosed, (hreleased _).trans rfl, (hreleased _).trans rfl⟩

end Small

end Summand
