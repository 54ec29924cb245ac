import Mathlib.Data.List.Forall2
import Summand.Objective.Basic
import Summand.Proofs.Progress

/-!
# Operations side by side

An operation is a function of the scene that it is run in (`Action.run`). What it comes to is said
in one of three ways, and each has a rule that puts the parts of an operation together.

* `Action.Keeps`: an invariant of the scene outlasts the run, whether it fails or not.
* `Realizes`: the run ends as a computation without a scene does, with the very same failure or a
  result that goes with that of the computation. This is how caches and buffers are argued away.
* `Related`: two runs, in two scenes, fail together or succeed together with related results.
-/

namespace Summand

variable {α β γ β' γ' : Type}

namespace Action

/-! ### Runs -/

theorem run_bind (a : Action α β) (f : β → Action α γ) (s : Scene α) :
    (a >>= f).run s =
      match a.run s with
      | (.ok r, t) => (f r).run t
      | (.error failure, t) => (.error failure, t) := by
  simp only [run, ExceptT.run_bind, StateT.run_bind]
  rcases (ExceptT.run a).run s with ⟨failure | r, t⟩ <;> rfl

theorem run_bind_of_ok {a : Action α β} {f : β → Action α γ} {s t : Scene α} {r : β}
    (h : a.run s = (.ok r, t)) : (a >>= f).run s = (f r).run t := by
  rw [run_bind, h]

theorem run_bind_of_error {a : Action α β} {f : β → Action α γ} {s t : Scene α} {failure : Failure}
    (h : a.run s = (.error failure, t)) : (a >>= f).run s = (.error failure, t) := by
  rw [run_bind, h]

theorem run_bind_eq_ok {a : Action α β} {f : β → Action α γ} {s t : Scene α} {r : γ} :
    (a >>= f).run s = (.ok r, t) ↔ ∃ b u, a.run s = (.ok b, u) ∧ (f b).run u = (.ok r, t) := by
  rw [run_bind]
  rcases a.run s with ⟨failure | b, u⟩
  · simp
  · simp

/-- An action that changes nothing has its result, and is followed by the rest, if all succeeds. -/
theorem run_bind_eq_ok_of_run_eq {a : Action α β} {f : β → Action α γ} {s t : Scene α}
    {result : Except Failure β} {c : γ} (ha : a.run s = (result, s))
    (hrun : (a >>= f).run s = (.ok c, t)) :
    ∃ b, result = .ok b ∧ (f b).run s = (.ok c, t) := by
  obtain ⟨b, u, hb, hrun⟩ := run_bind_eq_ok.1 hrun
  obtain ⟨rfl, rfl⟩ := Prod.mk.inj (ha.symm.trans hb)
  exact ⟨b, rfl, hrun⟩

/-- Going on without another step does not fail. -/
theorem run_eq_error_of_bind_pure {a : Action α β} {f : β → γ} {s t : Scene α} {failure : Failure}
    (h : (do return f (← a) : Action α γ).run s = (.error failure, t)) :
    a.run s = (.error failure, t) := by
  rw [run_bind] at h
  rcases hrun : a.run s with ⟨e | r, u⟩ <;> rw [hrun] at h <;> cases h
  rfl

/-- A result that may be a failure is taken as it is. -/
theorem run_liftM (result : Except Failure β) (s : Scene α) :
    (liftM result : Action α β).run s = (result, s) := rfl

theorem run_liftM_ok_bind (r : β) (f : β → Action α γ) (s : Scene α) :
    ((liftM (.ok r : Except Failure β) : Action α β) >>= f).run s = (f r).run s := rfl

/-- Results are taken one after another, up to the first failure. -/
theorem run_mapM_liftM (f : γ → Except Failure β) (l : List γ) (s : Scene α) :
    (l.mapM fun c ↦ (liftM (f c) : Action α β)).run s = (l.mapM f, s) := by
  induction l with
  | nil => rfl
  | cons c l ih =>
    rw [List.mapM_cons, List.mapM_cons, run_bind, run_liftM]
    cases f c with
    | error failure => rfl
    | ok r =>
      dsimp only
      rw [run_bind, ih]
      cases l.mapM f <;> rfl

theorem run_objective_bind (f : Objective α → Action α β) (s : Scene α) :
    (objective >>= f).run s = (f s.objective).run s := rfl

theorem run_memory_bind (f : Memory α → Action α β) (s : Scene α) :
    (memory >>= f).run s = (f s.memory).run s := rfl

theorem run_platform_bind (f : Platform α → Action α β) (s : Scene α) :
    (platform >>= f).run s = (f s.platform).run s := rfl

theorem run_modifyObjective_bind (g : Objective α → Objective α) (f : Unit → Action α β)
    (s : Scene α) :
    (modifyObjective g >>= f).run s = (f ()).run { s with objective := g s.objective } := rfl

theorem run_modifyMemory_bind (g : Memory α → Memory α) (f : Unit → Action α β) (s : Scene α) :
    (modifyMemory g >>= f).run s = (f ()).run { s with memory := g s.memory } := rfl

theorem run_observe_bind (a : Action α β) (f : Except Failure β → Action α γ) (s : Scene α) :
    (observe a >>= f).run s = (f (a.run s).1).run (a.run s).2 := rfl

theorem run_checkOpen (operation : String) (s : Scene α) :
    (checkOpen operation).run s =
      (if s.objective.closed then .error (.closed operation) else .ok (), s) := by
  show (if s.objective.closed then (throw (.closed operation) : Action α Unit) else pure ()).run s
    = _
  split <;> rfl

theorem run_checkOpen_of_open {s : Scene α} (operation : String)
    (h : s.objective.closed = false) : (checkOpen operation).run s = (.ok (), s) := by
  rw [run_checkOpen, h]
  rfl

theorem run_checkOpen_of_closed {s : Scene α} (operation : String)
    (h : s.objective.closed = true) :
    (checkOpen operation).run s = (.error (.closed operation), s) := by
  rw [run_checkOpen, h]
  rfl

/-- An operation that goes on has found an open objective. -/
theorem run_checkOpen_eq_ok {operation : String} {s t : Scene α} {u : Unit}
    (h : (checkOpen operation).run s = (.ok u, t)) : s = t ∧ s.objective.closed = false := by
  rw [run_checkOpen] at h
  rcases hclosed : s.objective.closed with - | - <;> rw [hclosed] at h <;> cases h
  exact ⟨rfl, rfl⟩

theorem run_ofTraced (c : Traced α β) (s : Scene α) :
    (ofTraced c).run s = (((ExceptT.run c).run s.events).1,
      { s with events := ((ExceptT.run c).run s.events).2 }) := by
  show (set { s with events := ((ExceptT.run c).run s.events).2 } >>=
    fun _ ↦ MonadExcept.ofExcept ((ExceptT.run c).run s.events).1 : Action α β).run s = _
  rcases (ExceptT.run c).run s.events with ⟨- | r, events⟩ <;> rfl

/-! ### Invariants -/

/-- An operation leaves an invariant true, whether it fails or not. -/
structure Keeps (I : Scene α → Prop) (a : Action α β) : Prop where
  of_run : ∀ s, I s → I (a.run s).2

namespace Keeps

variable {I : Scene α → Prop}

theorem bind {a : Action α β} {f : β → Action α γ} (ha : Keeps I a) (hf : ∀ r, Keeps I (f r)) :
    Keeps I (a >>= f) := by
  constructor
  intro s hs
  have ht := ha.of_run s hs
  rw [run_bind]
  rcases hrun : a.run s with ⟨failure | r, t⟩ <;> rw [hrun] at ht
  · exact ht
  · exact (hf r).of_run t ht

theorem pure (r : β) : Keeps I (pure r) := ⟨fun _ h ↦ h⟩

theorem throw (failure : Failure) : Keeps I (throw failure : Action α β) := ⟨fun _ h ↦ h⟩

theorem throw_bind (failure : Failure) (f : β → Action α γ) :
    Keeps I (MonadExcept.throw failure >>= f) := ⟨fun _ h ↦ h⟩

theorem liftM (result : Except Failure β) : Keeps I (liftM result : Action α β) := ⟨fun _ h ↦ h⟩

theorem objective : Keeps I (objective : Action α (Objective α)) := ⟨fun _ h ↦ h⟩

theorem memory : Keeps I (memory : Action α (Memory α)) := ⟨fun _ h ↦ h⟩

theorem checkOpen (operation : String) : Keeps I (checkOpen operation) :=
  ⟨fun s h ↦ by rw [run_checkOpen]; exact h⟩

/-- A loop keeps what every round keeps. -/
theorem forIn {l : List γ} {r : β} {f : γ → β → Action α (ForInStep β)}
    (h : ∀ c r, Keeps I (f c r)) : Keeps I (forIn l r f) := by
  induction l generalizing r with
  | nil => exact pure r
  | cons c l ih =>
    rw [List.forIn_cons]
    -- A round either ends the loop or goes on to the next element.
    refine bind (h c r) ?_
    intro next
    cases next with
    | done r => exact pure r
    | yield r => exact ih

end Keeps

end Action

/-! ### Traced computations -/

namespace Traced

theorem ok_bind (r : β) (f : β → Traced α γ) :
    (liftM (.ok r : Except Failure β) : Traced α β) >>= f = f r := rfl

/-- Whatever events there are before, a computation comes to an end of a kind, and adds events to
those before. -/
structure Ends (P : Except Failure β → List (Event α) → Prop) (c : Traced α β) : Prop where
  of_run : ∀ events, ∃ result added,
    (ExceptT.run c).run events = (result, events ++ added) ∧ P result added

namespace Ends

variable {P : Except Failure β → List (Event α) → Prop}

theorem pure {r : β} (h : P (.ok r) []) : Ends P (pure r) :=
  ⟨fun events ↦ ⟨.ok r, [], by rw [List.append_nil]; rfl, h⟩⟩

theorem throw_bind {failure : Failure} {f : γ → Traced α β} (h : P (.error failure) []) :
    Ends P (MonadExcept.throw failure >>= f) :=
  ⟨fun events ↦ ⟨.error failure, [], by rw [List.append_nil]; rfl, h⟩⟩

/-- A computation goes on after a check if the check succeeds. -/
theorem liftM_bind {result : Except Failure γ} {f : γ → Traced α β}
    (herror : ∀ failure, result = .error failure → P (.error failure) [])
    (hok : ∀ r, result = .ok r → Ends P (f r)) :
    Ends P ((liftM result : Traced α γ) >>= f) := by
  cases result with
  | error failure => exact throw_bind (herror failure rfl)
  | ok r => exact hok r rfl

theorem emit_bind {event : Event α} {f : Unit → Traced α β}
    (h : Ends (fun result added ↦ P result (event :: added)) (f ())) :
    Ends P (emit event >>= f) := by
  constructor
  intro events
  obtain ⟨result, added, hrun, hP⟩ := h.of_run (events ++ [event])
  exact ⟨result, event :: added, by rw [List.append_cons]; exact hrun, hP⟩

/-- A computation may go on without another step. -/
theorem map {Q : Except Failure γ → List (Event α) → Prop} {c : Traced α γ} {f : γ → β}
    (h : Ends Q c) (herror : ∀ failure added, Q (.error failure) added → P (.error failure) added)
    (hok : ∀ r added, Q (.ok r) added → P (.ok (f r)) added) :
    Ends P (do return f (← c)) := by
  constructor
  intro events
  obtain ⟨result, added, hrun, hQ⟩ := h.of_run events
  simp only [ExceptT.run_bind, StateT.run_bind, hrun]
  cases result with
  | error failure => exact ⟨_, _, rfl, herror _ _ hQ⟩
  | ok r => exact ⟨_, _, rfl, hok _ _ hQ⟩

end Ends

end Traced

/-! ### Runs and what they compute -/

/-- A run ends as a computation without a scene does: it fails with the failure of the computation,
or it succeeds with a result that goes with that of the computation. -/
inductive Realizes {δ : Type} (E : Scene α → Prop) (Q : δ → β → Scene α → Prop) :
    Except Failure δ → Except Failure β × Scene α → Prop
  | error {failure : Failure} {t : Scene α} (h : E t) :
    Realizes E Q (.error failure) (.error failure, t)
  | ok {d : δ} {r : β} {t : Scene α} (h : Q d r t) : Realizes E Q (.ok d) (.ok r, t)

namespace Realizes

variable {δ δ' : Type} {E : Scene α → Prop} {Q : δ → β → Scene α → Prop} {s : Scene α}

theorem bind {a : Action α β} {f : β → Action α γ} {expected : Except Failure δ}
    {next : δ → Except Failure δ'} {Q' : δ' → γ → Scene α → Prop}
    (h : Realizes E Q expected (a.run s))
    (hnext : ∀ d r t, Q d r t → Realizes E Q' (next d) ((f r).run t)) :
    Realizes E Q' (expected >>= next) ((a >>= f).run s) := by
  rw [Action.run_bind]
  generalize a.run s = m at h
  cases h with
  | error h => exact .error h
  | ok h => exact hnext _ _ _ h

/-- A run goes on after a check if the check succeeds. -/
theorem check {a : Action α β} {f : β → Action α γ} {result : Except Failure β}
    {next : β → Except Failure δ} {Q' : δ → γ → Scene α → Prop} (hrun : a.run s = (result, s))
    (h : E s) (hnext : ∀ r, result = .ok r → Realizes E Q' (next r) ((f r).run s)) :
    Realizes E Q' (result >>= next) ((a >>= f).run s) := by
  rw [Action.run_bind, hrun]
  cases result with
  | error failure => exact .error h
  | ok r => exact hnext r rfl

/-- A run may go on after the computation has come to its end. -/
theorem andThen {a : Action α β} {f : β → Action α γ} {expected : Except Failure δ}
    {Q' : δ → γ → Scene α → Prop} (h : Realizes E Q expected (a.run s))
    (hnext : ∀ d r t, Q d r t → Realizes E Q' (.ok d) ((f r).run t)) :
    Realizes E Q' expected ((a >>= f).run s) := by
  rw [Action.run_bind]
  generalize a.run s = m at h
  cases h with
  | error h => exact .error h
  | ok h => exact hnext _ _ _ h

theorem mono {E' : Scene α → Prop} {Q' : δ → β → Scene α → Prop} {expected : Except Failure δ}
    {m : Except Failure β × Scene α} (h : Realizes E Q expected m) (hE : ∀ t, E t → E' t)
    (hQ : ∀ d r t, Q d r t → Q' d r t) : Realizes E' Q' expected m := by
  cases h with
  | error h => exact .error (hE _ h)
  | ok h => exact .ok (hQ _ _ _ h)

/-- A run that succeeds realizes a computation that does. -/
theorem of_ok {expected : Except Failure δ} {r : β} {t : Scene α}
    (h : Realizes E Q expected (.ok r, t)) : ∃ d, expected = .ok d ∧ Q d r t := by
  cases h with
  | ok h => exact ⟨_, rfl, h⟩

/-- What a successful run goes with is what has been computed. -/
theorem with_eq {expected : Except Failure δ} {m : Except Failure β × Scene α}
    (h : Realizes E Q expected m) :
    Realizes E (fun d r t ↦ expected = .ok d ∧ Q d r t) expected m := by
  cases h with
  | error h => exact .error h
  | ok h => exact .ok ⟨rfl, h⟩

/-- A run that realizes a computation that succeeds does so too. -/
theorem succeeds {d : δ} {m : Except Failure β × Scene α} (h : Realizes E Q (.ok d) m) :
    ∃ r t, m = (.ok r, t) ∧ Q d r t := by
  cases h with
  | ok h => exact ⟨_, _, rfl, h⟩

/-- A run that realizes a computation that fails does so too. -/
theorem fails {failure : Failure} {m : Except Failure β × Scene α}
    (h : Realizes E Q (.error failure) m) : ∃ t, m = (.error failure, t) ∧ E t := by
  cases h with
  | error h => exact ⟨_, rfl, h⟩

/-- What holds wherever a run may end holds at its end. -/
theorem ends {I : Scene α → Prop} {expected : Except Failure δ} {m : Except Failure β × Scene α}
    (h : Realizes E Q expected m) (hE : ∀ t, E t → I t) (hQ : ∀ d r t, Q d r t → I t) : I m.2 := by
  cases h with
  | error h => exact hE _ h
  | ok h => exact hQ _ _ _ h

/-- A run fails with the failure of the computation that it realizes. -/
theorem of_error {expected : Except Failure δ} {failure : Failure} {t : Scene α}
    (h : Realizes E Q expected (.error failure, t)) : expected = .error failure ∧ E t := by
  cases h with
  | error h => exact ⟨rfl, h⟩

/-- What holds of a function of what has been computed holds of that. -/
theorem of_map {expected : Except Failure δ} {m : Except Failure β × Scene α} {g : δ → δ'}
    {Q' : δ' → β → Scene α → Prop} (h : Realizes E Q' (expected.map g) m) :
    Realizes E (fun d ↦ Q' (g d)) expected m := by
  cases expected with
  | error failure =>
    cases h with
    | error h => exact .error h
  | ok d =>
    cases h with
    | ok h => exact .ok h

/-- The computation may go on with what it has found. -/
theorem map {expected : Except Failure δ} {m : Except Failure β × Scene α} {g : δ → δ'}
    {Q' : δ' → β → Scene α → Prop} (h : Realizes E Q expected m)
    (hQ : ∀ d r t, Q d r t → Q' (g d) r t) :
    Realizes E Q' (expected >>= fun d ↦ Pure.pure (g d)) m := by
  cases h with
  | error h => exact .error h
  | ok h => exact .ok (hQ _ _ _ h)

/-- What an operation keeps holds at its end, too. -/
theorem with_kept {I : Scene α → Prop} {a : Action α β} {expected : Except Failure δ}
    (h : Realizes E Q expected (a.run s)) (hkeeps : Action.Keeps I a) (hI : I s) :
    Realizes E (fun d r t ↦ Q d r t ∧ I t) expected (a.run s) := by
  have hkept := hkeeps.of_run s hI
  generalize a.run s = m at h hkept
  cases h with
  | error h => exact .error h
  | ok h => exact .ok ⟨h, hkept⟩

/-- A run that leaves the scene as it is computes its result. -/
theorem same (result : Except Failure β) (h : E s) :
    Realizes E (fun d r t ↦ d = r ∧ s = t) result (result, s) := by
  cases result with
  | error failure => exact .error h
  | ok r => exact .ok ⟨rfl, rfl⟩

/-- A result that may be a failure is what it computes. -/
theorem liftM (result : Except Failure β) (h : E s) :
    Realizes E (fun d r t ↦ d = r ∧ s = t) result ((liftM result : Action α β).run s) :=
  same result h

/-- A loop folds what its rounds compute. -/
theorem forIn {l : List γ} {f : γ → β → Action α (ForInStep β)} {g : β → γ → Except Failure β}
    (h : ∀ c r t, Realizes E (fun d step _ ↦ step = .yield d) (g r c) ((f c r).run t)) (r : β) :
    Realizes E (fun d r _ ↦ d = r) (l.foldlM g r) ((forIn l r f).run s) := by
  induction l generalizing r s with
  | nil => exact .ok rfl
  | cons c l ih =>
    rw [List.forIn_cons, List.foldlM_cons]
    refine (h c r s).bind fun d step t hstep ↦ ?_
    subst hstep
    exact ih d

end Realizes

/-! ### Two runs -/

/-- The ends of two runs correspond: both failed, or both succeeded. -/
inductive Related (E : Failure → Failure → Scene α → Scene α → Prop)
    (Q : β → γ → Scene α → Scene α → Prop) :
    Except Failure β × Scene α → Except Failure γ × Scene α → Prop
  | error {failure failure' : Failure} {s t : Scene α} (h : E failure failure' s t) :
    Related E Q (.error failure, s) (.error failure', t)
  | ok {r : β} {r' : γ} {s t : Scene α} (h : Q r r' s t) : Related E Q (.ok r, s) (.ok r', t)

namespace Related

variable {E : Failure → Failure → Scene α → Scene α → Prop} {Q : β → γ → Scene α → Scene α → Prop}
  {s t : Scene α}

theorem bind {a : Action α β} {b : Action α γ} {f : β → Action α β'} {g : γ → Action α γ'}
    {Q' : β' → γ' → Scene α → Scene α → Prop} (h : Related E Q (a.run s) (b.run t))
    (hnext : ∀ r r' s t, Q r r' s t → Related E Q' ((f r).run s) ((g r').run t)) :
    Related E Q' ((a >>= f).run s) ((b >>= g).run t) := by
  rw [Action.run_bind, Action.run_bind]
  generalize a.run s = m at h
  generalize b.run t = n at h
  cases h with
  | error h => exact .error h
  | ok h => exact hnext _ _ _ _ h

theorem mono {E' : Failure → Failure → Scene α → Scene α → Prop}
    {Q' : β → γ → Scene α → Scene α → Prop} {m : Except Failure β × Scene α}
    {n : Except Failure γ × Scene α} (h : Related E Q m n)
    (hE : ∀ failure failure' s t, E failure failure' s t → E' failure failure' s t)
    (hQ : ∀ r r' s t, Q r r' s t → Q' r r' s t) : Related E' Q' m n := by
  cases h with
  | error h => exact .error (hE _ _ _ _ h)
  | ok h => exact .ok (hQ _ _ _ _ h)

/-- Runs that both realize the same computation correspond. -/
theorem of_realizes {δ : Type} {F F' : Scene α → Prop} {P : δ → β → Scene α → Prop}
    {P' : δ → γ → Scene α → Prop} {expected : Except Failure δ} {m : Except Failure β × Scene α}
    {n : Except Failure γ × Scene α} (hm : Realizes F P expected m)
    (hn : Realizes F' P' expected n) (hE : ∀ failure s t, F s → F' t → E failure failure s t)
    (hQ : ∀ d r r' s t, P d r s → P' d r' t → Q r r' s t) : Related E Q m n := by
  cases hm with
  | error h =>
    cases hn with
    | error h' => exact .error (hE _ _ _ h h')
  | ok h =>
    cases hn with
    | ok h' => exact .ok (hQ _ _ _ _ _ h h')

/-- Runs correspond that realize computations each of which comes to something if the other does. -/
theorem of_corresponding {δ δ' : Type} {F F' : Scene α → Prop} {P : δ → β → Scene α → Prop}
    {P' : δ' → γ → Scene α → Prop} {expected : Except Failure δ} {expected' : Except Failure δ'}
    {m : Except Failure β × Scene α} {n : Except Failure γ × Scene α}
    (hm : Realizes F P expected m) (hn : Realizes F' P' expected' n) {C : δ → δ' → Prop}
    (h : ∀ d, expected = .ok d → ∃ d', expected' = .ok d' ∧ C d d')
    (h' : ∀ d', expected' = .ok d' → ∃ d, expected = .ok d)
    (hQ : ∀ d d' r r' s t, expected = .ok d → C d d' → P d r s → P' d' r' t → Q r r' s t) :
    Related (fun _ _ _ _ ↦ True) Q m n := by
  -- One of the runs cannot fail alone, since each computation comes to something if the other does.
  cases hm with
  | error _ =>
    cases hn with
    | error _ => exact .error trivial
    | ok _ =>
      obtain ⟨d, hd⟩ := h' _ rfl
      cases hd
  | ok hP =>
    obtain ⟨d', hd', hC⟩ := h _ rfl
    cases hn with
    | error _ => cases hd'
    | ok hP' =>
      cases hd'
      exact .ok (hQ _ _ _ _ _ _ rfl hC hP hP')

/-- Runs correspond that realize computations which fail or succeed together. -/
theorem of_together {δ δ' : Type} {F F' : Scene α → Prop} {P : δ → β → Scene α → Prop}
    {P' : δ' → γ → Scene α → Prop} {expected : Except Failure δ} {expected' : Except Failure δ'}
    {m : Except Failure β × Scene α} {n : Except Failure γ × Scene α}
    (hm : Realizes F P expected m) (hn : Realizes F' P' expected' n) {C : δ → δ' → Prop}
    (h : Together C expected expected')
    (hQ : ∀ d d' r r' s t, expected = .ok d → expected' = .ok d' → C d d' → P d r s →
      P' d' r' t → Q r r' s t) : Related (fun _ _ _ _ ↦ True) Q m n := by
  cases h with
  | error =>
    cases hm with
    | error _ =>
      cases hn with
      | error _ => exact .error trivial
  | ok hC =>
    cases hm with
    | ok hP =>
      cases hn with
      | ok hP' => exact .ok (hQ _ _ _ _ _ _ rfl rfl hC hP hP')

/-- Checks that leave their scenes as they are fail together, or both runs go on. -/
theorem check {δ δ' : Type} {a : Action α δ} {b : Action α δ'} {f : δ → Action α β'}
    {g : δ' → Action α γ'} {x : Except Failure δ} {y : Except Failure δ'} {R : δ → δ' → Prop}
    {Q' : β' → γ' → Scene α → Scene α → Prop} (hs : a.run s = (x, s)) (ht : b.run t = (y, t))
    (h : Together R x y)
    (hnext : ∀ r r', x = .ok r → y = .ok r' → R r r' →
      Related (fun _ _ _ _ ↦ True) Q' ((f r).run s) ((g r').run t)) :
    Related (fun _ _ _ _ ↦ True) Q' ((a >>= f).run s) ((b >>= g).run t) := by
  cases h with
  | error =>
    rw [Action.run_bind_of_error hs, Action.run_bind_of_error ht]
    exact .error trivial
  | ok h =>
    rw [Action.run_bind_of_ok hs, Action.run_bind_of_ok ht]
    exact hnext _ _ rfl rfl h

/-- Loops over lists whose elements correspond come to the same result if their rounds do. -/
theorem forIn {δ δ' : Type} {P : δ → δ' → Prop} {R : Scene α → Scene α → Prop} {l : List δ}
    {l' : List δ'} {f : δ → β → Action α (ForInStep β)} {g : δ' → β → Action α (ForInStep β)}
    {r : β} (hl : List.Forall₂ P l l')
    (h : ∀ d d' r s t, P d d' → R s t →
      Related E (fun r r' s t ↦ r = r' ∧ R s t) ((f d r).run s) ((g d' r).run t))
    (hR : R s t) :
    Related E (fun r r' s t ↦ r = r' ∧ R s t) ((forIn l r f).run s) ((forIn l' r g).run t) := by
  induction hl generalizing r s t with
  | nil => exact .ok ⟨rfl, hR⟩
  | @cons d d' l l' hd _ ih =>
    rw [List.forIn_cons, List.forIn_cons]
    -- The rounds agree on whether the loop ends, since their results are equal.
    refine (h d d' r s t hd hR).bind ?_
    rintro step _ s t ⟨rfl, hR⟩
    cases step with
    | done r => exact .ok ⟨rfl, hR⟩
    | yield r => exact ih hR

/-- A run beside itself. -/
theorem self (m : Except Failure β × Scene α) (h : ∀ failure t, E failure failure t t) :
    Related E (fun r r' t t' ↦ r = r' ∧ t = t' ∧ m = (.ok r, t)) m m := by
  obtain ⟨failure | r, t⟩ := m
  · exact .error (h failure t)
  · exact .ok ⟨rfl, rfl, rfl⟩

/-- One result in both runs, with the scenes as they were. -/
theorem same (result : Except Failure β) (h : ∀ failure, E failure failure s t) :
    Related E (fun r r' s' t' ↦ r = r' ∧ s = s' ∧ t = t') (result, s) (result, t) := by
  cases result with
  | error failure => exact .error (h failure)
  | ok r => exact .ok ⟨rfl, rfl, rfl⟩

end Related

end Summand
