import Summand.Proofs.Readings
import Summand.Solution.Files

/-!
# Documents of solutions

A solution whose point is a vector of doubles is read back from its document, and with fields that
can be written also from its text (`Solution.Writable.ofText_toText`), whether that is kept in a
file or not. Fields of the declared types can be written, but for a number of iterations with too
many digits (`Solution.Declared.load_save`).

What a solution holds that was read can be written again, as it came from a text. Only its point may
be no vector, because it is an array of whatever shape the document gives. So such a solution is
written and read back exactly if its document has a list without lists for the point, or nothing
(`Solution.rewritten_of_ofText`).
-/

namespace Summand

/-! ### Points -/

namespace Json

/-- Whether a value is a list. -/
def isList : Json → Bool
  | .list _ => true
  | _ => false

/-- A list without lists in it. -/
def Flat (v : Json) : Prop := ∃ items, v = .list items ∧ ∀ item ∈ items, item.isList = false

end Json

namespace Solution

theorem nestedOf_of_not_isList {v : Json} (h : v.isList = false) : nestedOf v = .leaf v := by
  cases v <;> first | rfl | cases h

theorem nestedItems_eq (items : List Json) : nestedItems items = items.map nestedOf := by
  induction items with
  | nil => rfl
  | cons item items ih => rw [nestedItems, ih, List.map_cons]

theorem outerShapes_leaves (l : List Json) : Nested.outerShapes (l.map Nested.leaf) = [] := by
  rcases l with - | ⟨a, - | ⟨b, l⟩⟩ <;> rfl

theorem haveShape_leaves (l : List Json) : Nested.haveShape [] (l.map Nested.leaf) = true := by
  induction l with
  | nil => rfl
  | cons a l ih =>
    rw [List.map_cons, Nested.haveShape, ih]
    rfl

theorem leavesAll_leaves (l : List Json) : Nested.leavesAll (l.map Nested.leaf) = l := by
  induction l with
  | nil => rfl
  | cons a l ih =>
    rw [List.map_cons, Nested.leavesAll, ih]
    rfl

theorem not_isList_of_haveShape {items : List Json}
    (h : Nested.haveShape [] (items.map nestedOf) = true) :
    ∀ item ∈ items, item.isList = false := by
  induction items with
  | nil => exact fun _ h ↦ absurd h List.not_mem_nil
  | cons item items ih =>
    rw [List.map_cons, Nested.haveShape, Bool.and_eq_true] at h
    refine List.forall_mem_cons.2 ⟨?_, ih h.2⟩
    cases item <;> first | rfl | cases h.1

theorem toGrid_eq_ok {limit : ℕ} {nested : Nested Json} {g : Grid Json}
    (h : nested.toGrid limit = .ok g) :
    g.shape = nested.outerShape.take limit ∧ nested.hasShape g.shape = true := by
  unfold Nested.toGrid at h
  dsimp only at h
  split_ifs at h with hshape
  cases h
  exact ⟨rfl, hshape⟩

/-- A list without lists in it is an array of one axis. -/
theorem toGrid_list {items : List Json} (h : ∀ item ∈ items, item.isList = false) :
    (nestedOf (.list items)).toGrid Grid.maxRank = .ok ⟨[items.length], items⟩ := by
  have hnested : nestedOf (.list items) = .node (items.map .leaf) := by
    rw [nestedOf, nestedItems_eq]
    exact congrArg _ (List.map_congr_left fun item hitem ↦ nestedOf_of_not_isList (h item hitem))
  rw [hnested, Nested.toGrid, Nested.outerShape, outerShapes_leaves]
  simp [Grid.maxRank, Nested.hasShape, haveShape_leaves, Nested.leaves, leavesAll_leaves]

theorem gridOf_eq_ok {v : Json} {g : Grid Float} (h : gridOf v = .ok g) :
    ∃ leaves : Grid Json, (nestedOf v).toGrid Grid.maxRank = .ok leaves ∧ g.shape = leaves.shape ∧
      leaves.entries.mapM numberOf = .ok g.entries := by
  obtain ⟨leaves, hleaves, h⟩ := bind_eq_ok_iff.1 h
  obtain ⟨entries, hentries, h⟩ := bind_eq_ok_iff.1 h
  cases h
  exact ⟨leaves, hleaves, rfl, hentries⟩

/-- The array of a list without lists in it is a vector. -/
theorem eq_vector_of_flat {v : Json} {g : Grid Float} (h : gridOf v = .ok g) (hv : v.Flat) :
    g = .vector g.entries := by
  obtain ⟨items, rfl, hitems⟩ := hv
  obtain ⟨leaves, hleaves, hshape, hentries⟩ := gridOf_eq_ok h
  cases (toGrid_list hitems).symm.trans hleaves
  rcases g with ⟨shape, entries⟩
  obtain rfl : shape = [items.length] := hshape
  rw [Grid.vector, length_of_mapM hentries]

/-- What is no list without lists in it has no axis or several, and the first of several axes is
not empty. -/
theorem shape_of_not_flat {v : Json} {g : Grid Float} (h : gridOf v = .ok g) (hv : ¬v.Flat) :
    g.shape = [] ∨ ∃ m n rest, g.shape = (m + 1) :: n :: rest := by
  obtain ⟨leaves, hleaves, hshape, -⟩ := gridOf_eq_ok h
  obtain ⟨houter, hhas⟩ := toGrid_eq_ok hleaves
  rw [← hshape] at houter hhas
  cases v with
  | list items =>
    rw [nestedOf, nestedItems_eq] at houter hhas
    rw [Nested.outerShape, Grid.maxRank, List.take_succ_cons] at houter
    rcases hinner : (Nested.outerShapes (items.map nestedOf)).take 63 with - | ⟨n, rest⟩
    · rw [houter, hinner, Nested.hasShape, Bool.and_eq_true] at hhas
      exact absurd ⟨items, rfl, not_isList_of_haveShape hhas.2⟩ hv
    · rw [hinner] at houter
      rcases items with - | ⟨item, items⟩
      · cases hinner
      · exact .inr ⟨_, n, rest, houter⟩
  | _ => exact .inl houter

theorem gridOf_reals (l : List Float) : gridOf (.list (l.map .real)) = .ok (.vector l) := by
  have hitems : ∀ item ∈ l.map Json.real, item.isList = false := fun item hitem ↦ by
    obtain ⟨x, -, rfl⟩ := List.mem_map.1 hitem
    rfl
  have hnumbers : (l.map Json.real).mapM numberOf = .ok l :=
    mapM_map_eq_ok (f := numberOf) (g := Json.real) (fun _ ↦ rfl) l
  rw [gridOf, toGrid_list hitems]
  change ((l.map Json.real).mapM numberOf).bind _ = _
  rw [hnumbers, List.length_map]
  rfl

/-! ### Fields -/

theorem status_ofJson_name (status : Status) : Status.ofJson (.text status.name) = .ok status := by
  cases status <;> rfl

/-- The document of a solution at a point. -/
def document (s : Solution) (point : List Float) : Json :=
  .object
    [("status", .text s.status.name),
      ("objective_value", s.objectiveValue),
      ("x", .list (point.map .real)),
      ("iterations", s.iterations),
      ("message", s.message),
      ("solve_time", s.solveTime)]

variable {s : Solution} {point : List Float}

theorem toJson_eq (hx : s.x = (Grid.vector point).map .real) :
    s.toJson = .ok (s.document point) := by
  have hdoubles : (point.map Number.real).mapM Number.double = .ok point :=
    mapM_map_eq_ok (f := Number.double) (g := Number.real) (fun _ ↦ rfl) point
  rw [toJson, hx]
  change ((point.map Number.real).mapM Number.double).bind _ = _
  rw [hdoubles]
  rfl

/-- A document is read as its solution. -/
theorem ofJson_document (hx : s.x = (Grid.vector point).map .real) :
    ofJson (s.document point) = .ok s := by
  change (Status.ofJson (.text s.status.name)).bind (fun status ↦
    (gridOf (.list (point.map .real))).bind fun x ↦ .ok { s with status, x := x.map .real }) = _
  rw [status_ofJson_name, gridOf_reals]
  dsimp only [Except.bind]
  rw [← hx]

/-- All fields can be written at a depth within a document. -/
structure Writable (depth : ℕ) (s : Solution) : Prop where
  objectiveValue : s.objectiveValue.Writable depth
  iterations : s.iterations.Writable depth
  message : s.message.Writable depth
  solveTime : s.solveTime.Writable depth

/-- The document of a solution can be written, if its fields can. -/
theorem Writable.document {depth : ℕ} (h : s.Writable (depth + 1)) (point : List Float) :
    (s.document point).Writable (depth + 2) := by
  have hname (name : String) (hname : ∀ c ∈ name.toList, c.toNat < 0x10FFFF) : Text.Proper name :=
    Text.proper_of_forall_ne_mark fun c hc ↦ Json.ne_mark_of_lt (hname c hc)
  have hstatus : Text.Proper s.status.name := by
    refine hname _ ?_
    cases s.status <;> simp [Status.name]
  have hpoint : (Json.list (point.map .real)).Writable (depth + 1) := .list fun item hitem ↦ by
    obtain ⟨x, -, rfl⟩ := List.mem_map.1 hitem
    exact .real x
  refine .object (by simp) ?_ ?_
  · simp only [List.forall_mem_cons]
    refine ⟨?_, ?_, ?_, ?_, ?_, ?_, fun _ h ↦ absurd h List.not_mem_nil⟩ <;>
      exact hname _ (by simp)
  · simp only [List.forall_mem_cons]
    exact ⟨.text hstatus, h.objectiveValue, hpoint, h.iterations, h.message, h.solveTime,
      fun _ h ↦ absurd h List.not_mem_nil⟩

/-- A solution at a point is read back from its text. -/
theorem Writable.ofText_toText (hx : s.x = (Grid.vector point).map .real)
    (h : s.Writable (nestingLimit - 1)) :
    s.toText = .ok (s.document point).indented ∧ ofText (s.document point).indented = .ok s := by
  have hdocument : (s.document point).Writable nestingLimit :=
    Writable.document (show s.Writable (988 + 1) from h) point
  constructor
  · rw [toText, toJson_eq hx]
    exact if_pos hdocument.withinLimit
  · rw [Solution.ofText, Json.parse_indented hdocument]
    exact ofJson_document hx

/-! ### Solutions with the declared types -/

/-- The fields of a solution as they are declared: numbers or nothing, and a message of
characters. -/
structure Declared where
  status : Status
  objectiveValue : Option Float
  x : List Float
  iterations : Option Int
  message : List Char
  solveTime : Option Float

/-- The solution with the given fields. -/
def Declared.solution (d : Declared) : Solution where
  status := d.status
  objectiveValue := d.objectiveValue.elim .null .real
  x := (Grid.vector d.x).map .real
  iterations := d.iterations.elim .null .int
  message := .text (String.ofList (Text.ofCharacters d.message))
  solveTime := d.solveTime.elim .null .real

/-- The number of iterations has no more digits than may be written. -/
def Declared.WithinLimit (d : Declared) : Prop :=
  ∀ n ∈ d.iterations, n.natAbs < 10 ^ Text.digitLimit

theorem Declared.writable {d : Declared} (h : d.WithinLimit) (depth : ℕ) :
    d.solution.Writable depth where
  objectiveValue := by cases hx : d.objectiveValue <;> rw [solution, hx] <;> constructor
  iterations := by
    cases hn : d.iterations with
    | none =>
      rw [solution, hn]
      exact .null
    | some n =>
      rw [solution, hn]
      exact .int (h n hn)
  message := .text (Text.proper_ofCharacters d.message)
  solveTime := by cases hx : d.solveTime <;> rw [solution, hx] <;> constructor

theorem Declared.not_withinLimit {d : Declared} {n : ℤ} (hn : d.iterations = some n)
    (hmany : 10 ^ Text.digitLimit ≤ n.natAbs) : ¬d.WithinLimit := fun h ↦
  absurd (h n hn) (not_lt.2 hmany)

/-- A number of iterations with too many digits is not written. -/
theorem Declared.toText_of_not_withinLimit {d : Declared} (h : ¬d.WithinLimit) :
    d.solution.toText = .error unwritable := by
  have hlimit : (d.solution.document d.x).withinLimit = false := by
    rw [Bool.eq_false_iff, document]
    intro hwithin
    rw [Json.withinLimit, Json.fieldsWithinLimit_iff] at hwithin
    refine h fun n hn ↦ ?_
    have hiterations := hwithin ("iterations", d.solution.iterations) (by simp)
    rw [solution, Option.mem_def.1 hn] at hiterations
    exact Json.withinLimit_int_iff.1 hiterations
  rw [toText, toJson_eq rfl]
  change (if (d.solution.document d.x).withinLimit then _ else _) = _
  rw [hlimit]
  rfl

/-- Solutions are written and read back, as texts and as files, unless the number of iterations has
too many digits; then they are not written. -/
theorem Declared.load_save (d : Declared) :
    (d.WithinLimit →
      (∃ text, (∀ files, d.solution.save none files = .ok (text, files)) ∧
        ∀ files : Files, files text = none → load text files = .ok d.solution) ∧
      ∀ path files, path ≠ "" → ∃ written, d.solution.save (some path) files = .ok ("", written) ∧
        load path written = .ok d.solution ∧ ∀ other, other ≠ path → written other = files other) ∧
    (¬d.WithinLimit → ∀ path files, d.solution.save path files = .error unwritable) := by
  refine ⟨fun h ↦ ?_, fun h path files ↦ ?_⟩
  · obtain ⟨htext, hread⟩ := (d.writable h _).ofText_toText rfl
    generalize (d.solution.document d.x).indented = text at htext hread
    refine ⟨⟨text, fun files ↦ ?_, fun files hfiles ↦ ?_⟩, fun path files hpath ↦
      ⟨files.write path text, ?_, ?_, fun other hother ↦ ?_⟩⟩
    · rw [save, htext]
      rfl
    · rw [load, hfiles]
      exact hread
    · rw [save, htext]
      dsimp only [bind, Except.bind]
      split
      · next heq => cases heq
      · next heq => exact absurd (Option.some.inj heq) hpath
      · next heq =>
        cases heq
        rfl
    · rw [load, Files.write, if_pos rfl]
      exact hread
    · exact if_neg hother
  · rw [save, toText_of_not_withinLimit h]
    rfl

end Solution

namespace Small

open Solution (Declared)

/-- A failed minimization with a negative zero, values that are not finite, and a message of many
kinds of characters. -/
def abandoned : Declared where
  status := .failed
  objectiveValue := some Binary64.notANumber
  x := [-0.0, Binary64.positiveInfinity]
  iterations := some (-3)
  message := ['"', '\\', '\n', 'é', Char.ofNat 0x1D11E, Text.mark]
  solveTime := none

def noFiles : Files := fun _ ↦ none

theorem load_abandoned :
    (∃ text, abandoned.solution.save none noFiles = .ok (text, noFiles) ∧
      Solution.load text noFiles = .ok abandoned.solution) ∧
    ∃ files, abandoned.solution.save (some "solution.json") noFiles = .ok ("", files) ∧
      Solution.load "solution.json" files = .ok abandoned.solution := by
  have hlimit : abandoned.WithinLimit := by
    rintro _ ⟨⟩
    exact Nat.lt_of_lt_of_le (by decide : 3 < 10 ^ 1) (Nat.pow_le_pow_right (by decide) (by decide))
  obtain ⟨⟨text, hsave, hload⟩, hfile⟩ := (Declared.load_save abandoned).1 hlimit
  obtain ⟨files, hwritten, hread, -⟩ := hfile "solution.json" noFiles (by decide)
  exact ⟨⟨text, hsave noFiles, hload noFiles rfl⟩, files, hwritten, hread⟩

/-- A minimization of so many iterations that their number has a digit too many. -/
def counted : Declared := { abandoned with iterations := some (10 ^ Text.digitLimit) }

theorem save_counted : counted.solution.save none noFiles = .error Solution.unwritable := by
  have hmany : ((10 : ℤ) ^ Text.digitLimit).natAbs = 10 ^ Text.digitLimit := by
    rw [Int.natAbs_pow]
    congr
  have hlimit := Declared.not_withinLimit (d := counted) rfl hmany.ge
  rw [Solution.save, Declared.toText_of_not_withinLimit hlimit]
  rfl

end Small

namespace Solution

variable {s : Solution}

/-! ### Solutions that were read -/

theorem writable_of_field? {depth : ℕ} {name : String} {document v : Json}
    (h : document.Writable (depth + 1)) (hfield : document.field? name = some v) :
    v.Writable depth := by
  cases h with
  | object hnodup hnames hfields =>
    obtain ⟨field, hfound, rfl⟩ := Option.map_eq_some_iff.1 hfield
    exact hfields field (List.mem_of_find?_eq_some hfound)
  | _ => cases hfield

/-- What a field of a document holds, or what stands for it if it is absent. -/
def fieldOf (document : Json) (name : String) (absent : Json) : Json :=
  (document.field? name).getD absent

theorem writable_fieldOf {depth : ℕ} {document absent : Json} (h : document.Writable (depth + 1))
    (habsent : absent.Writable depth) (name : String) :
    (fieldOf document name absent).Writable depth := by
  rw [fieldOf]
  cases hfield : document.field? name with
  | none => exact habsent
  | some v => exact writable_of_field? h hfield

/-- A solution that was read holds what its document does. -/
structure ReadFrom (document : Json) (s : Solution) : Prop where
  objectiveValue : s.objectiveValue = fieldOf document "objective_value" .null
  x : ∃ point, gridOf (fieldOf document "x" (.list [])) = .ok point ∧ s.x = point.map .real
  iterations : s.iterations = fieldOf document "iterations" .null
  message : s.message = fieldOf document "message" (.text "")
  solveTime : s.solveTime = fieldOf document "solve_time" .null

theorem readFrom_of_ofJson {document : Json} (h : ofJson document = .ok s) :
    ReadFrom document s := by
  unfold ofJson at h
  split at h
  · next fields =>
    split at h
    · cases h
    · obtain ⟨status, -, h⟩ := bind_eq_ok_iff.1 h
      obtain ⟨point, hpoint, h⟩ := bind_eq_ok_iff.1 h
      cases h
      exact ⟨rfl, ⟨point, hpoint, rfl⟩, rfl, rfl, rfl⟩
  · cases h

theorem ReadFrom.writable {depth : ℕ} {document : Json} (h : ReadFrom document s)
    (hdocument : document.Writable (depth + 1)) : s.Writable depth where
  objectiveValue := h.objectiveValue ▸ writable_fieldOf hdocument .null _
  iterations := h.iterations ▸ writable_fieldOf hdocument .null _
  message := h.message ▸ writable_fieldOf hdocument
    (.text (Text.proper_of_forall_ne_mark fun _ h ↦ absurd h List.not_mem_nil)) _
  solveTime := h.solveTime ▸ writable_fieldOf hdocument .null _

/-- A point that is no vector is not written. -/
theorem toJson_of_not_flat {v : Json} {point : Grid Float} (hpoint : gridOf v = .ok point)
    (hx : s.x = point.map .real) (hv : ¬v.Flat) : s.toJson = .error notVector := by
  have hentries : pointEntries s.x = .error notVector := by
    rw [pointEntries, hx, Grid.map]
    rcases shape_of_not_flat hpoint hv with hshape | ⟨m, n, rest, hshape⟩
    · rw [hshape]
    · rw [hshape]
      rfl
  rw [toJson, hentries]
  rfl

/-- A solution that was read from a text of characters is written, and read back from what is
written, if its document has no field for the point or a list without lists in it. Its point is no
vector otherwise, and it is not written. -/
theorem rewritten_of_ofText {characters : List Char}
    (h : ofText (String.ofList (Text.ofCharacters characters)) = .ok s) :
    ∃ document, Json.parse nestingLimit (String.ofList (Text.ofCharacters characters)) =
        .ok document ∧
      ((fieldOf document "x" (.list [])).Flat → (∃ n, s.x.shape = [n]) ∧
        ∃ json text, s.toJson = .ok json ∧ s.toText = .ok text ∧ ofText text = .ok s) ∧
      (¬(fieldOf document "x" (.list [])).Flat → (∀ n, s.x.shape ≠ [n]) ∧
        s.toJson = .error notVector ∧ s.toText = .error notVector) := by
  obtain ⟨document, hparse, hread⟩ := bind_eq_ok_iff.1 h
  rw [mapError_eq_ok_iff] at hparse
  have hdocument := readFrom_of_ofJson hread
  obtain ⟨point, hpoint, hx⟩ := hdocument.x
  refine ⟨document, hparse, fun hflat ↦ ?_, fun hflat ↦ ?_⟩
  · rw [eq_vector_of_flat hpoint hflat] at hx
    obtain ⟨htext, hback⟩ := (hdocument.writable (Json.writable_of_parse hparse)).ofText_toText hx
    exact ⟨⟨_, congrArg Grid.shape hx⟩, _, _, toJson_eq hx, htext, hback⟩
  · have hjson := toJson_of_not_flat hpoint hx hflat
    refine ⟨fun n hn ↦ ?_, hjson, ?_⟩
    · have hshape : point.shape = [n] := by rwa [hx] at hn
      rcases shape_of_not_flat hpoint hflat with hnone | ⟨_, _, _, hseveral⟩
      · cases hnone.symm.trans hshape
      · cases hseveral.symm.trans hshape
    · rw [toText, hjson]
      rfl

end Solution

namespace Small

/-- A document without a point. -/
def pointless : List Char := "\x7b\"status\":\"failed\"\x7d".toList

/-- A document in which the point is null. -/
def nullPoint : List Char := "\x7b\"status\":\"failed\",\"x\":null\x7d".toList

theorem rewritten_pointless :
    ∃ s text, Solution.ofText (String.ofList (Text.ofCharacters pointless)) = .ok s ∧
      s.toText = .ok text ∧ Solution.ofText text = .ok s := by
  have hparse : Json.parse Solution.nestingLimit (String.ofList (Text.ofCharacters pointless)) =
      .ok (.object [("status", .text "failed")]) := by cbv
  have hread : Solution.ofText (String.ofList (Text.ofCharacters pointless)) =
      .ok { status := .failed } := by
    rw [Solution.ofText, hparse]
    rfl
  obtain ⟨document, hdocument, hflat, -⟩ := Solution.rewritten_of_ofText hread
  cases hparse.symm.trans hdocument
  obtain ⟨-, _, text, -, htext, hback⟩ := hflat ⟨[], rfl, fun _ h ↦ absurd h List.not_mem_nil⟩
  exact ⟨_, text, hread, htext, hback⟩

theorem toJson_nullPoint :
    ∃ s, Solution.ofText (String.ofList (Text.ofCharacters nullPoint)) = .ok s ∧
      s.x.shape = [] ∧ s.toJson = .error Solution.notVector := by
  have hparse : Json.parse Solution.nestingLimit (String.ofList (Text.ofCharacters nullPoint)) =
      .ok (.object [("status", .text "failed"), ("x", .null)]) := by cbv
  rw [Solution.ofText, hparse]
  exact ⟨_, rfl, rfl, rfl⟩

end Small

end Summand
