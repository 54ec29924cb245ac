import Summand.Proofs.EscapedTexts
import Summand.Proofs.NumberTexts

/-!
# Texts of JSON values

What is written for a value, one item per line, reads back as that value
(`Json.parse_indented`). The value has to be one that can be written (`Json.Writable`): its integers
have no more digits than may be read, its texts are proper, the names in an object differ, and lists
and objects are nested no deeper than they may be.

The parts of a list or an object are written by the same rules, so the proof follows how a value is
made up. A value ends where a line break or a comma follows, with which no number goes on.
-/

namespace Summand.Json

open Decimal (Stops)

/-! ### Values that can be written -/

/-- The value can be written and read back, with lists and objects nested up to a depth. -/
inductive Writable : ℕ → Json → Prop
  | null {depth} : Writable depth .null
  | bool {depth} (b : Bool) : Writable depth (.bool b)
  | int {depth} {n : ℤ} : n.natAbs < 10 ^ Text.digitLimit → Writable depth (.int n)
  | real {depth} (x : Float) : Writable depth (.real x)
  | text {depth} {s : String} : Text.Proper s → Writable depth (.text s)
  | list {depth} {items : List Json} :
      (∀ item ∈ items, Writable depth item) → Writable (depth + 1) (.list items)
  | object {depth} {fields : List (String × Json)} : (fields.map Prod.fst).Nodup →
      (∀ field ∈ fields, Text.Proper field.1) → (∀ field ∈ fields, Writable depth field.2) →
      Writable (depth + 1) (.object fields)

theorem withinLimit_int_iff {n : ℤ} :
    (Json.int n).withinLimit = true ↔ n.natAbs < 10 ^ Text.digitLimit := by
  have hpow (k : ℕ) : Nat.pow 10 k = 10 ^ k := rfl
  rw [Json.withinLimit, decide_eq_true_eq, hpow]

theorem itemsWithinLimit_iff {items : List Json} :
    itemsWithinLimit items = true ↔ ∀ item ∈ items, item.withinLimit = true := by
  induction items with
  | nil => exact iff_of_true rfl fun _ h ↦ absurd h List.not_mem_nil
  | cons item items ih => rw [itemsWithinLimit, Bool.and_eq_true, ih, List.forall_mem_cons]

theorem fieldsWithinLimit_iff {fields : List (String × Json)} :
    fieldsWithinLimit fields = true ↔ ∀ field ∈ fields, field.2.withinLimit = true := by
  induction fields with
  | nil => exact iff_of_true rfl fun _ h ↦ absurd h List.not_mem_nil
  | cons field fields ih => rw [fieldsWithinLimit, Bool.and_eq_true, ih, List.forall_mem_cons]

theorem Writable.withinLimit {depth : ℕ} {v : Json} (h : Writable depth v) :
    v.withinLimit = true := by
  induction h with
  | null | bool _ | real _ | text _ => rfl
  | int h => exact withinLimit_int_iff.2 h
  | list _ ih => exact itemsWithinLimit_iff.2 ih
  | object _ _ _ ih => exact fieldsWithinLimit_iff.2 ih

/-! ### Blanks -/

theorem skipBlanks_cons {c : Char} (hc : isBlank c = false) (rest : List Char) :
    skipBlanks (c :: rest) = c :: rest := by
  rw [skipBlanks, List.dropWhile_cons_of_neg (by simpa using hc)]

theorem skipBlanks_blank {c : Char} (hc : isBlank c = true) (rest : List Char) :
    skipBlanks (c :: rest) = skipBlanks rest := List.dropWhile_cons_of_pos hc

/-- A line break ends where the text goes on. -/
theorem skipBlanks_lineBreak {c : Char} (hc : isBlank c = false) (level : ℕ) (rest : List Char) :
    skipBlanks (lineBreak level ++ c :: rest) = c :: rest := by
  have hblank : ∀ d ∈ lineBreak level, isBlank d = true := by
    refine List.forall_mem_cons.2 ⟨rfl, fun d hd ↦ ?_⟩
    rw [List.eq_of_mem_replicate hd]
    rfl
  rw [skipBlanks, List.dropWhile_append_of_pos hblank]
  exact skipBlanks_cons hc rest

theorem stops_cons {c : Char} (h : (c.isDigit = false ∧ c ≠ '.' ∧ c ≠ 'e' ∧ c ≠ 'E'))
    (rest : List Char) : Stops (c :: rest) := by
  rintro _ ⟨⟩
  exact h

/-- What is read as a value begins with what begins a value. -/
theorem exists_cons_of_readValue {depth fuel : ℕ} {source : List Char} {result : Json × List Char}
    (h : readValue depth fuel source = .ok result) :
    ∃ c rest, source = c :: rest ∧ isBlank c = false ∧ c ≠ ']' := by
  cases fuel with
  | zero => cases h
  | succ fuel =>
    cases source with
    | nil => cases h
    | cons c rest =>
      refine ⟨c, rest, rfl, ?_⟩
      by_contra hc
      have hcases : c = ' ' ∨ c = '\t' ∨ c = '\n' ∨ c = '\r' ∨ c = ']' := by
        simp only [isBlank, Bool.or_eq_false_iff, beq_eq_false_iff_ne] at hc
        tauto
      have hnumber : readNumber false (c :: rest) = .ok result := by
        rcases hcases with rfl | rfl | rfl | rfl | rfl <;> exact h
      obtain ⟨_, _, hsource, hdigit⟩ := isDigit_of_readNumber hnumber
      obtain ⟨rfl, -⟩ := List.cons.inj hsource
      rcases hcases with rfl | rfl | rfl | rfl | rfl <;> cases hdigit

/-! ### Reading back -/

/-- The value is read back from what is written for it. -/
def ReadsBack (depth : ℕ) (v : Json) : Prop :=
  ∀ level fuel rest, Stops rest → (indentedChars level v).length < fuel →
    readValue depth fuel (indentedChars level v ++ rest) = .ok (v, rest)

theorem ReadsBack.of_succ {depth : ℕ} {v : Json}
    (h : ∀ level fuel rest, Stops rest → (indentedChars level v).length ≤ fuel →
      readValue depth (fuel + 1) (indentedChars level v ++ rest) = .ok (v, rest)) :
    ReadsBack depth v := by
  intro level fuel rest hrest hfuel
  obtain ⟨fuel, rfl⟩ := Nat.exists_eq_succ_of_ne_zero (Nat.ne_zero_of_lt hfuel)
  exact h level fuel rest hrest (Nat.le_of_lt_succ hfuel)

/-- A value that is read back is found after a line break, and is no closing bracket. -/
theorem ReadsBack.exists_cons {depth : ℕ} {v : Json} (h : ReadsBack depth v) (level : ℕ)
    {rest : List Char} (hrest : Stops rest) :
    ∃ c l, indentedChars level v ++ rest = c :: l ∧ isBlank c = false ∧ c ≠ ']' :=
  exists_cons_of_readValue (h level _ rest hrest (Nat.lt_succ_self _))

theorem ReadsBack.skipBlanks {depth : ℕ} {v : Json} (h : ReadsBack depth v) (level k : ℕ)
    {rest : List Char} (hrest : Stops rest) :
    skipBlanks (lineBreak k ++ (indentedChars level v ++ rest)) =
      indentedChars level v ++ rest := by
  obtain ⟨c, l, hsource, hc, -⟩ := h.exists_cons level hrest
  rw [hsource, skipBlanks_lineBreak hc]

/-! ### Items of a list -/

section

variable {depth fuel : ℕ} {source rest after : List Char} {item : Json}

theorem readItems_last (hread : readValue depth fuel source = .ok (item, rest))
    (hskip : skipBlanks rest = ']' :: after) :
    readItems depth (fuel + 1) source = .ok ([item], after) := by
  rw [readItems, hread]
  dsimp only [bind, Except.bind]
  rw [hskip]
  rfl

theorem readItems_more {items : List Json} {tail : List Char}
    (hread : readValue depth fuel source = .ok (item, rest))
    (hskip : skipBlanks rest = ',' :: after)
    (hmore : readItems depth fuel (skipBlanks after) = .ok (items, tail)) :
    readItems depth (fuel + 1) source = .ok (item :: items, tail) := by
  rw [readItems, hread]
  dsimp only [bind, Except.bind]
  rw [hskip]
  change (readItems depth fuel (skipBlanks after)).bind _ = _
  rw [hmore]
  rfl

end

theorem stops_items (level : ℕ) (items : List Json) (rest : List Char) :
    Stops (indentedItems level items ++ (lineBreak level ++ ']' :: rest)) := by
  cases items <;> exact stops_cons (by decide) _

/-- The items of a list are read back up to the closing bracket. -/
theorem readItems_indented {depth : ℕ} {item : Json} {items : List Json}
    (h : ∀ i ∈ item :: items, ReadsBack depth i) (level : ℕ) {fuel : ℕ} (rest : List Char)
    (hfuel : (indentedChars (level + 1) item ++ indentedItems level items).length + 1 < fuel) :
    readItems depth fuel (indentedChars (level + 1) item ++
      (indentedItems level items ++ (lineBreak level ++ ']' :: rest))) =
        .ok (item :: items, rest) := by
  obtain ⟨fuel, rfl⟩ := Nat.exists_eq_succ_of_ne_zero (Nat.ne_zero_of_lt hfuel)
  induction items generalizing item fuel with
  | nil =>
    rw [indentedItems, List.append_nil] at hfuel
    exact readItems_last
      (h item List.mem_cons_self (level + 1) fuel _ (stops_items level [] rest) (by omega))
      (skipBlanks_lineBreak (by decide) level rest)
  | cons next items ih =>
    obtain ⟨hitem, hitems⟩ := List.forall_mem_cons.1 h
    simp only [indentedItems, List.length_append, List.length_cons] at hfuel
    obtain ⟨fuel, rfl⟩ : ∃ k, fuel = k + 1 := Nat.exists_eq_succ_of_ne_zero (by omega)
    refine readItems_more
      (hitem (level + 1) (fuel + 1) _ (stops_items level (next :: items) rest) (by omega))
      (skipBlanks_cons (by decide) _) ?_
    change readItems depth (fuel + 1) (skipBlanks ((lineBreak (level + 1) ++
      indentedChars (level + 1) next ++ indentedItems level items) ++ _)) = _
    rw [List.append_assoc, List.append_assoc, (hitems next List.mem_cons_self).skipBlanks
      (level + 1) (level + 1) (stops_items level items rest)]
    exact ih hitems fuel (by rw [List.length_append]; omega)

/-! ### Fields of an object -/

section

variable {depth fuel : ℕ} {body afterName source rest after : List Char}
  {symbols : List Text.Symbol} {item : Json}

theorem readFields_last (hname : readText fuel body = .ok (symbols, afterName))
    (hcolon : skipBlanks afterName = ':' :: source)
    (hread : readValue depth fuel (skipBlanks source) = .ok (item, rest))
    (hskip : skipBlanks rest = '\x7d' :: after) :
    readFields depth (fuel + 1) ('"' :: body) = .ok ([(textOf symbols, item)], after) := by
  rw [readFields, hname]
  dsimp only [bind, Except.bind]
  rw [hcolon]
  change (readValue depth fuel (skipBlanks source)).bind _ = _
  rw [hread]
  dsimp only [Except.bind]
  rw [hskip]
  rfl

theorem readFields_more {fields : List (String × Json)} {tail : List Char}
    (hname : readText fuel body = .ok (symbols, afterName))
    (hcolon : skipBlanks afterName = ':' :: source)
    (hread : readValue depth fuel (skipBlanks source) = .ok (item, rest))
    (hskip : skipBlanks rest = ',' :: after)
    (hmore : readFields depth fuel (skipBlanks after) = .ok (fields, tail)) :
    readFields depth (fuel + 1) ('"' :: body) = .ok ((textOf symbols, item) :: fields, tail) := by
  rw [readFields, hname]
  dsimp only [bind, Except.bind]
  rw [hcolon]
  change (readValue depth fuel (skipBlanks source)).bind _ = _
  rw [hread]
  dsimp only [Except.bind]
  rw [hskip]
  change (readFields depth fuel (skipBlanks after)).bind _ = _
  rw [hmore]
  rfl

end

/-- The text of a field. -/
def fieldChars (level : ℕ) (field : String × Json) : List Char :=
  textChars field.1 ++ ':' :: ' ' :: indentedChars level field.2

theorem stops_fields (level : ℕ) (fields : List (String × Json)) (rest : List Char) :
    Stops (indentedFields level fields ++ (lineBreak level ++ '\x7d' :: rest)) := by
  rcases fields with - | ⟨⟨name, item⟩, fields⟩ <;> exact stops_cons (by decide) _

/-- A field is read as its name and its value. -/
theorem exists_readText_field {depth level fuel : ℕ} {field : String × Json}
    (hname : Text.Proper field.1) (hvalue : ReadsBack depth field.2)
    (hfuel : (fieldChars level field).length < fuel) {rest : List Char} (hrest : Stops rest) :
    ∃ symbols body source, textOf symbols = field.1 ∧ fieldChars level field ++ rest = '"' :: body ∧
      readText fuel body = .ok (symbols, ':' :: source) ∧
      readValue depth fuel (skipBlanks source) = .ok (field.2, rest) := by
  simp only [fieldChars, List.length_append, List.length_cons] at hfuel
  obtain ⟨symbols, hread, hsymbols⟩ :=
    readText_textChars hname (show (textChars field.1).length ≤ fuel + 1 by omega)
  obtain ⟨c, l, hsource, hc, -⟩ := hvalue.exists_cons level hrest
  refine ⟨symbols, _, ' ' :: (indentedChars level field.2 ++ rest), hsymbols, ?_, hread, ?_⟩
  · rw [fieldChars, List.append_assoc, textChars_append]
    rfl
  · rw [skipBlanks_blank rfl, hsource, skipBlanks_cons hc, ← hsource]
    exact hvalue level fuel rest hrest (by omega)

/-- The fields of an object are read back up to the closing brace. -/
theorem readFields_indented {depth : ℕ} {field : String × Json} {fields : List (String × Json)}
    (hnames : ∀ f ∈ field :: fields, Text.Proper f.1)
    (h : ∀ f ∈ field :: fields, ReadsBack depth f.2) (level : ℕ) {fuel : ℕ} (rest : List Char)
    (hfuel : (fieldChars (level + 1) field ++ indentedFields level fields).length + 1 < fuel) :
    readFields depth fuel (fieldChars (level + 1) field ++
      (indentedFields level fields ++ (lineBreak level ++ '\x7d' :: rest))) =
        .ok (field :: fields, rest) := by
  obtain ⟨fuel, rfl⟩ := Nat.exists_eq_succ_of_ne_zero (Nat.ne_zero_of_lt hfuel)
  induction fields generalizing field fuel with
  | nil =>
    rw [indentedFields, List.append_nil] at hfuel
    obtain ⟨symbols, body, source, hsymbols, hsource, hread, hvalue⟩ := exists_readText_field
      (hnames field List.mem_cons_self) (h field List.mem_cons_self) (Nat.lt_of_succ_lt_succ hfuel)
      (stops_fields level [] rest)
    rw [hsource, readFields_last hread (skipBlanks_cons (by decide) _) hvalue
      (skipBlanks_lineBreak (by decide) level rest), hsymbols]
  | cons next fields ih =>
    obtain ⟨hname, hnames⟩ := List.forall_mem_cons.1 hnames
    obtain ⟨hfield, hfields⟩ := List.forall_mem_cons.1 h
    have hlength : (fieldChars (level + 1) field).length + (fieldChars (level + 1) next ++
        indentedFields level fields).length + 1 < fuel := by
      simp only [indentedFields, fieldChars, lineBreak, List.length_append,
        List.length_cons] at hfuel ⊢
      omega
    obtain ⟨fuel, rfl⟩ : ∃ k, fuel = k + 1 := Nat.exists_eq_succ_of_ne_zero (by omega)
    have hless : (fieldChars (level + 1) field).length < fuel + 1 := by omega
    obtain ⟨symbols, body, source, hsymbols, hsource, hread, hvalue⟩ :=
      exists_readText_field hname hfield hless (stops_fields level (next :: fields) rest)
    have hmore := ih hnames hfields fuel (by omega)
    have hnext : skipBlanks (lineBreak (level + 1) ++ (fieldChars (level + 1) next ++
        (indentedFields level fields ++ (lineBreak level ++ '\x7d' :: rest)))) =
          fieldChars (level + 1) next ++
            (indentedFields level fields ++ (lineBreak level ++ '\x7d' :: rest)) := by
      rw [fieldChars, List.append_assoc, textChars_append, skipBlanks_lineBreak (by decide)]
    rw [← hnext] at hmore
    have hcomma : indentedFields level (next :: fields) ++ (lineBreak level ++ '\x7d' :: rest) =
        ',' :: (lineBreak (level + 1) ++ (fieldChars (level + 1) next ++
          (indentedFields level fields ++ (lineBreak level ++ '\x7d' :: rest)))) := by
      simp only [indentedFields, fieldChars, List.append_assoc, List.cons_append]
    rw [hcomma] at hsource hvalue ⊢
    rw [hsource, readFields_more hread (skipBlanks_cons (by decide) _) hvalue
      (skipBlanks_cons (by decide) _) hmore, hsymbols]

/-! ### Objects -/

theorem setField_of_notMem {name : String} {value : Json} {fields : List (String × Json)}
    (h : name ∉ fields.map Prod.fst) : setField name value fields = fields ++ [(name, value)] := by
  induction fields with
  | nil => rfl
  | cons field fields ih =>
    rw [List.map_cons, List.mem_cons, not_or] at h
    rw [setField, if_neg (Ne.symm h.1), ih h.2, List.cons_append]

/-- Fields of different names stay as they are. -/
theorem ofFields_of_nodup {fields : List (String × Json)} (h : (fields.map Prod.fst).Nodup) :
    ofFields fields = fields := by
  have hfold (done : List (String × Json)) (hdone : ((done ++ fields).map Prod.fst).Nodup) :
      fields.foldl (fun done field ↦ setField field.1 field.2 done) done = done ++ fields := by
    induction fields generalizing done with
    | nil => rw [List.foldl_nil, List.append_nil]
    | cons field fields ih =>
      have hfresh : field.1 ∉ done.map Prod.fst := by
        intro hmem
        rw [List.map_append, List.nodup_append] at hdone
        exact hdone.2.2 _ hmem _ (by simp) rfl
      rw [List.foldl_cons, setField_of_notMem hfresh, ih (List.nodup_cons.1 h).2, List.append_assoc]
      · rfl
      · simpa using hdone
  exact hfold [] h

/-! ### Values -/

section

variable {depth fuel : ℕ} {body source rest : List Char}

theorem readValue_list {items : List Json} (hskip : skipBlanks body = source)
    (hnonempty : source.head? ≠ some ']')
    (hread : readItems depth fuel source = .ok (items, rest)) :
    readValue (depth + 1) (fuel + 1) ('[' :: body) = .ok (.list items, rest) := by
  rw [readValue]
  dsimp only
  rw [if_neg (Nat.succ_ne_zero depth), hskip]
  split
  · exact absurd rfl hnonempty
  · change (readItems depth fuel source).bind _ = _
    rw [hread]
    rfl

theorem readValue_object {fields : List (String × Json)} (hskip : skipBlanks body = source)
    (hnonempty : source.head? ≠ some '\x7d')
    (hread : readFields depth fuel source = .ok (fields, rest)) :
    readValue (depth + 1) (fuel + 1) ('\x7b' :: body) = .ok (.object (ofFields fields), rest) := by
  rw [readValue]
  dsimp only
  rw [if_neg (Nat.succ_ne_zero depth), hskip]
  split
  · exact absurd rfl hnonempty
  · change (readFields depth fuel source).bind _ = _
    rw [hread]
    rfl

theorem readValue_text {s : String} (hs : Text.Proper s)
    (hfuel : (textChars s).length ≤ fuel + 1) :
    readValue depth (fuel + 1) (textChars s ++ rest) = .ok (.text s, rest) := by
  obtain ⟨symbols, hread, htext⟩ := readText_textChars hs hfuel
  rw [textChars_append, readValue]
  change (readText fuel _).bind _ = _
  rw [hread, ← htext]
  rfl

end

theorem indentedChars_list (level : ℕ) (item : Json) (items : List Json) (rest : List Char) :
    indentedChars level (.list (item :: items)) ++ rest =
      '[' :: (lineBreak (level + 1) ++ (indentedChars (level + 1) item ++
        (indentedItems level items ++ (lineBreak level ++ ']' :: rest)))) := by
  simp only [indentedChars, List.cons_append, List.append_assoc, List.nil_append]

theorem indentedChars_object (level : ℕ) (field : String × Json) (fields : List (String × Json))
    (rest : List Char) :
    indentedChars level (.object (field :: fields)) ++ rest =
      '\x7b' :: (lineBreak (level + 1) ++ (fieldChars (level + 1) field ++
        (indentedFields level fields ++ (lineBreak level ++ '\x7d' :: rest)))) := by
  simp only [indentedChars, fieldChars, List.cons_append, List.append_assoc, List.nil_append]

/-- A value that can be written is read back from what is written for it. -/
theorem Writable.readsBack {depth : ℕ} {v : Json} (h : Writable depth v) : ReadsBack depth v := by
  induction h with
  | null => exact .of_succ fun _ _ _ _ _ ↦ rfl
  | bool b => cases b <;> exact .of_succ fun _ _ _ _ _ ↦ rfl
  | int h => exact .of_succ fun _ fuel _ hrest _ ↦ readValue_int h _ fuel hrest
  | real x => exact .of_succ fun _ fuel _ hrest _ ↦ readValue_realChars x _ fuel hrest
  | text h => exact .of_succ fun _ _ _ _ hfuel ↦ readValue_text h (Nat.le_succ_of_le hfuel)
  | @list depth items _ ih =>
    refine .of_succ fun level fuel rest _ hfuel ↦ ?_
    rcases items with - | ⟨item, items⟩
    · rfl
    have hless : (indentedChars (level + 1) item ++ indentedItems level items).length + 1 <
        fuel := by
      simp only [indentedChars, List.length_append, List.length_cons, lineBreak] at hfuel ⊢
      omega
    have hitem := ih item List.mem_cons_self
    have hstops := stops_items level items rest
    obtain ⟨c, l, hsource, -, hne⟩ := hitem.exists_cons (level + 1) hstops
    rw [indentedChars_list]
    refine readValue_list (hitem.skipBlanks (level + 1) (level + 1) hstops) ?_
      (readItems_indented ih level rest hless)
    rw [hsource]
    exact fun h ↦ hne (Option.some.inj h)
  | @object depth fields hnodup hnames _ ih =>
    refine .of_succ fun level fuel rest _ hfuel ↦ ?_
    rcases fields with - | ⟨field, fields⟩
    · rfl
    have hless : (fieldChars (level + 1) field ++ indentedFields level fields).length + 1 <
        fuel := by
      simp only [indentedChars, fieldChars, List.length_append, List.length_cons,
        lineBreak] at hfuel ⊢
      omega
    obtain ⟨body, hsource⟩ : ∃ body, fieldChars (level + 1) field ++
        (indentedFields level fields ++ (lineBreak level ++ '\x7d' :: rest)) = '"' :: body := by
      rw [fieldChars, List.append_assoc, textChars_append]
      exact ⟨_, rfl⟩
    have hread := readFields_indented hnames ih level rest hless
    rw [indentedChars_object, ← ofFields_of_nodup hnodup]
    refine readValue_object ?_ ?_ hread
    · rw [hsource, skipBlanks_lineBreak (by decide)]
    · rw [hsource, List.head?_cons]
      decide

/-- The text of a value that can be written is the text of that value alone. -/
theorem parse_indented {depth : ℕ} {v : Json} (h : Writable depth v) :
    parse depth v.indented = .ok v := by
  have hstops : Stops [] := fun _ h ↦ absurd h (by simp)
  have hread := h.readsBack 0 ((indentedChars 0 v).length + 2) [] hstops (by omega)
  obtain ⟨c, l, hsource, hc, -⟩ := h.readsBack.exists_cons 0 hstops
  rw [List.append_nil] at hread hsource
  have hskip : skipBlanks (indentedChars 0 v) = indentedChars 0 v := by
    rw [hsource, skipBlanks_cons hc]
  rw [parse, indented, String.toList_ofList, hskip, hread]
  rfl

end Summand.Json
