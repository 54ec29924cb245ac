import Summand.Proofs.JsonTexts
import Summand.Proofs.Progress

/-!
# Values that were read

Whatever is read from a text of characters can be written and read back
(`Json.writable_of_parse`): its integers have no more digits than may be written, the names in an
object differ, lists and objects are nested no deeper than they may be, and its texts are proper,
because a half of a character comes from an escape only, and an escape takes the next one with it if
both are a pair.

Each reader is shown to keep the rest of the text intact (`Json.Yields`). The readers of values,
items and fields call each other with less fuel, so one induction on the fuel carries all three.
-/

namespace Summand

namespace Text

/-! ### Texts of characters -/

/-- The text of characters, without halves of any. -/
inductive Intact : List Char → Prop
  | nil : Intact []
  | character {c : Char} {rest : List Char} : c ≠ mark → Intact rest → Intact (c :: rest)
  | marks {rest : List Char} : Intact rest → Intact (mark :: mark :: rest)

theorem intact_ofCharacters (characters : List Char) : Intact (ofCharacters characters) := by
  induction characters with
  | nil => exact .nil
  | cons c characters ih =>
    rw [ofCharacters, List.flatMap_cons, Symbol.kept]
    split_ifs with hc
    · exact .marks ih
    · exact .character hc ih

variable {c : Char} {l source rest : List Char}

theorem Intact.of_cons (h : Intact (c :: rest)) (hc : c ≠ mark) : Intact rest := by
  cases h with
  | character _ h => exact h
  | marks _ => exact absurd rfl hc

theorem Intact.of_append (h : Intact (l ++ rest)) (hl : ∀ c ∈ l, c ≠ mark) : Intact rest := by
  induction l with
  | nil => exact h
  | cons c l ih =>
    obtain ⟨hc, hl⟩ := List.forall_mem_cons.1 hl
    exact ih (h.of_cons hc) hl

theorem Intact.dropWhile {p : Char → Bool} (h : Intact source) (hp : p mark = false) :
    Intact (source.dropWhile p) := by
  rw [← List.takeWhile_append_dropWhile (p := p) (l := source)] at h
  refine h.of_append fun c hc hmark ↦ ?_
  have := List.mem_takeWhile_imp hc
  rw [hmark, hp] at this
  exact Bool.false_ne_true this

theorem Settled.cons {s : Symbol} {ss : List Symbol} (h : Settled ss) (hs : s.Proper)
    (hapart : ∀ t ∈ ss.head?, ¬s.Completes t) : Settled (s :: ss) :=
  ⟨List.forall_mem_cons.2 ⟨hs, h.proper⟩, List.isChain_cons.2 ⟨hapart, h.apart⟩⟩

theorem Settled.character {ss : List Symbol} (h : Settled ss) (c : Char) :
    Settled (.character c :: ss) := h.cons trivial fun _ _ ↦ id

/-- The first symbol of a text of characters is one. -/
theorem Intact.next? {s : Symbol} (h : Intact source) (hnext : next? source = some (s, rest)) :
    (∃ c, s = .character c) ∧ Intact rest := by
  cases h with
  | nil => cases hnext
  | @character c source hc h =>
    rw [Json.next?_cons hc] at hnext
    cases hnext
    exact ⟨⟨c, rfl⟩, h⟩
  | @marks source h =>
    rw [Text.next?, if_pos rfl] at hnext
    cases hnext
    exact ⟨⟨mark, rfl⟩, h⟩

end Text

namespace Decimal

variable {source digits rest : List Char}

theorem eq_append_of_spanDigits (h : spanDigits source = (digits, rest)) :
    source = digits ++ rest ∧ AreDigits digits := by
  induction source generalizing digits with
  | nil =>
    cases h
    exact ⟨rfl, fun _ h ↦ absurd h List.not_mem_nil⟩
  | cons c source ih =>
    rw [spanDigits] at h
    split_ifs at h with hc
    · cases h
      obtain ⟨hsource, hdigits⟩ := ih rfl
      exact ⟨congrArg (c :: ·) hsource, List.forall_mem_cons.2 ⟨hc, hdigits⟩⟩
    · cases h
      exact ⟨rfl, fun _ h ↦ absurd h List.not_mem_nil⟩

theorem AreDigits.ne_mark (h : AreDigits digits) : ∀ c ∈ digits, c ≠ Text.mark := by
  rintro _ hc rfl
  exact absurd (h _ hc) (by decide)

theorem intact_of_spanDigits (h : Text.Intact source) (hspan : spanDigits source = (digits, rest)) :
    Text.Intact rest := by
  obtain ⟨rfl, hdigits⟩ := eq_append_of_spanDigits hspan
  exact h.of_append hdigits.ne_mark

theorem digitsValue_lt (h : AreDigits digits) : digitsValue digits < 10 ^ digits.length := by
  induction digits using List.reverseRecOn with
  | nil => exact Nat.one_pos
  | append_singleton digits c ih =>
    obtain ⟨hdigits, hc⟩ := List.forall_mem_append.1 h
    have hdigit : c.toNat - 48 < 10 := by
      have hnine : c.toNat ≤ 57 := by
        have hdigit := List.forall_mem_singleton.1 hc
        rw [Char.isDigit, Bool.and_eq_true, decide_eq_true_eq, decide_eq_true_eq] at hdigit
        exact UInt32.le_iff_toNat_le.1 hdigit.2
      omega
    have := ih hdigits
    rw [digitsValue_append, digitsValue_singleton, List.length_append, List.length_singleton,
      pow_one, pow_succ]
    omega

theorem intact_of_exponent? {power : ℤ} (h : Text.Intact source)
    (hexponent : exponent? source = some (power, rest)) : Text.Intact rest := by
  unfold exponent? at hexponent
  split at hexponent
  · next c after =>
    split_ifs at hexponent with hletter
    · have hafter : Text.Intact after := h.of_cons (by
        rintro rfl
        exact absurd hletter (by decide))
      have hsigned : Text.Intact (splitSign after).2 := by
        unfold splitSign
        split
        · exact hafter.of_cons (by decide)
        · exact hafter.of_cons (by decide)
        · exact hafter
      change (if (spanDigits (splitSign after).2).1.isEmpty then none else
        some (if (splitSign after).1 then _ else _, (spanDigits (splitSign after).2).2)) = _
          at hexponent
      split_ifs at hexponent
      all_goals
        cases hexponent
        exact intact_of_spanDigits hsigned rfl
  · cases hexponent

/-- The whole part of a number is digits. -/
theorem eq_append_of_wholePart (h : wholePart source = (digits, rest)) :
    source = digits ++ rest ∧ AreDigits digits := by
  unfold wholePart at h
  split at h
  · cases h
    exact ⟨rfl, areDigits_replicate 1⟩
  · exact eq_append_of_spanDigits h

end Decimal

namespace Json

open Text (Intact Settled Symbol isHighHalf isLowHalf)

/-- What is read from a text of characters has a property, and characters are left. -/
def Yields {α : Type} (P : α → Prop) (read : List Char → Except Fault (α × List Char)) : Prop :=
  ∀ source a rest, Intact source → read source = .ok (a, rest) → P a ∧ Intact rest

theorem intact_skipBlanks {source : List Char} (h : Intact source) : Intact (skipBlanks source) :=
  h.dropWhile (by decide)

/-! ### Numbers -/

theorem intact_of_fraction? {source digits rest : List Char} (h : Intact source)
    (hfraction : fraction? source = some (digits, rest)) : Intact rest := by
  unfold fraction? at hfraction
  split at hfraction
  · next after =>
    change (if (Decimal.spanDigits after).1.isEmpty then none else
      some (Decimal.spanDigits after)) = _ at hfraction
    split_ifs at hfraction
    exact Decimal.intact_of_spanDigits (h.of_cons (by decide)) (Option.some.inj hfraction)
  · cases hfraction

theorem yields_readNumber (depth : ℕ) (negative : Bool) :
    Yields (Writable depth) (readNumber negative) := by
  intro source v rest h hread
  rw [Decimal.readNumber_eq, Decimal.afterWhole] at hread
  rcases hwhole : Decimal.wholePart source with ⟨digits, tail⟩
  obtain ⟨rfl, hdigits⟩ := Decimal.eq_append_of_wholePart hwhole
  have htail := h.of_append hdigits.ne_mark
  rw [hwhole] at hread
  dsimp only at hread
  have hafter : Intact (((fraction? tail).map Prod.snd).getD tail) := by
    rcases hfraction : fraction? tail with - | ⟨places, after⟩
    · exact htail
    · exact intact_of_fraction? htail hfraction
  generalize ((fraction? tail).map Prod.snd).getD tail = after at hread hafter
  have hend : Intact ((Decimal.exponent? after).getD (0, after)).2 := by
    rcases hexponent : Decimal.exponent? after with - | ⟨power, rest⟩
    · exact hafter
    · exact Decimal.intact_of_exponent? hafter hexponent
  have hsmall (hlimit : ¬Text.digitLimit < digits.length) :
      Decimal.digitsValue digits < 10 ^ Text.digitLimit :=
    (Decimal.digitsValue_lt hdigits).trans_le
      (Nat.pow_le_pow_right (by decide) (not_lt.1 hlimit))
  split_ifs at hread with hempty hinteger hlimit hnegative
  · cases hread
    refine ⟨.int ?_, htail⟩
    rw [Int.natAbs_neg, Int.natAbs_natCast]
    exact hsmall hlimit
  · cases hread
    refine ⟨.int ?_, htail⟩
    rw [Int.natAbs_natCast]
    exact hsmall hlimit
  · cases hread
    exact ⟨.real _, hend⟩

/-! ### Texts -/

theorem ne_mark_of_hexValue? {c : Char} {k : ℕ} (h : hexValue? c = some k) : c ≠ Text.mark := by
  rintro rfl
  have hmark : hexValue? Text.mark = none := by decide
  rw [hmark] at h
  cases h

theorem intact_of_unit? {source rest : List Char} {unit : ℕ} (h : Intact source)
    (hunit : unit? source = some (unit, rest)) : Intact rest := by
  unfold unit? at hunit
  split at hunit
  · next a b c d after =>
    obtain ⟨_, ha, hunit⟩ := Option.bind_eq_some_iff.1 hunit
    obtain ⟨_, hb, hunit⟩ := Option.bind_eq_some_iff.1 hunit
    obtain ⟨_, hc, hunit⟩ := Option.bind_eq_some_iff.1 hunit
    obtain ⟨_, hd, hunit⟩ := Option.bind_eq_some_iff.1 hunit
    cases hunit
    exact (((h.of_cons (ne_mark_of_hexValue? ha)).of_cons (ne_mark_of_hexValue? hb)).of_cons
      (ne_mark_of_hexValue? hc)).of_cons (ne_mark_of_hexValue? hd)
  · cases hunit

theorem intact_of_escapedUnit? {source rest : List Char} {unit : ℕ} (h : Intact source)
    (hunit : escapedUnit? source = some (unit, rest)) : Intact rest := by
  unfold escapedUnit? at hunit
  split at hunit
  · exact intact_of_unit? ((h.of_cons (by decide)).of_cons (by decide)) hunit
  · cases hunit

theorem proper_ofUnit (unit : ℕ) : (Symbol.ofUnit unit).Proper := by
  rw [Symbol.ofUnit]
  split_ifs with hhalf
  · exact Bool.or_eq_true_iff.1 hhalf
  · trivial

/-- What an escape denotes. -/
structure Escape (unit : ℕ) (source : List Char) (s : Symbol) (rest : List Char) : Prop where
  proper : s.Proper
  unit_eq : ∀ {u}, s = .half u → unit = u
  intact : Intact source → Intact rest
  /-- A half is left without a partner, so no escape of its partner follows. -/
  apart : ∀ {next after}, escapedUnit? rest = some (next, after) → ¬s.Completes (.half next)

theorem eq_of_ofUnit_eq_half {unit u : ℕ} (h : Symbol.ofUnit unit = .half u) : unit = u := by
  rw [Symbol.ofUnit] at h
  split_ifs at h
  exact Symbol.half.inj h

theorem escape_joinEscapes {unit : ℕ} {source rest : List Char} {s : Symbol}
    (h : joinEscapes unit source = (s, rest)) : Escape unit source s rest := by
  unfold joinEscapes at h
  split at h
  · next next after hnext =>
    split_ifs at h with hpair
    · cases h
      exact ⟨trivial, fun h ↦ absurd h (by simp),
        fun hsource ↦ intact_of_escapedUnit? hsource hnext, fun _ h ↦ h⟩
    · cases h
      refine ⟨proper_ofUnit unit, eq_of_ofUnit_eq_half, id, fun hescaped hcompletes ↦ ?_⟩
      rw [hnext] at hescaped
      cases hescaped
      rcases hunit : Symbol.ofUnit unit with c | u
      · rw [hunit] at hcompletes
        exact hcompletes
      · rw [hunit, ← eq_of_ofUnit_eq_half hunit] at hcompletes
        exact hpair (Bool.and_eq_true_iff.2 hcompletes)
  · next hnone =>
    cases h
    refine ⟨proper_ofUnit unit, eq_of_ofUnit_eq_half, id, fun hescaped ↦ ?_⟩
    rw [hnone] at hescaped
    cases hescaped

/-- A text is settled, and begins with a half only if its source begins with the escape of that
half. -/
theorem settled_of_readText {fuel : ℕ} {source rest : List Char} {symbols : List Symbol}
    (h : Intact source) (hread : readText fuel source = .ok (symbols, rest)) :
    Settled symbols ∧ Intact rest ∧ ∀ unit, symbols.head? = some (.half unit) →
      ∃ after, escapedUnit? source = some (unit, after) := by
  fun_induction readText fuel source generalizing symbols
  case case2 fuel rest =>
    cases hread
    exact ⟨⟨fun _ h ↦ absurd h List.not_mem_nil, .nil⟩, h.of_cons (by decide),
      fun _ h ↦ absurd h (by simp)⟩
  case case4 fuel source unit after hunit s tail hjoin ih =>
    obtain ⟨⟨ss, r⟩, hrest, heq⟩ := map_eq_ok_iff.1 hread
    cases heq
    have hescape := escape_joinEscapes hjoin
    have hsource := (h.of_cons (by decide)).of_cons (by decide)
    obtain ⟨hsettled, hintact, hhead⟩ := ih (hescape.intact (intact_of_unit? hsource hunit)) hrest
    refine ⟨hsettled.cons hescape.proper fun t ht hcompletes ↦ ?_, hintact, fun u hu ↦ ?_⟩
    · obtain ⟨low, rfl⟩ : ∃ low, t = .half low := by
        cases s <;> cases t <;> first | exact ⟨_, rfl⟩ | exact hcompletes.elim
      obtain ⟨_, hescaped⟩ := hhead low ht
      exact hescape.apart hescaped hcompletes
    · obtain rfl := hescape.unit_eq (Option.some.inj hu)
      exact ⟨after, hunit⟩
  case case6 fuel c source hc e he ih =>
    obtain ⟨⟨ss, r⟩, hrest, heq⟩ := map_eq_ok_iff.1 hread
    cases heq
    have hmark : c ≠ Text.mark := by
      rintro rfl
      have hnone : escaped? Text.mark = none := by decide
      rw [hnone] at he
      cases he
    obtain ⟨hsettled, hintact, -⟩ := ih ((h.of_cons (by decide)).of_cons hmark) hrest
    exact ⟨hsettled.character e, hintact, fun _ h ↦ absurd h (by simp)⟩
  case case9 fuel source _ _ _ s after hnext _ ih =>
    obtain ⟨⟨ss, r⟩, hrest, heq⟩ := map_eq_ok_iff.1 hread
    cases heq
    obtain ⟨⟨c, rfl⟩, hafter⟩ := h.next? hnext
    obtain ⟨hsettled, hintact, -⟩ := ih hafter hrest
    exact ⟨hsettled.character c, hintact, fun _ h ↦ absurd h (by simp)⟩
  all_goals cases hread

theorem yields_readText (fuel : ℕ) :
    Yields (fun symbols ↦ Text.Proper (textOf symbols)) (readText fuel) := by
  intro source symbols rest h hread
  obtain ⟨hsettled, hrest, -⟩ := settled_of_readText h hread
  exact ⟨⟨symbols, hsettled, String.toList_ofList⟩, hrest⟩

/-! ### Objects -/

section

variable {name : String} {value : Json} {field : String × Json} {fields : List (String × Json)}

theorem mem_setField (h : field ∈ setField name value fields) :
    field = (name, value) ∨ field ∈ fields := by
  induction fields with
  | nil => exact .inl (List.mem_singleton.1 h)
  | cons first fields ih =>
    rw [setField] at h
    split_ifs at h with hname
    · rw [hname] at h
      exact (List.mem_cons.1 h).imp_right (List.mem_cons_of_mem first)
    · rcases List.mem_cons.1 h with rfl | h
      · exact .inr List.mem_cons_self
      · exact (ih h).imp_right (List.mem_cons_of_mem first)

theorem nodup_setField (h : (fields.map Prod.fst).Nodup) :
    ((setField name value fields).map Prod.fst).Nodup := by
  induction fields with
  | nil => exact List.nodup_singleton name
  | cons first fields ih =>
    obtain ⟨hfirst, hfields⟩ := List.nodup_cons.1 h
    rw [setField]
    split_ifs with hname
    · exact h
    · refine List.nodup_cons.2 ⟨fun hmem ↦ ?_, ih hfields⟩
      obtain ⟨field, hfield, heq⟩ := List.mem_map.1 hmem
      rcases mem_setField hfield with rfl | hfield
      · exact hname heq.symm
      · exact hfirst (List.mem_map.2 ⟨field, hfield, heq⟩)

/-- The fields that are kept have different names and are among those given. -/
theorem ofFields_spec (fields : List (String × Json)) :
    ((ofFields fields).map Prod.fst).Nodup ∧ ∀ field ∈ ofFields fields, field ∈ fields := by
  induction fields using List.reverseRecOn with
  | nil => exact ⟨List.nodup_nil, fun _ h ↦ h⟩
  | append_singleton fields last ih =>
    rw [ofFields, List.foldl_append, List.foldl_cons, List.foldl_nil]
    refine ⟨nodup_setField ih.1, fun field hfield ↦ ?_⟩
    rcases mem_setField hfield with rfl | hfield
    · exact List.mem_append_right fields List.mem_cons_self
    · exact List.mem_append_left _ (ih.2 field hfield)

end

/-! ### Values -/

theorem yields_named? {source rest : List Char} {v : Json} (h : Intact source)
    (hnamed : named? source = some (v, rest)) (depth : ℕ) : Writable depth v ∧ Intact rest := by
  obtain ⟨entry, hentry, hfound⟩ := Option.map_eq_some_iff.1 hnamed
  cases hfound
  have hwritable : ∀ entry ∈ names, Writable depth entry.2 := by
    simp only [names, List.forall_mem_cons]
    exact ⟨.null, .bool true, .bool false, .real _, .real _, .real _,
      fun _ h ↦ absurd h List.not_mem_nil⟩
  have hmarks : ∀ entry ∈ names, ∀ c ∈ entry.1, c.toNat < 0x10FFFF := by simp [names]
  have hmem := List.mem_of_find?_eq_some hentry
  obtain ⟨tail, rfl⟩ : entry.1 <+: source :=
    List.isPrefixOf_iff_prefix.1 (by simpa using List.find?_some hentry)
  rw [List.drop_left]
  exact ⟨hwritable entry hmem, h.of_append fun c hc ↦ ne_mark_of_lt (hmarks entry hmem c hc)⟩

variable {depth fuel : ℕ}

theorem yields_readValue (hitems : ∀ depth, Yields (∀ item ∈ ·, Writable depth item)
      (readItems depth fuel))
    (hfields : ∀ depth, Yields (∀ field ∈ ·, Text.Proper field.1 ∧ Writable depth field.2)
      (readFields depth fuel)) :
    Yields (Writable depth) (readValue depth (fuel + 1)) := by
  intro source v rest h hread
  unfold readValue at hread
  split at hread
  · next body =>
    obtain ⟨⟨symbols, tail⟩, htext, hread⟩ := bind_eq_ok_iff.1 hread
    cases hread
    obtain ⟨hproper, htail⟩ := yields_readText fuel _ _ _ (h.of_cons (by decide)) htext
    exact ⟨.text hproper, htail⟩
  · next body =>
    have hbody := intact_skipBlanks (h.of_cons (by decide))
    split_ifs at hread with hdepth
    obtain ⟨depth, rfl⟩ := Nat.exists_eq_succ_of_ne_zero hdepth
    split at hread
    · next heq =>
      cases hread
      rw [heq] at hbody
      exact ⟨.list fun _ h ↦ absurd h List.not_mem_nil, hbody.of_cons (by decide)⟩
    · obtain ⟨⟨items, tail⟩, hmore, hread⟩ := bind_eq_ok_iff.1 hread
      cases hread
      obtain ⟨hwritable, htail⟩ := hitems depth _ _ _ hbody hmore
      exact ⟨.list hwritable, htail⟩
  · next body =>
    have hbody := intact_skipBlanks (h.of_cons (by decide))
    split_ifs at hread with hdepth
    obtain ⟨depth, rfl⟩ := Nat.exists_eq_succ_of_ne_zero hdepth
    split at hread
    · next heq =>
      cases hread
      rw [heq] at hbody
      exact ⟨.object List.nodup_nil (fun _ h ↦ absurd h List.not_mem_nil)
        (fun _ h ↦ absurd h List.not_mem_nil), hbody.of_cons (by decide)⟩
    · obtain ⟨⟨fields, tail⟩, hmore, hread⟩ := bind_eq_ok_iff.1 hread
      cases hread
      obtain ⟨hwritable, htail⟩ := hfields depth _ _ _ hbody hmore
      obtain ⟨hnodup, hmem⟩ := ofFields_spec fields
      exact ⟨.object hnodup (fun field h ↦ (hwritable field (hmem field h)).1)
        (fun field h ↦ (hwritable field (hmem field h)).2), htail⟩
  · split at hread
    · next found hnamed =>
      cases hread
      exact yields_named? h hnamed depth
    · split at hread
      · exact yields_readNumber depth true _ _ _ (h.of_cons (by decide)) hread
      · exact yields_readNumber depth false _ _ _ h hread

theorem yields_readItems (hvalue : Yields (Writable depth) (readValue depth fuel))
    (hitems : Yields (∀ item ∈ ·, Writable depth item) (readItems depth fuel)) :
    Yields (∀ item ∈ ·, Writable depth item) (readItems depth (fuel + 1)) := by
  intro source items rest h hread
  unfold readItems at hread
  obtain ⟨⟨item, tail⟩, hitem, hread⟩ := bind_eq_ok_iff.1 hread
  obtain ⟨hwritable, htail⟩ := hvalue _ _ _ h hitem
  have hblanks := intact_skipBlanks htail
  dsimp only at hread
  split at hread
  · next heq =>
    cases hread
    rw [heq] at hblanks
    exact ⟨List.forall_mem_singleton.2 hwritable, hblanks.of_cons (by decide)⟩
  · next heq =>
    obtain ⟨⟨more, tail⟩, hmore, hread⟩ := bind_eq_ok_iff.1 hread
    cases hread
    rw [heq] at hblanks
    obtain ⟨hmore, hend⟩ :=
      hitems _ _ _ (intact_skipBlanks (hblanks.of_cons (by decide))) hmore
    exact ⟨List.forall_mem_cons.2 ⟨hwritable, hmore⟩, hend⟩
  · cases hread

theorem yields_readFields (hvalue : Yields (Writable depth) (readValue depth fuel))
    (hfields : Yields (∀ field ∈ ·, Text.Proper field.1 ∧ Writable depth field.2)
      (readFields depth fuel)) :
    Yields (∀ field ∈ ·, Text.Proper field.1 ∧ Writable depth field.2)
      (readFields depth (fuel + 1)) := by
  intro source fields rest h hread
  unfold readFields at hread
  split at hread
  · next body =>
    obtain ⟨⟨symbols, afterName⟩, hname, hread⟩ := bind_eq_ok_iff.1 hread
    obtain ⟨hproper, hafter⟩ := yields_readText fuel _ _ _ (h.of_cons (by decide)) hname
    have hcolon := intact_skipBlanks hafter
    dsimp only at hread
    split at hread
    · next heq =>
      rw [heq] at hcolon
      obtain ⟨⟨item, tail⟩, hitem, hread⟩ := bind_eq_ok_iff.1 hread
      obtain ⟨hwritable, htail⟩ :=
        hvalue _ _ _ (intact_skipBlanks (hcolon.of_cons (by decide))) hitem
      have hblanks := intact_skipBlanks htail
      dsimp only at hread
      split at hread
      · next heq =>
        cases hread
        rw [heq] at hblanks
        exact ⟨List.forall_mem_singleton.2 ⟨hproper, hwritable⟩, hblanks.of_cons (by decide)⟩
      · next heq =>
        obtain ⟨⟨more, tail⟩, hmore, hread⟩ := bind_eq_ok_iff.1 hread
        cases hread
        rw [heq] at hblanks
        obtain ⟨hmore, hend⟩ :=
          hfields _ _ _ (intact_skipBlanks (hblanks.of_cons (by decide))) hmore
        exact ⟨List.forall_mem_cons.2 ⟨⟨hproper, hwritable⟩, hmore⟩, hend⟩
      · cases hread
    · cases hread
  · cases hread

/-- Whatever is read can be written. -/
theorem writable_of_readValue (fuel depth : ℕ) :
    Yields (Writable depth) (readValue depth fuel) := by
  have hall (depth : ℕ) : Yields (Writable depth) (readValue depth fuel) ∧
      Yields (∀ item ∈ ·, Writable depth item) (readItems depth fuel) ∧
      Yields (∀ field ∈ ·, Text.Proper field.1 ∧ Writable depth field.2)
        (readFields depth fuel) := by
    induction fuel generalizing depth with
    | zero => refine ⟨?_, ?_, ?_⟩ <;> rintro _ _ _ _ ⟨⟩
    | succ fuel ih =>
      exact ⟨yields_readValue (fun depth ↦ (ih depth).2.1) (fun depth ↦ (ih depth).2.2),
        yields_readItems (ih depth).1 (ih depth).2.1,
        yields_readFields (ih depth).1 (ih depth).2.2⟩
  exact (hall depth).1

/-- What a text of characters denotes can be written. -/
theorem writable_of_parse {depth : ℕ} {characters : List Char} {v : Json}
    (h : parse depth (String.ofList (Text.ofCharacters characters)) = .ok v) :
    Writable depth v := by
  rw [parse, String.toList_ofList] at h
  obtain ⟨⟨value, rest⟩, hread, h⟩ := bind_eq_ok_iff.1 h
  have hsource := intact_skipBlanks (Text.intact_ofCharacters characters)
  dsimp only at h
  split at h
  · cases h
    exact (writable_of_readValue _ depth _ _ _ hsource hread).1
  · cases h

end Json

end Summand
