import Summand.Json.Parser
import Summand.Json.Printer
import Mathlib.Data.List.Chain
import Mathlib.Tactic.IntervalCases

/-!
# Escaped texts

A text is written in ASCII, each of its sixteen-bit units by itself or by an escape, and reads back
as the same text (`Json.readText_textChars`), whatever characters and halves of characters it holds:
quotes, backslashes and control characters are escaped, and a character beyond the first plane is
written as two escapes, which are read as one character again. The one condition is that no half is
followed by the one that would complete it, as those two are read as the character that they form
(`Text.Proper`).
-/

namespace Summand

namespace Text

/-! ### Proper texts -/

/-- Whether two symbols are the halves of one character. -/
def Symbol.Completes : Symbol → Symbol → Prop
  | .half high, .half low => isHighHalf high = true ∧ isLowHalf low = true
  | _, _ => False

/-- A half of a character is one of those that there are. -/
def Symbol.Proper : Symbol → Prop
  | .character _ => True
  | .half unit => isHighHalf unit = true ∨ isLowHalf unit = true

/-- Symbols that a sequence of units stands for. -/
structure Settled (symbols : List Symbol) : Prop where
  proper : ∀ s ∈ symbols, s.Proper
  apart : symbols.IsChain fun s t ↦ ¬s.Completes t

/-- A text that a sequence of units stands for. -/
def Proper (text : String) : Prop := ∃ symbols, Settled symbols ∧ text.toList = ofSymbols symbols

theorem Settled.tail {s : Symbol} {rest : List Symbol} (h : Settled (s :: rest)) : Settled rest :=
  ⟨fun t ht ↦ h.proper t (List.mem_cons_of_mem s ht), h.apart.tail⟩

/-- Characters alone are settled. -/
theorem settled_characters (characters : List Char) : Settled (characters.map .character) := by
  refine ⟨fun s hs ↦ ?_, ?_⟩
  · obtain ⟨c, -, rfl⟩ := List.mem_map.1 hs
    trivial
  · rw [List.isChain_map]
    exact (List.pairwise_of_forall fun _ _ ↦ not_false).isChain

/-! ### Symbols of a text -/

theorem symbols_cons {c : Char} (hc : c ≠ mark) (rest : List Char) :
    symbols (c :: rest) = .character c :: symbols rest := by
  cases rest with
  | nil => rfl
  | cons d rest => rw [symbols, if_neg hc]

theorem symbols_mark (d : Char) (rest : List Char) :
    symbols (mark :: d :: rest) = .marked d :: symbols rest := by
  rw [symbols, if_pos rfl]

theorem toNat_ofNat_of_isValidChar {n : Nat} (h : n.isValidChar) : (Char.ofNat n).toNat = n := by
  rw [Char.ofNat, dif_pos h]
  rfl

theorem symbols_kept {s : Symbol} (hs : s.Proper) (rest : List Char) :
    symbols (s.kept ++ rest) = s :: symbols rest := by
  cases s with
  | character c =>
    rw [Symbol.kept]
    split_ifs with hc
    · rw [hc]
      exact symbols_mark mark rest
    · exact symbols_cons hc rest
  | half unit =>
    have hbounds : 0xD800 ≤ unit ∧ unit < 0xE000 := by
      simp only [Symbol.Proper, isHighHalf, isLowHalf, Bool.and_eq_true, decide_eq_true_eq] at hs
      omega
    have hvalid : (firstPrivate + (unit - 0xD800)).isValidChar := by
      rw [firstPrivate]
      exact .inr (by omega)
    have htoNat : (Char.ofNat (firstPrivate + (unit - 0xD800))).toNat =
        firstPrivate + (unit - 0xD800) := toNat_ofNat_of_isValidChar hvalid
    rw [Symbol.kept, List.cons_append, List.singleton_append, symbols_mark, Symbol.marked, htoNat,
      if_pos (by simp; omega), Nat.add_sub_cancel_left, Nat.add_sub_cancel' hbounds.1]

theorem symbols_ofSymbols {ss : List Symbol} (h : ∀ s ∈ ss, s.Proper) :
    symbols (ofSymbols ss) = ss := by
  induction ss with
  | nil => rfl
  | cons s ss ih =>
    obtain ⟨hs, hss⟩ := List.forall_mem_cons.1 h
    rw [ofSymbols, List.flatMap_cons, symbols_kept hs]
    exact congrArg _ (ih hss)

/-- The text of characters is proper. -/
theorem proper_ofCharacters (characters : List Char) :
    Proper (String.ofList (ofCharacters characters)) := by
  refine ⟨characters.map .character, settled_characters characters, ?_⟩
  rw [String.toList_ofList, ofCharacters, ofSymbols, List.flatMap_map]

/-- A text without the mark is that of its characters. -/
theorem proper_of_forall_ne_mark {text : String} (h : ∀ c ∈ text.toList, c ≠ mark) :
    Proper text := by
  have hkept : ofCharacters text.toList = text.toList := by
    generalize text.toList = l at h
    induction l with
    | nil => rfl
    | cons c l ih =>
      obtain ⟨hc, hl⟩ := List.forall_mem_cons.1 h
      rw [ofCharacters, List.flatMap_cons, Symbol.kept, if_neg hc, List.singleton_append]
      exact congrArg (c :: ·) (ih hl)
  rw [← String.ofList_toList (s := text), ← hkept]
  exact proper_ofCharacters text.toList

/-! ### Units -/

/-- The symbols that a sequence of units is read as, two halves of one character as that. -/
def joined : List Nat → List Symbol
  | [] => []
  | [unit] => [.ofUnit unit]
  | unit :: next :: rest =>
    if isHighHalf unit && isLowHalf next then .character (pairChar unit next) :: joined rest
    else .ofUnit unit :: joined (next :: rest)

theorem joined_cons {unit : Nat} {rest : List Nat}
    (h : isHighHalf unit = true → ∀ next ∈ rest.head?, isLowHalf next = false) :
    joined (unit :: rest) = .ofUnit unit :: joined rest := by
  cases rest with
  | nil => rfl
  | cons next rest =>
    rw [joined, if_neg]
    rw [Bool.and_eq_true]
    exact fun hpair ↦ Bool.false_ne_true ((h hpair.1 next rfl).symm.trans hpair.2)

/-- The code of a character is no half. -/
theorem isHalf_toNat (c : Char) : isHighHalf c.toNat = false ∧ isLowHalf c.toNat = false := by
  have hvalid : c.toNat < 0xD800 ∨ 0xDFFF < c.toNat ∧ c.toNat < 0x110000 := c.valid
  simp only [isHighHalf, isLowHalf, Bool.and_eq_false_iff, decide_eq_false_iff_not]
  omega

theorem ofUnit_toNat (c : Char) : Symbol.ofUnit c.toNat = .character c := by
  rw [Symbol.ofUnit, (isHalf_toNat c).1, (isHalf_toNat c).2, Char.ofNat_toNat]
  rfl

/-- A character beyond the first plane is a pair of halves. -/
theorem charUnits_of_le {c : Char} (hc : 0x10000 ≤ c.toNat) :
    ∃ high low, charUnits c = [high, low] ∧ isHighHalf high = true ∧ isLowHalf low = true ∧
      pairChar high low = c := by
  have hvalid : c.toNat < 0xD800 ∨ 0xDFFF < c.toNat ∧ c.toNat < 0x110000 := c.valid
  refine ⟨_, _, if_neg (by omega), ?_, ?_, ?_⟩
  · simp only [isHighHalf, Bool.and_eq_true, decide_eq_true_eq]
    omega
  · simp only [isLowHalf, Bool.and_eq_true, decide_eq_true_eq]
    omega
  · rw [pairChar, show 0x10000 + (0xD800 + (c.toNat - 0x10000) / 0x400 - 0xD800) * 0x400 +
      (0xDC00 + (c.toNat - 0x10000) % 0x400 - 0xDC00) = c.toNat by omega, Char.ofNat_toNat]

theorem charUnits_of_lt {c : Char} (hc : c.toNat < 0x10000) : charUnits c = [c.toNat] := if_pos hc

/-- Units begin with a low half only if the symbols do. -/
theorem exists_half_of_head? {ss : List Symbol} {unit : Nat}
    (h : (ss.flatMap Symbol.units).head? = some unit) (hlow : isLowHalf unit = true) :
    ∃ rest, ss = .half unit :: rest := by
  cases ss with
  | nil => cases h
  | cons s rest =>
    rw [List.flatMap_cons] at h
    cases s with
    | half u =>
      obtain rfl : u = unit := Option.some.inj h
      exact ⟨rest, rfl⟩
    | character c =>
      rw [Symbol.units] at h
      rcases Nat.lt_or_ge c.toNat 0x10000 with hc | hc
      · rw [charUnits_of_lt hc] at h
        obtain rfl : c.toNat = unit := Option.some.inj h
        exact absurd hlow (Bool.eq_false_iff.1 (isHalf_toNat c).2)
      · obtain ⟨high, low, hunits, hhigh, -⟩ := charUnits_of_le hc
        rw [hunits] at h
        obtain rfl : high = unit := Option.some.inj h
        simp only [isHighHalf, isLowHalf, Bool.and_eq_true, decide_eq_true_eq] at hhigh hlow
        omega

/-- The units of a settled sequence are read as that sequence. -/
theorem joined_units {ss : List Symbol} (h : Settled ss) :
    joined (ss.flatMap Symbol.units) = ss := by
  induction ss with
  | nil => rfl
  | cons s ss ih =>
    rw [List.flatMap_cons]
    cases s with
    | character c =>
      rw [Symbol.units]
      rcases Nat.lt_or_ge c.toNat 0x10000 with hc | hc
      · rw [charUnits_of_lt hc, List.singleton_append, joined_cons, ofUnit_toNat, ih h.tail]
        exact fun hhigh ↦ absurd hhigh (Bool.eq_false_iff.1 (isHalf_toNat c).1)
      · obtain ⟨high, low, hunits, hhigh, hlow, hpair⟩ := charUnits_of_le hc
        rw [hunits, List.cons_append, List.singleton_append, joined, hhigh, hlow, hpair, ih h.tail]
        rfl
    | half unit =>
      have hhalf : Symbol.ofUnit unit = .half unit := by
        have hproper : isHighHalf unit = true ∨ isLowHalf unit = true :=
          h.proper _ List.mem_cons_self
        rw [Symbol.ofUnit, if_pos (Bool.or_eq_true _ _ ▸ hproper)]
      rw [Symbol.units, List.singleton_append, joined_cons, hhalf, ih h.tail]
      intro hhigh next hnext
      by_contra hlow
      rw [Bool.not_eq_false] at hlow
      obtain ⟨rest, rfl⟩ := exists_half_of_head? hnext hlow
      exact (List.isChain_cons_cons.1 h.apart).1 ⟨hhigh, hlow⟩

/-- The units of a settled text are those of its symbols. -/
theorem Settled.units_ofSymbols {ss : List Symbol} (h : Settled ss) :
    units (ofSymbols ss) = ss.flatMap Symbol.units := by
  rw [units, symbols_ofSymbols h.proper]

end Text

namespace Json

open Text (Symbol Settled joined isHighHalf isLowHalf)

/-! ### Escapes -/

theorem hexValue?_digitChar {k : Nat} (h : k < 16) : hexValue? (Nat.digitChar k) = some k := by
  interval_cases k <;> rfl

/-- Four hexadecimal digits are read back. -/
theorem unit?_hexadecimal {unit : Nat} (h : unit < 0x10000) (rest : List Char) :
    unit? (Text.hexadecimal 4 unit ++ rest) = some (unit, rest) := by
  have hdigits : Text.hexadecimal 4 unit = [Nat.digitChar (unit / 16 ^ 3 % 16),
      Nat.digitChar (unit / 16 ^ 2 % 16), Nat.digitChar (unit / 16 ^ 1 % 16),
      Nat.digitChar (unit / 16 ^ 0 % 16)] := rfl
  have hmod (n : Nat) : n % 16 < 16 := Nat.mod_lt n (by omega)
  rw [hdigits, List.cons_append, List.cons_append, List.cons_append, List.cons_append,
    List.nil_append, unit?]
  simp only [hexValue?_digitChar (hmod _), Option.bind_eq_bind, Option.bind_some, Option.pure_def]
  congr 2
  omega

/-- The three ways to write a unit. -/
inductive Written (unit : Nat) : List Char → Prop
  | letter {c : Char} : c ≠ 'u' → escaped? c = some (Char.ofNat unit) → unit < 128 →
      Written unit ['\\', c]
  | plain {c : Char} : c.toNat = unit → c ≠ '"' → c ≠ '\\' → 32 ≤ unit → unit < 128 →
      Written unit [c]
  | escape : Written unit ('\\' :: 'u' :: Text.hexadecimal 4 unit)

theorem written_escapeUnit (unit : Nat) : Written unit (escapeUnit unit) := by
  unfold escapeUnit
  split
  case h_8 hquote hbackslash _ _ _ _ _ =>
    split_ifs with hprintable
    · have hbounds : 32 ≤ unit ∧ unit ≤ 126 := by simpa using hprintable
      have htoNat : (Char.ofNat unit).toNat = unit :=
        Text.toNat_ofNat_of_isValidChar (.inl (by omega))
      refine .plain htoNat (fun hc ↦ hquote ?_) (fun hc ↦ hbackslash ?_) hbounds.1 (by omega)
      · rw [← htoNat, hc]
        rfl
      · rw [← htoNat, hc]
        rfl
    · exact .escape
  all_goals exact .letter (by decide) rfl (by decide)

variable {unit fuel : Nat} {rest : List Char}

theorem ofUnit_of_lt (h : unit < 128) : Symbol.ofUnit unit = .character (Char.ofNat unit) := by
  rw [Symbol.ofUnit, if_neg]
  simp only [isHighHalf, isLowHalf, Bool.or_eq_true, Bool.and_eq_true, decide_eq_true_eq]
  omega

theorem ne_mark_of_lt {c : Char} (h : c.toNat < 0x10FFFF) : c ≠ Text.mark := by
  rintro rfl
  exact absurd h (by decide)

theorem next?_cons {c : Char} (hc : c ≠ Text.mark) (rest : List Char) :
    Text.next? (c :: rest) = some (.character c, rest) := by
  cases rest with
  | nil => rfl
  | cons d rest => rw [Text.next?, if_neg hc]

/-- A unit is read by itself, unless an escape after it completes a character. -/
theorem readText_escapeUnit (h : unit < 0x10000)
    (hjoin : joinEscapes unit rest = (.ofUnit unit, rest)) :
    readText (fuel + 1) (escapeUnit unit ++ rest) =
      (readText fuel rest).map fun (s, r) ↦ (.ofUnit unit :: s, r) := by
  have hwritten := written_escapeUnit unit
  generalize escapeUnit unit = l at hwritten
  cases hwritten with
  | @letter c hc hescaped hlt =>
    rw [ofUnit_of_lt hlt, List.cons_append, List.singleton_append, readText, hescaped]
    exact hc
  | @plain c hc hquote hbackslash hlow hlt =>
    have hcontrol : (Symbol.character c).isControl = false := by
      simp [Symbol.isControl, Symbol.char?, hc]
      omega
    rw [ofUnit_of_lt hlt, ← hc, Char.ofNat_toNat, List.singleton_append, readText,
      next?_cons (ne_mark_of_lt (by omega))]
    · dsimp only
      rw [hcontrol]
      rfl
    · exact fun _ h ↦ hquote (List.cons.inj h).1
    · exact fun _ h ↦ hbackslash (List.cons.inj h).1
    · exact fun _ _ h ↦ hbackslash (List.cons.inj h).1
  | escape =>
    rw [List.cons_append, List.cons_append, readText, unit?_hexadecimal h]
    dsimp only
    rw [hjoin]

/-- A written unit is looked at as an escape if it is one of four digits. -/
theorem escapedUnit?_escapeUnit (h : unit < 0x10000) (rest : List Char) :
    escapedUnit? (escapeUnit unit ++ rest) = none ∨
      escapedUnit? (escapeUnit unit ++ rest) = some (unit, rest) := by
  have hwritten := written_escapeUnit unit
  generalize escapeUnit unit = l at hwritten
  cases hwritten with
  | @letter c hc _ _ =>
    refine .inl ?_
    rw [List.cons_append, List.singleton_append, escapedUnit?]
    exact fun _ h ↦ hc (List.cons.inj (List.cons.inj h).2).1
  | @plain c _ _ hbackslash _ _ =>
    refine .inl ?_
    rw [List.singleton_append, escapedUnit?]
    exact fun _ h ↦ hbackslash (List.cons.inj h).1
  | escape =>
    refine .inr ?_
    rw [List.cons_append, List.cons_append, escapedUnit?, unit?_hexadecimal h]

/-- A half is written as an escape of four digits. -/
theorem escapeUnit_of_half (h : 128 ≤ unit) :
    escapeUnit unit = '\\' :: 'u' :: Text.hexadecimal 4 unit := by
  have hwritten := written_escapeUnit unit
  generalize escapeUnit unit = l at hwritten
  cases hwritten with
  | letter _ _ hlt => exact absurd hlt (by omega)
  | plain _ _ _ _ hlt => exact absurd hlt (by omega)
  | escape => rfl

/-- An escape is left alone, unless it and the next one are the halves of one character. -/
theorem joinEscapes_escapeUnit {next : Nat} (h : next < 0x10000)
    (hpair : ¬(isHighHalf unit && isLowHalf next) = true) (rest : List Char) :
    joinEscapes unit (escapeUnit next ++ rest) = (.ofUnit unit, escapeUnit next ++ rest) := by
  rw [joinEscapes]
  rcases escapedUnit?_escapeUnit h rest with hnone | hsome
  · rw [hnone]
  · rw [hsome]
    exact if_neg hpair

/-- Written units are read up to the closing quote. -/
theorem readText_units {units : List Nat} (h : ∀ unit ∈ units, unit < 0x10000)
    (hfuel : units.length < fuel) :
    readText fuel (units.flatMap escapeUnit ++ '"' :: rest) = .ok (joined units, rest) := by
  obtain ⟨fuel, rfl⟩ := Nat.exists_eq_succ_of_ne_zero (Nat.ne_zero_of_lt hfuel)
  rw [Nat.succ_eq_add_one] at hfuel ⊢
  induction units using Text.joined.induct generalizing fuel with
  | case1 => rfl
  | case2 unit =>
    have hunit := h unit List.mem_cons_self
    obtain ⟨fuel, rfl⟩ : ∃ n, fuel = n + 1 :=
      Nat.exists_eq_succ_of_ne_zero (by simp at hfuel; omega)
    rw [List.flatMap_singleton, readText_escapeUnit hunit rfl]
    rfl
  | case3 unit next units hpair ih =>
    obtain ⟨hunit, hrest⟩ := List.forall_mem_cons.1 h
    obtain ⟨hnext, hunits⟩ := List.forall_mem_cons.1 hrest
    obtain ⟨fuel, rfl⟩ : ∃ n, fuel = n + 1 :=
      Nat.exists_eq_succ_of_ne_zero (by rw [List.length_cons] at hfuel; omega)
    have hhalves : 128 ≤ unit ∧ 128 ≤ next := by
      simp only [isHighHalf, isLowHalf, Bool.and_eq_true, decide_eq_true_eq] at hpair
      omega
    have hread := ih hunits fuel (by simp at hfuel; omega)
    rw [List.flatMap_cons, List.flatMap_cons, escapeUnit_of_half hhalves.1,
      escapeUnit_of_half hhalves.2, joined, if_pos hpair]
    simp only [List.cons_append, List.append_assoc]
    rw [readText, unit?_hexadecimal hunit]
    simp only [joinEscapes, escapedUnit?, unit?_hexadecimal hnext, hpair, if_true, hread]
    rfl
  | case4 unit next units hpair ih =>
    obtain ⟨hunit, hrest⟩ := List.forall_mem_cons.1 h
    obtain ⟨fuel, rfl⟩ : ∃ n, fuel = n + 1 :=
      Nat.exists_eq_succ_of_ne_zero (by simp at hfuel; omega)
    have hread := ih hrest fuel (by simpa using hfuel)
    rw [List.flatMap_cons, List.append_assoc, readText_escapeUnit hunit, hread, joined,
      if_neg hpair]
    · rfl
    · rw [List.flatMap_cons, List.append_assoc]
      exact joinEscapes_escapeUnit (hrest next List.mem_cons_self) hpair _

/-- The units of a settled sequence have sixteen bits. -/
theorem unit_lt {symbols : List Symbol} (h : Settled symbols) :
    ∀ unit ∈ symbols.flatMap Symbol.units, unit < 0x10000 := by
  intro unit hunit
  obtain ⟨s, hs, hunit⟩ := List.mem_flatMap.1 hunit
  cases s with
  | character c =>
    rw [Symbol.units] at hunit
    rcases Nat.lt_or_ge c.toNat 0x10000 with hc | hc
    · rw [Text.charUnits_of_lt hc, List.mem_singleton] at hunit
      omega
    · obtain ⟨high, low, hunits, hhigh, hlow, -⟩ := Text.charUnits_of_le hc
      simp only [isHighHalf, isLowHalf, Bool.and_eq_true, decide_eq_true_eq] at hhigh hlow
      rw [hunits] at hunit
      simp only [List.mem_cons, List.not_mem_nil, or_false] at hunit
      omega
  | half u =>
    have hproper : isHighHalf u = true ∨ isLowHalf u = true := h.proper _ hs
    simp only [isHighHalf, isLowHalf, Bool.and_eq_true, decide_eq_true_eq] at hproper
    rw [Symbol.units, List.mem_singleton] at hunit
    omega

theorem length_le_flatMap_escapeUnit (units : List Nat) :
    units.length ≤ (units.flatMap escapeUnit).length := by
  induction units with
  | nil => exact Nat.zero_le _
  | cons unit units ih =>
    have hpos : 0 < (escapeUnit unit).length := by
      have hwritten := written_escapeUnit unit
      generalize escapeUnit unit = l at hwritten
      cases hwritten <;> exact Nat.succ_pos _
    rw [List.flatMap_cons, List.length_cons, List.length_append]
    omega

theorem textChars_append (s : String) (rest : List Char) :
    textChars s ++ rest = '"' :: ((Text.units s.toList).flatMap escapeUnit ++ '"' :: rest) := by
  simp [textChars]

/-- A text between quotes is read back. -/
theorem readText_textChars {s : String} (hs : Text.Proper s)
    (hfuel : (textChars s).length ≤ fuel + 1) : ∃ symbols,
      readText fuel ((Text.units s.toList).flatMap escapeUnit ++ '"' :: rest) =
        .ok (symbols, rest) ∧ textOf symbols = s := by
  obtain ⟨symbols, hsettled, htext⟩ := hs
  have hunits : Text.units s.toList = symbols.flatMap Symbol.units := by
    rw [htext, hsettled.units_ofSymbols]
  have hlength := length_le_flatMap_escapeUnit (symbols.flatMap Symbol.units)
  refine ⟨symbols, ?_, ?_⟩
  · rw [textChars, hunits, List.length_append, List.length_cons, List.length_singleton] at hfuel
    rw [hunits, readText_units (unit_lt hsettled) (by omega), Text.joined_units hsettled]
  · rw [textOf, ← htext, String.ofList_toList]

end Json

end Summand
