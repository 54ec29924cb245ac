import Summand.Json.Parser
import Summand.Json.Printer
import Summand.Proofs.ShortestDigits

/-!
# Texts of numbers

What is written for a number reads back as that number, in front of any text that a number cannot go
on with. A double is read back from its shortest digits, in each of the three ways to write them
(`Decimal.readNumber_digitsText`), so the digits need only denote a number that rounds to it. An
integer is read back if it has no more digits than may be read.
-/

namespace Summand

namespace Decimal

/-! ### Digits as text -/

/-- All characters are digits. -/
def AreDigits (l : List Char) : Prop := ∀ c ∈ l, c.isDigit = true

/-- The text does not go on with a digit. -/
def NoDigit (rest : List Char) : Prop := ∀ c ∈ rest.head?, c.isDigit = false

/-- The whole part of a written number: a zero, or digits of which the first is no zero. -/
inductive Whole : List Char → Prop
  | zero : Whole ['0']
  | digits {c : Char} {rest : List Char} : c ≠ '0' → AreDigits (c :: rest) → Whole (c :: rest)

theorem AreDigits.append {l l' : List Char} (h : AreDigits l) (h' : AreDigits l') :
    AreDigits (l ++ l') := List.forall_mem_append.2 ⟨h, h'⟩

theorem areDigits_replicate (n : ℕ) : AreDigits (List.replicate n '0') := fun c hc ↦ by
  rw [List.eq_of_mem_replicate hc]
  rfl

theorem Whole.ne_nil {l : List Char} (h : Whole l) : l ≠ [] := by
  cases h <;> exact List.cons_ne_nil _ _

theorem spanDigits_append {l rest : List Char} (h : AreDigits l) (hrest : NoDigit rest) :
    spanDigits (l ++ rest) = (l, rest) := by
  induction l with
  | nil =>
    cases rest with
    | nil => rfl
    | cons c rest =>
      have hc : c.isDigit = false := hrest c rfl
      simp [spanDigits, hc]
  | cons c l ih =>
    obtain ⟨hc, hl⟩ := List.forall_mem_cons.1 h
    simp [spanDigits, hc, ih hl]

theorem digitsValue_append (l l' : List Char) :
    digitsValue (l ++ l') = digitsValue l * 10 ^ l'.length + digitsValue l' := by
  have hfrom (n : ℕ) : l'.foldl (fun n c ↦ 10 * n + (c.toNat - 48)) n =
      n * 10 ^ l'.length + digitsValue l' := by
    induction l' generalizing n with
    | nil => simp [digitsValue]
    | cons c l' ih =>
      rw [digitsValue, List.foldl_cons, List.foldl_cons, ih, ih (10 * 0 + (c.toNat - 48)),
        List.length_cons, pow_succ]
      ring
  rw [digitsValue, List.foldl_append, hfrom]
  rfl

theorem digitsValue_singleton (c : Char) : digitsValue [c] = c.toNat - 48 := by
  simp [digitsValue]

@[simp] theorem digitsValue_replicate (n : ℕ) : digitsValue (List.replicate n '0') = 0 := by
  induction n with
  | zero => rfl
  | succ n ih =>
    rw [List.replicate_succ', digitsValue_append, ih, zero_mul, zero_add]
    rfl

theorem isDigit_digitChar {k : ℕ} (h : k < 10) : (Nat.digitChar k).isDigit = true := by
  interval_cases k <;> rfl

theorem toNat_digitChar {k : ℕ} (h : k < 10) : (Nat.digitChar k).toNat - 48 = k := by
  interval_cases k <;> rfl

theorem digitChar_eq_zero {k : ℕ} (h : k < 10) (hk : Nat.digitChar k = '0') : k = 0 := by
  interval_cases k <;> first | rfl | cases hk

/-! ### Padded digits -/

theorem padded_succ (width n : ℕ) :
    padded (width + 1) n = Nat.digitChar (n / 10 ^ width % 10) :: padded width n := by
  simp [padded, List.range_succ]

@[simp] theorem length_padded (width n : ℕ) : (padded width n).length = width := by simp [padded]

theorem areDigits_padded (width n : ℕ) : AreDigits (padded width n) := by
  intro c hc
  obtain ⟨k, -, rfl⟩ := List.mem_map.1 hc
  exact isDigit_digitChar (Nat.mod_lt _ (by norm_num))

theorem digitsValue_padded (width n : ℕ) : digitsValue (padded width n) = n % 10 ^ width := by
  induction width with
  | zero => simp [padded, digitsValue, Nat.mod_one]
  | succ width ih =>
    rw [padded_succ, ← List.singleton_append, digitsValue_append, digitsValue_singleton,
      toNat_digitChar (Nat.mod_lt _ (by norm_num)), ih, length_padded, Nat.pow_succ, Nat.mod_mul,
      mul_comm, add_comm]

/-! ### Digits of naturals -/

theorem areDigits_toDigits (n : ℕ) : AreDigits (Nat.toDigits 10 n) := by
  induction n using Nat.strong_induction_on with
  | _ n ih =>
    rcases Nat.lt_or_ge n 10 with h | h
    · rw [Nat.toDigits_of_lt_base h]
      exact List.forall_mem_singleton.2 (isDigit_digitChar h)
    · rw [Nat.toDigits_of_base_le (by norm_num) h]
      exact (ih (n / 10) (by omega)).append
        (List.forall_mem_singleton.2 (isDigit_digitChar (Nat.mod_lt n (by norm_num))))

theorem digitsValue_toDigits (n : ℕ) : digitsValue (Nat.toDigits 10 n) = n := by
  induction n using Nat.strong_induction_on with
  | _ n ih =>
    rcases Nat.lt_or_ge n 10 with h | h
    · rw [Nat.toDigits_of_lt_base h, digitsValue_singleton, toNat_digitChar h]
    · rw [Nat.toDigits_of_base_le (by norm_num) h, digitsValue_append, ih (n / 10) (by omega),
        digitsValue_singleton, toNat_digitChar (Nat.mod_lt n (by norm_num)), List.length_singleton]
      omega

theorem head?_toDigits {n : ℕ} (hn : n ≠ 0) : (Nat.toDigits 10 n).head? ≠ some '0' := by
  induction n using Nat.strong_induction_on with
  | _ n ih =>
    rcases Nat.lt_or_ge n 10 with h | h
    · rw [Nat.toDigits_of_lt_base h, List.head?_cons]
      exact fun hzero ↦ hn (digitChar_eq_zero h (Option.some.inj hzero))
    · rw [Nat.toDigits_of_base_le (by norm_num) h,
        List.head?_append_of_ne_nil _ Nat.toDigits_ne_nil]
      exact ih (n / 10) (by omega) (by omega)

theorem whole_toDigits (n : ℕ) : Whole (Nat.toDigits 10 n) := by
  rcases eq_or_ne n 0 with rfl | hn
  · exact .zero
  · have hdigits := areDigits_toDigits n
    have hhead := head?_toDigits hn
    rcases hl : Nat.toDigits 10 n with - | ⟨c, rest⟩
    · exact absurd hl Nat.toDigits_ne_nil
    · rw [hl] at hdigits hhead
      exact .digits (fun hc ↦ hhead (congrArg some hc)) hdigits

/-! ### Digits without zeros at the end -/

theorem exists_withoutTrailingZeros (l : List Char) :
    ∃ n, l = withoutTrailingZeros l ++ List.replicate n '0' := by
  refine ⟨(l.reverse.takeWhile (· == '0')).length, ?_⟩
  have hzeros : l.reverse.takeWhile (· == '0') =
      List.replicate (l.reverse.takeWhile (· == '0')).length '0' :=
    List.eq_replicate_iff.2 ⟨rfl, fun c hc ↦ by
      simpa using List.mem_takeWhile_imp (p := (· == '0')) hc⟩
  have hsplit : (l.reverse.takeWhile (· == '0') ++ l.reverse.dropWhile (· == '0')).reverse = l := by
    rw [List.takeWhile_append_dropWhile, List.reverse_reverse]
  rw [List.reverse_append, hzeros, List.reverse_replicate] at hsplit
  exact hsplit.symm

/-- The digits that are written for a number: the first is no zero, and zeros that are left out at
the end are made up for by the power of ten. -/
structure Significant (d : Digits) (c : Char) (l : List Char) : Prop where
  ne_zero : c ≠ '0'
  areDigits : AreDigits (c :: l)
  value_eq : (digitsValue (c :: l) * 10 ^ (d.point - (c :: l).length) : ℝ) = d.value

theorem Digits.Proper.significant {d : Digits} (h : d.Proper) :
    ∃ c l, withoutTrailingZeros (padded d.count d.coefficient) = c :: l ∧ Significant d c l := by
  obtain ⟨n, hn⟩ := exists_withoutTrailingZeros (padded d.count d.coefficient)
  generalize withoutTrailingZeros (padded d.count d.coefficient) = l at hn ⊢
  have hdigits : AreDigits l := fun c hc ↦ areDigits_padded d.count d.coefficient c (by
    rw [hn]
    exact List.mem_append_left _ hc)
  have hlength := congrArg List.length hn
  have hvalue := congrArg digitsValue hn
  rw [digitsValue_padded, Nat.mod_eq_of_lt h.lt, digitsValue_append, digitsValue_replicate,
    List.length_replicate, add_zero] at hvalue
  rw [length_padded, List.length_append, List.length_replicate] at hlength
  have hnumber : (digitsValue l * 10 ^ (d.point - l.length) : ℝ) = d.value := by
    rw [Digits.value, hvalue, hlength]
    push_cast
    rw [mul_assoc, ← zpow_natCast, ← Binary64.ten_zpow_add]
    congr 2
    ring
  -- The first of the padded digits is no zero, so it is not one of those left out.
  obtain ⟨count, hcount⟩ := Nat.exists_eq_succ_of_ne_zero h.count_pos.ne'
  have hlow := h.le
  have hhigh := h.lt
  rw [hcount, Nat.succ_sub_one] at hlow
  rw [hcount, Nat.pow_succ] at hhigh
  have hfirst : Nat.digitChar (d.coefficient / 10 ^ count % 10) ≠ '0' := fun hzero ↦ by
    have hless : d.coefficient / 10 ^ count < 10 := Nat.div_lt_of_lt_mul hhigh
    have hpos : 0 < d.coefficient / 10 ^ count := Nat.div_pos hlow (by positivity)
    have := digitChar_eq_zero (Nat.mod_lt _ (by norm_num)) hzero
    omega
  rw [hcount, Nat.succ_eq_add_one, padded_succ] at hn
  cases l with
  | nil =>
    have hzero : Nat.digitChar (d.coefficient / 10 ^ count % 10) ∈ List.replicate n '0' := by
      rw [List.nil_append] at hn
      exact hn ▸ List.mem_cons_self
    exact absurd (List.eq_of_mem_replicate hzero) hfirst
  | cons c rest =>
    rw [List.cons_append, List.cons.injEq] at hn
    exact ⟨c, rest, rfl, hn.1 ▸ hfirst, hdigits, hnumber⟩

/-! ### Reading a number -/

/-- The text does not go on with what a number may go on with. -/
def Stops (rest : List Char) : Prop :=
  ∀ c ∈ rest.head?, c.isDigit = false ∧ c ≠ '.' ∧ c ≠ 'e' ∧ c ≠ 'E'

theorem Stops.noDigit {rest : List Char} (h : Stops rest) : NoDigit rest := fun c hc ↦ (h c hc).1

theorem exponent?_of_stops {rest : List Char} (h : Stops rest) : exponent? rest = none := by
  cases rest with
  | nil => rfl
  | cons c rest =>
    obtain ⟨-, -, he, hE⟩ := h c rfl
    simp [exponent?, he, hE]

theorem toList_toString (n : ℕ) : (toString n).toList = Nat.toDigits 10 n := by
  rw [Nat.toString_eq_ofList_toDigits, String.toList_ofList]

/-- A written exponent is read back. -/
theorem exponent?_exponentText (k : ℤ) {rest : List Char} (h : Stops rest) :
    exponent? (exponentText k ++ rest) = some (k, rest) := by
  have hdigits : ∃ l, AreDigits l ∧ l ≠ [] ∧ digitsValue l = k.natAbs ∧
      exponentText k = 'e' :: (if k < 0 then '-' else '+') :: l := by
    by_cases hsmall : k.natAbs < 10
    · refine ⟨padded 2 k.natAbs, areDigits_padded _ _, List.cons_ne_nil _ _, ?_, ?_⟩
      · rw [digitsValue_padded, Nat.mod_eq_of_lt (by omega)]
      · rw [exponentText, if_pos hsmall]
    · refine ⟨Nat.toDigits 10 k.natAbs, areDigits_toDigits _, Nat.toDigits_ne_nil,
        digitsValue_toDigits _, ?_⟩
      rw [exponentText, if_neg hsmall, toList_toString]
  obtain ⟨l, hl, hne, hvalue, htext⟩ := hdigits
  have hspan := spanDigits_append hl h.noDigit
  rw [htext]
  split_ifs with hneg
  · simp [exponent?, hspan, hne, hvalue, abs_of_neg hneg]
  · simp [exponent?, hspan, hne, hvalue, abs_of_nonneg (not_lt.1 hneg)]

/-- The whole part at the front of a text. -/
def wholePart (source : List Char) : List Char × List Char :=
  match source with
  | '0' :: rest => (['0'], rest)
  | other => spanDigits other

theorem wholePart_append {l rest : List Char} (h : Whole l) (hrest : NoDigit rest) :
    wholePart (l ++ rest) = (l, rest) := by
  cases h with
  | zero => rfl
  | @digits c l hc hl =>
    have hspan := spanDigits_append hl hrest
    rw [List.cons_append] at hspan ⊢
    rw [wholePart]
    · exact hspan
    · exact fun _ h ↦ hc (List.cons.inj h).1

/-- What a whole part that has been read is taken for. -/
def afterWhole (negative : Bool) (l rest : List Char) : Except Json.Fault (Json × List Char) :=
  if l.isEmpty then .error .malformed
  else
    let fraction := Json.fraction? rest
    let afterFraction := (fraction.map Prod.snd).getD rest
    let exponent := exponent? afterFraction
    if fraction.isNone && exponent.isNone then
      if l.length > Text.digitLimit then .error (.integerTooLong l.length)
      else .ok (.int (if negative then -(digitsValue l : ℤ) else digitsValue l), rest)
    else
      let places := (fraction.map Prod.fst).getD []
      let (power, rest) := exponent.getD (0, afterFraction)
      .ok (.real (signedNearest negative (digitsValue (l ++ places)) (power - places.length)), rest)

theorem readNumber_eq (negative : Bool) (source : List Char) :
    Json.readNumber negative source =
      afterWhole negative (wholePart source).1 (wholePart source).2 := rfl

theorem fraction?_of_head {rest : List Char} (h : rest.head? ≠ some '.') :
    Json.fraction? rest = none := by
  rw [Json.fraction?]
  exact fun _ hrest ↦ h (congrArg List.head? hrest)

/-- An integer is read back. -/
theorem readNumber_int (negative : Bool) {l rest : List Char} (hl : Whole l)
    (hlimit : l.length ≤ Text.digitLimit) (hrest : Stops rest) :
    Json.readNumber negative (l ++ rest) =
      .ok (.int (if negative then -(digitsValue l : ℤ) else digitsValue l), rest) := by
  have hpoint : rest.head? ≠ some '.' := fun h ↦ (hrest '.' h).2.1 rfl
  rw [readNumber_eq, wholePart_append hl hrest.noDigit]
  simp [afterWhole, hl.ne_nil, fraction?_of_head hpoint, exponent?_of_stops hrest, hlimit]

/-- A number with a fraction or an exponent is a double. -/
theorem readNumber_real (negative : Bool) {l places tail : List Char} (hl : Whole l)
    (hplaces : AreDigits places) (htail : NoDigit tail) (hpoint : tail.head? ≠ some '.')
    (hreal : places ≠ [] ∨ (exponent? tail).isSome) :
    Json.readNumber negative (withFraction l places ++ tail) =
      .ok (.real (signedNearest negative (digitsValue (l ++ places))
        (((exponent? tail).getD (0, tail)).1 - places.length)),
          ((exponent? tail).getD (0, tail)).2) := by
  rw [withFraction]
  split_ifs with hempty
  · obtain rfl : places = [] := List.isEmpty_iff.1 hempty
    obtain ⟨⟨power, rest⟩, hexponent⟩ := Option.isSome_iff_exists.1 (hreal.resolve_left (· rfl))
    rw [readNumber_eq, wholePart_append hl htail]
    simp [afterWhole, hl.ne_nil, fraction?_of_head hpoint, hexponent]
  · have hspan := spanDigits_append hplaces htail
    have hfraction : Json.fraction? ('.' :: (places ++ tail)) = some (places, tail) := by
      rw [Json.fraction?, hspan]
      exact if_neg hempty
    have hnoDigit : NoDigit ('.' :: (places ++ tail)) := by
      rintro _ ⟨⟩
      rfl
    rw [List.append_assoc, List.cons_append, readNumber_eq, wholePart_append hl hnoDigit]
    simp [afterWhole, hl.ne_nil, hfraction]

/-! ### Reading digits back -/

/-- The number that was read is the one that the digits denote, maybe by other digits. -/
def ReadsAs (d : Digits) (negative : Bool) (rest : List Char)
    (result : Except Json.Fault (Json × List Char)) : Prop :=
  ∃ n : Digits, n.value = d.value ∧
    result = .ok (.real (signedNearest negative n.coefficient (n.point - n.count)), rest)

section

variable {d : Digits} {c : Char} {l rest : List Char}

theorem withFraction_of_ne_nil {whole places : List Char} (h : places ≠ []) :
    withFraction whole places = whole ++ '.' :: places := if_neg (by simpa using h)

/-- A number with a fraction is read as the digits of both parts say. -/
theorem readsAs_withFraction {whole places : List Char} (negative : Bool)
    (hwhole : Whole whole) (hplaces : AreDigits places) (hne : places ≠ [])
    (hvalue : (digitsValue (whole ++ places) * 10 ^ (-places.length : ℤ) : ℝ) = d.value)
    (hrest : Stops rest) :
    ReadsAs d negative rest (Json.readNumber negative (withFraction whole places ++ rest)) := by
  refine ⟨⟨digitsValue (whole ++ places), places.length, 0⟩, ?_, ?_⟩
  · rw [Digits.value, zero_sub, hvalue]
  · rw [readNumber_real negative hwhole hplaces hrest.noDigit (fun h ↦ (hrest '.' h).2.1 rfl)
      (.inl hne), exponent?_of_stops hrest, Option.getD_none]

namespace Significant

variable (h : Significant d c l)

include h

/-- Zeros between the point and the digits. -/
theorem readsAs_zeros (negative : Bool) (hpoint : d.point ≤ 0) (hrest : Stops rest) :
    ReadsAs d negative rest (Json.readNumber negative
      (withFraction ['0'] (List.replicate (-d.point).toNat '0' ++ c :: l) ++ rest)) := by
  refine readsAs_withFraction negative .zero ((areDigits_replicate _).append h.areDigits)
    (by simp) ?_ hrest
  rw [← h.value_eq, ← List.append_assoc, digitsValue_append,
    show ['0'] = List.replicate 1 '0' from rfl, ← List.replicate_add, digitsValue_replicate,
    zero_mul, zero_add, List.length_append, List.length_replicate]
  congr 2
  push_cast
  omega

/-- Zeros between the digits and the point. -/
theorem readsAs_whole (negative : Bool) {n : ℕ} (hpoint : d.point = (c :: l).length + n)
    (hrest : Stops rest) :
    ReadsAs d negative rest (Json.readNumber negative
      (withFraction (c :: l ++ List.replicate n '0') ['0'] ++ rest)) := by
  refine readsAs_withFraction negative
    (.digits h.ne_zero (h.areDigits.append (areDigits_replicate n))) (areDigits_replicate 1)
    (List.cons_ne_nil _ _) ?_ hrest
  rw [← h.value_eq, List.append_assoc, show ['0'] = List.replicate 1 '0' from rfl,
    ← List.replicate_add, digitsValue_append, digitsValue_replicate, List.length_replicate,
    List.length_replicate, hpoint]
  push_cast
  rw [add_zero, mul_assoc, ← zpow_natCast, ← Binary64.ten_zpow_add]
  congr 2
  push_cast
  ring

/-- The point between the digits. -/
theorem readsAs_split (negative : Bool) {n : ℕ} (hpoint : d.point = n + 1) (hn : n < l.length)
    (hrest : Stops rest) :
    ReadsAs d negative rest (Json.readNumber negative
      (withFraction (c :: l.take n) (l.drop n) ++ rest)) := by
  have htail : AreDigits l := fun x hx ↦ h.areDigits x (List.mem_cons_of_mem _ hx)
  refine readsAs_withFraction negative (.digits h.ne_zero ?_)
    (fun x hx ↦ htail x (List.mem_of_mem_drop hx)) (by simpa using hn) ?_ hrest
  · exact List.forall_mem_cons.2 ⟨h.areDigits c List.mem_cons_self,
      fun x hx ↦ htail x (List.mem_of_mem_take hx)⟩
  · rw [← h.value_eq, List.cons_append, List.take_append_drop, List.length_drop, List.length_cons]
    congr 2
    push_cast [Nat.cast_sub hn.le]
    omega

/-- An exponent after the digits. -/
theorem readsAs_exponent (negative : Bool) (hrest : Stops rest) :
    ReadsAs d negative rest (Json.readNumber negative
      (withFraction [c] l ++ exponentText (d.point - 1) ++ rest)) := by
  have htail : AreDigits l := fun x hx ↦ h.areDigits x (List.mem_cons_of_mem _ hx)
  have hfirst : AreDigits [c] := List.forall_mem_singleton.2 (h.areDigits c List.mem_cons_self)
  have hexponent := exponent?_exponentText (d.point - 1) hrest
  have hnoDigit : NoDigit (exponentText (d.point - 1) ++ rest) := by
    rintro _ ⟨⟩
    rfl
  refine ⟨⟨digitsValue ([c] ++ l), l.length, d.point - 1⟩, ?_, ?_⟩
  · rw [Digits.value, ← h.value_eq, List.singleton_append, List.length_cons]
    congr 2
    push_cast
    ring
  · rw [List.append_assoc, readNumber_real negative (.digits h.ne_zero hfirst) htail hnoDigit
      (by simp [exponentText]) (.inr (by rw [hexponent]; rfl)), hexponent]
    rfl

end Significant

/-- Digits are read back, with zeros before or after them or with an exponent. -/
theorem readsAs_digitsText {layout : Layout} (hlayout : layout.showsPoint = true) (hd : d.Proper)
    (negative : Bool) (hrest : Stops rest) :
    ReadsAs d negative rest (Json.readNumber negative (layout.digitsText d ++ rest)) := by
  obtain ⟨c, l, hl, h⟩ := hd.significant
  rw [Layout.digitsText, hl]
  dsimp only
  split
  · split
    · have hzeros := h.readsAs_zeros negative ‹_› hrest
      rwa [withFraction_of_ne_nil (by simp)] at hzeros
    · obtain ⟨n, hn⟩ : ∃ n : ℕ, d.point = n + 1 := ⟨(d.point - 1).toNat, by omega⟩
      have htoNat : d.point.toNat = n + 1 := by omega
      rw [htoNat, List.take_succ_cons, List.drop_succ_cons, hlayout]
      rcases Nat.lt_or_ge n l.length with hlt | hge
      · have hlength : (c :: l.take n).length = n + 1 := by
          rw [List.length_cons, List.length_take, min_eq_left hlt.le]
        have hfraction : (l.drop n).isEmpty = false := by simpa using hlt
        rw [hlength, Nat.sub_self, List.replicate_zero, List.append_nil, hfraction]
        exact h.readsAs_split negative hn hlt hrest
      · rw [List.take_of_length_le hge, List.drop_of_length_le hge]
        exact h.readsAs_whole negative (by push_cast [List.length_cons]; omega) hrest
  · exact h.readsAs_exponent negative hrest

end

/-! ### Doubles -/

open Float.Model (UnpackedFloat)

theorem unpack_signedNearest_zero (negative : Bool) (e : ℤ) :
    Binary64.unpack (signedNearest negative 0 e) = .zero (Binary64.signOf negative) := by
  rw [signedNearest, nearest, if_pos rfl]
  cases negative
  · rfl
  · rfl

/-- A double other than a zero is read from every decimal number that rounds to it. -/
theorem signedNearest_eq {x : Float} {negative : Bool} {m : ℕ} {e : ℤ} {hm : 0 < m}
    (hx : Binary64.unpack x = .finite (Binary64.signOf negative) m e hm) {coefficient : ℕ}
    {exponent : ℤ} (h : Binary64.rounded (coefficient * 10 ^ exponent) = m * 2 ^ e) :
    signedNearest negative coefficient exponent = x := by
  have hpos : (0 : ℝ) < m * 2 ^ e := mul_pos (Nat.cast_pos.2 hm) (Binary64.two_zpow_pos e)
  obtain ⟨-, -, hextended⟩ := Binary64.of_unpack_eq_finite hx
  have hkept := Binary64.overflowed_extended hextended
  rw [Binary64.overflowed_signed] at hkept
  have hread : Binary64.extended? (signedNearest negative coefficient exponent) =
      some (Binary64.signed negative ((m * 2 ^ e : ℝ) : EReal)) := by
    rw [← hkept, ← h, ← Binary64.nearest_coe]
    cases negative with
    | false => exact extended?_nearest coefficient exponent
    | true => exact (Binary64.extended?_neg _).trans (by rw [extended?_nearest]; rfl)
  cases negative with
  | false => exact Binary64.eq_of_extended? hread hextended hpos.ne'
  | true => exact Binary64.eq_of_extended? (r := -(m * 2 ^ e)) hread hextended (by linarith)

end Decimal

namespace Json

open Decimal (Stops)

theorem named?_of_isDigit {c : Char} (hc : c.isDigit = true) (rest : List Char) :
    named? (c :: rest) = none ∧ named? ('-' :: c :: rest) = none := by
  have hne : c ≠ 'n' ∧ c ≠ 't' ∧ c ≠ 'f' ∧ c ≠ 'N' ∧ c ≠ 'I' ∧ c ≠ '-' := by
    refine ⟨?_, ?_, ?_, ?_, ?_, ?_⟩ <;> rintro rfl <;> cases hc
  obtain ⟨hn, ht, hf, hN, hI, hminus⟩ := hne
  simp [named?, names, hn.symm, ht.symm, hf.symm, hN.symm, hI.symm, hminus.symm]

theorem readValue_of_isDigit {c : Char} (hc : c.isDigit = true) (depth fuel : ℕ)
    (rest : List Char) :
    readValue depth (fuel + 1) (c :: rest) = readNumber false (c :: rest) := by
  have hne : c ≠ '"' ∧ c ≠ '[' ∧ c ≠ '\x7b' ∧ c ≠ '-' := by
    refine ⟨?_, ?_, ?_, ?_⟩ <;> rintro rfl <;> cases hc
  obtain ⟨hquote, hbracket, hbrace, hminus⟩ := hne
  simp [readValue, hquote, hbracket, hbrace, hminus, named?_of_isDigit hc]

theorem readValue_of_negative {c : Char} (hc : c.isDigit = true) (depth fuel : ℕ)
    (rest : List Char) :
    readValue depth (fuel + 1) ('-' :: c :: rest) = readNumber true (c :: rest) := by
  simp [readValue, named?_of_isDigit hc]

/-- The digits of a double other than a zero are read back as that double. -/
theorem readNumber_shortest {x : Float} {negative : Bool} {m : ℕ} {e : ℤ} {hm : 0 < m}
    (hx : Binary64.unpack x = .finite (Binary64.signOf negative) m e hm) {rest : List Char}
    (hrest : Stops rest) :
    readNumber negative (realLayout.digitsText (Decimal.shortest m e) ++ rest) =
      .ok (.real x, rest) := by
  obtain ⟨hcanonical, he, -⟩ := Binary64.of_unpack_eq_finite hx
  obtain ⟨hproper, hrounded⟩ := Decimal.shortest_spec hcanonical (by omega)
  have hlayout : realLayout.showsPoint = true := rfl
  obtain ⟨n, hvalue, hread⟩ := Decimal.readsAs_digitsText hlayout hproper negative hrest
  rw [← hvalue] at hrounded
  rw [hread, Decimal.signedNearest_eq hx hrounded]

/-- What is read as a number begins with a digit. -/
theorem isDigit_of_readNumber {negative : Bool} {source : List Char} {result : Json × List Char}
    (h : readNumber negative source = .ok result) :
    ∃ c rest, source = c :: rest ∧ c.isDigit = true := by
  cases source with
  | nil => cases h
  | cons c rest =>
    refine ⟨c, rest, rfl, ?_⟩
    by_contra hc
    have hne : c ≠ '0' := by
      rintro rfl
      exact hc rfl
    rw [Decimal.readNumber_eq, Decimal.wholePart] at h
    · simp [Decimal.spanDigits, hc, Decimal.afterWhole] at h
    · exact fun _ h ↦ hne (List.cons.inj h).1

/-- A number with its sign is a value. -/
theorem readValue_signed {negative : Bool} {text rest : List Char} {v : Json}
    (h : readNumber negative (text ++ rest) = .ok (v, rest)) (depth fuel : ℕ) :
    readValue depth (fuel + 1) ((if negative then '-' :: text else text) ++ rest) =
      .ok (v, rest) := by
  obtain ⟨c, l, hsource, hc⟩ := isDigit_of_readNumber h
  cases negative with
  | false => rw [if_neg Bool.false_ne_true, hsource, readValue_of_isDigit hc, ← hsource, h]
  | true => rw [if_pos rfl, List.cons_append, hsource, readValue_of_negative hc, ← hsource, h]

/-- A written double is read back. -/
theorem readValue_realChars (x : Float) (depth fuel : ℕ) {rest : List Char} (hrest : Stops rest) :
    readValue depth (fuel + 1) (realChars x ++ rest) = .ok (.real x, rest) := by
  have hsigned (negative : Bool) (text : List Char) :
      (String.ofList (if Binary64.signOf negative == .negative then '-' :: text else text)).toList =
        if negative then '-' :: text else text := by
    cases negative <;> simp [Binary64.signOf]
  rw [realChars, Decimal.Layout.text]
  rcases hx : Binary64.unpack x with s | - | s | ⟨s, m, e, hm⟩
  · obtain ⟨negative, rfl⟩ := Binary64.exists_signOf s
    dsimp only
    rw [hsigned]
    cases negative with
    | false =>
      obtain rfl : x = Binary64.positiveInfinity := Binary64.unpack_injective hx
      simp [readValue, named?, names, realLayout]
    | true =>
      obtain rfl : x = Binary64.negativeInfinity := Binary64.unpack_injective hx
      simp [readValue, named?, names, realLayout]
  · obtain rfl : x = Binary64.notANumber := Binary64.unpack_injective hx
    simp [readValue, named?, names, realLayout]
  · obtain ⟨negative, rfl⟩ := Binary64.exists_signOf s
    dsimp only
    rw [hsigned]
    have hzero : Decimal.signedNearest negative 0 (-1) = x :=
      Binary64.unpack_injective ((Decimal.unpack_signedNearest_zero negative (-1)).trans hx.symm)
    have hread := Decimal.readNumber_real negative .zero (Decimal.areDigits_replicate 1)
      hrest.noDigit (fun h ↦ (hrest '.' h).2.1 rfl) (.inl (List.cons_ne_nil _ _))
    rw [Decimal.exponent?_of_stops hrest, Option.getD_none] at hread
    refine readValue_signed (hread.trans ?_) depth fuel
    rw [← hzero]
    rfl
  · obtain ⟨negative, rfl⟩ := Binary64.exists_signOf s
    dsimp only
    rw [hsigned]
    exact readValue_signed (readNumber_shortest hx hrest) depth fuel

/-- A written integer is read back, if it has no more digits than may be read. -/
theorem readValue_int {n : ℤ} (hn : n.natAbs < 10 ^ Text.digitLimit) (depth fuel : ℕ)
    {rest : List Char} (hrest : Stops rest) :
    readValue depth (fuel + 1) ((toString n).toList ++ rest) = .ok (.int n, rest) := by
  have hlength : (Nat.toDigits 10 n.natAbs).length ≤ Text.digitLimit :=
    (Nat.length_toDigits_le_iff (by norm_num) (by decide)).2 hn
  have hread (negative : Bool) := readValue_signed
    (Decimal.readNumber_int negative (Decimal.whole_toDigits n.natAbs) hlength hrest) depth fuel
  rw [Decimal.digitsValue_toDigits, ← Decimal.toList_toString] at hread
  cases n with
  | ofNat k => exact hread false
  | negSucc k =>
    rw [Int.toString_eq_repr, Int.repr, String.toList_append]
    exact hread true

end Json

end Summand
