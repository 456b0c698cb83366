import DeclAnalysis.Proofs.Literal.DecimalText

/-!
# The grammar of decimal numbers

The number of a floating literal is a mantissa and a power of ten, and has a point or an exponent.
`DecimalNumber` holds these parts, down to the runs of digits, with the proofs that they are what
they should be. Its value is the double nearest to the digits times a power of ten.

A number is read in two passes that know nothing of each other: one looks at the neighbours of the
separators, and the other, once the separators are removed, at the shape of what is left.
`Literal.floatingValue_eq_ok_iff` says that both passes together accept exactly the numbers, with
their values.
-/

namespace DeclAnalysis

open Digits (Numeral separator wellSeparated dropSeparators)

/-! ## Numbers by their parts -/

/-- A run of decimal digits with the values of the digits, most significant first. -/
structure DigitRun where
  /-- The run as it is written, with separators. -/
  text : List Char
  /-- The values of the digits. -/
  values : List Nat
  numeral : Numeral 10 text values

/-- The digits of a number up to its exponent. There is a run of digits in front of the point, or
behind it, or both. -/
inductive Mantissa where
  | digits (whole : DigitRun)
  | digitsPoint (whole : DigitRun)
  | pointDigits (fraction : DigitRun)
  | digitsPointDigits (whole fraction : DigitRun)

/-- The sign of an exponent. -/
inductive ExponentSign where
  | absent
  | plus
  | minus
deriving DecidableEq

/-- A power of ten. -/
structure ExponentPart where
  /-- The letter in front. -/
  mark : Char
  /-- The sign. -/
  sign : ExponentSign
  /-- The digits. -/
  run : DigitRun
  isMark : mark = 'e' ∨ mark = 'E'

namespace DigitRun

variable (r : DigitRun)

/-- The positional value of the digits. -/
def value : Nat := Nat.ofDigits 10 r.values.reverse

/-- The run without its separators. -/
def plain : DigitRun := ⟨dropSeparators r.text, r.values, r.numeral.dropSeparators (by decide)⟩

@[simp] theorem dropSeparators_ne_nil : dropSeparators r.text ≠ [] := r.plain.numeral.ne_nil

@[simp] theorem wellSeparated_text : wellSeparated Char.isDigit r.text = true :=
  (Digits.exists_decimal_iff.mp ⟨_, r.numeral⟩).2.1

@[simp] theorem all_isDigit : (dropSeparators r.text).all Char.isDigit = true :=
  (Digits.exists_decimal_iff.mp ⟨_, r.numeral⟩).2.2

@[simp] theorem filterMap_value? :
    (dropSeparators r.text).filterMap (Digits.value? 10) = r.values :=
  r.plain.numeral.filterMap_value? (by decide)

@[simp] theorem length_dropSeparators : (dropSeparators r.text).length = r.values.length :=
  r.numeral.length_dropSeparators (by decide)

theorem of_mem_text {P : Char → Prop}
    (hdigits : ∀ digit < 10, P digit.digitChar ∧ P digit.digitChar.toUpper)
    (hseparator : P separator) {c : Char} (hmem : c ∈ r.text) : P c := by
  rcases r.numeral.forall_mem hmem with rfl | ⟨d, hdigit⟩
  · exact hseparator
  · exact hdigit.of_forall 10 P hdigits le_rfl

theorem exists_cons : ∃ c rest, r.text = c :: rest ∧ c ≠ '+' ∧ c ≠ '-' := by
  obtain ⟨c, rest, d, others, htext, -, hdigit⟩ := r.numeral.exists_cons
  exact ⟨c, rest, htext, hdigit.of_forall 10 (fun c ↦ c ≠ '+' ∧ c ≠ '-') (by decide) le_rfl⟩

private theorem number_text : Digits.number 10 (dropSeparators r.text) = r.value := by
  rw [Digits.number, filterMap_value?, Digits.foldl_eq_ofDigits, value]

end DigitRun

namespace Mantissa

/-- The mantissa as it is written. -/
def text : Mantissa → List Char
  | digits whole => whole.text
  | digitsPoint whole => whole.text ++ ['.']
  | pointDigits fraction => '.' :: fraction.text
  | digitsPointDigits whole fraction => whole.text ++ '.' :: fraction.text

/-- Whether there is a point. -/
def hasPoint : Mantissa → Bool
  | digits _ => false
  | _ => true

/-- The values of all digits. -/
def values : Mantissa → List Nat
  | digits whole => whole.values
  | digitsPoint whole => whole.values
  | pointDigits fraction => fraction.values
  | digitsPointDigits whole fraction => whole.values ++ fraction.values

/-- The number of digits behind the point. -/
def places : Mantissa → Nat
  | digits _ => 0
  | digitsPoint _ => 0
  | pointDigits fraction => fraction.values.length
  | digitsPointDigits _ fraction => fraction.values.length

end Mantissa

namespace ExponentSign

/-- The sign as it is written. -/
def text : ExponentSign → List Char
  | absent => []
  | plus => ['+']
  | minus => ['-']

end ExponentSign

namespace ExponentPart

/-- The exponent as it is written. -/
def text (e : ExponentPart) : List Char := e.mark :: (e.sign.text ++ e.run.text)

/-- The power of ten. -/
def value (e : ExponentPart) : Int := if e.sign = .minus then -e.run.value else e.run.value

end ExponentPart

/-- A decimal number with a point or an exponent. -/
structure DecimalNumber where
  /-- The digits. -/
  mantissa : Mantissa
  /-- The power of ten, if it is given. -/
  exponent : Option ExponentPart
  marked : mantissa.hasPoint = true ∨ exponent.isSome = true

namespace DecimalNumber

variable (n : DecimalNumber)

/-- The number as it is written. -/
def text : List Char := n.mantissa.text ++ (n.exponent.map (·.text)).getD []

/-- The power of ten that the number without its point is to be multiplied with. -/
def scale : Int := (n.exponent.map (·.value)).getD 0 - n.mantissa.places

/-- The double nearest to the number. -/
def value : Binary64 :=
  Binary64.ofDecimal (Nat.ofDigits 10 n.mantissa.values.reverse) n.scale.toNat (-n.scale).toNat

end DecimalNumber

/-! ## Numbers are accepted -/

private theorem Binary64.ofDecimal_eq {up down : Nat} {scale : Int}
    (hscale : (up : Int) - down = scale)
    (digits : Nat) : ofDecimal digits up down = ofDecimal digits scale.toNat (-scale).toNat := by
  rw [ofDecimal, ofDecimal]
  by_cases hup : down ≤ up
  · have hnat : scale.toNat = up - down ∧ (-scale).toNat = 0 := by omega
    simp only [hnat.1, hnat.2, hup, if_true, Nat.zero_le, Nat.sub_zero]
  · have hnat : scale.toNat = 0 ∧ (-scale).toNat = down - up := by omega
    have hdown : ¬ down - up ≤ 0 := by omega
    simp only [hnat.1, hnat.2, hup, hdown, if_false, Nat.sub_zero]

namespace Mantissa

/-- What stands in front of the point. -/
def whole : Mantissa → List Char
  | digits whole => whole.text
  | digitsPoint whole => whole.text
  | pointDigits _ => []
  | digitsPointDigits whole _ => whole.text

/-- What stands behind the point, if there is one. -/
def fraction? : Mantissa → Option (List Char)
  | digits _ => none
  | digitsPoint _ => some []
  | pointDigits fraction => some fraction.text
  | digitsPointDigits _ fraction => some fraction.text

variable (m : Mantissa)

private theorem text_eq : m.text = m.whole ++ DecimalText.behind '.' m.fraction? := by
  cases m <;> simp [text, whole, fraction?, DecimalText.behind]

private theorem isSome_fraction? : m.fraction?.isSome = m.hasPoint := by
  cases m <;> rfl

private theorem wellSeparated_parts : wellSeparated Char.isDigit m.whole = true ∧
    wellSeparated Char.isDigit (m.fraction?.getD []) = true := by
  cases m <;> simp [whole, fraction?]

private theorem all_isDigit : (dropSeparators m.whole).all Char.isDigit = true ∧
    (dropSeparators (m.fraction?.getD [])).all Char.isDigit = true := by
  cases m <;> simp [whole, fraction?, DigitRun.all_isDigit]

theorem ne_nil : dropSeparators m.whole ++ dropSeparators (m.fraction?.getD []) ≠ [] := by
  cases m <;> simp [whole, fraction?]

private theorem number_eq :
    Digits.number 10 (dropSeparators m.whole ++ dropSeparators (m.fraction?.getD [])) =
      Nat.ofDigits 10 m.values.reverse := by
  rw [← Digits.foldl_eq_ofDigits, Digits.number, List.filterMap_append]
  cases m <;> simp [whole, fraction?, values]

theorem length_eq : (dropSeparators (m.fraction?.getD [])).length = m.places := by
  cases m <;> simp [fraction?, places]

private theorem of_mem_parts {P : Char → Prop}
    (hdigits : ∀ digit < 10, P digit.digitChar ∧ P digit.digitChar.toUpper)
    (hseparator : P separator) : (∀ c ∈ m.whole, P c) ∧ ∀ c ∈ m.fraction?.getD [], P c := by
  have hrun (r : DigitRun) : ∀ c ∈ r.text, P c := fun _ ↦ r.of_mem_text hdigits hseparator
  cases m with
  | digits whole | digitsPoint whole => exact ⟨hrun whole, List.forall_mem_nil P⟩
  | pointDigits fraction => exact ⟨List.forall_mem_nil P, hrun fraction⟩
  | digitsPointDigits whole fraction => exact ⟨hrun whole, hrun fraction⟩

end Mantissa

namespace ExponentSign

theorem dropSeparators_append (sign : ExponentSign) (text : List Char) :
    dropSeparators (sign.text ++ text) = sign.text ++ dropSeparators text := by
  rw [Digits.dropSeparators_append]
  cases sign <;> rfl

private theorem wellSeparated_append (sign : ExponentSign) (text : List Char) :
    wellSeparated Char.isDigit (sign.text ++ text) = wellSeparated Char.isDigit text := by
  cases sign <;> rfl

private theorem dropSign_append (sign : ExponentSign) (r : DigitRun) :
    DecimalText.dropSign (sign.text ++ r.text) = r.text := by
  obtain ⟨c, rest, htext, hplus, hminus⟩ := r.exists_cons
  rw [htext]
  cases sign with
  | absent => simp [text, DecimalText.dropSign, hplus, hminus]
  | plus | minus => rfl

private theorem isNegative_append (sign : ExponentSign) (r : DigitRun) :
    DecimalText.isNegative (sign.text ++ r.text) = decide (sign = .minus) := by
  obtain ⟨c, rest, htext, -, hminus⟩ := r.exists_cons
  rw [htext]
  cases sign with
  | absent => simp [text, DecimalText.isNegative, hminus]
  | plus | minus => rfl

private theorem exists_append {text : List Char}
    (hseparated : wellSeparated Char.isDigit text = true) :
    ∃ (sign : ExponentSign) (rest : List Char), text = sign.text ++ rest ∧
      DecimalText.dropSign (dropSeparators text) = dropSeparators rest := by
  rcases text with - | ⟨c, rest⟩
  · exact ⟨.absent, [], rfl, rfl⟩
  by_cases hplus : c = '+'
  · exact ⟨.plus, rest, by rw [hplus]; rfl, by rw [hplus]; rfl⟩
  by_cases hminus : c = '-'
  · exact ⟨.minus, rest, by rw [hminus]; rfl, by rw [hminus]; rfl⟩
  have hne : c ≠ separator := by
    rintro rfl
    simp [wellSeparated, Digits.separatedAfter] at hseparated
  refine ⟨.absent, c :: rest, rfl, ?_⟩
  rw [Digits.dropSeparators_cons hne]
  simp [DecimalText.dropSign, hplus, hminus]

end ExponentSign

namespace DecimalNumber

variable (n : DecimalNumber)

/-- The parts that the number is cut into. -/
def parts : DecimalText where
  whole := n.mantissa.whole
  fraction := n.mantissa.fraction?
  exponent := n.exponent.map fun e ↦ e.sign.text ++ e.run.text

private theorem exists_mark : ∃ mark, DecimalText.isExponentMark mark = true ∧
    n.parts.join mark = n.text := by
  obtain ⟨mantissa, - | e, hmarked⟩ := n
  · exact ⟨'e', rfl, by rw [text, Mantissa.text_eq]; rfl⟩
  · refine ⟨e.mark, DecimalText.isExponentMark_iff.mpr e.isMark, ?_⟩
    rw [text, Mantissa.text_eq]
    rfl

private theorem uncut_parts : n.parts.Uncut := by
  obtain ⟨hwhole, hfraction⟩ := n.mantissa.of_mem_parts
    (P := fun c ↦ DecimalText.isExponentMark c = false ∧ c ≠ '.') (by decide) (by decide)
  exact ⟨hwhole, fun c hmem ↦ (hfraction c hmem).1⟩

private theorem wellSeparated_text : wellSeparated Char.isDigit n.text = true := by
  obtain ⟨mark, hmark, htext⟩ := n.exists_mark
  rw [← htext, DecimalText.wellSeparated_join hmark]
  have hexponent : wellSeparated Char.isDigit (n.parts.exponent.getD []) = true := by
    obtain ⟨m, - | e, -⟩ := n
    · rfl
    · exact (e.sign.wellSeparated_append e.run.text).trans e.run.wellSeparated_text
  rw [hexponent, Bool.and_true]
  exact Bool.and_eq_true_iff.mpr n.mantissa.wellSeparated_parts

/-- Without separators, what is left of the exponent is a sign and the digits. -/
private theorem exponent_plain_parts :
    n.parts.plain.exponent = n.exponent.map fun e ↦ e.sign.text ++ e.run.plain.text := by
  obtain ⟨m, - | e, -⟩ := n
  · rfl
  · exact congrArg some (e.sign.dropSeparators_append e.run.text)

private theorem fraction_plain_parts :
    n.parts.plain.fraction.getD [] = dropSeparators (n.mantissa.fraction?.getD []) :=
  DecimalText.getD_map_dropSeparators _

private theorem isValid_plain_parts : n.parts.plain.isValid = true := by
  have hwhole : n.parts.plain.whole = dropSeparators n.mantissa.whole := rfl
  obtain ⟨hwholeDigits, hfractionDigits⟩ := n.mantissa.all_isDigit
  rw [DecimalText.isValid, hwhole, fraction_plain_parts, hwholeDigits, hfractionDigits,
    List.isEmpty_eq_false_iff.mpr n.mantissa.ne_nil, exponent_plain_parts]
  obtain ⟨m, - | e, hmarked⟩ := n
  · have hpoint : m.hasPoint = true := hmarked.resolve_right Bool.false_ne_true
    exact Option.isSome_map.trans (m.isSome_fraction?.trans hpoint)
  · dsimp only [Option.map_some]
    rw [e.sign.dropSign_append e.run.plain,
      List.isEmpty_eq_false_iff.mpr e.run.plain.numeral.ne_nil]
    exact e.run.all_isDigit

private theorem value_plain_parts : n.parts.plain.value = n.value := by
  have hwhole : n.parts.plain.whole = dropSeparators n.mantissa.whole := rfl
  rw [DecimalText.value, fraction_plain_parts, hwhole, n.mantissa.number_eq, n.mantissa.length_eq,
    exponent_plain_parts, value]
  obtain ⟨m, - | e, hmarked⟩ := n
  · exact Binary64.ofDecimal_eq (by rw [scale]; rfl) _
  · have hpower : Digits.number 10 e.run.plain.text = e.run.value := e.run.number_text
    have hsign := e.sign.isNegative_append e.run.plain
    dsimp only [Option.map_some, Option.getD_some]
    rw [e.sign.dropSign_append e.run.plain, hpower]
    by_cases hminus : e.sign = .minus
    · have hscale : (DecimalNumber.mk m (some e) hmarked).scale = -e.run.value - m.places :=
        congrArg (· - (m.places : Int)) (if_pos hminus)
      rw [if_pos (hsign.trans (decide_eq_true hminus))]
      exact Binary64.ofDecimal_eq (by rw [hscale]; omega) _
    · have hscale : (DecimalNumber.mk m (some e) hmarked).scale = e.run.value - m.places :=
        congrArg (· - (m.places : Int)) (if_neg hminus)
      rw [if_neg (hsign.trans (decide_eq_false hminus) ▸ Bool.false_ne_true)]
      exact Binary64.ofDecimal_eq hscale.symm _

theorem floatingValue_text : Literal.floatingValue n.text = .ok n.value := by
  have hcut : DecimalText.cut (dropSeparators n.text) = n.parts.plain := by
    obtain ⟨mark, hmark, htext⟩ := n.exists_mark
    rw [DecimalText.cut_dropSeparators, ← htext, DecimalText.cut_join hmark n.uncut_parts]
  rw [Literal.floatingValue, n.wellSeparated_text, hcut]
  dsimp only
  rw [n.isValid_plain_parts, n.value_plain_parts]
  rfl

end DecimalNumber

/-! ## What is accepted is a number -/

private theorem DigitRun.exists_of_scan {text : List Char}
    (hseparated : wellSeparated Char.isDigit text = true)
    (hdigits : (dropSeparators text).all Char.isDigit = true) :
    text = [] ∨ ∃ r : DigitRun, r.text = text := by
  refine or_iff_not_imp_left.mpr fun hne ↦ ?_
  obtain ⟨values, hnum⟩ := Digits.exists_decimal_iff.mpr ⟨hne, hseparated, hdigits⟩
  exact ⟨⟨text, values, hnum⟩, rfl⟩

private theorem Mantissa.exists_of_scan {whole : List Char} {fraction : Option (List Char)}
    (hwhole : whole = [] ∨ ∃ r : DigitRun, r.text = whole)
    (hfraction : fraction.getD [] = [] ∨ ∃ r : DigitRun, r.text = fraction.getD [])
    (hne : whole ++ fraction.getD [] ≠ []) :
    ∃ m : Mantissa, m.text = whole ++ DecimalText.behind '.' fraction ∧
      m.hasPoint = fraction.isSome := by
  rcases fraction with - | fraction
  · rcases hwhole with rfl | ⟨w, rfl⟩
    · exact absurd rfl hne
    · exact ⟨.digits w, (List.append_nil _).symm, rfl⟩
  · rw [Option.getD_some] at hfraction
    rcases hwhole with rfl | ⟨w, rfl⟩ <;> rcases hfraction with rfl | ⟨f, rfl⟩
    · exact absurd rfl hne
    · exact ⟨.pointDigits f, rfl, rfl⟩
    · exact ⟨.digitsPoint w, rfl, rfl⟩
    · exact ⟨.digitsPointDigits w f, rfl, rfl⟩

private theorem ExponentPart.exists_of_scan {mark : Char} {text : List Char}
    (hmark : DecimalText.isExponentMark mark = true)
    (hseparated : wellSeparated Char.isDigit text = true)
    (hne : DecimalText.dropSign (dropSeparators text) ≠ [])
    (hdigits : (DecimalText.dropSign (dropSeparators text)).all Char.isDigit = true) :
    ∃ e : ExponentPart, e.text = mark :: text := by
  obtain ⟨sign, rest, rfl, hrest⟩ := ExponentSign.exists_append hseparated
  rw [sign.wellSeparated_append] at hseparated
  rw [hrest] at hne hdigits
  rcases DigitRun.exists_of_scan hseparated hdigits with rfl | ⟨r, rfl⟩
  · exact absurd rfl hne
  · exact ⟨⟨mark, sign, r, DecimalText.isExponentMark_iff.mp hmark⟩, rfl⟩

private theorem DecimalNumber.exists_of_scan {mark : Char} {d : DecimalText}
    (hmark : DecimalText.isExponentMark mark = true)
    (hseparated : wellSeparated Char.isDigit (d.join mark) = true)
    (hvalid : d.plain.isValid = true) : ∃ n : DecimalNumber, n.text = d.join mark := by
  obtain ⟨whole, fraction, exponent⟩ := d
  rw [DecimalText.wellSeparated_join hmark] at hseparated
  rw [DecimalText.isValid] at hvalid
  simp only [Bool.and_eq_true] at hvalid hseparated
  obtain ⟨⟨⟨hwhole, hfraction⟩, hne⟩, hexponent⟩ := hvalid
  obtain ⟨⟨hwholeSeparated, hfractionSeparated⟩, hexponentSeparated⟩ := hseparated
  rw [DecimalText.plain, DecimalText.getD_map_dropSeparators] at hfraction hne
  have hdigits : whole ++ fraction.getD [] ≠ [] := by
    intro hnil
    rw [← Digits.dropSeparators_append, hnil] at hne
    exact absurd hne Bool.false_ne_true
  obtain ⟨m, hm, hpoint⟩ := Mantissa.exists_of_scan
    (DigitRun.exists_of_scan hwholeSeparated hwhole)
    (DigitRun.exists_of_scan hfractionSeparated hfraction) hdigits
  rcases exponent with - | e
  · have hmarked : m.hasPoint = true := hpoint.trans (Option.isSome_map.symm.trans hexponent)
    exact ⟨⟨m, none, .inl hmarked⟩, congrArg (· ++ []) hm⟩
  · dsimp only [DecimalText.plain, Option.map_some] at hexponent
    rw [Bool.and_eq_true, Bool.not_eq_true', List.isEmpty_eq_false_iff] at hexponent
    obtain ⟨p, hp⟩ :=
      ExponentPart.exists_of_scan hmark hexponentSeparated hexponent.1 hexponent.2
    refine ⟨⟨m, some p, .inr rfl⟩, ?_⟩
    rw [text, hm]
    exact congrArg _ hp

/-- **The passes accept exactly the decimal numbers**, and with their values. -/
theorem Literal.floatingValue_eq_ok_iff {text : List Char} {v : Binary64} :
    floatingValue text = .ok v ↔ ∃ n : DecimalNumber, n.text = text ∧ n.value = v := by
  constructor
  · intro hvalue
    obtain ⟨n, rfl⟩ : ∃ n : DecimalNumber, n.text = text := by
      rw [floatingValue] at hvalue
      dsimp only at hvalue
      split_ifs at hvalue with hmisplaced hvalid
      rw [Bool.not_eq_true', Bool.not_eq_false] at hmisplaced
      rw [DecimalText.cut_dropSeparators] at hvalid
      obtain ⟨mark, hmark, htext⟩ := DecimalText.exists_join text
      rw [← htext] at hmisplaced
      exact htext ▸ DecimalNumber.exists_of_scan hmark hmisplaced hvalid
    exact ⟨n, rfl, Except.ok.inj (n.floatingValue_text.symm.trans hvalue)⟩
  · rintro ⟨n, rfl, rfl⟩
    exact n.floatingValue_text

theorem Literal.isOverflow_of_floatingValue {text : List Char} {fault : LiteralFault}
    (hfails : floatingValue text = .error fault) : fault.isOverflow = false := by
  rw [floatingValue] at hfails
  dsimp only at hfails
  split_ifs at hfails <;> rw [← Except.error.inj hfails] <;> rfl

/-- Separators do not count, once they are in their places. -/
theorem DecimalNumber.exists_plain (n : DecimalNumber) :
    ∃ n' : DecimalNumber, n'.text = dropSeparators n.text ∧ n'.value = n.value := by
  refine Literal.floatingValue_eq_ok_iff.mp (Eq.trans ?_ n.floatingValue_text)
  rw [Literal.floatingValue, Literal.floatingValue, Digits.wellSeparated_dropSeparators,
    Digits.dropSeparators_dropSeparators, n.wellSeparated_text]

/-! ## The characters of a number -/

/-- What holds of the digits and of the marks holds of all characters of a number. -/
theorem DecimalNumber.of_mem_text {P : Char → Prop}
    (hdigits : ∀ digit < 10, P digit.digitChar ∧ P digit.digitChar.toUpper)
    (hseparator : P separator) (hpoint : P '.') (hsigns : P '+' ∧ P '-') (hmarks : P 'e' ∧ P 'E')
    (n : DecimalNumber) {c : Char} (hmem : c ∈ n.text) : P c := by
  obtain ⟨m, exponent, hmarked⟩ := n
  rw [text, m.text_eq, List.mem_append, List.mem_append] at hmem
  obtain ⟨hwhole, hfraction⟩ := m.of_mem_parts hdigits hseparator
  rcases hmem with (hmem | hmem) | hmem
  · exact hwhole c hmem
  · rcases DecimalText.mem_behind hmem with rfl | hmem
    · exact hpoint
    · exact hfraction c hmem
  · rcases exponent with - | ⟨mark, sign, run, hmark⟩
    · cases hmem
    · rcases List.mem_cons.mp hmem with rfl | hmem
      · exact hmark.elim (· ▸ hmarks.1) (· ▸ hmarks.2)
      · rcases List.mem_append.mp hmem with hmem | hmem
        · cases sign with
          | absent => cases hmem
          | plus => exact List.mem_singleton.mp hmem ▸ hsigns.1
          | minus => exact List.mem_singleton.mp hmem ▸ hsigns.2
        · exact run.of_mem_text hdigits hseparator hmem

theorem DecimalNumber.not_isFloatingSuffixChar (n : DecimalNumber) {c : Char} (hmem : c ∈ n.text) :
    Literal.isFloatingSuffixChar c = false :=
  n.of_mem_text (P := (Literal.isFloatingSuffixChar · = false)) (by decide) (by decide) (by decide)
    (by decide) (by decide) hmem

end DeclAnalysis
