import DeclAnalysis.Literal.Character
import DeclAnalysis.Proofs.Literal.Numeral
import Mathlib.Data.List.Forall2

/-!
# The grammar of character bodies

The text between the quotes of a character literal is a sequence of tokens: single characters,
escapes of one letter, octal and hexadecimal escapes, and universal character names. A `CharToken`
holds the parts of a token with the proofs that they are what they should be; `text` is how it is
written, and `unit` is what it stands for.

Nothing marks the end of an escape that is written with digits. It ends where no digit follows, or,
if it is octal, after three digits at the latest. So whether a text is such a token depends on the
text behind it (`EndsAt`), and a body is a sequence of tokens each of which ends at the text of the
next ones (`Spells`).

A scanner looks at a bounded number of characters, takes the digits in front and drops them. What it
has taken is a run in the sense of the grammar (`Run.takeWhile_take_append`), and every text has
such a run in front (`exists_run`). With these two, one unit that is read is one token, in both
directions (`CharToken.exists_read`, `CharToken.exists_of_read`), and a whole body follows by
induction. Since reading gives one answer, a body has only one sequence of tokens.
-/

namespace DeclAnalysis

/-! ## Runs of digits -/

namespace Digits

/-- Digits of a base with their values, most significant first. -/
structure Run (radix : Nat) where
  /-- The digits as they are written. -/
  chars : List Char
  /-- The values of the digits. -/
  values : List Nat
  isDigit : List.Forall₂ (IsDigit radix) values chars

/-- No digit of the base stands in front of a text. -/
def EndsAt (radix : Nat) (text : List Char) : Prop :=
  ∀ c ∈ text.head?, ∀ d, ¬ IsDigit radix d c

namespace Run

variable {radix : Nat}

/-- The positional value of the digits. -/
def value (r : Run radix) : Nat := Nat.ofDigits radix r.values.reverse

/-- The run without digits. -/
def nil : Run radix := ⟨[], [], .nil⟩

/-- A run with one more digit in front. -/
def cons {c : Char} {d : Nat} (hdigit : IsDigit radix d c) (r : Run radix) : Run radix :=
  ⟨c :: r.chars, d :: r.values, .cons hdigit r.isDigit⟩

@[simp] theorem chars_cons {c : Char} {d : Nat} (hdigit : IsDigit radix d c) (r : Run radix) :
    (cons hdigit r).chars = c :: r.chars := rfl

private theorem value_lt (hradix : 1 < radix) (r : Run radix) :
    r.value < radix ^ r.chars.length := by
  obtain ⟨chars, values, hdigits⟩ := r
  have hvalues : ∀ d ∈ values, d < radix := ((List.forall₂_and_left _ _).mp hdigits).1
  rw [← hdigits.length_eq, ← List.length_reverse]
  exact Nat.ofDigits_lt_base_pow_length hradix fun d hd ↦ hvalues d (List.mem_reverse.mp hd)

theorem exists_eq_cons {r : Run radix} {c : Char} {rest : List Char}
    (hchars : r.chars = c :: rest) :
    ∃ (d : Nat) (hdigit : IsDigit radix d c) (r' : Run radix),
      r'.chars = rest ∧ r = cons hdigit r' := by
  obtain ⟨chars, values, hdigits⟩ := r
  obtain rfl : chars = c :: rest := hchars
  rcases hdigits with - | @⟨d, -, values, -, hdigit, hrest⟩
  exact ⟨d, hdigit, ⟨rest, values, hrest⟩, rfl, rfl⟩

section Sixteen

variable (hradix : radix ≤ 16) (r : Run radix)

include hradix

private theorem isDigitOf_of_mem {c : Char} (hmem : c ∈ r.chars) : isDigitOf radix c = true := by
  obtain ⟨chars, values, hdigits⟩ := r
  induction hdigits with
  | nil => exact absurd hmem List.not_mem_nil
  | cons hdigit hrest ih =>
    rcases List.mem_cons.mp hmem with rfl | hmem
    · exact (isDigitOf_iff hradix).mpr ⟨_, hdigit⟩
    · exact ih hmem

private theorem number_chars : number radix r.chars = r.value := by
  have hvalues : r.chars.filterMap (value? radix) = r.values := by
    obtain ⟨chars, values, hdigits⟩ := r
    induction hdigits with
    | nil => rfl
    | cons hdigit hrest ih =>
      exact (List.filterMap_cons_some ((value?_eq_some_iff hradix).mpr hdigit)).trans
        (congrArg _ ih)
  rw [number, hvalues, foldl_eq_ofDigits, value]

private theorem takeWhile_take_append {limit : Nat} {rest : List Char}
    (hle : r.chars.length ≤ limit) (hends : r.chars.length < limit → EndsAt radix rest) :
    ((r.chars ++ rest).take limit).takeWhile (isDigitOf radix) = r.chars := by
  rw [List.take_append, List.take_of_length_le hle,
    List.takeWhile_append_of_pos fun c ↦ r.isDigitOf_of_mem hradix]
  rcases rest with - | ⟨c, rest⟩
  · simp
  · rcases hle.eq_or_lt with heq | hlt
    · simp [heq]
    · have hno : isDigitOf radix c = false := by
        rw [← Bool.not_eq_true, isDigitOf_iff hradix]
        rintro ⟨d, hdigit⟩
        exact hends hlt c rfl d hdigit
      obtain ⟨k, hk⟩ : ∃ k, limit - r.chars.length = k + 1 := ⟨_, (Nat.succ_pred (by omega)).symm⟩
      simp [hk, hno]

private theorem takeWhile_append {rest : List Char} (hends : EndsAt radix rest) :
    (r.chars ++ rest).takeWhile (isDigitOf radix) = r.chars := by
  have hle : r.chars.length ≤ (r.chars ++ rest).length := by simp
  have hscan := r.takeWhile_take_append hradix hle fun _ ↦ hends
  rwa [List.take_length] at hscan

end Sixteen

end Run

/-- Every text has a run in front, which ends before a limit only if no digit follows. -/
theorem exists_run (radix limit : Nat) (text : List Char) :
    ∃ (r : Run radix) (rest : List Char), text = r.chars ++ rest ∧ r.chars.length ≤ limit ∧
      (r.chars.length < limit → EndsAt radix rest) := by
  induction text generalizing limit with
  | nil => exact ⟨.nil, [], rfl, Nat.zero_le _, fun _ ↦ nofun⟩
  | cons c text ih =>
    rcases limit with - | limit
    · exact ⟨.nil, c :: text, rfl, Nat.le_refl _, fun hlt ↦ absurd hlt (Nat.lt_irrefl _)⟩
    · by_cases hdigit : ∃ d, IsDigit radix d c
      · obtain ⟨d, hdigit⟩ := hdigit
        obtain ⟨r, rest, rfl, hle, hends⟩ := ih limit
        exact ⟨.cons hdigit r, rest, rfl, Nat.succ_le_succ hle,
          fun hlt ↦ hends (Nat.lt_of_succ_lt_succ hlt)⟩
      · refine ⟨.nil, c :: text, rfl, Nat.zero_le _, fun _ c' hc' d hd ↦ hdigit ⟨d, ?_⟩⟩
        rwa [Option.some.inj hc']

private theorem exists_maximal_run (radix : Nat) (text : List Char) :
    ∃ (r : Run radix) (rest : List Char), text = r.chars ++ rest ∧ EndsAt radix rest := by
  obtain ⟨r, rest, rfl, -, hends⟩ := exists_run radix (text.length + 1) text
  exact ⟨r, rest, rfl, hends (by rw [List.length_append]; omega)⟩

end Digits

open Digits (Run EndsAt IsDigit)

/-! ## Reading escapes -/

namespace CharUnit

/-- A character is a Unicode scalar value, and a raw value has 32 bits. -/
def WellFormed : CharUnit → Prop
  | .character code => code.isValidChar
  | .raw value => value < 2 ^ 32

/-- The escapes of one letter, with their codes. -/
def simpleEscapes : List (Char × Nat) :=
  [('\'', 0x27), ('"', 0x22), ('?', 0x3F), ('\\', 0x5C), ('a', 0x07), ('b', 0x08), ('f', 0x0C),
    ('n', 0x0A), ('r', 0x0D), ('t', 0x09), ('v', 0x0B)]

private theorem simpleEscape?_eq_some_iff {letter : Char} {code : Nat} :
    simpleEscape? letter = some code ↔ (letter, code) ∈ simpleEscapes := by
  constructor
  · intro hcode
    rw [simpleEscape?.eq_def] at hcode
    split at hcode <;> cases hcode <;> decide
  · intro hmem
    have hall : ∀ e ∈ simpleEscapes, simpleEscape? e.1 = some e.2 := by decide
    exact hall _ hmem

private theorem simpleEscape?_of_isDigit {c : Char} {d : Nat} (hdigit : IsDigit 8 d c) :
    simpleEscape? c = none :=
  hdigit.of_forall 8 (simpleEscape? · = none) (by decide) le_rfl

private theorem readOctal_append {c : Char} {d : Nat} (hdigit : IsDigit 8 d c) {r : Run 8}
    {rest : List Char} (hle : r.chars.length ≤ 2) (hends : r.chars.length < 2 → EndsAt 8 rest) :
    readOctal c (r.chars ++ rest) = (.raw (r.cons hdigit).value, rest) := by
  have hnumber := (r.cons hdigit).number_chars (by decide)
  rw [Run.chars_cons] at hnumber
  rw [readOctal, r.takeWhile_take_append (by decide) hle hends, hnumber, List.drop_left]

private theorem readHex_append {r : Run 16} {rest : List Char} (hends : EndsAt 16 rest) :
    readHex (r.chars ++ rest) =
      if r.chars.isEmpty then .error (.escapeDigitCount 'x' 1 0)
      else if r.value < 2 ^ 32 then .ok (.raw r.value, rest)
      else .error (.escapeOutOfRange 0xFFFFFFFF) := by
  rw [readHex, r.takeWhile_append le_rfl hends, r.number_chars le_rfl, List.drop_left, Nat.pow_eq]

private theorem readUniversal_append {escape : Char} {expected : Nat} {r : Run 16}
    {rest : List Char}
    (hle : r.chars.length ≤ expected + 1) (hends : r.chars.length < expected + 1 → EndsAt 16 rest) :
    readUniversal escape expected (r.chars ++ rest) =
      if r.chars.length ≠ expected then
        .error (.escapeDigitCount escape expected r.chars.length)
      else if r.value.isValidChar then .ok (.character r.value, rest)
      else .error (.invalidCodePoint r.value) := by
  rw [readUniversal, r.takeWhile_take_append le_rfl hle hends, r.number_chars le_rfl,
    List.drop_left]

end CharUnit

/-! ## Tokens -/

/-- A token of the body of a character literal. -/
inductive CharToken where
  /-- A character for itself. -/
  | plain (c : Char) (hplain : c ∉ ['\\', '\'', '\n'])
  /-- An escape of one letter. -/
  | simple (letter : Char) (code : Nat) (hcode : (letter, code) ∈ CharUnit.simpleEscapes)
  /-- An octal escape. -/
  | octal (digits : Run 8) (hlength : 1 ≤ digits.chars.length ∧ digits.chars.length ≤ 3)
  /-- A hexadecimal escape. -/
  | hex (digits : Run 16) (hlength : 1 ≤ digits.chars.length) (hvalue : digits.value < 2 ^ 32)
  /-- A universal character name, by the scalar value of the character. -/
  | universal (mark : Char) (digits : Run 16)
      (hmark : (mark, digits.chars.length) ∈ [('u', 4), ('U', 8)])
      (hvalue : digits.value.isValidChar)

namespace CharToken

/-- How a token is written. -/
def text : CharToken → List Char
  | .plain c _ => [c]
  | .simple letter _ _ => ['\\', letter]
  | .octal digits _ => '\\' :: digits.chars
  | .hex digits _ _ => '\\' :: 'x' :: digits.chars
  | .universal mark digits _ _ => '\\' :: mark :: digits.chars

/-- What a token stands for. -/
def unit : CharToken → CharUnit
  | .plain c _ => .character c.toNat
  | .simple _ code _ => .character code
  | .octal digits _ => .raw digits.value
  | .hex digits _ _ => .raw digits.value
  | .universal _ digits _ _ => .character digits.value

/-- A text behind a token does not continue it. -/
def EndsAt : CharToken → List Char → Prop
  | .plain _ _, _ => True
  | .simple _ _ _, _ => True
  | .octal digits _, rest => digits.chars.length < 3 → Digits.EndsAt 8 rest
  | .hex _ _ _, rest => Digits.EndsAt 16 rest
  | .universal _ _ _ _, rest => Digits.EndsAt 16 rest

/-- A body is written by the tokens, each of which ends at the text of the next ones. -/
def Spells : List CharToken → List Char → Prop
  | [], body => body = []
  | t :: tokens, body => ∃ rest, body = t.text ++ rest ∧ t.EndsAt rest ∧ Spells tokens rest

/-! ## One unit -/

private theorem wellFormed_unit (t : CharToken) : t.unit.WellFormed := by
  cases t with
  | plain c hplain => exact c.valid
  | simple letter code hcode =>
    have hall : ∀ e ∈ CharUnit.simpleEscapes, e.2.isValidChar := by decide
    exact hall _ hcode
  | octal digits hlength =>
    calc digits.value < 8 ^ digits.chars.length := digits.value_lt (by decide)
      _ ≤ 8 ^ 3 := Nat.pow_le_pow_right (by decide) hlength.2
      _ < 2 ^ 32 := by decide
  | hex digits hlength hvalue => exact hvalue
  | universal mark digits hmark hvalue => exact hvalue

/-- A token is read as its unit, and what follows is left. -/
private theorem exists_read {t : CharToken} {rest : List Char} (hends : t.EndsAt rest) :
    ∃ c others, t.text = c :: others ∧
      CharUnit.read c (others ++ rest) = .ok (t.unit, rest) := by
  cases t with
  | plain c hplain =>
    refine ⟨c, [], rfl, ?_⟩
    simp only [List.mem_cons, List.not_mem_nil, or_false, not_or] at hplain
    rw [CharUnit.read.eq_def, if_neg hplain.1, if_neg (not_or.mpr hplain.2)]
    rfl
  | simple letter code hcode =>
    refine ⟨'\\', [letter], rfl, ?_⟩
    change CharUnit.readEscape letter rest = _
    rw [CharUnit.readEscape, CharUnit.simpleEscape?_eq_some_iff.mpr hcode]
    rfl
  | octal digits hlength =>
    refine ⟨'\\', digits.chars, rfl, ?_⟩
    -- the first digit is taken for the letter of the escape, and at most two are scanned for
    obtain ⟨c, others, hchars⟩ := List.exists_cons_of_length_pos hlength.1
    obtain ⟨d, hdigit, r, rfl, rfl⟩ := Run.exists_eq_cons hchars
    change CharUnit.readEscape c (r.chars ++ rest) = _
    rw [Run.chars_cons, List.length_cons] at hlength
    rw [CharUnit.readEscape, CharUnit.simpleEscape?_of_isDigit hdigit]
    dsimp only
    rw [if_pos ((Digits.isDigitOf_iff (by decide)).mpr ⟨d, hdigit⟩),
      CharUnit.readOctal_append hdigit (by omega) fun hlt ↦ hends (Nat.succ_lt_succ hlt)]
    rfl
  | hex digits hlength hvalue =>
    refine ⟨'\\', 'x' :: digits.chars, rfl, ?_⟩
    change CharUnit.readHex (digits.chars ++ rest) = _
    have hne : digits.chars.isEmpty = false := by
      rw [List.isEmpty_eq_false_iff]
      exact List.ne_nil_of_length_pos hlength
    have hfits : digits.value < 2 ^ 32 := hvalue
    rw [CharUnit.readHex_append hends, hne, if_neg Bool.false_ne_true, if_pos hfits]
    rfl
  | universal mark digits hmark hvalue =>
    refine ⟨'\\', mark :: digits.chars, rfl, ?_⟩
    have hread (expected : Nat) (hlength : digits.chars.length = expected) :
        CharUnit.readUniversal mark expected (digits.chars ++ rest) =
          .ok (.character digits.value, rest) := by
      rw [CharUnit.readUniversal_append (by omega) fun _ ↦ hends, if_neg (not_not.mpr hlength),
        if_pos hvalue]
    simp only [List.mem_cons, Prod.mk.injEq, List.not_mem_nil, or_false] at hmark
    rcases hmark with ⟨rfl, hlength⟩ | ⟨rfl, hlength⟩
    · exact hread 4 hlength
    · exact hread 8 hlength

private theorem exists_of_readUniversal {mark : Char} {expected : Nat}
    (hmark : (mark, expected) ∈ [('u', 4), ('U', 8)]) {rest rest' : List Char} {u : CharUnit}
    (hread : CharUnit.readUniversal mark expected rest = .ok (u, rest')) :
    ∃ t : CharToken, '\\' :: mark :: rest = t.text ++ rest' ∧ t.EndsAt rest' ∧ t.unit = u := by
  obtain ⟨r, tail, rfl, hle, hends⟩ := Digits.exists_run 16 (expected + 1) rest
  rw [CharUnit.readUniversal_append hle hends] at hread
  split_ifs at hread with hlength hvalue
  -- the scan goes one digit further than it should, so a run of the right length ends by itself
  obtain rfl : r.chars.length = expected := not_not.mp hlength
  cases hread
  exact ⟨.universal mark r hmark hvalue, rfl, hends (Nat.lt_succ_self _), rfl⟩

private theorem exists_of_readEscape {escape : Char} {rest rest' : List Char} {u : CharUnit}
    (hread : CharUnit.readEscape escape rest = .ok (u, rest')) :
    ∃ t : CharToken, '\\' :: escape :: rest = t.text ++ rest' ∧ t.EndsAt rest' ∧ t.unit = u := by
  rw [CharUnit.readEscape] at hread
  split at hread
  · next code hcode =>
    cases hread
    exact ⟨.simple escape code (CharUnit.simpleEscape?_eq_some_iff.mp hcode), rfl, trivial, rfl⟩
  · split_ifs at hread with hoctal hx hu hU
    · obtain ⟨d, hdigit⟩ := (Digits.isDigitOf_iff (by decide)).mp hoctal
      obtain ⟨r, tail, rfl, hle, hends⟩ := Digits.exists_run 8 2 rest
      rw [CharUnit.readOctal_append hdigit hle hends] at hread
      cases hread
      exact ⟨.octal (r.cons hdigit) ⟨Nat.succ_pos _, Nat.succ_le_succ hle⟩, rfl,
        fun hlt ↦ hends (Nat.lt_of_succ_lt_succ hlt), rfl⟩
    · obtain ⟨r, tail, rfl, hends⟩ := Digits.exists_maximal_run 16 rest
      rw [CharUnit.readHex_append hends] at hread
      split_ifs at hread with hempty hvalue
      cases hread
      have hlength : 1 ≤ r.chars.length :=
        List.length_pos_of_ne_nil fun hnil ↦ hempty (List.isEmpty_iff.mpr hnil)
      exact ⟨.hex r hlength hvalue, by rw [hx]; rfl, hends, rfl⟩
    · exact exists_of_readUniversal (by simp [hu]) hread
    · exact exists_of_readUniversal (by simp [hU]) hread

/-- A unit that is read is a token in front of the text. -/
private theorem exists_of_read {c : Char} {rest rest' : List Char} {u : CharUnit}
    (hread : CharUnit.read c rest = .ok (u, rest')) :
    ∃ t : CharToken, c :: rest = t.text ++ rest' ∧ t.EndsAt rest' ∧ t.unit = u := by
  rw [CharUnit.read.eq_def] at hread
  split_ifs at hread with hescape hquote
  · subst hescape
    split at hread
    · cases hread
    · exact exists_of_readEscape hread
  · cases hread
    have hplain : c ∉ ['\\', '\'', '\n'] := by
      simp only [List.mem_cons, List.not_mem_nil, or_false, not_or]
      exact ⟨hescape, not_or.mp hquote⟩
    exact ⟨.plain c hplain, rfl, trivial, rfl⟩

private theorem eq_of_append_eq {t t' : CharToken} {rest rest' : List Char} (hends : t.EndsAt rest)
    (hends' : t'.EndsAt rest') (htext : t.text ++ rest = t'.text ++ rest') :
    t.text = t'.text ∧ t.unit = t'.unit ∧ rest = rest' := by
  obtain ⟨c, others, hc, hread⟩ := exists_read hends
  obtain ⟨c', others', hc', hread'⟩ := exists_read hends'
  rw [hc, hc', List.cons_append, List.cons_append, List.cons.injEq] at htext
  obtain ⟨rfl, hothers⟩ := htext
  rw [hothers, hread', Except.ok.injEq, Prod.mk.injEq] at hread
  obtain ⟨hunit, rfl⟩ := hread
  exact ⟨by rw [hc, hc', List.append_cancel_right hothers], hunit.symm, rfl⟩

/-! ## Whole bodies -/

private theorem readAll_cons_of_ok {c : Char} {rest rest' : List Char} {u : CharUnit}
    (hread : CharUnit.read c rest = .ok (u, rest')) :
    CharUnit.readAll (c :: rest) = (CharUnit.readAll rest').map (u :: ·) := by
  rw [CharUnit.readAll]
  split
  · next fault hfault => rw [hread] at hfault; cases hfault
  · next u' tail hok =>
    rw [hread] at hok
    cases hok
    rfl

private theorem readAll_of_spells {tokens : List CharToken} {body : List Char}
    (hspells : Spells tokens body) : CharUnit.readAll body = .ok (tokens.map unit) := by
  induction tokens generalizing body with
  | nil =>
    obtain rfl : body = [] := hspells
    rw [CharUnit.readAll]
    rfl
  | cons t tokens ih =>
    obtain ⟨rest, rfl, hends, hrest⟩ := hspells
    obtain ⟨c, others, hc, hread⟩ := exists_read hends
    rw [hc, List.cons_append, readAll_cons_of_ok hread, ih hrest]
    rfl

private theorem exists_spells_of_readAll {body : List Char} {units : List CharUnit}
    (hread : CharUnit.readAll body = .ok units) :
    ∃ tokens, Spells tokens body ∧ tokens.map unit = units := by
  fun_induction CharUnit.readAll body generalizing units with
  | case1 =>
    cases hread
    exact ⟨[], rfl, rfl⟩
  | case2 c rest fault hfault => cases hread
  | case3 c rest u rest' hok ih =>
    obtain ⟨t, htext, hends, rfl⟩ := exists_of_read hok
    rcases hrest : CharUnit.readAll rest' with fault | others
    · rw [hrest] at hread
      cases hread
    · rw [hrest] at hread
      cases hread
      obtain ⟨tokens, hspells, rfl⟩ := ih hrest
      exact ⟨t :: tokens, ⟨rest', htext, hends, hspells⟩, rfl⟩

theorem wellFormed_of_readAll {body : List Char} {units : List CharUnit}
    (hread : CharUnit.readAll body = .ok units) {u : CharUnit} (hu : u ∈ units) :
    u.WellFormed := by
  obtain ⟨tokens, -, rfl⟩ := exists_spells_of_readAll hread
  obtain ⟨t, -, rfl⟩ := List.mem_map.mp hu
  exact t.wellFormed_unit

/-- A body is written by tokens in one way only. -/
private theorem map_text_eq_of_spells {tokens tokens' : List CharToken} {body : List Char}
    (hspells : Spells tokens body) (hspells' : Spells tokens' body) :
    tokens.map text = tokens'.map text := by
  have hne (t : CharToken) (rest : List Char) : t.text ++ rest ≠ [] := by cases t <;> nofun
  induction tokens generalizing tokens' body with
  | nil =>
    obtain rfl : body = [] := hspells
    rcases tokens' with - | ⟨t', tokens'⟩
    · rfl
    · obtain ⟨rest', hnil, -⟩ := hspells'
      exact absurd hnil.symm (hne t' rest')
  | cons t tokens ih =>
    obtain ⟨rest, rfl, hends, hrest⟩ := hspells
    rcases tokens' with - | ⟨t', tokens'⟩
    · exact absurd hspells' (hne t rest)
    · obtain ⟨rest', htext, hends', hrest'⟩ := hspells'
      obtain ⟨hhead, -, rfl⟩ := eq_of_append_eq hends hends' htext
      rw [List.map_cons, List.map_cons, hhead, ih hrest hrest']

end CharToken

/-- **Character bodies are read by their grammar.** A body is read as a list of units exactly if it
is written by tokens that stand for these units, in their order. It is written in at most one way,
and a body that is not written by tokens has a fault. -/
theorem character_body_read_by_grammar (body : List Char) :
    (∀ units, CharUnit.readAll body = .ok units ↔
        ∃ tokens, CharToken.Spells tokens body ∧ tokens.map CharToken.unit = units) ∧
      (∀ tokens tokens', CharToken.Spells tokens body → CharToken.Spells tokens' body →
        tokens.map CharToken.text = tokens'.map CharToken.text) ∧
      ((¬ ∃ tokens, CharToken.Spells tokens body) ↔
        ∃ fault, CharUnit.readAll body = .error fault) := by
  refine ⟨fun units ↦ ⟨CharToken.exists_spells_of_readAll, ?_⟩,
    fun tokens tokens' ↦ CharToken.map_text_eq_of_spells, ?_⟩
  · rintro ⟨tokens, hspells, rfl⟩
    exact CharToken.readAll_of_spells hspells
  · rcases hread : CharUnit.readAll body with fault | units
    · refine ⟨fun _ ↦ ⟨fault, rfl⟩, ?_⟩
      rintro - ⟨tokens, hspells⟩
      rw [CharToken.readAll_of_spells hspells] at hread
      cases hread
    · obtain ⟨tokens, hspells, -⟩ := CharToken.exists_spells_of_readAll hread
      exact ⟨fun hno ↦ absurd ⟨tokens, hspells⟩ hno, nofun⟩

/-- An octal escape ends after its third digit, and a hexadecimal one in front of another letter. -/
example : CharUnit.readAll ['\\', '1', '0', '1', '1', '\\', 'x', 'A', 'g'] =
    .ok [.raw 65, .character 49, .raw 10, .character 103] := by
  decide +kernel

end DeclAnalysis
