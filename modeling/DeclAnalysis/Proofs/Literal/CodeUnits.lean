import DeclAnalysis.Proofs.Literal.CharacterBody
import DeclAnalysis.Proofs.Literal.IntegerSpelling
import DeclAnalysis.Proofs.Literal.Value
import Mathlib.Data.Int.ModEq

/-!
# Code units of character literals

An encoding turns the units of a body into code units, and the code units make the value. In a byte
encoding a character is spread over the bytes of its UTF-8 form. The encoder passes over the
characters up to `0x7F`, which are their own UTF-8 form, so that `CharUnit.bytes` describes all
characters alike. In the other encodings a unit is one code unit.

Only raw values are held against the limit of a code unit (`Fits`). For the other units the limit
follows from the encoding in three cases out of four. A byte encoding makes bytes, and the limit of
`U` and `L` is beyond all characters. The limit of `u` is not: a character past `0xFFFF`, which
takes two code units in UTF-16, counts as one, and its value is beyond the limit.
-/

namespace DeclAnalysis

/-! ## Bytes -/

namespace CharUnit

/-- The bytes of a unit: a raw value is a byte, and a character has the bytes of its UTF-8 form. -/
def bytes : CharUnit → List Nat
  | .raw value => [value]
  | .character code => (String.utf8EncodeChar (Char.ofNat code)).map UInt8.toNat

/-- The number that a unit is given by. -/
def code : CharUnit → Nat
  | .raw value => value
  | .character code => code

private theorem toNat_val_ofNat {code : Nat} (hvalid : code.isValidChar) :
    (Char.ofNat code).val.toNat = code := by
  rw [Char.ofNat, dif_pos hvalid]
  rfl

private theorem bytes_of_le {code : Nat} (hascii : code ≤ 0x7F) :
    (character code).bytes = [code] := by
  have hval : (Char.ofNat code).val.toNat = code := toNat_val_ofNat (.inl (by omega))
  have hsize : (Char.ofNat code).utf8Size = 1 := by
    rw [Char.utf8Size_eq_one_iff, UInt32.le_iff_toNat_le, hval]
    exact hascii
  rw [bytes, String.utf8EncodeChar_eq_singleton hsize, List.map_singleton, UInt32.toNat_toUInt8,
    hval, Nat.mod_eq_of_lt (by omega)]

private theorem one_lt_length_bytes {code : Nat} (hvalid : code.isValidChar)
    (hlarge : 0x7F < code) : 1 < (character code).bytes.length := by
  have hsize : (Char.ofNat code).utf8Size ≠ 1 := by
    rw [Ne, Char.utf8Size_eq_one_iff, UInt32.le_iff_toNat_le, toNat_val_ofNat hvalid]
    exact Nat.not_le.mpr hlarge
  have hpos := (Char.ofNat code).utf8Size_pos
  rw [bytes, List.length_map, String.length_utf8EncodeChar]
  omega

private theorem bytes_ne_nil (u : CharUnit) : u.bytes ≠ [] := by
  cases u with
  | raw value => exact List.cons_ne_nil value []
  | character code =>
    rw [bytes, ← List.length_pos_iff, List.length_map, String.length_utf8EncodeChar]
    exact Char.utf8Size_pos _

end CharUnit

/-! ## Encoding -/

namespace CharEncoding

variable {e : CharEncoding} {units : List CharUnit}

/-- The raw values among some units are within the limit of a code unit. -/
def Fits (e : CharEncoding) (units : List CharUnit) : Prop :=
  ∀ value, .raw value ∈ units → value ≤ e.unitLimit

/-- The code units that a unit is spread over. -/
def spread (e : CharEncoding) (u : CharUnit) : List Nat := if e.isByte then u.bytes else [u.code]

private theorem spread_ne_nil (e : CharEncoding) (u : CharUnit) : e.spread u ≠ [] := by
  rw [spread]
  split
  · exact u.bytes_ne_nil
  · exact List.cons_ne_nil _ _

private theorem fits_cons {u : CharUnit} : e.Fits (u :: units) ↔ e.Fits [u] ∧ e.Fits units := by
  simp only [Fits, List.mem_cons, List.not_mem_nil, or_false, or_imp, forall_and]

/-- A unit is spread over code units. The characters that the encoder passes over are their own
UTF-8 form. -/
private theorem codeUnits_of_fits {u : CharUnit} (hfits : e.Fits [u]) :
    e.codeUnits u = .ok (e.spread u) := by
  rw [spread]
  cases u with
  | raw value =>
    rw [codeUnits, if_neg (Nat.not_lt.mpr (hfits value List.mem_cons_self))]
    split <;> rfl
  | character code =>
    rw [codeUnits]
    rcases e.isByte with - | -
    · rfl
    · by_cases hlarge : 0x7F < code
      · rw [decide_eq_true hlarge]
        rfl
      · rw [decide_eq_false hlarge, CharUnit.bytes_of_le (Nat.not_lt.mp hlarge)]
        rfl

private theorem exists_codeUnits_eq_error {u : CharUnit} (hlarge : ¬ e.Fits [u]) :
    ∃ value, u = .raw value ∧ e.unitLimit < value ∧
      e.codeUnits u = .error (.escapeOutOfRange value) := by
  simp only [Fits, List.mem_singleton, not_forall] at hlarge
  obtain ⟨value, rfl, hlt⟩ := hlarge
  exact ⟨value, rfl, Nat.not_le.mp hlt, if_pos (Nat.not_le.mp hlt)⟩

private theorem encode_of_fits (hfits : e.Fits units) :
    e.encode units = .ok (units.flatMap e.spread) := by
  induction units with
  | nil => rfl
  | cons u rest ih =>
    obtain ⟨hu, hrest⟩ := fits_cons.mp hfits
    rw [encode, codeUnits_of_fits hu, ih hrest]
    rfl

private theorem exists_encode_eq_error (hlarge : ¬ e.Fits units) :
    ∃ value, .raw value ∈ units ∧ e.unitLimit < value ∧
      e.encode units = .error (.escapeOutOfRange value) := by
  induction units with
  | nil => exact absurd (fun value hmem ↦ absurd hmem List.not_mem_nil) hlarge
  | cons u rest ih =>
    by_cases hu : e.Fits [u]
    · obtain ⟨value, hmem, hlt, herror⟩ := ih fun hrest ↦ hlarge (fits_cons.mpr ⟨hu, hrest⟩)
      refine ⟨value, List.mem_cons_of_mem _ hmem, hlt, ?_⟩
      rw [encode, codeUnits_of_fits hu, herror]
      rfl
    · obtain ⟨value, rfl, hlt, herror⟩ := exists_codeUnits_eq_error hu
      refine ⟨value, List.mem_cons_self, hlt, ?_⟩
      rw [encode, herror]

private theorem of_encode_eq_ok {values : List Nat} (hok : e.encode units = .ok values) :
    e.Fits units ∧ values = units.flatMap e.spread := by
  have hfits : e.Fits units := by
    by_contra hlarge
    obtain ⟨value, -, -, herror⟩ := exists_encode_eq_error hlarge
    rw [herror] at hok
    cases hok
  rw [encode_of_fits hfits, Except.ok.injEq] at hok
  exact ⟨hfits, hok.symm⟩

private theorem exists_of_flatMap_spread {v : Nat} (hsingle : units.flatMap e.spread = [v]) :
    ∃ u, units = [u] ∧ e.spread u = [v] := by
  rcases units with - | ⟨u, rest⟩
  · exact absurd hsingle nofun
  · rw [List.flatMap_cons, List.append_eq_singleton_iff] at hsingle
    rcases hsingle with ⟨hnil, -⟩ | ⟨hu, hrest⟩
    · exact absurd hnil (e.spread_ne_nil u)
    · rw [List.flatMap_eq_nil_iff] at hrest
      have hnone : rest = [] := List.eq_nil_iff_forall_not_mem.mpr fun u' hu' ↦
        e.spread_ne_nil u' (hrest u' hu')
      exact ⟨u, by rw [hnone], hu⟩

private theorem le_of_spread_eq {code v : Nat} (hbyte : e.isByte = true) (hvalid : code.isValidChar)
    (hsingle : e.spread (.character code) = [v]) : code ≤ 0x7F := by
  by_contra hlarge
  have hlength := CharUnit.one_lt_length_bytes hvalid (Nat.not_le.mp hlarge)
  rw [spread, if_pos hbyte] at hsingle
  rw [hsingle] at hlength
  exact absurd hlength (Nat.lt_irrefl 1)

private theorem code_eq_of_spread_eq {u : CharUnit} {v : Nat} (hu : u.WellFormed)
    (hsingle : e.spread u = [v]) : u.code = v := by
  rcases hbyte : e.isByte with - | -
  · rw [spread, hbyte] at hsingle
    exact (List.cons.inj hsingle).1
  · cases u with
    | raw value =>
      rw [spread, hbyte] at hsingle
      exact (List.cons.inj hsingle).1
    | character code =>
      -- a longer UTF-8 form would make more than one code unit
      have hascii := le_of_spread_eq hbyte hu hsingle
      rw [spread, if_pos hbyte, CharUnit.bytes_of_le hascii] at hsingle
      exact (List.cons.inj hsingle).1

/-- A unit that makes one code unit is within the limit, unless it is a character past `0xFFFF` in
UTF-16. -/
private theorem code_le_unitLimit {u : CharUnit} {v : Nat} (hu : u.WellFormed) (hfits : e.Fits [u])
    (hsingle : e.spread u = [v]) :
    u.code ≤ e.unitLimit ∨
      e = .utf16 ∧ ∃ code, u = .character code ∧ 0xFFFF < code ∧ code ≤ 0x10FFFF := by
  cases u with
  | raw value => exact .inl (hfits value List.mem_cons_self)
  | character code =>
    have hscalar : code ≤ 0x10FFFF := by
      rcases hu with hlow | ⟨-, hhigh⟩ <;> omega
    cases e with
    | narrow | utf8 =>
      have hascii := le_of_spread_eq rfl hu hsingle
      exact .inl (hascii.trans (by decide))
    | utf16 =>
      rcases Nat.lt_or_ge 0xFFFF code with hlarge | hsmall
      · exact .inr ⟨rfl, code, rfl, hlarge, hscalar⟩
      · exact .inl hsmall
    | utf32 | wide => exact .inl (hscalar.trans (by decide))

end CharEncoding

/-! ## Packing -/

private theorem packBytes_eq {values : List Nat} (hbytes : ∀ v ∈ values, v < 256) :
    packBytes values = Nat.ofDigits 256 values.reverse % 2 ^ 32 := by
  rw [← Digits.foldl_eq_ofDigits, packBytes]
  induction values using List.reverseRecOn with
  | nil => rfl
  | append_singleton values v ih =>
    rw [List.forall_mem_append, List.forall_mem_singleton] at hbytes
    rw [List.foldl_append, List.foldl_append, ih hbytes.1]
    simp only [List.foldl_cons, List.foldl_nil, Nat.mod_eq_of_lt hbytes.2]
    -- the word is cut at every byte, and the bits that are lost never come back down
    rw [Nat.pow_eq]
    omega

private theorem bmod_packBytes {values : List Nat} (hbytes : ∀ v ∈ values, v < 256) :
    Int.bmod (packBytes values) (2 ^ 32) ≡
      (Nat.ofDigits 256 values.reverse : Nat) [ZMOD 2 ^ 32] := by
  have hword := Int.bmod_emod (x := packBytes values) (m := 2 ^ 32)
  rw [packBytes_eq hbytes] at hword ⊢
  rw [Int.ModEq]
  omega

/-! ## Values -/

namespace Literal

private theorem read_of_character {w : Widths} {l : Literal} (hkind : l.kind = .character)
    (hsuffix : l.suffix.toList <:+ l.text.toList) :
    l.read w = (l.characterMeaning w).mapError fun fault ↦ ⟨l.span, fault⟩ := by
  rw [read, meaning, body?, dropEnding?, if_pos (List.isSuffixOf_iff_suffix.mpr hsuffix), hkind]

private theorem characterMeaning_of_quoted {w : Widths} {l : Literal} {body : List Char}
    {units : List CharUnit} (htext : l.text.toList = '\'' :: body ++ ['\''])
    (hunits : CharUnit.readAll body = .ok units) :
    l.characterMeaning w =
      (CharEncoding.encode .narrow units).bind (codeUnitsMeaning w .narrow) := by
  have hquoted : unquote? ('\'' :: body ++ ['\'']) = some body := dropEnding?_append body ['\'']
  rw [characterMeaning, htext, show CharEncoding.split ('\'' :: body ++ ['\'']) =
    (.narrow, '\'' :: body ++ ['\'']) from rfl]
  simp only [hquoted, hunits]
  rcases CharEncoding.encode .narrow units with fault | values <;> rfl

end Literal

private theorem Widths.charValue_narrow {w : Widths} (hwidth : 0 < w.char) (b : Nat) :
    w.charValue .narrow b =
      if w.charSigned = true ∧ 2 ^ (w.char - 1) ≤ b then (b : Int) - 2 ^ w.char else b := by
  have htwice : (2 * Nat.pow 2 (w.char - 1) : Int) = 2 ^ w.char := by
    obtain ⟨k, hk⟩ : ∃ k, w.char = k + 1 := ⟨_, (Nat.succ_pred hwidth.ne').symm⟩
    rw [hk, Nat.add_sub_cancel, pow_succ, mul_comm]
    simp
  rw [charValue, htwice]
  simp only [CharEncoding.isByte, Bool.true_and, Bool.and_eq_true, decide_eq_true_eq]
  rfl

/-- **Characters without a mark are packed into 32 bits.** Take a character literal in quotes whose
body is read as some units. Its characters are scalar values, so that they have a UTF-8 form. If a
raw value is past `0xFF`, such a value is reported. Otherwise the units have a sequence of bytes,
and

* a literal without bytes is empty;
* a literal of one byte is a `char`, the byte itself or, in the upper half of a signed `char`, the
  byte less `2 ^ w.char`, on every target where a `char` has bits at all;
* a literal of several bytes is an `int`, marked as a literal of several characters. Its value is
  the number of 32 bits with a sign that is congruent to the bytes read as digits in base 256. -/
theorem narrow_character_packed {w : Widths} {l : Literal} {body : List Char}
    {units : List CharUnit} (hkind : l.kind = .character)
    (hsuffix : l.suffix.toList <:+ l.text.toList)
    (htext : l.text.toList = '\'' :: body ++ ['\''])
    (hunits : CharUnit.readAll body = .ok units) :
    (∀ code, .character code ∈ units → code.isValidChar) ∧
    ((∃ value, .raw value ∈ units ∧ 0xFF < value) →
      ∃ value, .raw value ∈ units ∧ 0xFF < value ∧
        l.read w = .error ⟨l.span, .escapeOutOfRange value⟩) ∧
    ((∀ value, .raw value ∈ units → value ≤ 0xFF) →
      (units.flatMap CharUnit.bytes = [] → l.read w = .error ⟨l.span, .emptyCharacter⟩) ∧
      (∀ b, units.flatMap CharUnit.bytes = [b] → 0 < w.char →
        l.read w = .ok ⟨.char .plain, .int (if w.charSigned = true ∧ 2 ^ (w.char - 1) ≤ b
          then (b : Int) - 2 ^ w.char else b), false⟩) ∧
      (2 ≤ (units.flatMap CharUnit.bytes).length →
        ∃ v : Int, l.read w = .ok ⟨.int, .int v, true⟩ ∧ -2 ^ 31 ≤ v ∧ v < 2 ^ 31 ∧
          v ≡ (Nat.ofDigits 256 (units.flatMap CharUnit.bytes).reverse : Nat) [ZMOD 2 ^ 32])) := by
  rw [Literal.read_of_character hkind hsuffix, Literal.characterMeaning_of_quoted htext hunits]
  refine ⟨fun code hmem ↦ CharToken.wellFormed_of_readAll hunits hmem, ?_, ?_⟩
  · rintro ⟨value, hmem, hlarge⟩
    have hnot : ¬ CharEncoding.Fits .narrow units := fun hfits ↦
      absurd (hfits value hmem) (Nat.not_le.mpr hlarge)
    obtain ⟨value, hmem, hlarge, herror⟩ := CharEncoding.exists_encode_eq_error hnot
    exact ⟨value, hmem, hlarge, by rw [herror]; rfl⟩
  · intro hfits
    have hencode : CharEncoding.encode .narrow units = .ok (units.flatMap CharUnit.bytes) :=
      CharEncoding.encode_of_fits hfits
    have hbytes := CharEncoding.lt_of_mem_encode rfl hencode
    rw [hencode]
    generalize units.flatMap CharUnit.bytes = bytes at hbytes
    refine ⟨?_, ?_, fun hlength ↦ ?_⟩
    · rintro rfl
      rfl
    · rintro b rfl hwidth
      rw [← Widths.charValue_narrow hwidth]
      rfl
    · obtain ⟨b, b', rest, rfl⟩ : ∃ b b' rest, bytes = b :: b' :: rest := by
        rcases bytes with - | ⟨b, - | ⟨b', rest⟩⟩
        · exact absurd hlength (by decide)
        · exact absurd hlength (by simp)
        · exact ⟨b, b', rest, rfl⟩
      have hlower := Int.le_bmod (x := packBytes (b :: b' :: rest)) (m := 2 ^ 32) (by decide)
      have hupper := Int.bmod_lt (x := packBytes (b :: b' :: rest)) (m := 2 ^ 32) (by decide)
      exact ⟨_, rfl, hlower, hupper, bmod_packBytes hbytes⟩

/-- The value of `'\xFFé\0\n'` has five bytes, of which the first is lost and the second makes the
value negative. -/
theorem narrow_character_packed_fiveBytes :
    let body := ['\\', 'x', 'F', 'F', 'é', '\\', '0', '\\', 'n']
    let units : List CharUnit := [.raw 0xFF, .character 0xE9, .raw 0, .character 0x0A]
    let l : Literal := .character "'\\xFFé\\0\\n'" Span.zero
    l.text.toList = '\'' :: body ++ ['\''] ∧ CharUnit.readAll body = .ok units ∧
      units.flatMap CharUnit.bytes = [0xFF, 0xC3, 0xA9, 0x00, 0x0A] ∧
      l.read {} = .ok ⟨.int, .int (0xC3A9000A - 2 ^ 32), true⟩ := by
  intro body units l
  have hunits : CharUnit.readAll body = .ok units := by decide +kernel
  have hbytes : units.flatMap CharUnit.bytes = [0xFF, 0xC3, 0xA9, 0x00, 0x0A] := by decide
  have hfits : ∀ value, .raw value ∈ units → value ≤ 0xFF := by
    intro value hmem
    simp only [units, List.mem_cons, CharUnit.raw.injEq, reduceCtorEq, List.not_mem_nil, false_or,
      or_false] at hmem
    omega
  have htext : l.text.toList = '\'' :: body ++ ['\''] := by decide
  obtain ⟨-, -, hvalue⟩ :=
    narrow_character_packed (w := {}) (l := l) rfl List.nil_suffix htext hunits
  obtain ⟨-, -, hseveral⟩ := hvalue hfits
  rw [hbytes] at hseveral
  obtain ⟨v, hread, hlower, hupper, hcongr⟩ := hseveral (by decide)
  have hv : v = 0xC3A9000A - 2 ^ 32 := by
    rw [Int.ModEq, show Nat.ofDigits 256 [0xFF, 0xC3, 0xA9, 0x00, 0x0A].reverse = 0xFFC3A9000A from
      rfl] at hcongr
    omega
  exact ⟨htext, hunits, hbytes, hv ▸ hread⟩

/-- **A character with a mark fits one code unit of its encoding**, where `char` is unsigned, with
one exception. The literal has one unit, and the value is the number of that unit, whether it is a
character or a raw value. It is within the limit of a code unit, unless the mark is `u` and the unit
is a character past `0xFFFF`. -/
theorem marked_character_fits_unit {w : Widths} (hsigned : w.charSigned = false) {l : Literal}
    (hkind : l.kind = .character) (hmarked : (CharEncoding.split l.text.toList).1 ≠ .narrow)
    {m : LiteralMeaning} (hread : l.read w = .ok m) :
    ∃ body u, Literal.unquote? (CharEncoding.split l.text.toList).2 = some body ∧
      CharUnit.readAll body = .ok [u] ∧ m = ⟨.char .plain, .int u.code, false⟩ ∧
      (u.code ≤ (CharEncoding.split l.text.toList).1.unitLimit ∨
        (CharEncoding.split l.text.toList).1 = .utf16 ∧
          ∃ code, u = .character code ∧ 0xFFFF < code ∧ code ≤ 0x10FFFF) := by
  have hcharacter : l.characterMeaning w = .ok m := by
    rcases Literal.cases_of_read hread with ⟨hno, -⟩ | ⟨-, hmeaning⟩ | ⟨hno, -⟩
    · exact absurd (hkind.symm.trans hno) nofun
    · exact hmeaning
    · exact absurd (hkind.symm.trans hno) nofun
  obtain ⟨body, units, values, hbody, hunits, hvalues, hmeaning⟩ :=
    Literal.exists_codeUnits_of_characterMeaning hcharacter
  generalize (CharEncoding.split l.text.toList).1 = e at hmarked hvalues hmeaning ⊢
  obtain ⟨v, rfl, rfl⟩ := (Literal.codeUnitsMeaning_cases hmeaning).resolve_right
    fun hnarrow ↦ hmarked hnarrow.1
  obtain ⟨hfits, hspread⟩ := CharEncoding.of_encode_eq_ok hvalues
  obtain ⟨u, rfl, hsingle⟩ := CharEncoding.exists_of_flatMap_spread hspread.symm
  have hu : u.WellFormed := CharToken.wellFormed_of_readAll hunits List.mem_cons_self
  refine ⟨body, u, hbody, hunits, ?_, CharEncoding.code_le_unitLimit hu hfits hsingle⟩
  rw [Widths.charValue, hsigned, CharEncoding.code_eq_of_spread_eq hu hsingle]
  simp

/-- The raw value in `u'\xFFFF'` is the greatest one of a code unit. -/
theorem marked_character_fits_unit_greatest :
    let l : Literal := .character "u'\\xFFFF'" Span.zero
    (CharEncoding.split l.text.toList).1 = .utf16 ∧
      l.read { charSigned := false } = .ok ⟨.char .plain, .int 0xFFFF, false⟩ ∧
      0xFFFF ≤ CharEncoding.unitLimit .utf16 := by
  intro l
  have hread : l.read { charSigned := false } = .ok ⟨.char .plain, .int 0xFFFF, false⟩ := by
    decide +kernel
  have hencoding : (CharEncoding.split l.text.toList).1 = .utf16 := by decide
  obtain ⟨body, u, -, -, hvalue, hlimit⟩ :=
    marked_character_fits_unit (w := { charSigned := false }) rfl rfl (by decide) hread
  have hcode : u.code = 0xFFFF :=
    (Int.ofNat.inj (Constant.int.inj (congrArg (·.value) hvalue))).symm
  refine ⟨hencoding, hread, ?_⟩
  rw [hencoding, hcode] at hlimit
  rcases hlimit with hle | ⟨-, code, rfl, hlarge, -⟩
  · exact hle
  · exact absurd (hlarge.trans_eq hcode) (Nat.lt_irrefl 0xFFFF)

/-- The character in `u'\U0001F600'` is accepted, although it is past the limit of a code unit. -/
theorem character_beyond_utf16_limit :
    let l : Literal := .character "u'\\U0001F600'" ⟨0, 13⟩
    (CharEncoding.split l.text.toList).1 = .utf16 ∧
      l.read { charSigned := false } = .ok ⟨.char .plain, .int 0x1F600, false⟩ ∧
      CharEncoding.unitLimit .utf16 < 0x1F600 := by
  intro l
  exact ⟨by decide, by decide +kernel, by decide⟩

end DeclAnalysis
