import DeclAnalysis.Proofs.Literal.IntegerSpelling

/-!
# Respelling integer literals

A number is written in a base by its digits without leading zeros, behind the mark of the base. With
a suffix behind it, the result is a spelling of the grammar, of the same base, suffix and value
(`exists_spelling`), and so the literal is read back as it was.

One number is an exception. In base ten, zero is written `0`, and a leading zero announces octal. A
decimal literal never has the value zero, for the same reason: its first digit is not a zero
(`value_ne_zero`). So the exception never arises from a literal.
-/

namespace DeclAnalysis

open Digits (Numeral IsDigit separator)

/-! ## Written numbers -/

namespace Digits.Numeral

variable {radix : Nat}

private theorem append_digit {text : List Char} {ds : List Nat} {c : Char} {d : Nat}
    (hnum : Numeral radix text ds) (hdigit : IsDigit radix d c) :
    Numeral radix (text ++ [c]) (ds ++ [d]) := by
  induction hnum with
  | single hfirst => exact .next hfirst (.single hdigit)
  | next hfirst hrest ih => exact .next hfirst ih
  | separated hfirst hrest ih => exact .separated hfirst ih

theorem exists_toDigits (radix : Nat) (hradix : 1 < radix) {write : Char → Char}
    (hwrite : ∀ d < radix, IsDigit radix d (write d.digitChar)) (v : Nat) :
    ∃ ds, Numeral radix ((Nat.toDigits radix v).map write) ds ∧
      Nat.ofDigits radix ds.reverse = v := by
  induction v using Nat.strong_induction_on with
  | _ v ih =>
    rw [Nat.toDigits_eq_if hradix]
    split_ifs with hsmall
    · exact ⟨[v], .single (hwrite v hsmall), by simp⟩
    · obtain ⟨ds, hnum, hvalue⟩ := ih (v / radix) (Nat.div_lt_self (by omega) hradix)
      refine ⟨ds ++ [v % radix], ?_, ?_⟩
      · rw [List.map_append]
        exact hnum.append_digit (hwrite _ (Nat.mod_lt v (by omega)))
      · rw [List.reverse_append, List.reverse_singleton, List.singleton_append, Nat.ofDigits_cons,
          hvalue]
        exact Nat.mod_add_div v radix

end Digits.Numeral

private theorem head?_toDigits_ne {v : Nat} (hv : v ≠ 0) :
    (Nat.toDigits 10 v).head? ≠ some '0' := by
  induction v using Nat.strong_induction_on with
  | _ v ih =>
    rw [Nat.toDigits_eq_if (by decide)]
    split_ifs with hsmall
    · simpa using hv
    · rw [List.head?_append_of_ne_nil _ Nat.toDigits_ne_nil]
      exact ih (v / 10) (by omega) (by omega)

namespace IntegerSpelling

/-- **A written number is a spelling** of its base and value, with any suffix behind it. -/
theorem exists_spelling {r : Radix} {v : Nat} (hzero : (r, v) ≠ (.decimal, 0)) {suffix : IntSuffix}
    {ending : List Char} (hending : ending ∈ suffix.spellings) :
    ∃ s : IntegerSpelling, s.radix = r ∧ s.suffix = suffix ∧ s.ending = ending ∧ s.value = v ∧
      s.text = String.ofList (r.spell v ++ ending) := by
  have hlower {radix : Nat} (d : Nat) (hlt : d < radix) : IsDigit radix d (id d.digitChar) :=
    ⟨hlt, .inl rfl⟩
  cases r with
  | decimal =>
    obtain ⟨ds, hnum, hvalue⟩ := Numeral.exists_toDigits 10 (by decide) hlower v
    rw [List.map_id] at hnum
    have hv : v ≠ 0 := fun hv ↦ hzero (by rw [hv])
    have hhead : (Nat.toDigits 10 v ++ ending).head? ≠ some '0' := by
      rw [List.head?_append_of_ne_nil _ Nat.toDigits_ne_nil]
      exact head?_toDigits_ne hv
    exact ⟨⟨.decimal, [], _, ds, suffix, ending, ⟨rfl, hhead⟩, hnum, hending⟩,
      rfl, rfl, rfl, hvalue, rfl⟩
  | octal =>
    obtain ⟨ds, hnum, hvalue⟩ := Numeral.exists_toDigits 8 (by decide) hlower v
    rw [List.map_id] at hnum
    -- the zero that announces the base is a digit as well
    exact ⟨⟨.octal, [], _, 0 :: ds, suffix, ending, ⟨rfl, rfl⟩,
      .next (c := '0') (by decide) hnum, hending⟩,
      rfl, rfl, rfl, (Nat.ofDigits_reverse_zero_cons ds).trans hvalue, rfl⟩
  | hex =>
    obtain ⟨ds, hnum, hvalue⟩ := Numeral.exists_toDigits 16 (by decide)
      (fun d hlt ↦ ⟨hlt, .inr rfl⟩) v
    exact ⟨⟨.hex, ['0', 'x'], _, ds, suffix, ending, .inl rfl, hnum, hending⟩,
      rfl, rfl, rfl, hvalue, rfl⟩
  | binary =>
    obtain ⟨ds, hnum, hvalue⟩ := Numeral.exists_toDigits 2 (by decide) hlower v
    rw [List.map_id] at hnum
    exact ⟨⟨.binary, ['0', 'b'], _, ds, suffix, ending, .inl rfl, hnum, hending⟩,
      rfl, rfl, rfl, hvalue, rfl⟩

/-- A decimal literal does not start with a zero, so its value is not zero. -/
private theorem value_ne_zero (s : IntegerSpelling) (hdecimal : s.radix = .decimal) :
    s.value ≠ 0 := by
  obtain ⟨radix, mark, digits, values, suffix, ending, hmark, hnum, hending⟩ := s
  obtain rfl : radix = .decimal := hdecimal
  obtain ⟨rfl, hhead⟩ := hmark
  obtain ⟨c, rest, d, others, rfl, rfl, -, hc⟩ := hnum.exists_cons
  have hd : d ≠ 0 := by
    rintro rfl
    exact hhead (congrArg some (hc.elim id id))
  have hvalue : Nat.ofDigits 10 (d :: others).reverse ≠ 0 := by
    rw [Nat.ofDigits_reverse_cons]
    positivity
  exact hvalue

end IntegerSpelling

/-- **Integer literals survive respelling.** A literal that is read, written anew from its base, its
value and its suffix, is read as it was. A number below the bound of the accumulator, written in a
base and with a suffix behind it, has that base, that suffix and that value; only the decimal zero
is written like an octal one. -/
theorem integer_respelled :
    (∀ w : Widths, w.Supported → ∀ (text : String) (span : Span) (m : LiteralMeaning),
      (Literal.integer text span).read w = .ok m →
      ∃ r v, (Literal.integer text span).base = some r ∧ m.value = .int (v : Nat) ∧
        ∀ place, (Literal.integer (String.ofList (r.spell v) ++
          (Literal.integer text span).suffix) place).read w = .ok m) ∧
    ∀ (r : Radix) (v : Nat) (suffix : IntSuffix) (ending : String) (span : Span),
      v < 2 ^ 127 → (r, v) ≠ (.decimal, 0) → ending.toList ∈ suffix.spellings →
      (Literal.integer (String.ofList (r.spell v) ++ ending) span).base = some r ∧
        (Literal.integer (String.ofList (r.spell v) ++ ending) span).suffix = ending ∧
        (Literal.integer (String.ofList (r.spell v) ++ ending) span).integerValue =
          .ok (some v) := by
  constructor
  · intro w hw text span m hread
    rcases IntegerSpelling.exists_or_exists_fault w text span with ⟨s, rfl⟩ | ⟨fault, hfault, -⟩
    · obtain ⟨type, hfirst, rfl⟩ := (s.read_text_eq_ok_iff hw span).mp hread
      have hzero : (s.radix, s.value) ≠ (.decimal, 0) := fun heq ↦
        s.value_ne_zero (congrArg Prod.fst heq) (congrArg Prod.snd heq)
      obtain ⟨s', hradix, hsuffix, -, hvalue, htext⟩ :=
        IntegerSpelling.exists_spelling hzero s.ending_mem
      refine ⟨s.radix, s.value, s.base_integer span, rfl, fun place ↦ ?_⟩
      rw [s.suffix_integer, ← String.ofList_append, ← htext, s'.read_text_eq_ok_iff hw]
      refine ⟨type, ?_, by rw [hvalue]⟩
      rwa [IntegerSpelling.candidates, hradix, hsuffix, hvalue]
    · rw [hfault] at hread
      exact absurd hread (by simp)
  · intro r v suffix ending span hlt hzero hending
    obtain ⟨s, rfl, -, hs, rfl, htext⟩ := IntegerSpelling.exists_spelling hzero hending
    have hspelled : String.ofList (s.radix.spell s.value) ++ ending = s.text := by
      rw [htext, String.ofList_append, String.ofList_toList]
    rw [hspelled]
    refine ⟨s.base_integer span, ?_, ?_⟩
    · rw [s.suffix_integer, hs, String.ofList_toList]
    · rw [s.integerValue_integer]
      exact congrArg Except.ok (if_pos hlt)

/-- Respelling drops separators and leading zeros and writes the digits large. The octal zero keeps
the zero that announces its base. -/
theorem integer_respelled_hex :
    ({} : Widths).Supported ∧
      (Literal.integer "0X0f'fu" Span.zero).read {} =
        .ok ⟨.integer .int .unsigned, .int 255, false⟩ ∧
      (Literal.integer "0xFFu" Span.zero).read {} =
        .ok ⟨.integer .int .unsigned, .int 255, false⟩ ∧
      (Literal.integer "00LLu" Span.zero).base = some .octal ∧
      (Literal.integer "00LLu" Span.zero).integerValue = .ok (some 0) := by
  have hw : ({} : Widths).Supported := by decide
  have hread : (Literal.integer "0X0f'fu" Span.zero).read {} =
      .ok ⟨.integer .int .unsigned, .int 255, false⟩ := by decide +kernel
  obtain ⟨r, v, hbase, hvalue, hagain⟩ := integer_respelled.1 {} hw _ _ _ hread
  obtain rfl : Radix.hex = r := Option.some.inj hbase
  obtain rfl : 255 = v := Int.ofNat.inj (Constant.int.inj hvalue)
  obtain ⟨hoctal, -, hzero⟩ := integer_respelled.2 .octal 0 .unsignedLongLong "LLu" Span.zero
    (by decide) (by decide) (by decide)
  exact ⟨hw, hread, hagain Span.zero, hoctal, hzero⟩

end DeclAnalysis
