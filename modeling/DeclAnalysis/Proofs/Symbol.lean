import DeclAnalysis.Symbol
import Mathlib.Data.Finset.Card

/-!
# Symbols stand for strings

A symbol can be taken apart into its shard and its index, and put together again (`ofParts_eq_iff`).
So a table answers for a symbol by looking in one place, and since the map and the vector of a shard
are inverse to each other, the symbol that a string has is the only one that finds it
(`lookup?_eq_some_iff`).

`Interned` is what a run of requests comes to. It is kept by every request that is granted, and
while no shard has more strings than a symbol has indices every request is.
-/

namespace DeclAnalysis

/-! ## Words -/

namespace Symbol

private theorem val_shard (x : Symbol) : x.shard.val = x.word.toNat / 268435456 := by
  change (x.word >>> 28).toNat = _
  rw [UInt32.toNat_shiftRight, Nat.shiftRight_eq_div_pow]
  rfl

private theorem val_index (x : Symbol) : x.index.val = x.word.toNat % 268435456 := by
  change (x.word &&& UInt32.ofNat maxIndex).toNat = _
  rw [UInt32.toNat_and]
  exact Nat.and_two_pow_sub_one_eq_mod _ 28

private theorem toNat_word_ofParts (k : Fin 16) (i : Fin 268435456) :
    (ofParts k i).word.toNat = k.val * 268435456 + i.val := by
  have hk := k.isLt
  have hi := i.isLt
  have hshift : (28 : UInt32).toNat % 32 = 28 := by decide
  have hshard : (UInt32.ofNat k.val <<< 28).toNat = k.val <<< 28 := by
    rw [UInt32.toNat_shiftLeft, hshift, UInt32.toNat_ofNat',
      Nat.mod_eq_of_lt (a := k.val) (by omega), Nat.shiftLeft_eq, Nat.mod_eq_of_lt (by omega)]
  have hindex : (UInt32.ofNat i.val).toNat = i.val := by
    rw [UInt32.toNat_ofNat', Nat.mod_eq_of_lt (by omega)]
  change (UInt32.ofNat k.val <<< 28 ||| UInt32.ofNat i.val).toNat = _
  rw [UInt32.toNat_or, hshard, hindex, ← Nat.shiftLeft_add_eq_or_of_lt hi, Nat.shiftLeft_eq]

/-- **Packing loses nothing.** -/
theorem ofParts_eq_iff {x : Symbol} {k : Fin 16} {i : Fin 268435456} :
    ofParts k i = x ↔ x.shard = k ∧ x.index = i := by
  have hk := k.isLt
  have hi := i.isLt
  have hword : ofParts k i = x ↔ (ofParts k i).word.toNat = x.word.toNat := by
    rw [UInt32.toNat_inj, Symbol.ext_iff]
  rw [hword, toNat_word_ofParts, Fin.ext_iff, Fin.ext_iff, val_shard, val_index]
  omega

end Symbol

/-! ## Shards -/

private theorem SymbolShard.nodup_strings (shard : SymbolShard) : shard.strings.Nodup := by
  rw [List.nodup_iff_getElem?_ne_getElem?]
  intro i j hij hj hsame
  have hfits := shard.fits
  -- a string that stood at two places would have two indices
  have hindex (k : Nat) (hk : k < shard.strings.length) :
      shard.places.get? shard.strings[j] = some ⟨k, by omega⟩ ↔
        shard.strings[k]? = shard.strings[j]? := by
    rw [shard.inverse, List.getElem?_eq_getElem hj]
  have hi := (hindex i (hij.trans hj)).mpr hsame
  rw [(hindex j hj).mpr rfl, Option.some.injEq, Fin.ext_iff] at hi
  exact hij.ne' hi

namespace SymbolTable

variable {t t' : SymbolTable} {s : String} {x y : Symbol}

/-! ## Looking up -/

/-- **The symbol of a string is the only one that finds it**: that of its shard and of the index
that the map of the shard has for it. -/
theorem lookup?_eq_some_iff :
    t.lookup? x = some s ↔
      ∃ index, (t.shard s).places.get? s = some index ∧ x = .ofParts (shardOf s) index := by
  rw [lookup?]
  constructor
  · intro hfound
    have hshard : shardOf s = x.shard := t.home x.shard s (List.mem_of_getElem? hfound)
    refine ⟨x.index, ?_, (Symbol.ofParts_eq_iff.mpr ⟨hshard.symm, rfl⟩).symm⟩
    rw [shard, hshard]
    exact ((t.shards.get x.shard).inverse s x.index).mpr hfound
  · rintro ⟨index, hindex, rfl⟩
    have hparts := Symbol.ofParts_eq_iff.mp (Eq.refl (Symbol.ofParts (shardOf s) index))
    rw [hparts.1, hparts.2]
    exact ((t.shard s).inverse s index).mp hindex

private theorem eq_of_lookup? (hx : t.lookup? x = some s) (hy : t.lookup? y = some s) : x = y := by
  obtain ⟨index, hindex, rfl⟩ := lookup?_eq_some_iff.mp hx
  obtain ⟨index', hindex', rfl⟩ := lookup?_eq_some_iff.mp hy
  rw [Option.some.inj (hindex.symm.trans hindex')]

/-- A table has a symbol for a string. -/
def Holds (t : SymbolTable) (s : String) : Prop := s ∈ (t.shard s).strings

theorem holds_iff : t.Holds s ↔ (t.shard s).places.get? s ≠ none := by
  rw [Holds, List.mem_iff_getElem?, Option.ne_none_iff_exists]
  constructor
  · rintro ⟨i, hi⟩
    have hlt := (List.getElem?_eq_some_iff.mp hi).1.trans_le (t.shard s).fits
    exact ⟨⟨i, hlt⟩, (((t.shard s).inverse s ⟨i, hlt⟩).mpr hi).symm⟩
  · rintro ⟨index, hindex⟩
    exact ⟨index, ((t.shard s).inverse s index).mp hindex.symm⟩

/-! ## One request -/

section Push

variable (hnew : (t.shard s).places.get? s = none)
  (hroom : (t.shard s).strings.length < 268435456)

private theorem shard_push (r : String) :
    (t.push s hnew hroom).shard r =
      if shardOf r = shardOf s then (t.shard s).push s hnew hroom else t.shard r := by
  change (t.shards.set _ _ (shardOf s).isLt)[(shardOf r).val] = _
  rw [Vector.getElem_set]
  simp only [← Fin.ext_iff, eq_comm]
  rfl

private theorem get?_push (r : String) :
    ((t.push s hnew hroom).shard r).places.get? r =
      if r = s then some ⟨(t.shard s).strings.length, hroom⟩ else (t.shard r).places.get? r := by
  rw [shard_push]
  by_cases hsame : r = s
  · rw [if_pos (congrArg shardOf hsame), if_pos hsame, SymbolShard.push, NameMap.get?_insert,
      if_pos hsame]
  · rw [if_neg hsame]
    split
    · next hshard =>
      rw [SymbolShard.push, NameMap.get?_insert, if_neg hsame, shard, shard, hshard]
    · rfl

end Push

/-- What a granted request does. The symbol finds the string, and every symbol still finds what it
found before. The table has symbols for the string and for those that it had symbols for, and it
counts the string if it is new. -/
private theorem intern_spec (hok : t.intern s = .ok (x, t')) :
    t'.lookup? x = some s ∧ (∀ y r, t.lookup? y = some r → t'.lookup? y = some r) ∧
      (∀ r, t'.Holds r ↔ r = s ∨ t.Holds r) ∧
      (t.Holds s ∧ t'.total = t.total ∨ ¬ t.Holds s ∧ t'.total = t.total + 1) := by
  rw [intern] at hok
  split at hok
  · next index hfound =>
    obtain ⟨rfl, rfl⟩ := Prod.mk.inj (Except.ok.inj hok)
    have hholds : t.Holds s := holds_iff.mpr (by rw [hfound]; exact Option.some_ne_none _)
    refine ⟨lookup?_eq_some_iff.mpr ⟨index, hfound, rfl⟩, fun y r hy ↦ hy, fun r ↦ ?_,
      .inl ⟨hholds, rfl⟩⟩
    exact ⟨.inr, fun h ↦ h.elim (fun hsame ↦ hsame ▸ hholds) id⟩
  · next hnew =>
    split at hok
    · next hroom =>
      obtain ⟨rfl, rfl⟩ := Prod.mk.inj (Except.ok.inj hok)
      refine ⟨?_, fun y r hy ↦ ?_, fun r ↦ ?_, .inr ⟨fun h ↦ holds_iff.mp h hnew, rfl⟩⟩
      · exact lookup?_eq_some_iff.mpr ⟨_, by rw [get?_push, if_pos rfl], rfl⟩
      · obtain ⟨index, hindex, rfl⟩ := lookup?_eq_some_iff.mp hy
        have hne : ¬ r = s := by
          rintro rfl
          rw [hnew] at hindex
          cases hindex
        exact lookup?_eq_some_iff.mpr ⟨index, by rw [get?_push, if_neg hne, hindex], rfl⟩
      · rw [holds_iff, holds_iff, get?_push]
        by_cases hsame : r = s <;> simp [hsame]
    · cases hok

/-- The strings that share a shard are no more than a symbol has indices. -/
def Fits (names : Finset String) : Prop :=
  ∀ k, (names.filter (shardOf · = k)).card ≤ 268435456

theorem Fits.mono {names names' : Finset String} (hfits : Fits names') (hsub : names ⊆ names') :
    Fits names :=
  fun k ↦ (Finset.card_le_card (Finset.filter_subset_filter _ hsub)).trans (hfits k)

private theorem exists_intern {names : Finset String} (hholds : ∀ r, t.Holds r ↔ r ∈ names)
    (hfits : Fits (insert s names)) : ∃ x t', t.intern s = .ok (x, t') := by
  rw [intern]
  split
  · exact ⟨_, _, rfl⟩
  · next hnew =>
    have hroom : (t.shard s).strings.length < 268435456 := by
      have habsent : s ∉ (t.shard s).strings := fun h ↦ holds_iff.mp h hnew
      have hsub : (s :: (t.shard s).strings).toFinset ⊆
          (insert s names).filter (shardOf · = shardOf s) := by
        intro r hr
        rcases List.mem_cons.mp (List.mem_toFinset.mp hr) with rfl | hold
        · exact Finset.mem_filter.mpr ⟨Finset.mem_insert_self _ _, rfl⟩
        · have hshard : shardOf r = shardOf s := t.home (shardOf s) r hold
          have hmem : r ∈ names := (hholds r).mp (by rwa [Holds, shard, hshard])
          exact Finset.mem_filter.mpr ⟨Finset.mem_insert_of_mem hmem, hshard⟩
      have hcard := (Finset.card_le_card hsub).trans (hfits (shardOf s))
      rwa [List.toFinset_card_of_nodup
        (List.nodup_cons.mpr ⟨habsent, (t.shard s).nodup_strings⟩)] at hcard
    exact ⟨_, _, dif_pos hroom⟩

/-! ## A run of requests -/

/-- Interns one more string and puts its symbol behind those before. -/
def internNext (before : List Symbol × SymbolTable) (s : String) :
    Except Overflow (List Symbol × SymbolTable) :=
  (before.2.intern s).map fun answer ↦ (before.1 ++ [answer.1], answer.2)

/-- Interns strings one after another, up to the first that does not fit. The result is the list of
their symbols and the table after them. -/
def internAll (t : SymbolTable) (inputs : List String) :
    Except Overflow (List Symbol × SymbolTable) :=
  inputs.foldlM internNext ([], t)

private theorem internAll_concat {inputs : List String} {symbols : List Symbol} {t₀ : SymbolTable}
    (hrun : t₀.internAll inputs = .ok (symbols, t)) (hok : t.intern s = .ok (x, t')) :
    t₀.internAll (inputs ++ [s]) = .ok (symbols ++ [x], t') := by
  rw [internAll] at hrun
  rw [internAll, List.foldlM_append, hrun]
  change (internNext (symbols, t) s).bind .ok = _
  rw [internNext, hok]
  rfl

/-- A run of requests to a new table, and what it comes to. -/
structure Interned (inputs : List String) (symbols : List Symbol) (t : SymbolTable) : Prop where
  returns : new.internAll inputs = .ok (symbols, t)
  /-- The table has symbols for the empty string and for those that it was asked for. -/
  holds_iff : ∀ s, t.Holds s ↔ s ∈ insert "" inputs.toFinset
  /-- It counts them. -/
  total_eq : t.total = (insert "" inputs.toFinset).card
  lookup?_empty : t.lookup? .empty = some ""
  /-- Every symbol that was returned finds the string that it was returned for. -/
  finds : inputs.Forall₂ (fun s x ↦ t.lookup? x = some s) symbols

private theorem interned_nil : Interned [] [] new where
  returns := rfl
  holds_iff s := by
    have hblank : blank.shard s = .empty :=
      Vector.getElem_replicate (shardOf s).isLt
    rw [SymbolTable.holds_iff, new, get?_push, hblank]
    by_cases hempty : s = "" <;> simp [hempty, SymbolShard.empty]
  total_eq := rfl
  lookup?_empty := by decide
  finds := .nil

namespace Interned

variable {inputs : List String} {symbols : List Symbol}

theorem length_eq (h : Interned inputs symbols t) : symbols.length = inputs.length :=
  h.finds.length_eq.symm

private theorem toFinset_concat (inputs : List String) (s : String) :
    insert "" (inputs ++ [s]).toFinset = insert s (insert "" inputs.toFinset) := by
  rw [Finset.insert_comm, List.toFinset_append, Finset.union_comm]
  rfl

/-- **A granted request goes on with a run.** -/
theorem concat (h : Interned inputs symbols t) (hok : t.intern s = .ok (x, t')) :
    Interned (inputs ++ [s]) (symbols ++ [x]) t' := by
  obtain ⟨hfinds, hkept, hholds, htotal⟩ := intern_spec hok
  exact
    { returns := internAll_concat h.returns hok
      holds_iff := fun r ↦ by
        rw [hholds, h.holds_iff, toFinset_concat, Finset.mem_insert (a := r) (b := s)]
      total_eq := by
        rw [toFinset_concat]
        rcases htotal with ⟨hold, htotal⟩ | ⟨hnew, htotal⟩
        · rw [Finset.insert_eq_of_mem ((h.holds_iff s).mp hold), htotal, h.total_eq]
        · rw [Finset.card_insert_of_notMem (mt (h.holds_iff s).mpr hnew), htotal, h.total_eq]
      lookup?_empty := hkept _ _ h.lookup?_empty
      finds := List.rel_append (h.finds.imp fun s x ↦ hkept x s) (.cons hfinds .nil) }

private theorem size_eq (h : Interned inputs symbols t) :
    t.size = inputs.toFinset.card + if "" ∈ inputs then 0 else 1 := by
  rw [size, h.total_eq]
  split
  · next hasked => rw [Finset.insert_eq_of_mem (List.mem_toFinset.mpr hasked), Nat.add_zero]
  · next hfree => exact Finset.card_insert_of_notMem (by simpa using hfree)

private theorem lookup?_of_mem (h : Interned inputs symbols t)
    (hcall : (s, x) ∈ inputs.zip symbols) : t.lookup? x = some s :=
  (List.forall₂_iff_zip.mp h.finds).2 hcall

/-- **While its strings fit, a run returns symbols**, and so does every part from the start. -/
theorem exists_run (hfits : Fits (insert "" inputs.toFinset)) :
    ∃ symbols t, Interned inputs symbols t ∧
      ∀ n, ∃ t, Interned (inputs.take n) (symbols.take n) t := by
  induction inputs using List.reverseRecOn with
  | nil => exact ⟨[], new, interned_nil, fun n ↦ ⟨new, by simpa using interned_nil⟩⟩
  | append_singleton inputs s ih =>
    rw [toFinset_concat] at hfits
    obtain ⟨symbols, t, h, hparts⟩ := ih (hfits.mono (Finset.subset_insert _ _))
    obtain ⟨x, t', hok⟩ := exists_intern h.holds_iff hfits
    refine ⟨symbols ++ [x], t', h.concat hok, fun n ↦ ?_⟩
    rcases Nat.lt_or_ge inputs.length n with hall | hpart
    · rw [List.take_of_length_le (by rw [List.length_append]; exact hall),
        List.take_of_length_le (by rw [List.length_append, h.length_eq]; exact hall)]
      exact ⟨t', h.concat hok⟩
    · rw [List.take_append_of_le_length hpart,
        List.take_append_of_le_length (h.length_eq ▸ hpart)]
      exact hparts n

end Interned

/-- **Interning is a stable bijection.** Strings that fit are all given symbols by a new table. Two
requests are answered by the same word exactly if they are for the same string, and the empty string
alone has the empty symbol. After each request every symbol returned so far finds its string, and
the size of the table is the number of different strings so far, with one more for the empty string
if it is not among them. -/
theorem internAll_bijective (inputs : List String) (hfits : Fits (insert "" inputs.toFinset)) :
    ∃ symbols : List Symbol, symbols.length = inputs.length ∧
      (∀ s x s' x', (s, x) ∈ inputs.zip symbols → (s', x') ∈ inputs.zip symbols →
        (x.word = x'.word ↔ s = s')) ∧
      (∀ s x, (s, x) ∈ inputs.zip symbols → (x = .empty ↔ s = "")) ∧
      ∀ n, ∃ t, new.internAll (inputs.take n) = .ok (symbols.take n, t) ∧
        (∀ s x, (s, x) ∈ (inputs.take n).zip (symbols.take n) → t.lookup? x = some s) ∧
        t.lookup? .empty = some "" ∧
        t.size = (inputs.take n).toFinset.card + if "" ∈ inputs.take n then 0 else 1 := by
  obtain ⟨symbols, t, h, hparts⟩ := Interned.exists_run hfits
  -- equal symbols find equal strings, and a string has one symbol
  have hsame {s x s' x'} (hs : t.lookup? x = some s) (hs' : t.lookup? x' = some s') :
      x = x' ↔ s = s' := by
    constructor
    · rintro rfl
      exact Option.some.inj (hs.symm.trans hs')
    · rintro rfl
      exact eq_of_lookup? hs hs'
  refine ⟨symbols, h.length_eq, fun s x s' x' hcall hcall' ↦ ?_, fun s x hcall ↦ ?_, fun n ↦ ?_⟩
  · rw [← Symbol.ext_iff]
    exact hsame (h.lookup?_of_mem hcall) (h.lookup?_of_mem hcall')
  · exact hsame (h.lookup?_of_mem hcall) h.lookup?_empty
  · obtain ⟨t, h⟩ := hparts n
    exact ⟨t, h.returns, fun s x hcall ↦ h.lookup?_of_mem hcall, h.lookup?_empty, h.size_eq⟩

/-- A string that comes again is given the symbol that it was given before. -/
theorem internAll_bijective_repeated :
    let inputs := ["hello", "world", "hello"]
    Fits (insert "" inputs.toFinset) ∧
    ∃ hello world t, new.internAll inputs = .ok ([hello, world, hello], t) ∧ hello ≠ world ∧
      t.lookup? hello = some "hello" ∧ t.size = 3 := by
  intro inputs
  have hfits : Fits (insert "" inputs.toFinset) := fun k ↦
    (Finset.card_filter_le _ _).trans (by decide)
  refine ⟨hfits, ?_⟩
  obtain ⟨symbols, hlength, hsame, -, hrun⟩ := internAll_bijective inputs hfits
  obtain ⟨hello, world, again, rfl⟩ := List.length_eq_three.mp hlength
  obtain ⟨t, hreturns, hfinds, -, hsize⟩ := hrun 3
  obtain rfl : hello = again := Symbol.ext
    ((hsame "hello" hello "hello" again (by simp [inputs]) (by simp [inputs])).mpr rfl)
  refine ⟨hello, world, t, hreturns, ?_, hfinds "hello" hello (by simp [inputs]), hsize⟩
  rintro rfl
  exact absurd ((hsame "hello" hello "world" hello (by simp [inputs]) (by simp [inputs])).mp rfl)
    (by decide)

end SymbolTable

end DeclAnalysis
