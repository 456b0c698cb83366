import DeclAnalysis.Elaboration.Declare
import DeclAnalysis.Proofs.Ty.AliasEquivalence
import DeclAnalysis.Ty.Spelling
import Mathlib.Data.List.Nodup

/-!
# Spelled types are unambiguous

Types without aliases that are spelled alike are equal. A type is a base, which is spelled by a name
alone, under the layers of a declarator, and its spelling is the name with the declarator behind it.
Each of the two can be read back.

The spelling is written from the outermost layer inwards, but it is read the other way.
`declaratorText` therefore writes a declarator by recursion from the innermost layer: a mark goes in
front, and a bound goes behind, where a declarator that starts with a mark is first put in
parentheses. The first character of the text then tells a mark from a bound, and a bound starts at
the last bracket that opens.

A name ends in a letter or in an angle bracket, and a declarator has neither, so the name ends at
the last such character. The names of the built-in types are told apart by a table, and the name of
a list type holds the spelling of its element.
-/

namespace DeclAnalysis

private theorem append_cons_inj_of_forall {α : Type} {p : α → Prop} {l l' r r' : List α} {a a' : α}
    (ha : ¬ p a) (ha' : ¬ p a') (hr : ∀ b ∈ r, p b) (hr' : ∀ b ∈ r', p b)
    (h : l ++ a :: r = l' ++ a' :: r') : l = l' ∧ a = a' ∧ r = r' := by
  rcases List.append_eq_append_iff.mp h with ⟨m, rfl, hm⟩ | ⟨m, rfl, hm⟩
  · cases m with
    | nil =>
      obtain ⟨rfl, rfl⟩ := List.cons.inj hm
      exact ⟨(List.append_nil l).symm, rfl, rfl⟩
    | cons b m =>
      obtain ⟨rfl, rfl⟩ := List.cons.inj hm
      exact absurd (hr a' (by simp)) ha'
  · cases m with
    | nil =>
      obtain ⟨rfl, rfl⟩ := List.cons.inj hm
      exact ⟨List.append_nil l', rfl, rfl⟩
    | cons b m =>
      obtain ⟨rfl, rfl⟩ := List.cons.inj hm
      exact absurd (hr' a (by simp)) ha

namespace Ty

/-! ## Bases and layers -/

/-- A type that is spelled by a name alone. -/
def isBase : Ty → Bool
  | .pointer _ | .reference _ | .array _ _ => false
  | _ => true

private theorem withLayers_none_cons (t : Ty) (layer : DeclaratorLayer)
    (layers : List DeclaratorLayer) :
    t.withLayers none (layer :: layers) = (layer.apply t).withLayers none layers := by
  rcases layer with _ | _ | _ | n <;> cases layers <;> rfl

/-- What holds of every base under layers holds of every type. Where the base is a list type, it may
be assumed of the element. -/
@[elab_as_elim] theorem layersInduction {P : Ty → Prop} (t : Ty)
    (layers : ∀ (base : Ty) (layers : List DeclaratorLayer), base.isBase = true →
      (∀ element, base = .initializerList element → P element) → P (base.withLayers none layers)) :
    P t := by
  suffices h : ∀ outer, P (t.withLayers none outer) from h []
  have hlayer : ∀ {u : Ty} (layer : DeclaratorLayer), (∀ outer, P (u.withLayers none outer)) →
      ∀ outer, P ((layer.apply u).withLayers none outer) :=
    fun layer h outer ↦ withLayers_none_cons _ layer outer ▸ h (layer :: outer)
  induction t with
  | pointer _ ih => exact hlayer .pointer ih
  | array _ length ih => exact hlayer (.array length) ih
  | reference _ ih => exact hlayer .reference ih
  | initializerList element ih =>
    refine fun outer ↦ layers _ outer rfl fun _ helement ↦ ?_
    cases helement
    exact ih []
  | _ => exact fun outer ↦ layers _ outer rfl nofun

private theorem exists_base (t : Ty) :
    ∃ (base : Ty) (layers : List DeclaratorLayer), base.isBase = true ∧
      t = base.withLayers none layers := by
  induction t using layersInduction with
  | layers base layers hbase _ => exact ⟨base, layers, hbase, rfl⟩

private theorem aliasFree_withLayers (t : Ty) (layers : List DeclaratorLayer) :
    (t.withLayers none layers).AliasFree ↔ t.AliasFree := by
  induction layers generalizing t with
  | nil => rfl
  | cons layer layers ih =>
    rw [withLayers_none_cons, ih]
    cases layer <;> rfl

/-! ## The text of a declarator -/

/-- A declarator that starts with a mark, in parentheses. -/
def grouped (d : List Char) : List Char :=
  if d.head? = some '*' ∨ d.head? = some '&' then '(' :: d ++ [')'] else d

/-- The declarator that layers make, from the innermost layer on. -/
def declaratorText : List DeclaratorLayer → List Char
  | [] => []
  | .pointer :: outer => '*' :: declaratorText outer
  | .reference :: outer => '&' :: declaratorText outer
  | .array length :: outer => grouped (declaratorText outer) ++ bound length

private theorem exists_bound (length : Option Nat) :
    ∃ digits, bound length = '[' :: digits ++ [']'] ∧ ∀ c ∈ digits, c.isDigit = true := by
  cases length with
  | none => exact ⟨[], rfl, List.forall_mem_nil _⟩
  | some n =>
    exact ⟨Nat.toDigits 10 n, rfl, fun c ↦ Nat.isDigit_of_mem_toDigits (by decide) (by decide)⟩

private theorem bound_injective {length length' : Option Nat} (h : bound length = bound length') :
    length = length' := by
  rcases length with _ | n <;> rcases length' with _ | n'
  · rfl
  · simp [bound] at h
  · simp [bound] at h
  · have hdigits : Nat.toDigits 10 n = Nat.toDigits 10 n' := by simpa [bound] using h
    rw [← Nat.ofDigitChars_ten_toDigits (n := n), hdigits, Nat.ofDigitChars_ten_toDigits]

private theorem head?_grouped_append_bound (d : List Char) (length : Option Nat) :
    ¬ ((grouped d ++ bound length).head? = some '*' ∨
      (grouped d ++ bound length).head? = some '&') := by
  obtain ⟨digits, hbound, -⟩ := exists_bound length
  rw [grouped, hbound]
  split
  · simp
  · cases d with
    | nil => simp
    | cons c d => assumption

private theorem grouped_append_bound (d : List Char) (length : Option Nat) :
    grouped (grouped d ++ bound length) = grouped d ++ bound length :=
  if_neg (head?_grouped_append_bound d length)

private theorem grouped_declaratorText (layers : List DeclaratorLayer) :
    grouped (declaratorText layers) = '(' :: declaratorText layers ++ [')'] ∨
      grouped (declaratorText layers) = declaratorText layers ∧
        (declaratorText layers).getLast? ≠ some ')' := by
  rcases layers with _ | ⟨_ | _ | length, outer⟩
  · exact .inr ⟨rfl, by decide⟩
  · exact .inl rfl
  · exact .inl rfl
  · obtain ⟨digits, hbound, -⟩ := exists_bound length
    refine .inr ⟨grouped_append_bound _ length, ?_⟩
    rw [declaratorText, hbound, ← List.append_assoc, List.getLast?_concat]
    decide

private theorem declaratorText_eq_of_grouped_eq {layers layers' : List DeclaratorLayer}
    (h : grouped (declaratorText layers) = grouped (declaratorText layers')) :
    declaratorText layers = declaratorText layers' := by
  rcases grouped_declaratorText layers with hgroup | ⟨hplain, hlast⟩ <;>
    rcases grouped_declaratorText layers' with hgroup' | ⟨hplain', hlast'⟩
  · rw [hgroup, hgroup'] at h
    exact (List.cons.inj (List.append_cancel_right h)).2
  · rw [← hplain', ← h, hgroup, List.getLast?_concat] at hlast'
    exact absurd rfl hlast'
  · rw [← hplain, h, hgroup', List.getLast?_concat] at hlast
    exact absurd rfl hlast
  · rw [← hplain, h, hplain']

private theorem append_bound_inj {d d' : List Char} {length length' : Option Nat}
    (h : d ++ bound length = d' ++ bound length') : d = d' ∧ length = length' := by
  obtain ⟨digits, hbound, hdigits⟩ := exists_bound length
  obtain ⟨digits', hbound', hdigits'⟩ := exists_bound length'
  have hne : ∀ {digits : List Char}, (∀ c ∈ digits, c.isDigit = true) →
      ∀ c ∈ digits ++ [']'], c ≠ '[' := by
    rintro digits hdigits c hc rfl
    rcases List.mem_append.mp hc with hc | hc
    · exact absurd (hdigits _ hc) (by decide)
    · exact absurd (List.mem_singleton.mp hc) (by decide)
  rw [hbound, hbound'] at h
  obtain ⟨rfl, -, hrest⟩ := append_cons_inj_of_forall (p := (· ≠ '[')) (not_not.mpr rfl)
    (not_not.mpr rfl) (hne hdigits) (hne hdigits') h
  refine ⟨rfl, bound_injective ?_⟩
  rw [hbound, hbound', List.append_cancel_right hrest]

/-- The innermost layer can be read off the text, and what is left is the text of the others. -/
private theorem declaratorText_cons_inj {layer layer' : DeclaratorLayer}
    {outer outer' : List DeclaratorLayer}
    (h : declaratorText (layer :: outer) = declaratorText (layer' :: outer')) :
    layer = layer' ∧ declaratorText outer = declaratorText outer' := by
  -- a mark comes first in the text, and no text that ends with a bound starts with one
  rcases layer with _ | _ | length <;> rcases layer' with _ | _ | length'
  · exact ⟨rfl, (List.cons.inj h).2⟩
  · exact absurd (List.cons.inj h).1 (by decide)
  · exact absurd (.inl (congrArg List.head? h.symm)) (head?_grouped_append_bound _ length')
  · exact absurd (List.cons.inj h).1 (by decide)
  · exact ⟨rfl, (List.cons.inj h).2⟩
  · exact absurd (.inr (congrArg List.head? h.symm)) (head?_grouped_append_bound _ length')
  · exact absurd (.inl (congrArg List.head? h)) (head?_grouped_append_bound _ length)
  · exact absurd (.inr (congrArg List.head? h)) (head?_grouped_append_bound _ length)
  · obtain ⟨hgrouped, rfl⟩ := append_bound_inj h
    exact ⟨rfl, declaratorText_eq_of_grouped_eq hgrouped⟩

private theorem declaratorText_cons_ne_nil (layer : DeclaratorLayer)
    (outer : List DeclaratorLayer) : declaratorText (layer :: outer) ≠ [] := by
  rcases layer with _ | _ | length
  · exact List.cons_ne_nil _ _
  · exact List.cons_ne_nil _ _
  · obtain ⟨digits, hbound, -⟩ := exists_bound length
    rw [declaratorText, hbound]
    exact List.append_ne_nil_of_right_ne_nil _ (List.cons_ne_nil _ _)

private theorem declaratorText_injective {layers layers' : List DeclaratorLayer}
    (h : declaratorText layers = declaratorText layers') : layers = layers' := by
  induction layers generalizing layers' with
  | nil =>
    cases layers' with
    | nil => rfl
    | cons layer' outer' => exact absurd h.symm (declaratorText_cons_ne_nil layer' outer')
  | cons layer outer ih =>
    cases layers' with
    | nil => exact absurd h (declaratorText_cons_ne_nil layer outer)
    | cons layer' outer' =>
      obtain ⟨rfl, houter⟩ := declaratorText_cons_inj h
      rw [ih houter]

/-! ## Where a name ends -/

/-- The characters of declarators. -/
def inDeclarator (c : Char) : Bool := c.isDigit || ['*', '&', '(', ')', '[', ']'].contains c

private theorem inDeclarator_of_mem_grouped {d : List Char} (hd : ∀ c ∈ d, inDeclarator c = true) :
    ∀ c ∈ grouped d, inDeclarator c = true := by
  intro c hc
  rw [grouped] at hc
  split at hc
  · simp only [List.cons_append, List.mem_cons, List.mem_append, List.not_mem_nil, or_false] at hc
    rcases hc with rfl | hc | rfl
    · decide
    · exact hd c hc
    · decide
  · exact hd c hc

private theorem inDeclarator_of_mem_bound {length : Option Nat} {c : Char} (hc : c ∈ bound length) :
    inDeclarator c = true := by
  obtain ⟨digits, hbound, hdigits⟩ := exists_bound length
  rw [hbound] at hc
  simp only [List.cons_append, List.mem_cons, List.mem_append, List.not_mem_nil, or_false] at hc
  rcases hc with rfl | hc | rfl
  · decide
  · rw [inDeclarator, hdigits c hc, Bool.true_or]
  · decide

private theorem inDeclarator_of_mem (layers : List DeclaratorLayer) :
    ∀ c ∈ declaratorText layers, inDeclarator c = true := by
  induction layers with
  | nil => exact List.forall_mem_nil _
  | cons layer outer ih =>
    cases layer with
    | pointer | reference => exact List.forall_mem_cons.mpr ⟨by decide, ih⟩
    | array length =>
      intro c hc
      rcases List.mem_append.mp hc with hc | hc
      · exact inDeclarator_of_mem_grouped ih c hc
      · exact inDeclarator_of_mem_bound hc

/-- A declarator as it stands behind a name. -/
def apart (d : List Char) : List Char := if d.head? = some '(' then ' ' :: d else d

private theorem around_eq_append (name : String) (d : List Char) :
    around name d = name.toList ++ apart d := by
  rw [around.eq_def]
  split
  · rfl
  · rename_i hhead
    rw [apart, if_neg]
    intro hparen
    obtain ⟨rest, hrest⟩ := List.head?_eq_some_iff.mp hparen
    exact hhead rest hrest

private theorem around_append_apart (name : String) (d : List Char) :
    around name d = around name [] ++ apart d := by
  rw [around_eq_append, around_eq_append]
  exact congrArg (· ++ apart d) (List.append_nil _).symm

private theorem spellAround_of_isBase {t : Ty} (hbase : t.isBase = true) (d : List Char) :
    t.spellAround d = t.spellAround [] ++ apart d := by
  cases t with
  | pointer _ | array _ _ | reference _ => exact absurd hbase Bool.false_ne_true
  | char sign => cases sign <;> exact around_append_apart _ d
  | integer width sign => cases sign <;> exact around_append_apart _ d
  | _ => exact around_append_apart _ d

private theorem filter_apart {d : List Char} (hd : ∀ c ∈ d, inDeclarator c = true) :
    (apart d).filter inDeclarator = d := by
  rw [apart]
  split
  · exact List.filter_eq_self.mpr hd
  · exact List.filter_eq_self.mpr hd

/-- The characters behind a name: those of a declarator, and the blank that may stand before it. -/
def behindName (c : Char) : Bool := inDeclarator c || c == ' '

private theorem behindName_of_mem_apart {d : List Char} (hd : ∀ c ∈ d, inDeclarator c = true) :
    ∀ c ∈ apart d, behindName c = true := by
  have hd' : ∀ c ∈ d, behindName c = true := fun c hc ↦ by rw [behindName, hd c hc, Bool.true_or]
  rw [apart]
  split
  · exact List.forall_mem_cons.mpr ⟨by decide, hd'⟩
  · exact hd'

/-- A text that ends where a name can end. -/
def endsName (text : List Char) : Bool := text.getLast?.any (!behindName ·)

private theorem endsName_concat {text : List Char} {c : Char} (hc : behindName c = false) :
    endsName (text ++ [c]) = true := by
  rw [endsName, List.getLast?_concat, Option.any_some, hc, Bool.not_false]

private theorem exists_concat_of_endsName {text : List Char} (htext : endsName text = true) :
    ∃ start c, text = start ++ [c] ∧ ¬ behindName c = true := by
  obtain ⟨c, hlast, hc⟩ := (Option.any_eq_true _ _).mp htext
  obtain ⟨start, rfl⟩ := List.getLast?_eq_some_iff.mp hlast
  exact ⟨start, c, rfl, by simpa using hc⟩

/-- **A name can be told from the declarator behind it.** -/
theorem append_apart_inj {name name' : List Char} {layers layers' : List DeclaratorLayer}
    (hname : endsName name = true) (hname' : endsName name' = true)
    (h : name ++ apart (declaratorText layers) = name' ++ apart (declaratorText layers')) :
    name = name' ∧ layers = layers' := by
  have hd := inDeclarator_of_mem layers
  have hd' := inDeclarator_of_mem layers'
  obtain ⟨start, c, rfl, hc⟩ := exists_concat_of_endsName hname
  obtain ⟨start', c', rfl, hc'⟩ := exists_concat_of_endsName hname'
  rw [List.append_assoc, List.append_assoc] at h
  obtain ⟨rfl, rfl, hapart⟩ := append_cons_inj_of_forall (p := (behindName · = true)) hc hc'
    (behindName_of_mem_apart hd) (behindName_of_mem_apart hd') h
  refine ⟨rfl, declaratorText_injective ?_⟩
  rw [← filter_apart hd, hapart, filter_apart hd']

/-! ## Names -/

/-- The built-in types. -/
def builtins : List Ty :=
  [.bool, .char .plain, .char .signed, .char .unsigned, .integer .short .signed,
    .integer .short .unsigned, .integer .int .signed, .integer .int .unsigned,
    .integer .long .signed, .integer .long .unsigned, .integer .longLong .signed,
    .integer .longLong .unsigned, .floating .float, .floating .double, .floating .longDouble, .void]

private theorem mem_builtins_or_list {t : Ty} (hbase : t.isBase = true) (hfree : t.AliasFree) :
    t ∈ builtins ∨ ∃ element, t = .initializerList element := by
  cases t with
  | pointer _ | array _ _ | reference _ => exact absurd hbase Bool.false_ne_true
  | named _ _ => exact hfree.elim
  | initializerList element => exact .inr ⟨element, rfl⟩
  | bool | void => exact .inl (by decide)
  | char sign => cases sign <;> exact .inl (by decide)
  | floating precision => cases precision <;> exact .inl (by decide)
  | integer width sign => cases width <;> cases sign <;> exact .inl (by decide)

private theorem spellAround_initializerList (element : Ty) :
    (initializerList element).spellAround [] =
      "std::initializer_list<".toList ++ element.spellAround [] ++ ['>'] := by
  rw [spellAround, around_eq_append, String.toList_append, String.toList_append,
    String.toList_ofList (l := element.spellAround [])]
  exact List.append_nil _

private theorem nodup_names_builtins : (builtins.map (·.spellAround [])).Nodup := by decide

private theorem endsName_of_mem_builtins {t : Ty} (ht : t ∈ builtins) :
    endsName (t.spellAround []) = true ∧ '>' ∉ t.spellAround [] := by
  have hall : (builtins.map (·.spellAround [])).all fun name ↦
      endsName name && !name.contains '>' := by decide
  simpa using List.all_eq_true.mp hall _ (List.mem_map_of_mem ht)

private theorem endsName_of_isBase {t : Ty} (hbase : t.isBase = true) (hfree : t.AliasFree) :
    endsName (t.spellAround []) = true := by
  rcases mem_builtins_or_list hbase hfree with ht | ⟨element, rfl⟩
  · exact (endsName_of_mem_builtins ht).1
  · rw [spellAround_initializerList]
    exact endsName_concat (by decide)

private theorem eq_of_name_eq {t u : Ty} (ht : t.isBase = true) (hu : u.isBase = true)
    (htfree : t.AliasFree) (hufree : u.AliasFree) (h : t.spellAround [] = u.spellAround [])
    (helement : ∀ element element' : Ty, t = .initializerList element →
      u = .initializerList element' → element.spellAround [] = element'.spellAround [] →
        element = element') : t = u := by
  rcases mem_builtins_or_list ht htfree with ht | ⟨element, rfl⟩ <;>
    rcases mem_builtins_or_list hu hufree with hu | ⟨element', rfl⟩
  · exact List.inj_on_of_nodup_map nodup_names_builtins ht hu h
  · refine absurd ?_ (endsName_of_mem_builtins ht).2
    rw [h, spellAround_initializerList]
    exact List.mem_concat_self
  · refine absurd ?_ (endsName_of_mem_builtins hu).2
    rw [← h, spellAround_initializerList]
    exact List.mem_concat_self
  · rw [spellAround_initializerList, spellAround_initializerList, List.append_assoc,
      List.append_assoc] at h
    have hspelled := List.append_cancel_right (List.append_cancel_left h)
    rw [helement element element' rfl rfl hspelled]

/-! ## Spelled types -/

/-- The layers over a type are written as the declarator around it. An array makes a group of a
declarator that starts with a mark. -/
private theorem spellAround_withLayers (t : Ty) (layers : List DeclaratorLayer) :
    (t.withLayers none layers).spellAround [] = t.spellAround
      (if t.isArray then grouped (declaratorText layers) else declaratorText layers) := by
  induction layers generalizing t with
  | nil => simp [withLayers, declaratorText, grouped]
  | cons layer outer ih =>
    rw [withLayers_none_cons, ih]
    cases layer with
    | pointer | reference => rfl
    | array length =>
      rw [declaratorText, grouped_append_bound, ite_self]
      rfl

private theorem spellAround_withLayers_of_isBase {t : Ty} (hbase : t.isBase = true)
    (layers : List DeclaratorLayer) :
    (t.withLayers none layers).spellAround [] =
      t.spellAround [] ++ apart (declaratorText layers) := by
  have harray : t.isArray = false := by
    cases t with
    | array _ _ => exact absurd hbase Bool.false_ne_true
    | _ => rfl
  rw [spellAround_withLayers, harray, if_neg Bool.false_ne_true, spellAround_of_isBase hbase]

example : (Ty.int.withLayers none [.array none, .pointer, .array (some 3)]).spellAround [] =
    "int (*[3])[]".toList := by decide

/-- **Spelled types are unambiguous**: types without aliases have the same spelling only if they are
equal, however pointers, references, arrays and lists are nested in them. -/
theorem spelling_unambiguous {t u : Ty} (ht : t.AliasFree) (hu : u.AliasFree) :
    t.spelling = u.spelling ↔ t = u := by
  refine ⟨fun h ↦ ?_, congrArg spelling⟩
  replace h : t.spellAround [] = u.spellAround [] := String.ofList_inj.mp h
  -- the layers are read back at once, so the induction only descends into the elements of lists
  induction t using layersInduction generalizing u with
  | layers base layers hbase ih =>
    obtain ⟨base', layers', hbase', rfl⟩ := u.exists_base
    rw [aliasFree_withLayers] at ht hu
    rw [spellAround_withLayers_of_isBase hbase, spellAround_withLayers_of_isBase hbase'] at h
    obtain ⟨hname, rfl⟩ := append_apart_inj (endsName_of_isBase hbase ht)
      (endsName_of_isBase hbase' hu) h
    rw [eq_of_name_eq hbase hbase' ht hu hname]
    rintro element element' rfl rfl hspelled
    exact ih element rfl ht hu hspelled

theorem spelling_unambiguous_pointers :
    (initializerList (.pointer (.array .int none))).AliasFree ∧
      (pointer (.array (.initializerList .int) none)).AliasFree ∧
      (initializerList (.pointer (.array .int none))).spelling ≠
        (pointer (.array (.initializerList .int) none)).spelling :=
  ⟨by decide, by decide, fun h ↦ by cases (spelling_unambiguous (by decide) (by decide)).mp h⟩

end Ty

end DeclAnalysis
