import DeclAnalysis.Proofs.Bindings
import DeclAnalysis.Proofs.Scope.OpenPath

/-!
# The scope tree as a stack of maps

Seen from outside, a scope tree is a stack. Opening a scope pushes an empty map of names, closing a
scope pops everything down to its map, a declaration changes the map on top, and lookup takes the
first map from the top that has the name and then the seed. Closed scopes are gone from the stack,
while the tree keeps them for good.

`ScopeStack` is that stack, with names as plain functions and without numbers, parents or labels; a
map remembers only the handle that closes it. `ScopeTree.stack` reads the stack off a tree, and each
operation on the tree is the operation on the stack (`stack_openScope`, `stack_closeScope`,
`stack_declare`), errors included. The main result compares the two after any run of requests.
-/

namespace DeclAnalysis

open ScopeTree (Handle Request)

/-! ## Stacks -/

/-- One scope of a stack. -/
structure Frame where
  /-- The handle that closes the scope; the global scope has none. -/
  handle : Option Handle
  /-- The kind of the scope. -/
  kind : ScopeKind
  /-- The names bound in the scope. -/
  names : String → Option Declaration

/-- Binds a declaration: a definition stands for its name, and another declaration does so only if
none stands yet. -/
def Frame.bind (f : Frame) (d : Declaration) : Frame :=
  { f with
    names := fun name ↦
      if name = d.name ∧ (d.isDefinition = true ∨ f.names name = none) then some d
      else f.names name }

/-- Open scopes with their names. -/
structure ScopeStack where
  /-- The open scopes, innermost first. -/
  frames : List Frame
  /-- The number of scopes opened so far, the global one included. -/
  count : Nat
  /-- What lookup falls back on. -/
  seed : Seed

namespace ScopeStack

/-- A stack of the global scope alone. -/
def new (seed : Seed) : ScopeStack := ⟨[⟨none, .global, fun _ ↦ none⟩], 1, seed⟩

/-- The kind of the top scope. -/
def currentKind (s : ScopeStack) : ScopeKind := (s.frames.head?.map (·.kind)).getD .global

/-- The number of open scopes. -/
def depth (s : ScopeStack) : Nat := s.frames.length

/-- The declaration of a name in the innermost scope that has the name, or else in the seed. -/
def lookup? (s : ScopeStack) (name : String) : Option Declaration :=
  (s.frames.findSome? (·.names name)).or (s.seed.get? name)

/-- The declaration of a name in the top scope. -/
def lookupLocal? (s : ScopeStack) (name : String) : Option Declaration :=
  s.frames.head?.bind (·.names name)

/-- The declaration of the object that an assignment changes. -/
def assign (s : ScopeStack) (name : String) (span : Span) : Except Error Declaration :=
  match s.lookup? name with
  | none => .error (.undeclaredName name span)
  | some d =>
    if d.isConst || d.type.isReference then
      .error (.immutableBinding name d.type.isReference span d.span)
    else .ok d

/-- Pushes a scope without names. -/
def openScope (s : ScopeStack) (kind : ScopeKind) (span : Span) :
    Except Error (Handle × ScopeStack) :=
  if kind.nestsIn s.currentKind then
    let h : Handle := ⟨s.count, s.depth⟩
    .ok (h, { s with frames := ⟨some h, kind, fun _ ↦ none⟩ :: s.frames, count := s.count + 1 })
  else .error (.invalidNesting kind s.currentKind span)

/-- What is left below the scope of a handle. -/
def popTo (h : Handle) : List Frame → Option (List Frame)
  | [] => none
  | f :: rest => if f.handle = some h then some rest else popTo h rest

/-- Pops every scope down to that of a handle, and this one too. -/
def closeScope (s : ScopeStack) (h : Handle) (span : Span) : Except Error ScopeStack :=
  match popTo h s.frames with
  | some rest => .ok { s with frames := rest }
  | none => .error (.unbalancedScope none span)

/-- The declaration that a new one clashes with: in the global scope the one of the seed, and
everywhere the one that stands for the name in the top scope. -/
def clash? (s : ScopeStack) (d : Declaration) : Option Declaration :=
  ((if s.currentKind = .global then s.seed.get? d.name else none).filter (·.clashesWith d)).or
    ((s.lookupLocal? d.name).filter (·.clashesWith d))

/-- Declares a name in the top scope. -/
def declare (s : ScopeStack) (d : Declaration) : Except Error ScopeStack :=
  match s.clash? d with
  | some previous => .error (.redefinition d.name s.currentKind d.span previous.span)
  | none => .ok { s with frames := s.frames.modifyHead (·.bind d) }

/-- The stack after a request that is accepted. A stack has no labels. -/
def perform (s : ScopeStack) : Request → Except Error ScopeStack
  | .openScope kind _ span => (s.openScope kind span).map (·.2)
  | .closeScope h span => s.closeScope h span
  | .declare d => s.declare d
  | .defineLabel _ _ => .ok s
  | .jumpTo _ _ => .ok s

/-- The stack after a request, accepted or refused. -/
def apply (s : ScopeStack) (r : Request) : ScopeStack := (s.perform r).toOption.getD s

/-- The stack after some requests. -/
def run (s : ScopeStack) (rs : List Request) : ScopeStack := rs.foldl apply s

end ScopeStack

/-! ## The stack of a tree -/

namespace ScopeTree

/-- The scopes of a path, innermost first, as they stand on a stack. -/
def framesOf (t : ScopeTree) : List Nat → List Frame
  | [] => []
  | id :: rest =>
    ⟨if rest = [] then none else some ⟨id, rest.length⟩, (t.scope id).kind,
      (t.scope id).bindings.get?⟩ :: t.framesOf rest

/-- The open scopes of a tree as a stack. -/
def stack (t : ScopeTree) : ScopeStack := ⟨t.framesOf t.openPath, t.scopes.length, t.seed⟩

variable {t t' : ScopeTree}

@[simp] theorem length_framesOf (t : ScopeTree) (path : List Nat) :
    (t.framesOf path).length = path.length := by
  induction path with
  | nil => rfl
  | cons id rest ih => rw [framesOf, List.length_cons, ih, List.length_cons]

private theorem framesOf_congr {path : List Nat}
    (hkind : ∀ id ∈ path, (t'.scope id).kind = (t.scope id).kind)
    (hbindings : ∀ id ∈ path, (t'.scope id).bindings = (t.scope id).bindings) :
    t'.framesOf path = t.framesOf path := by
  induction path with
  | nil => rfl
  | cons id rest ih =>
    rw [framesOf, framesOf, hkind id List.mem_cons_self, hbindings id List.mem_cons_self,
      ih (fun id hmem ↦ hkind id (List.mem_cons_of_mem _ hmem))
        (fun id hmem ↦ hbindings id (List.mem_cons_of_mem _ hmem))]

private theorem id_mem_of_mem_framesOf {path : List Nat} {f : Frame} {h : Handle}
    (hmem : f ∈ t.framesOf path) (hhandle : f.handle = some h) : h.id ∈ path := by
  induction path with
  | nil => cases hmem
  | cons id rest ih =>
    rw [framesOf, List.mem_cons] at hmem
    rcases hmem with rfl | hmem
    · split at hhandle
      · cases hhandle
      · cases hhandle
        exact List.mem_cons_self
    · exact List.mem_cons_of_mem _ (ih hmem)

/-! ### Questions -/

private theorem findSome?_framesOf (t : ScopeTree) (path : List Nat) (name : String) :
    (t.framesOf path).findSome? (·.names name) =
      path.findSome? fun id ↦ (t.scope id).bindings.get? name := by
  induction path with
  | nil => rfl
  | cons id rest ih => rw [framesOf, List.findSome?_cons, List.findSome?_cons, ih]

private theorem lookup?_stack (hwf : t.WellFormed) (name : String) :
    t.stack.lookup? name = t.lookup? name := by
  rw [lookup?_eq_findSome? hwf, ScopeStack.lookup?, stack, findSome?_framesOf]

private theorem lookupLocal?_stack (hwf : t.WellFormed) (name : String) :
    t.stack.lookupLocal? name = t.lookupLocal? name := by
  obtain ⟨rest, hpath⟩ := hwf.exists_cons
  rw [ScopeStack.lookupLocal?, stack, hpath, framesOf]
  rfl

private theorem assign_stack (hwf : t.WellFormed) (name : String) (span : Span) :
    t.stack.assign name span = t.assign name span := by
  have hfound := lookup?_stack hwf name
  cases htree : t.lookup? name with
  | none => simp only [ScopeStack.assign, assign, hfound, htree]
  | some d => simp only [ScopeStack.assign, assign, hfound, htree]

private theorem currentKind_stack (hwf : t.WellFormed) : t.stack.currentKind = t.currentKind := by
  obtain ⟨rest, hpath⟩ := hwf.exists_cons
  rw [ScopeStack.currentKind, stack, hpath, framesOf]
  rfl

private theorem depth_stack (t : ScopeTree) :
    t.stack.depth = t.depth := length_framesOf t t.openPath

/-! ### Operations -/

private theorem stack_opened (hwf : t.WellFormed) (kind : ScopeKind) (name : Option String)
    (span : Span) :
    (t.opened kind name span).stack =
      { t.stack with
        frames := ⟨some ⟨t.scopes.length, t.depth⟩, kind, fun _ ↦ none⟩ :: t.stack.frames
        count := t.scopes.length + 1 } := by
  have hold : (t.opened kind name span).framesOf t.openPath = t.framesOf t.openPath := by
    refine framesOf_congr (fun id hmem ↦ ?_) (fun id hmem ↦ ?_)
    · exact part_scope_opened Scope.kind t kind name span (hwf.lt_length id hmem) fun _ _ ↦ rfl
    · exact part_scope_opened Scope.bindings t kind name span (hwf.lt_length id hmem) fun _ _ ↦ rfl
  rw [stack, openPath_opened, framesOf, hold, scope_opened_new, length_scopes_opened,
    if_neg hwf.openPath_ne_nil]
  rfl

private theorem stack_openScope (hwf : t.WellFormed) (kind : ScopeKind) (name : Option String)
    (span : Span) :
    (t.openScope kind name span).map (fun r ↦ (r.1, r.2.stack)) =
      t.stack.openScope kind span := by
  rw [openScope_eq, ScopeStack.openScope, currentKind_stack hwf]
  split
  · rw [depth_stack]
    exact congrArg (fun s ↦ Except.ok (_, s)) (stack_opened hwf kind name span)
  · rfl

/-- On the stack of a path, popping to a handle is cutting the path where the handle points. The
tree counts the place of a scope from the outside. -/
private theorem popTo_framesOf (t : ScopeTree) (path : List Nat) (h : Handle) :
    ScopeStack.popTo h (t.framesOf path) =
      if 0 < h.depth ∧ path.reverse[h.depth]? = some h.id then
        some (t.framesOf (path.drop (path.length - h.depth)))
      else none := by
  induction path with
  | nil => simp [framesOf, ScopeStack.popTo]
  | cons id rest ih =>
    obtain ⟨hid, hdepth⟩ := h
    rw [framesOf, ScopeStack.popTo, ih, List.reverse_cons, List.length_cons]
    have hother (helsewhere : hdepth ≠ rest.length) :
        (if rest = [] then none else some (⟨id, rest.length⟩ : Handle)) ≠ some ⟨hid, hdepth⟩ := by
      split
      · simp
      · simp only [ne_eq, Option.some.injEq, Handle.mk.injEq, not_and]
        omega
    rcases Nat.lt_trichotomy hdepth rest.length with hinside | rfl | beyond
    · -- the handle points further down
      rw [if_neg (hother (by omega)), List.getElem?_append_left (by simpa using hinside),
        show rest.length + 1 - hdepth = rest.length - hdepth + 1 by omega, List.drop_succ_cons]
    · -- the handle points here, unless this is the global scope
      rw [List.getElem?_append_right (by simp), List.getElem?_eq_none (by simp)]
      cases rest with
      | nil => simp
      | cons outer rest =>
        by_cases hsame : id = hid <;> simp [hsame]
    · rw [if_neg (hother (by omega)), List.getElem?_eq_none (by simp; omega),
        List.getElem?_eq_none (by simp; omega)]
      simp

private theorem stack_closeInner (t : ScopeTree) (n : Nat) :
    (t.closeInner n).stack = { t.stack with frames := t.framesOf (t.openPath.drop n) } := by
  have hsame : (t.closeInner n).framesOf (t.openPath.drop n) = t.framesOf (t.openPath.drop n) :=
    framesOf_congr (fun id _ ↦ part_scope_closeInner Scope.kind _ _ _ fun _ ↦ rfl)
      fun id _ ↦ part_scope_closeInner Scope.bindings _ _ _ fun _ ↦ rfl
  rw [stack, openPath_closeInner, hsame, length_scopes_closeInner]
  rfl

private theorem stack_closeScope (t : ScopeTree) (h : Handle) (span : Span) :
    (t.closeScope h span).map (·.2.stack) = t.stack.closeScope h span := by
  have haccepts : t.holds h = true ↔ 0 < h.depth ∧ t.openPath.reverse[h.depth]? = some h.id := by
    rw [holds, Bool.and_eq_true, decide_eq_true_eq, decide_eq_true_eq]
  rw [closeScope_eq, ScopeStack.closeScope, stack, popTo_framesOf]
  by_cases hopen : t.holds h = true
  · rw [if_pos hopen, if_pos (haccepts.mp hopen)]
    exact congrArg Except.ok (stack_closeInner t (t.depth - h.depth))
  · rw [if_neg hopen, if_neg (mt haccepts.mpr hopen)]
    rfl

private theorem stack_bound (hwf : t.WellFormed) {d standing : Declaration} {bindings : Bindings}
    (haccepted : t.currentScope.bindings.declare d = .ok (standing, bindings)) :
    (t.modify t.current fun s ↦ { s with bindings := bindings }).stack =
      { t.stack with frames := t.stack.frames.modifyHead (·.bind d) } := by
  obtain ⟨rest, hpath⟩ := hwf.exists_cons
  have hnodup := hwf.nodup
  rw [hpath, List.nodup_cons] at hnodup
  -- only the top of the path is changed
  have hbelow : (t.modify t.current fun s ↦ { s with bindings := bindings }).framesOf rest =
      t.framesOf rest := by
    refine framesOf_congr (fun id _ ↦ part_scope_modify Scope.kind _ _ _ fun _ ↦ rfl) ?_
    intro id hmem
    rw [scope_modify_of_ne]
    rintro rfl
    exact hnodup.1 hmem
  rw [stack, openPath_modify, stack, hpath, framesOf, framesOf, hbelow,
    scope_modify_self _ _ hwf.current_lt, length_scopes_modify]
  refine congrArg (ScopeStack.mk · _ _) (congrArg (· :: _) ?_)
  refine congrArg (Frame.mk _ _) (funext fun name ↦ ?_)
  exact Bindings.get?_of_declare haccepted name

private theorem stack_declare (hwf : t.WellFormed) (d : Declaration) :
    (t.declare d).map (·.2.stack) = t.stack.declare d := by
  have hseedClash : (if t.currentKind = .global then t.seed.get? d.name else none).filter
      (·.clashesWith d) = t.seedClash? d := by
    rw [seedClash?]
    split <;> rfl
  have hclash : t.stack.clash? d =
      (t.seedClash? d).or ((t.currentScope.bindings.get? d.name).filter (·.clashesWith d)) := by
    rw [ScopeStack.clash?, currentKind_stack hwf, lookupLocal?_stack hwf, ← hseedClash]
    rfl
  rw [declare, ScopeStack.declare, hclash, currentKind_stack hwf]
  cases t.seedClash? d with
  | some previous => rfl
  | none =>
    cases houtcome : t.currentScope.bindings.declare d with
    | error previous =>
      rw [Bindings.declare_eq_error_iff.mp houtcome]
      rfl
    | ok result =>
      obtain ⟨standing, bindings⟩ := result
      rw [Bindings.filter_clashesWith_of_declare houtcome]
      exact congrArg Except.ok (stack_bound hwf houtcome)

private theorem stack_modify_of_hidden (t : ScopeTree) (id : Nat) {f : Scope → Scope}
    (hkind : ∀ s, (f s).kind = s.kind) (hbindings : ∀ s, (f s).bindings = s.bindings) :
    (t.modify id f).stack = t.stack := by
  rw [stack, openPath_modify, length_scopes_modify,
    framesOf_congr (fun id' _ ↦ part_scope_modify Scope.kind t id id' hkind)
      fun id' _ ↦ part_scope_modify Scope.bindings t id id' hbindings]
  rfl

private theorem stack_of_defineLabel {name : String} {span : Span}
    (hok : t.defineLabel name span = .ok t') : t'.stack = t.stack := by
  rw [defineLabel] at hok
  split at hok
  · cases hok
  · split at hok
    · cases hok
    · cases hok
      exact stack_modify_of_hidden t _ (fun _ ↦ rfl) fun _ ↦ rfl

private theorem stack_of_jumpTo {name : String} {span : Span} (hok : t.jumpTo name span = .ok t') :
    t'.stack = t.stack := by
  rw [jumpTo] at hok
  split at hok
  · cases hok
  · split at hok
    · cases hok
      rfl
    · cases hok
      exact stack_modify_of_hidden t _ (fun _ ↦ rfl) fun _ ↦ rfl

/-! ### Runs -/

/-- **One request on the tree is one request on its stack.** -/
theorem stack_apply (hwf : t.WellFormed) (r : Request) : (t.apply r).stack = t.stack.apply r := by
  have accepted {x : Except Error ScopeTree} {y : Except Error ScopeStack}
      (hsame : x.map stack = y) : (x.toOption.getD t).stack = y.toOption.getD t.stack := by
    subst hsame
    cases x <;> rfl
  rw [apply, ScopeStack.apply]
  cases r with
  | openScope kind name span =>
    refine accepted ?_
    rw [ScopeStack.perform, ← stack_openScope hwf kind name span, perform]
    cases t.openScope kind name span <;> rfl
  | closeScope h span =>
    refine accepted ?_
    rw [ScopeStack.perform, ← stack_closeScope, perform]
    cases t.closeScope h span <;> rfl
  | declare d =>
    refine accepted ?_
    rw [ScopeStack.perform, ← stack_declare hwf, perform]
    cases t.declare d <;> rfl
  | defineLabel name span =>
    rw [perform, ScopeStack.perform]
    cases houtcome : t.defineLabel name span with
    | error e => rfl
    | ok t' => exact stack_of_defineLabel houtcome
  | jumpTo name span =>
    rw [perform, ScopeStack.perform]
    cases houtcome : t.jumpTo name span with
    | error e => rfl
    | ok t' => exact stack_of_jumpTo houtcome

private theorem stack_run (hwf : t.WellFormed) (rs : List Request) :
    (t.run rs).stack = t.stack.run rs := by
  induction rs generalizing t with
  | nil => rfl
  | cons r rest ih =>
    rw [run, List.foldl_cons, ScopeStack.run, List.foldl_cons, ← stack_apply hwf]
    exact ih (wellFormed_apply hwf r)

end ScopeTree

/-! ## Closing restores what was there -/

namespace ScopeStack

variable {s : ScopeStack} {h : Handle} {base : List Frame}

private theorem apply_cases (s : ScopeStack) (r : Request) :
    s.apply r = s ∨
    (∃ kind depth, s.apply r =
      { s with
        frames := ⟨some ⟨s.count, depth⟩, kind, fun _ ↦ none⟩ :: s.frames
        count := s.count + 1 }) ∨
    (∃ h rest, popTo h s.frames = some rest ∧ s.apply r = { s with frames := rest }) ∨
    ∃ d, s.apply r = { s with frames := s.frames.modifyHead (·.bind d) } := by
  cases r with
  | openScope kind name span =>
    rw [apply, perform, openScope]
    split
    · exact .inr (.inl ⟨kind, s.depth, rfl⟩)
    · exact .inl rfl
  | closeScope h span =>
    rw [apply, perform, closeScope]
    split
    · next rest hpopped => exact .inr (.inr (.inl ⟨h, rest, hpopped, rfl⟩))
    · exact .inl rfl
  | declare d =>
    rw [apply, perform, declare]
    split
    · exact .inl rfl
    · exact .inr (.inr (.inr ⟨d, rfl⟩))
  | defineLabel name span => exact .inl rfl
  | jumpTo name span => exact .inl rfl

private theorem popTo_eq_none {frames : List Frame} (hgone : ∀ f ∈ frames, f.handle ≠ some h) :
    popTo h frames = none := by
  induction frames with
  | nil => rfl
  | cons f rest ih =>
    rw [popTo, if_neg (hgone f List.mem_cons_self)]
    exact ih fun g hmem ↦ hgone g (List.mem_cons_of_mem f hmem)

private theorem popTo_append {above : List Frame} {f : Frame}
    (hfree : ∀ g ∈ above, g.handle ≠ some h)
    (hhandle : f.handle = some h) : popTo h (above ++ f :: base) = some base := by
  induction above with
  | nil => rw [List.nil_append, popTo, if_pos hhandle]
  | cons g rest ih =>
    rw [List.cons_append, popTo, if_neg (hfree g List.mem_cons_self)]
    exact ih fun g hmem ↦ hfree g (List.mem_cons_of_mem _ hmem)

private theorem suffix_of_popTo {frames rest : List Frame} (hpopped : popTo h frames = some rest) :
    ∃ f, f :: rest <:+ frames := by
  induction frames with
  | nil => cases hpopped
  | cons f hbelow ih =>
    rw [popTo] at hpopped
    split at hpopped
    · cases hpopped
      exact ⟨f, List.suffix_rfl⟩
    · obtain ⟨g, hsuffix⟩ := ih hpopped
      exact ⟨g, hsuffix.trans (List.suffix_cons f hbelow)⟩

/-- Either the scope of a handle stands directly on some scopes, or it is gone for good. -/
def StandsOn (h : Handle) (base : List Frame) (s : ScopeStack) : Prop :=
  (∃ above f, s.frames = above ++ f :: base ∧ f.handle = some h ∧
    ∀ g ∈ above, g.handle ≠ some h) ∨ ∀ g ∈ s.frames, g.handle ≠ some h

/-- Popping goes from the top, so it takes away scopes above the one of the handle, or this one and
perhaps more. -/
private theorem StandsOn.pop (hstands : StandsOn h base s) (hbelow : ∀ g ∈ base, g.handle ≠ some h)
    {f : Frame} {rest : List Frame} (hsuffix : f :: rest <:+ s.frames) :
    StandsOn h base { s with frames := rest } := by
  rcases hstands with ⟨above, top, hframes, hhandle, hfree⟩ | hgone
  · rw [hframes] at hsuffix
    obtain ⟨hpopped, split⟩ := hsuffix
    rcases List.append_eq_append_iff.mp split with ⟨more, rfl, hrest⟩ | ⟨more, rfl, hrest⟩
    · cases more with
      | nil =>
        cases hrest
        exact .inr hbelow
      | cons g more =>
        cases hrest
        refine .inl ⟨more, top, rfl, hhandle, fun g hmem ↦ hfree g ?_⟩
        exact List.mem_append_right _ (List.mem_cons_of_mem _ hmem)
    · refine .inr fun g hmem ↦ hbelow g ?_
      cases more with
      | nil =>
        cases hrest
        exact hmem
      | cons g' more =>
        have htail := (List.cons.inj hrest).2
        rw [htail]
        exact List.mem_append_right _ (List.mem_cons_of_mem _ hmem)
  · exact .inr fun g hmem ↦ hgone g (hsuffix.subset (List.mem_cons_of_mem _ hmem))

theorem StandsOn.apply (hstands : StandsOn h base s) (hold : h.id < s.count)
    (hbelow : ∀ g ∈ base, g.handle ≠ some h) (r : Request) :
    StandsOn h base (s.apply r) ∧ h.id < (s.apply r).count := by
  rcases apply_cases s r with
    hsame | ⟨kind, depth, hpushed⟩ | ⟨h', rest, hpopped, hleft⟩ | ⟨d, hbound⟩
  · rw [hsame]
    exact ⟨hstands, hold⟩
  · rw [hpushed]
    have hfresh : (some ⟨s.count, depth⟩ : Option Handle) ≠ some h := by
      rintro hsame
      cases hsame
      exact Nat.lt_irrefl _ hold
    refine ⟨?_, Nat.lt_succ_of_lt hold⟩
    rcases hstands with ⟨above, top, hframes, hhandle, hfree⟩ | hgone
    · refine .inl ⟨_ :: above, top, by rw [hframes]; rfl, hhandle, ?_⟩
      rintro g (_ | ⟨_, hmem⟩)
      · exact hfresh
      · exact hfree g hmem
    · refine .inr ?_
      rintro g (_ | ⟨_, hmem⟩)
      · exact hfresh
      · exact hgone g hmem
  · rw [hleft]
    obtain ⟨f, hsuffix⟩ := suffix_of_popTo hpopped
    exact ⟨hstands.pop hbelow hsuffix, hold⟩
  · rw [hbound]
    refine ⟨?_, hold⟩
    -- binding a name keeps the handles, and never touches what lies below the top
    rcases hstands with ⟨above, top, hframes, hhandle, hfree⟩ | hgone
    · cases above with
      | nil => exact .inl ⟨[], top.bind d, by rw [hframes]; rfl, hhandle, by simp⟩
      | cons g above =>
        refine .inl ⟨g.bind d :: above, top, by rw [hframes]; rfl, hhandle, ?_⟩
        rintro g' (_ | ⟨_, hmem⟩)
        · exact hfree g List.mem_cons_self
        · exact hfree g' (List.mem_cons_of_mem _ hmem)
    · refine .inr fun g hmem ↦ ?_
      cases hframes : s.frames with
      | nil =>
        rw [hframes] at hmem
        cases hmem
      | cons f rest =>
        rw [hframes] at hmem hgone
        rcases List.mem_cons.mp hmem with rfl | hmem
        · exact hgone f List.mem_cons_self
        · exact hgone g (List.mem_cons_of_mem _ hmem)

theorem StandsOn.run (hstands : StandsOn h base s) (hold : h.id < s.count)
    (hbelow : ∀ g ∈ base, g.handle ≠ some h) (rs : List Request) :
    StandsOn h base (s.run rs) := by
  induction rs generalizing s with
  | nil => exact hstands
  | cons r rest ih =>
    obtain ⟨hstands, hold⟩ := hstands.apply hold hbelow r
    exact ih hstands hold

end ScopeStack

namespace ScopeTree

variable {t t₁ t₂ : ScopeTree}

/-- **Closing restores.** A scope is opened, requests follow, and its handle still closes it: then
the open scopes are those from before the opening, with the same names. -/
theorem frames_of_closeScope (hwf : t.WellFormed) {kind : ScopeKind} {name : Option String}
    {span span' : Span} {h : Handle} {rs : List Request} {errors : List Error}
    (hopened : t.openScope kind name span = .ok (h, t₁))
    (hclosed : (t₁.run rs).closeScope h span' = .ok (errors, t₂)) :
    t₂.stack.frames = t.stack.frames := by
  have hwf₁ := hwf.step (step_of_openScope hopened)
  rw [openScope_eq] at hopened
  split at hopened
  · cases hopened
    have hbelow : ∀ g ∈ t.stack.frames, g.handle ≠ some ⟨t.scopes.length, t.depth⟩ := by
      intro g hmem hhandle
      exact Nat.lt_irrefl _ (hwf.lt_length _ (id_mem_of_mem_framesOf hmem hhandle))
    have hstands : ScopeStack.StandsOn ⟨t.scopes.length, t.depth⟩ t.stack.frames
        (t.opened kind name span).stack := by
      rw [stack_opened hwf]
      exact .inl ⟨[], _, rfl, rfl, by simp⟩
    have hstands := hstands.run (Nat.lt_succ_self _ |>.trans_eq
      (length_scopes_opened t kind name span).symm) hbelow rs
    have hclose := stack_closeScope ((t.opened kind name span).run rs)
      ⟨t.scopes.length, t.depth⟩ span'
    rw [hclosed, ScopeStack.closeScope, stack_run hwf₁] at hclose
    rcases hstands with ⟨above, top, hframes, hhandle, hfree⟩ | hgone
    · simp only [hframes, ScopeStack.popTo_append hfree hhandle, Except.map, Except.ok.injEq]
        at hclose
      rw [hclose]
    · rw [ScopeStack.popTo_eq_none hgone] at hclose
      cases hclose
  · cases hopened

/-! ## The main result -/

/-- **A scope tree is a stack of maps.** After any requests to a new tree, accepted or refused, and
with any handles:

* lookup, local lookup, assignment, the current kind and the depth are those of the stack after the
  same requests;
* the tree accepts the openings, closings and declarations that the stack accepts, with the same
  handles and the same errors, and a refused request leaves it as it is;
* what lookup finds is bound in a scope of the open path, the innermost one that has the name, or in
  the seed; the scopes of the open path are the ones that are open, each inside the next;
* when a scope is opened here and its handle closes it later, lookup gives again what it gives
  now. -/
theorem run_eq_stack_run (seed : Seed) (rs : List Request) :
    let t := (ScopeTree.new seed).run rs
    let s := (ScopeStack.new seed).run rs
    ((∀ name, t.lookup? name = s.lookup? name) ∧
      (∀ name, t.lookupLocal? name = s.lookupLocal? name) ∧
      (∀ name span, t.assign name span = s.assign name span) ∧
      t.currentKind = s.currentKind ∧ t.depth = s.depth) ∧
    ((∀ kind name span, (t.openScope kind name span).map (·.1) =
        (s.openScope kind span).map (·.1)) ∧
      (∀ h span, (t.closeScope h span).map (fun _ ↦ ()) =
        (s.closeScope h span).map fun _ ↦ ()) ∧
      (∀ d, (t.declare d).map (fun _ ↦ ()) = (s.declare d).map fun _ ↦ ()) ∧
      ∀ r e, t.perform r = .error e → t.apply r = t) ∧
    ((∀ name, t.lookup? name =
        (t.openPath.findSome? fun id ↦ (t.scope id).bindings.get? name).or (seed.get? name)) ∧
      (∀ id < t.scopes.length, ((t.scope id).isOpen = true ↔ id ∈ t.openPath)) ∧
      t.openPath.IsChain fun id outer ↦ (t.scope id).parent = some outer) ∧
    ∀ kind name span h t₁, t.openScope kind name span = .ok (h, t₁) →
      ∀ rs' span' errors t₂, (t₁.run rs').closeScope h span' = .ok (errors, t₂) →
        (∀ name, t₂.lookup? name = t.lookup? name) ∧
        (∀ name, t₂.lookupLocal? name = t.lookupLocal? name) ∧
        t₂.currentKind = t.currentKind ∧ t₂.depth = t.depth := by
  intro t s
  have hwf : t.WellFormed := wellFormed_run seed rs
  have hsame : s = t.stack := (stack_run (wellFormed_new seed) rs).symm
  have hseed : t.seed = seed :=
    run_induction (P := fun t ↦ t.seed = seed) (fun _ _ hkept hstep ↦ hstep.seed_eq.trans hkept)
      rfl rs
  rw [hsame]
  refine ⟨⟨fun name ↦ (lookup?_stack hwf name).symm, fun name ↦ (lookupLocal?_stack hwf name).symm,
    fun name span ↦ (assign_stack hwf name span).symm, (currentKind_stack hwf).symm,
    (depth_stack t).symm⟩, ⟨?_, ?_, ?_, fun _ _ hrefused ↦ apply_of_error hrefused⟩,
    ⟨fun name ↦ hseed ▸ lookup?_eq_findSome? hwf name, hwf.isOpen_iff, hwf.chain⟩, ?_⟩
  · intro kind name span
    rw [← stack_openScope hwf kind name span]
    cases t.openScope kind name span <;> rfl
  · intro h span
    rw [← stack_closeScope]
    cases t.closeScope h span <;> rfl
  · intro d
    rw [← stack_declare hwf]
    cases t.declare d <;> rfl
  · intro kind name span h t₁ hopened rs' span' errors t₂ hclosed
    have hwf₁ : t₁.WellFormed := hwf.step (step_of_openScope hopened)
    have hwf₂ : t₂.WellFormed :=
      (run_induction (fun _ _ ↦ WellFormed.step) hwf₁ rs').step (step_of_closeScope hclosed)
    have hframes := frames_of_closeScope hwf hopened hclosed
    have hseed₂ : t₂.seed = t.seed :=
      ((step_of_closeScope hclosed).seed_eq.trans
        (run_induction (P := fun t' ↦ t'.seed = t₁.seed)
          (fun _ _ hkept hstep ↦ hstep.seed_eq.trans hkept) rfl rs')).trans
        (step_of_openScope hopened).seed_eq
    refine ⟨fun name ↦ ?_, fun name ↦ ?_, ?_, ?_⟩
    · rw [← lookup?_stack hwf₂, ← lookup?_stack hwf, ScopeStack.lookup?, hframes]
      exact congrArg (fun seed : Seed ↦ Option.or _ (seed.get? name)) hseed₂
    · rw [← lookupLocal?_stack hwf₂, ← lookupLocal?_stack hwf, ScopeStack.lookupLocal?, hframes]
      rfl
    · rw [← currentKind_stack hwf₂, ← currentKind_stack hwf, ScopeStack.currentKind, hframes]
      rfl
    · rw [← depth_stack, ← depth_stack, ScopeStack.depth, hframes]
      rfl

end ScopeTree

end DeclAnalysis
