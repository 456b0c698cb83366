import DeclAnalysis.Ty.Basic

/-!
# Types up to aliases

An alias is a name for a type and makes no new type. So two types are the same when one can be
turned into the other by putting a type for its alias, or an alias for its type, any number of times
and at any depth. `AliasEquiv` gives these exchanges as rules: it is the least congruence on types
that identifies an alias with the type behind it.

Canonical forms decide it. A type is related to its canonical form, by induction on the type, and
related types have the same canonical form, by induction on the derivation.
-/

namespace DeclAnalysis.Ty

/-- A type in which no alias stands, at any depth. -/
def AliasFree : Ty → Prop
  | .pointer pointee => pointee.AliasFree
  | .array element _ => element.AliasFree
  | .reference referent => referent.AliasFree
  | .named _ _ => False
  | .initializerList element => element.AliasFree
  | _ => True

instance decidableAliasFree : (t : Ty) → Decidable t.AliasFree
  | .pointer pointee => decidableAliasFree pointee
  | .array element _ => decidableAliasFree element
  | .reference referent => decidableAliasFree referent
  | .named _ _ => .isFalse id
  | .initializerList element => decidableAliasFree element
  | .bool | .char _ | .integer _ _ | .floating _ | .void => .isTrue trivial

/-- The least congruence on types that identifies an alias with the type behind it. -/
inductive AliasEquiv : Ty → Ty → Prop where
  | refl (t : Ty) : AliasEquiv t t
  | symm {t u : Ty} (h : AliasEquiv t u) : AliasEquiv u t
  | trans {t u v : Ty} (h : AliasEquiv t u) (h' : AliasEquiv u v) : AliasEquiv t v
  /-- An alias is the type behind it. -/
  | resolve (name : String) (t : Ty) : AliasEquiv (.named name t) t
  | pointer {t u : Ty} (h : AliasEquiv t u) : AliasEquiv (.pointer t) (.pointer u)
  | array {t u : Ty} (length : Option Nat) (h : AliasEquiv t u) :
      AliasEquiv (.array t length) (.array u length)
  | reference {t u : Ty} (h : AliasEquiv t u) : AliasEquiv (.reference t) (.reference u)
  | named {t u : Ty} (name : String) (h : AliasEquiv t u) :
      AliasEquiv (.named name t) (.named name u)
  | initializerList {t u : Ty} (h : AliasEquiv t u) :
      AliasEquiv (.initializerList t) (.initializerList u)

/-! ## Canonical forms -/

private theorem aliasFree_canonical (t : Ty) : t.canonical.AliasFree := by
  induction t with
  | pointer _ ih | array _ _ ih | reference _ ih | named _ _ ih | initializerList _ ih => exact ih
  | _ => trivial

theorem AliasFree.canonical_eq {t : Ty} (h : t.AliasFree) : t.canonical = t := by
  induction t with
  | pointer _ ih => exact congrArg Ty.pointer (ih h)
  | array _ length ih => exact congrArg (Ty.array · length) (ih h)
  | reference _ ih => exact congrArg Ty.reference (ih h)
  | named _ _ => exact h.elim
  | initializerList _ ih => exact congrArg Ty.initializerList (ih h)
  | _ => rfl

private theorem canonical_eq_self_iff {t : Ty} : t.canonical = t ↔ t.AliasFree :=
  ⟨fun h ↦ h ▸ t.aliasFree_canonical, AliasFree.canonical_eq⟩

/-! ## The equivalence -/

private theorem aliasEquiv_canonical (t : Ty) : AliasEquiv t t.canonical := by
  induction t with
  | pointer _ ih => exact .pointer ih
  | array _ length ih => exact .array length ih
  | reference _ ih => exact .reference ih
  | named name underlying ih => exact (AliasEquiv.resolve name underlying).trans ih
  | initializerList _ ih => exact .initializerList ih
  | _ => exact .refl _

theorem AliasEquiv.canonical_eq {t u : Ty} (h : AliasEquiv t u) : t.canonical = u.canonical := by
  induction h with
  | refl _ => rfl
  | symm _ ih => exact ih.symm
  | trans _ _ ih ih' => exact ih.trans ih'
  | resolve _ _ => rfl
  | pointer _ ih => exact congrArg Ty.pointer ih
  | array length _ ih => exact congrArg (Ty.array · length) ih
  | reference _ ih => exact congrArg Ty.reference ih
  | named _ _ ih => exact ih
  | initializerList _ ih => exact congrArg Ty.initializerList ih

/-- **Canonical forms decide equivalence up to aliases**: `canonical` removes every alias, does
nothing the second time and changes no type but those with aliases, and two types are the same
exactly if the congruence that identifies an alias with the type behind it relates them. -/
theorem same_iff_aliasEquiv :
    (∀ t : Ty, t.canonical.AliasFree ∧ t.canonical.canonical = t.canonical ∧
      (t.canonical = t ↔ t.AliasFree)) ∧
    ∀ a b : Ty, a.same b = true ↔ AliasEquiv a b := by
  refine ⟨fun t ↦ ⟨t.aliasFree_canonical, t.canonical_canonical, canonical_eq_self_iff⟩,
    fun a b ↦ same_iff.trans ⟨fun hcanonical ↦ ?_, AliasEquiv.canonical_eq⟩⟩
  have hb : AliasEquiv a.canonical b := hcanonical ▸ b.aliasEquiv_canonical.symm
  exact a.aliasEquiv_canonical.trans hb

end DeclAnalysis.Ty
