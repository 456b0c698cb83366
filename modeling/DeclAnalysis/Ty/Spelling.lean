import DeclAnalysis.Ty.Basic

/-!
# Spelling of types

A type is written inside out around the place where a declared name would stand: `int (*)[3]` is a
pointer to an array. The writer therefore carries the *declarator*, the part already written around
that place, and adds one layer at a time. An array binds tighter than a pointer or a reference, so a
pointer or reference to an array is put in parentheses.
-/

namespace DeclAnalysis.Ty

/-- A pointer or reference mark in front of a declarator, for a given target. -/
def mark (sigil : Char) (target : Ty) (declarator : List Char) : List Char :=
  if target.isArray then '(' :: sigil :: declarator ++ [')'] else sigil :: declarator

/-- The bound of an array, in brackets. -/
def bound : Option Nat → List Char
  | some n => '[' :: Nat.toDigits 10 n ++ [']']
  | none => ['[', ']']

/-- The name of a type and the declarator around its place; a declarator that starts with a
parenthesis is kept off the name by a blank. -/
def around (base : String) (declarator : List Char) : List Char :=
  match declarator with
  | '(' :: _ => base.toList ++ ' ' :: declarator
  | _ => base.toList ++ declarator

/-- The spelling of a type around a declarator. -/
def spellAround : Ty → List Char → List Char
  | .pointer pointee, d => pointee.spellAround (mark '*' pointee d)
  | .reference referent, d => referent.spellAround (mark '&' referent d)
  | .array element length, d => element.spellAround (d ++ bound length)
  | .bool, d => around "bool" d
  | .char .plain, d => around "char" d
  | .char .signed, d => around "signed char" d
  | .char .unsigned, d => around "unsigned char" d
  | .integer width .signed, d => around width.keyword d
  | .integer width .unsigned, d => around ("unsigned " ++ width.keyword) d
  | .floating precision, d => around precision.keyword d
  | .void, d => around "void" d
  | .named name _, d => around name d
  | .initializerList element, d =>
    around ("std::initializer_list<" ++ String.ofList (element.spellAround []) ++ ">") d

/-- The spelling of a type on its own. An alias is spelled by its name. -/
def spelling (t : Ty) : String := String.ofList (t.spellAround [])

end DeclAnalysis.Ty
