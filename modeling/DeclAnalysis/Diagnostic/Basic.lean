import DeclAnalysis.Diagnostic.Code
import DeclAnalysis.Span

/-!
# Diagnostics

A diagnostic says what is wrong, shows where by labels, and may add notes and suggestions. The first
primary label gives its position.
-/

namespace DeclAnalysis

/-- How grave a diagnostic is. -/
inductive Severity where
  | error
  | warning
  | note
deriving DecidableEq

/-- The name of a severity. -/
def Severity.name : Severity → String
  | .error => "error"
  | .warning => "warning"
  | .note => "note"

/-- A remark on a place in the text. -/
structure Label where
  /-- The place. -/
  span : Span
  /-- The remark. -/
  message : String
  /-- Whether the label marks the place of the diagnostic itself. -/
  isPrimary : Bool
deriving DecidableEq

/-- The line of a label. -/
def Label.render (l : Label) : String :=
  "\n  " ++ (if l.isPrimary then "-->" else "   ") ++ " " ++ l.span.text ++ ": " ++ l.message

/-- A report to the user. -/
structure Diagnostic where
  /-- The code. -/
  code : Code
  /-- How grave it is. -/
  severity : Severity
  /-- What is the matter. -/
  message : String
  /-- Where. -/
  labels : List Label := []
  /-- Why. -/
  notes : List String := []
  /-- What can be done about it. -/
  suggestions : List String := []
deriving DecidableEq

namespace Diagnostic

/-- An error at a place. -/
def errorAt (code : Code) (message : String) (span : Span) (label : String) : Diagnostic where
  code := code
  severity := .error
  message := message
  labels := [⟨span, label, true⟩]

/-- The diagnostic with one more label on another place. -/
def alsoAt (d : Diagnostic) (span : Span) (label : String) : Diagnostic :=
  { d with labels := d.labels ++ [⟨span, label, false⟩] }

/-- The diagnostic with one more note. -/
def noting (d : Diagnostic) (note : String) : Diagnostic :=
  { d with notes := d.notes ++ [note] }

/-- The diagnostic with one more suggestion. -/
def suggesting (d : Diagnostic) (suggestion : String) : Diagnostic :=
  { d with suggestions := d.suggestions ++ [suggestion] }

/-- The place of the first primary label. -/
def primary? (d : Diagnostic) : Option Span := (d.labels.find? (·.isPrimary)).map (·.span)

/-- Where a diagnostic is listed: one without a place comes last. -/
def position (d : Diagnostic) : Span := d.primary?.getD Span.last

/-- Whether the diagnostic is an error. -/
def isError (d : Diagnostic) : Bool := d.severity == .error

/-- The text of a diagnostic. -/
def render (d : Diagnostic) : String :=
  d.severity.name ++ " [" ++ d.code.text ++ "]: " ++ d.message ++
    String.join (d.labels.map (·.render)) ++
    String.join (d.notes.map ("\n  = note: " ++ ·)) ++
    String.join (d.suggestions.map ("\n  = help: " ++ ·))

end Diagnostic

end DeclAnalysis
