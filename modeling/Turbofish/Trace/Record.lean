import Turbofish.Trace.State

/-!
# Trace records

A trace is a list of records. Each stands on a line of its own, except an entry
whose description was cut short, which ends where the description ended.
-/
namespace Turbofish.Trace

/-- What a record starts with: the phase, the indentation and an activity. -/
structure Heading where
  phase : Text
  indent : Nat
  label : Text
  deriving DecidableEq, Repr

def Heading.text (h : Heading) : Text :=
  h.phase ++ Text.ofString "- " ++ List.replicate h.indent 0x20 ++ h.label ++ Text.ofString ": "

inductive Record
  | entry (heading : Heading) (description : Option Text)
  | cutEntry (heading : Heading) (description : Text)
  | leave (heading : Heading) (result : Text)
  | note (heading : Heading) (text : Text)
  deriving DecidableEq, Repr

namespace Record

def heading : Record → Heading
  | entry h _ | cutEntry h _ | leave h _ | note h _ => h

/-- Whether a record was not cut short. -/
def isWhole : Record → Bool
  | cutEntry _ _ => false
  | entry _ _ | leave _ _ | note _ _ => true

def text : Record → Text
  | entry h none => h.text ++ Text.ofString ">>\n"
  | entry h (some d) => h.text ++ Text.ofString ">> (" ++ d ++ Text.ofString ")\n"
  | cutEntry h d => h.text ++ Text.ofString ">> (" ++ d
  | leave h r => h.text ++ Text.ofString "<< (" ++ r ++ Text.ofString ")\n"
  | note h t => h.text ++ t ++ Text.ofString "\n"

end Record

/-- Everything a list of records writes. -/
def Record.textOf (records : List Record) : Text := records.flatMap Record.text

namespace State

def heading (s : State) (label : Text) : Heading := ⟨s.phase, s.indent, label⟩

/-- A note, where tracing is on. -/
def note (s : State) (label text : Text) : List Record :=
  if s.active then [.note (s.heading label) text] else []

def entry (s : State) (label : Text) (description : Option Text) : List Record :=
  if s.active then [.entry (s.heading label) description] else []

def leave (s : State) (label result : Text) : List Record :=
  if s.active then [.leave (s.heading label) result] else []

/-- The note that a fault leaves where it arises. -/
def faultNote (s : State) (message : Text) : List Record :=
  s.note "BugCheck" (Text.ofString "BugCheck(" ++ message ++ Text.ofString ")")

end State

end Turbofish.Trace
