import Turbofish.Printing.Node

/-!
# Tracing sessions

A session switches phases on and off, opens phases and scopes and ends them
again, innermost first, and prints nodes in between. What is held is ended in the
reverse of the order it was opened in.
-/
namespace Turbofish.Trace

/-- Something that was opened and not yet ended. -/
inductive Held
  | phase (saved : State.Saved)
  /-- Without a label the scope leaves no record and has no indentation. -/
  | scope (label : Option Text) (result : Text)
  deriving DecidableEq, Repr

inductive Command
  | enable (name : Text)
  | disable (name : Text)
  | configure (source : Text) (names : List Text) (setting : Option Text)
  | openPhase (name : Option Text)
  | openScope (label : Option Text) (description : Option Text) (result : Text)
  | close
  | note (label text : Text)
  | print (node : Node)

structure Session where
  state : State
  /-- The innermost first. -/
  held : List Held
  deriving DecidableEq, Repr

/-- What a command writes to the two output streams. -/
structure Written where
  out : Text
  err : Text
  deriving DecidableEq, Repr

namespace Session

def fresh : Session := ⟨.fresh, []⟩

/-- The state after ending something that was held, and the records of it. -/
def release (s : State) : Held → State × List Record
  | .phase saved => (s.closePhase saved, [])
  | .scope none _ => (s, [])
  | .scope (some label) result => (s.outdented, s.outdented.leave label result)

def step (session : Session) : Command → Session × Written
  | .enable name => ({ session with state := session.state.enable name }, ⟨[], []⟩)
  | .disable name => ({ session with state := session.state.disable name }, ⟨[], []⟩)
  | .configure source names setting =>
    let (state, unknown) := session.state.configure names setting
    ({ session with state }, ⟨[], unknown.flatMap (State.warning source)⟩)
  | .openPhase name =>
    let (saved, state) := session.state.openPhase name
    (⟨state, .phase saved :: session.held⟩, ⟨[], []⟩)
  | .openScope none _ result => (⟨session.state, .scope none result :: session.held⟩, ⟨[], []⟩)
  | .openScope (some label) description result =>
    (⟨session.state.indented, .scope (some label) result :: session.held⟩,
      ⟨Record.textOf (session.state.entry label description), []⟩)
  | .close =>
    match session.held with
    | [] => (session, ⟨[], []⟩)
    | held :: outer =>
      let (state, records) := release session.state held
      (⟨state, outer⟩, ⟨Record.textOf records, []⟩)
  | .note label text => (session, ⟨Record.textOf (session.state.note label text), []⟩)
  | .print node =>
    let r := node.print session.state
    let written : Written := match r.text with
      | .ok text => ⟨Record.textOf r.records ++ text ++ Text.ofString "\n", []⟩
      | .error f => ⟨Record.textOf r.records, f.report⟩
    ({ session with state := r.state }, written)

/-- Ending everything that is held writes this. -/
def finish (state : State) : List Held → Text
  | [] => []
  | held :: outer =>
    let (state, records) := release state held
    Record.textOf records ++ finish state outer

end Session

end Turbofish.Trace
