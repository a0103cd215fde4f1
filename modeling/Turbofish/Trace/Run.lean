import Turbofish.Trace.Record
import Turbofish.Printing.Tree

/-!
# Printing with a trace

A script is run in a state of tracing. A text that is printed does not depend on
the state; where tracing is on, the scopes are entered and left on the record.
What an entry describes is worked out before the scope is entered, with tracing
suspended. A fault found there ends the printing, ahead of any fault in the
scope itself.
-/
namespace Turbofish

open Trace

/-- The parts that the entry of a site describes, in order. -/
def Site.described : Site → List Script
  | qualifiedPath self _ _ => [self.script]
  | constraint _ bounds => bounds.map Bound.script
  | path _ _ | args _ _ | expr _ => []

/-- The entry of a site, where the parts that it describes are shown in some way. -/
def Site.describe (shown : Script → Output UInt8) : Site → Output UInt8
  | qualifiedPath self position size =>
    .ofList (Text.ofString "qself=") ++ shown self.script
      ++ .ofList (Text.ofString ", position=" ++ Text.ofNat position.toNat ++ Text.ofString ", "
        ++ Text.ofNat size ++ Text.ofString " segments")
  | path rooted size =>
    .ofList (Text.ofString "rooted=" ++ Text.ofBool rooted ++ Text.ofString ", " ++ Text.ofNat size
      ++ Text.ofString " segments")
  | args size rooted =>
    .ofList (Text.ofNat size ++ Text.ofString " args, root=" ++ Text.ofBool rooted)
  | constraint name bounds =>
    .ofList (name ++ Text.ofString ": ")
      ++ Output.joined (Text.ofString ", ") (bounds.map fun b => shown b.script)
  | expr className => .ofList className

/-- The description in the entry of a site. -/
def Site.description (site : Site) : Output UInt8 := site.describe Script.shown

namespace Script

/-- The end of a run: the state it leaves, the records it wrote and its tokens. -/
structure Run where
  state : State
  records : List Record
  output : Output Token
  deriving DecidableEq, Repr

/-- A second run that starts where the first one ended, unless that failed. -/
def Run.andThen (first : Run) (second : State → Run) : Run :=
  match first.output.fault with
  | none =>
    let next := second first.state
    ⟨next.state, first.records ++ next.records, first.output ++ next.output⟩
  | some _ => first

/-- A run inside a scope: one level deeper, and back however the run ends. -/
def Run.within (s : State) (label description : Text) (body : State → Run) : Run :=
  let inner := body s.indented
  let after := inner.state.outdented
  ⟨after, s.entry label (some description) ++ inner.records ++ after.leave label [], inner.output⟩

def run : Script → State → Run
  | done, s => ⟨s, [], .nil⟩
  | token t r, s =>
    let next := r.run s
    ⟨next.state, next.records, next.output.cons t⟩
  | remark m r, s =>
    let next := r.run s
    ⟨next.state, s.note m.label m.text ++ next.records, next.output⟩
  | fail f, s => ⟨s, s.faultNote f.message, .fail f⟩
  | scope site body rest, s =>
    if s.active then
      match site.description with
      | ⟨text, some f⟩ => ⟨s, [.cutEntry (s.heading site.label) text], .fail f⟩
      | ⟨text, none⟩ => (Run.within s site.label text body.run).andThen rest.run
    else (body.run s).andThen rest.run

/-- A run within a phase of its own. -/
def runIn (phase : Option Text) (body : State → Run) (s : State) : Run :=
  let (saved, inside) := s.openPhase phase
  let r := body inside
  ⟨r.state.closePhase saved, r.records, r.output⟩

/-- The name of the phase that nodes are printed in. -/
def phaseName : Text := "Print"

/-- Printing in a phase of its own. The last record is a note of the text. -/
def print (script : Script) : State → Run :=
  runIn (some phaseName) fun inside =>
    let r := script.run inside
    match r.output.fault with
    | none =>
      let result := Text.ofString "= " ++ Token.render r.output.items
      ⟨r.state, r.records ++ r.state.note "to_string" result, r.output⟩
    | some _ => r

/-- Printing while tracing is suspended, as inside a diagnostic. -/
def display (script : Script) : State → Run := runIn none script.run

end Script

namespace Script.Run

/-- The text that was printed, or the fault. -/
def text (r : Run) : Except Fault Text := r.output.toExcept.map Token.render

end Script.Run

end Turbofish
