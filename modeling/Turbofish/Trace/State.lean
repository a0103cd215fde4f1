import Turbofish.Text

/-!
# The state of tracing

Tracing is on while the current phase has a name and that name is enabled. The
state keeps the answer beside the phase and the enabled names, so that a phase
that ends can bring back what it found.
-/
namespace Turbofish.Trace

structure State where
  /-- Empty outside of every phase. -/
  phase : Text
  active : Bool
  indent : Nat
  known : List Text
  enabled : List Text
  deriving DecidableEq, Repr

namespace State

def fresh : State := ⟨[], false, 0, [], []⟩

/-- Whether the current phase has a name that is enabled. -/
def phaseEnabled (s : State) : Bool := !s.phase.isEmpty && s.enabled.contains s.phase

def refresh (s : State) : State := { s with active := s.phaseEnabled }

/-! ## Enabling phases -/

def addName (names : List Text) (name : Text) : List Text :=
  if names.contains name then names else names ++ [name]

def removeName (names : List Text) (name : Text) : List Text := names.filter (· != name)

/-- A phase that is enabled or disabled need not be known. -/
def enable (s : State) (name : Text) : State :=
  { s with enabled := addName s.enabled name }.refresh

def disable (s : State) (name : Text) : State :=
  { s with enabled := removeName s.enabled name }.refresh

/-- What was read of a setting: the enabled names, and in order those that were listed although
they are not known. -/
structure Listed where
  enabled : List Text
  unknown : List Text
  deriving DecidableEq, Repr

def Listed.add (known : List Text) (listed : Listed) (name : Text) : Listed :=
  if known.contains name then { listed with enabled := addName listed.enabled name }
  else { listed with unknown := listed.unknown ++ [name] }

/-- The text behind a colon is shorter than the whole setting. -/
theorem length_behind_lt {setting behind : Text} {colon : UInt8}
    (h : setting.dropWhile (· != 0x3A) = colon :: behind) : behind.length < setting.length := by
  have hle := (List.dropWhile_sublist (l := setting) (· != 0x3A)).length_le
  rw [h, List.length_cons] at hle
  exact hle

/-- A setting is read one name at a time, each up to the next colon. The last name is the one
with no colon behind it, or with nothing behind its colon. -/
def Listed.read (known : List Text) (listed : Listed) (setting : Text) : Listed :=
  if setting.isEmpty then listed
  else
    let next := listed.add known (setting.takeWhile (· != 0x3A))
    match h : setting.dropWhile (· != 0x3A) with
    | [] => next
    | _ :: behind =>
      have := length_behind_lt h
      next.read known behind
termination_by setting.length

/-- Makes phases known, then enables those listed in a setting. The second part
is what the setting lists although it is not known, in order. -/
def configure (s : State) (names : List Text) (setting : Option Text) : State × List Text :=
  let known := names.foldl addName s.known
  let listed := Listed.read known ⟨s.enabled, []⟩ (setting.getD [])
  ({ s with known, enabled := listed.enabled }.refresh, listed.unknown)

/-- The line about a phase that is listed in a setting but not known. -/
def warning (source name : Text) : Text :=
  Text.ofString "WARN: Unknown debug phase '" ++ name ++ Text.ofString "' in $" ++ source
    ++ Text.ofString "\n"

/-! ## Phases -/

/-- What a phase brings back when it ends. -/
structure Saved where
  phase : Text
  active : Bool
  deriving DecidableEq, Repr

/-- No name, like an empty one, suspends tracing. -/
def openPhase (s : State) (name : Option Text) : Saved × State :=
  (⟨s.phase, s.active⟩, { s with phase := name.getD [] }.refresh)

def closePhase (s : State) (saved : Saved) : State :=
  { s with phase := saved.phase, active := saved.active }

/-- A phase that ends at once leaves nothing behind. -/
@[simp] theorem closePhase_openPhase (s : State) (name : Option Text) :
    (s.openPhase name).2.closePhase (s.openPhase name).1 = s := rfl

/-! ## Indentation -/

def indented (s : State) : State := { s with indent := s.indent + 1 }

def outdented (s : State) : State := { s with indent := s.indent - 1 }

@[simp] theorem outdented_indented (s : State) : s.indented.outdented = s := rfl

end State

end Turbofish.Trace
