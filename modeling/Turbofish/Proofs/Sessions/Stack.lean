import Turbofish.Proofs.Sessions.Balanced

/-!
# Phases and scopes as one stack

What is held after some commands can be read off the commands: each opening goes on a stack
and each ending takes one off. The indentation is the number of scopes on the stack that have
a label, and the current phase is the innermost one there. A phase that ends brings back the
phase, the flag and the indentation that it found, whatever happened inside it, prints that
fail among the rest.
-/
namespace Turbofish.Trace

/-- What a command opened. -/
inductive Opening
  | phase (name : Option Text)
  | scope (label : Option Text)
  deriving DecidableEq, Repr

namespace Opening

/-- A scope without a label has no indentation. -/
def isLabelled : Opening → Bool
  | scope (some _) => true
  | _ => false

/-- The phase that is current inside, where this is a phase. -/
def phaseName? : Opening → Option Text
  | phase name => some (name.getD [])
  | scope _ => none

/-- Whether this is what something that is held was opened as. -/
def holds : Opening → Held → Bool
  | phase _, .phase _ => true
  | scope label, .scope label' _ => label == label'
  | _, _ => false

/-- What is held was opened as what is on the stack. -/
abbrev Hold (stack : List Opening) (held : List Held) : Prop :=
  stack.Forall₂ (fun opening h => opening.holds h = true) held

/-- What is open behind a command, where the rest was open in front of it. -/
def behind (stack : List Opening) : Command → List Opening
  | .openPhase name => phase name :: stack
  | .openScope label _ _ => scope label :: stack
  | .close => stack.tail
  | _ => stack

/-- What some commands opened and did not end, the innermost first. -/
def ofCommands (commands : List Command) : List Opening := commands.foldl behind []

end Opening

/-! ## The stack of a session -/

/-- The current phase and the indentation, with what is held and what was opened for it. -/
inductive Stacked : Text → Nat → List Held → List Opening → Prop
  | empty : Stacked [] 0 [] []
  | phase {phase : Text} {indent : Nat} {held : List Held} {stack : List Opening}
      (name : Option Text) (active : Bool) : Stacked phase indent held stack →
      Stacked (name.getD []) indent (.phase ⟨phase,active⟩ :: held) (.phase name :: stack)
  | labelled {phase : Text} {indent : Nat} {held : List Held} {stack : List Opening}
      (label result : Text) : Stacked phase indent held stack →
      Stacked phase (indent + 1) (.scope (some label) result :: held) (.scope (some label) :: stack)
  | unlabelled {phase : Text} {indent : Nat} {held : List Held} {stack : List Opening}
      (result : Text) : Stacked phase indent held stack →
      Stacked phase indent (.scope none result :: held) (.scope none :: stack)

namespace Stacked

variable {phase : Text} {indent : Nat} {held : List Held} {stack : List Opening}

theorem hold (h : Stacked phase indent held stack) : Opening.Hold stack held := by
  induction h with
  | empty => exact .nil
  | phase _ _ _ ih => exact .cons rfl ih
  | labelled label _ _ ih => exact .cons (beq_self_eq_true (some label)) ih
  | unlabelled _ _ ih => exact .cons rfl ih

theorem indent_eq (h : Stacked phase indent held stack) :
    indent = stack.countP Opening.isLabelled := by
  induction h with
  | empty => rfl
  | phase _ _ _ ih => exact ih
  | unlabelled _ _ ih => exact ih
  | labelled _ _ _ ih => rw [List.countP_cons_of_pos rfl,← ih]

theorem phase_eq (h : Stacked phase indent held stack) :
    phase = (stack.findSome? Opening.phaseName?).getD [] := by
  induction h with
  | empty => rfl
  | phase _ _ _ _ => rfl
  | labelled _ _ _ ih => exact ih
  | unlabelled _ _ ih => exact ih

end Stacked

namespace Session

/-- The phase and the indentation of a session agree with a stack. -/
def Agrees (session : Session) (stack : List Opening) : Prop :=
  Stacked session.state.phase session.state.indent session.held stack

theorem Agrees.close {session : Session} {stack : List Opening} (h : session.Agrees stack) :
    (session.step .close).1.Agrees stack.tail := by
  obtain ⟨⟨phase,active,indent,known,enabled⟩,held⟩ := session
  cases h with
  | empty => exact .empty
  | phase name active h => exact h
  | labelled label result h => exact h
  | unlabelled result h => exact h

theorem Agrees.step {session : Session} {stack : List Opening} (h : session.Agrees stack)
    (c : Command) : (session.step c).1.Agrees (Opening.behind stack c) := by
  cases c with
  | enable name => exact h
  | disable name => exact h
  | configure source names setting => exact h
  | note label text => exact h
  | openPhase name => exact .phase name session.state.active h
  | openScope label description result =>
      cases label with
      | none => exact .unlabelled result h
      | some label => exact .labelled label result h
  | close => exact h.close
  | print node =>
      obtain ⟨hheld,hphase,hindent⟩ := step_plain (c := .print node) session rfl rfl
      unfold Agrees
      rw [hheld,hphase,hindent]
      exact h

theorem Agrees.after {session : Session} {stack : List Opening} (h : session.Agrees stack)
    (cs : List Command) : (session.after cs).Agrees (cs.foldl Opening.behind stack) := by
  induction cs generalizing session stack with
  | nil => exact h
  | cons c cs ih => exact ih (h.step c)

theorem agrees_fresh (cs : List Command) : (fresh.after cs).Agrees (Opening.ofCommands cs) := by
  have hfresh : fresh.Agrees [] := .empty
  exact hfresh.after cs

open Command (Balanced)

/-- A phase that ends brings back all that it found but what is known and enabled. -/
theorem after_phase {inner : List Command} (h : Balanced inner) (session : Session)
    (name : Option Text) :
    session.after (.openPhase name :: inner ++ [.close]) =
      ⟨{ session.state with
          known := (session.after (.openPhase name :: inner)).state.known
          enabled := (session.after (.openPhase name :: inner)).state.enabled },
        session.held⟩ := by
  obtain ⟨hheld,-,hindent⟩ := after_balanced h (session.step (.openPhase name)).1
  have hopened : (session.after (.openPhase name :: inner)).held =
      .phase ⟨session.state.phase,session.state.active⟩ :: session.held := hheld
  have hindented : (session.after (.openPhase name :: inner)).state.indent =
      session.state.indent := hindent
  rw [after_concat,step_close hopened,release,State.closePhase,hindented]

/-- Whatever commands a session ran, it holds what they opened and did not end; its
indentation is the number of labelled scopes among that, and its phase the innermost one. And
a phase that is opened then and ended again, with any balanced commands in between, brings
back the phase, the flag and the indentation. -/
theorem stack_discipline (commands : List Command) (name : Option Text) {inner : List Command}
    (h : Balanced inner) :
    let session := fresh.after commands
    let ended := session.after (.openPhase name :: inner ++ [.close])
    (Opening.Hold (Opening.ofCommands commands) session.held ∧
        session.state.indent = (Opening.ofCommands commands).countP Opening.isLabelled ∧
        session.state.phase =
          ((Opening.ofCommands commands).findSome? Opening.phaseName?).getD []) ∧
      ended.state.phase = session.state.phase ∧ ended.state.active = session.state.active ∧
        ended.state.indent = session.state.indent ∧ ended.held = session.held := by
  have hstacked := agrees_fresh commands
  refine ⟨⟨hstacked.hold,hstacked.indent_eq,hstacked.phase_eq⟩,?_⟩
  rw [after_phase h]
  exact ⟨rfl,rfl,rfl,rfl⟩

/-- Inside of a scope in the phase `P`, a suspended phase ends that saw an invalid type
printed and `P` disabled: the phase, the flag and the indentation are those of before. -/
theorem stack_discipline_disabled :
    Balanced [.print (Ty.invalid none),.openScope (some "f") none [],.disable "P",.close] ∧
      let session := fresh.after [.enable "P",.openPhase (some "P"),.openScope (some "g") none []]
      let ended := session.after [.openPhase none,.print (Ty.invalid none),
        .openScope (some "f") none [],.disable "P",.close,.close]
      (Opening.Hold [.scope (some "g"),.phase (some "P")] session.held ∧
          session.state.indent = 1 ∧ session.state.phase = "P") ∧
        ended.state.phase = "P" ∧ ended.state.active = true ∧ ended.state.indent = 1 ∧
          ended.held = session.held := by
  have hinner :
      Balanced [.print (Ty.invalid none),.openScope (some "f") none [],.disable "P",.close] :=
    .plain rfl rfl (.nest rfl (.plain rfl rfl .nil) .nil)
  exact ⟨hinner,stack_discipline
    [.enable "P",.openPhase (some "P"),.openScope (some "g") none []] none hinner⟩

end Session

end Turbofish.Trace
