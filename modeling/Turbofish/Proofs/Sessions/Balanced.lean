import Mathlib.Data.List.Basic
import Turbofish.Proofs.Tracing.Run
import Turbofish.Trace.Session

/-!
# Commands that close what they open

A session runs command after command. Commands are balanced when each that opens something
is answered by the one that ends it; in between anything may happen, switching phases on and
off and printing included. Balanced commands leave what is held, the current phase and the
indentation as they were, and whatever is held in a session was opened by a command with
nothing but balanced commands behind it.
-/
namespace Turbofish.Trace

namespace Command

/-- Whether something is held from this command on. -/
def opens : Command → Bool
  | openPhase _ | openScope _ _ _ => true
  | _ => false

/-- Whether this command ends what was opened last. -/
def closes : Command → Bool
  | close => true
  | _ => false

inductive Balanced : List Command → Prop
  | nil : Balanced []
  | plain {c : Command} {cs : List Command} : c.opens = false → c.closes = false →
      Balanced cs → Balanced (c :: cs)
  | nest {c : Command} {inner cs : List Command} : c.opens = true → Balanced inner →
      Balanced cs → Balanced (c :: (inner ++ close :: cs))

namespace Balanced

variable {cs ds : List Command}

theorem append (hcs : Balanced cs) (hds : Balanced ds) : Balanced (cs ++ ds) := by
  induction hcs with
  | nil => exact hds
  | plain ho hc _ ih => exact .plain ho hc ih
  | nest ho hinner _ _ ih =>
      rw [List.cons_append,List.append_assoc,List.cons_append]
      exact .nest ho hinner ih

theorem concat {c : Command} (hcs : Balanced cs) (ho : c.opens = false) (hc : c.closes = false) :
    Balanced (cs ++ [c]) := hcs.append (.plain ho hc .nil)

theorem concat_nest {c : Command} (hcs : Balanced cs) (ho : c.opens = true) (hds : Balanced ds) :
    Balanced (cs ++ c :: (ds ++ [close])) := hcs.append (.nest ho hds .nil)

end Balanced

end Command

namespace Session

/-- The session after some commands. -/
def after (session : Session) (commands : List Command) : Session :=
  commands.foldl (fun s c => (s.step c).1) session

theorem after_append (session : Session) (cs ds : List Command) :
    session.after (cs ++ ds) = (session.after cs).after ds := List.foldl_append

theorem after_concat (session : Session) (cs : List Command) (c : Command) :
    session.after (cs ++ [c]) = ((session.after cs).step c).1 := session.after_append cs [c]

/-! ## One command -/

section

variable {c : Command}

/-- A command that neither opens nor ends anything. -/
theorem step_plain (session : Session) (ho : c.opens = false) (hc : c.closes = false) :
    (session.step c).1.held = session.held ∧
      (session.step c).1.state.phase = session.state.phase ∧
      (session.step c).1.state.indent = session.state.indent := by
  cases c with
  | enable name => exact ⟨rfl,rfl,rfl⟩
  | disable name => exact ⟨rfl,rfl,rfl⟩
  | configure source names setting => exact ⟨rfl,rfl,rfl⟩
  | note label text => exact ⟨rfl,rfl,rfl⟩
  | print node =>
      have hstate : (session.step (.print node)).1.state = session.state :=
        node.print_state session.state
      exact ⟨rfl,congrArg _ hstate,congrArg _ hstate⟩
  | openPhase name => cases ho
  | openScope label description result => cases ho
  | close => cases hc

/-- A command that opens something puts it on top of what is held. -/
theorem step_opens (session : Session) (ho : c.opens = true) :
    ∃ held, (session.step c).1.held = held :: session.held := by
  cases c with
  | openPhase name => exact ⟨_,rfl⟩
  | openScope label description result => cases label <;> exact ⟨_,rfl⟩
  | _ => cases ho

theorem step_close {session : Session} {held : Held} {outer : List Held}
    (h : session.held = held :: outer) :
    (session.step .close).1 = ⟨(release session.state held).1,outer⟩ := by
  rw [step,h]

theorem step_close_nothing {session : Session} (h : session.held = []) :
    (session.step .close).1 = session := by
  rw [step,h]

/-- What is opened and ended with the same phase and indentation current leaves both as they
were before. -/
theorem release_opened {session : Session} (ho : c.opens = true) {held : Held} {outer : List Held}
    (hheld : (session.step c).1.held = held :: outer) {s : State}
    (hphase : s.phase = (session.step c).1.state.phase)
    (hindent : s.indent = (session.step c).1.state.indent) :
    outer = session.held ∧ (release s held).1.phase = session.state.phase ∧
      (release s held).1.indent = session.state.indent := by
  cases c with
  | openPhase name =>
      cases hheld
      exact ⟨rfl,rfl,hindent⟩
  | openScope label description result =>
      cases label with
      | none =>
          cases hheld
          exact ⟨rfl,hphase,hindent⟩
      | some label =>
          cases hheld
          exact ⟨rfl,hphase,congrArg (· - 1) hindent⟩
  | _ => cases ho

end

/-! ## Balanced commands -/

open Command (Balanced)

theorem after_balanced {cs : List Command} (h : Balanced cs) (session : Session) :
    (session.after cs).held = session.held ∧
      (session.after cs).state.phase = session.state.phase ∧
      (session.after cs).state.indent = session.state.indent := by
  induction h generalizing session with
  | nil => exact ⟨rfl,rfl,rfl⟩
  | plain ho hc _ ih =>
      obtain ⟨hheld,hphase,hindent⟩ := step_plain session ho hc
      obtain ⟨hheld',hphase',hindent'⟩ := ih (session.step _).1
      exact ⟨hheld'.trans hheld,hphase'.trans hphase,hindent'.trans hindent⟩
  | @nest c inner cs ho _ _ ihinner ihrest =>
      obtain ⟨held,hopened⟩ := step_opens session ho
      obtain ⟨hheld,hphase,hindent⟩ := ihinner (session.step c).1
      obtain ⟨-,hphase',hindent'⟩ := release_opened ho hopened hphase hindent
      have hclosed := step_close (hheld.trans hopened)
      have hsplit : session.after (c :: (inner ++ .close :: cs)) =
          ((((session.step c).1.after inner).step .close).1).after cs :=
        (session.step c).1.after_append inner (.close :: cs)
      obtain ⟨hheld'',hphase'',hindent''⟩ :=
        ihrest ((((session.step c).1.after inner).step .close).1)
      rw [hsplit,hheld'',hphase'',hindent'',hclosed]
      exact ⟨rfl,hphase',hindent'⟩

/-! ## Where something was opened -/

/-- Some command opened the innermost of what is held, and all the commands after it are
balanced. -/
def OpenedIn (commands : List Command) (held : List Held) : Prop :=
  ∃ early c inner, commands = early ++ c :: inner ∧ c.opens = true ∧ Balanced inner ∧
    ((fresh.after early).step c).1.held = held

namespace OpenedIn

variable {cs inner : List Command} {c : Command} {held : List Held}

theorem concat (h : OpenedIn cs held) (ho : c.opens = false) (hc : c.closes = false) :
    OpenedIn (cs ++ [c]) held := by
  obtain ⟨early,d,inner,rfl,hd,hinner,hopened⟩ := h
  refine ⟨early,d,inner ++ [c],?_,hd,hinner.concat ho hc,hopened⟩
  rw [List.append_assoc,List.cons_append]

theorem concat_nest (h : OpenedIn cs held) (ho : c.opens = true) (hinner : Balanced inner) :
    OpenedIn (cs ++ c :: inner ++ [.close]) held := by
  obtain ⟨early,d,between,rfl,hd,hbetween,hopened⟩ := h
  refine ⟨early,d,between ++ c :: (inner ++ [.close]),?_,hd,hbetween.concat_nest ho hinner,hopened⟩
  simp only [List.append_assoc,List.cons_append]

end OpenedIn

/-- Whatever is held was opened somewhere. By induction on the number of commands: where the
last one ends something, what is held behind that was opened before it was. -/
theorem openedIn_of_held {cs : List Command} {held : Held} {outer : List Held}
    (h : (fresh.after cs).held = held :: outer) : OpenedIn cs (held :: outer) := by
  induction hn : cs.length using Nat.strongRecOn generalizing cs held outer with
  | ind n ih =>
    subst hn
    rcases List.eq_nil_or_concat' cs with rfl | ⟨cs,c,rfl⟩
    · cases h
    · have hlength : cs.length < (cs ++ [c]).length := by
        rw [List.length_append]
        exact Nat.lt_succ_self _
      rw [after_concat] at h
      cases ho : c.opens with
      | true => exact ⟨cs,c,[],rfl,ho,.nil,h⟩
      | false =>
          cases hc : c.closes with
          | false =>
              rw [(step_plain _ ho hc).1] at h
              exact (ih _ hlength h rfl).concat ho hc
          | true =>
              obtain rfl : c = .close := by cases c <;> first | rfl | cases hc
              cases hbefore : (fresh.after cs).held with
              | nil =>
                  rw [step_close_nothing hbefore,hbefore] at h
                  cases h
              | cons ended rest =>
                  rw [step_close hbefore] at h
                  obtain rfl : rest = held :: outer := h
                  obtain ⟨middle,d,inner,rfl,hd,hinner,hopened⟩ := ih _ hlength hbefore rfl
                  obtain ⟨opened,hstep⟩ := step_opens (fresh.after middle) hd
                  have hmiddle := (List.cons.inj (hstep.symm.trans hopened)).2
                  have hshorter : middle.length <
                      (middle ++ d :: inner ++ [Command.close]).length := by
                    simp only [List.length_append,List.length_cons]
                    omega
                  exact (ih _ hshorter hmiddle rfl).concat_nest hd hinner

end Session

end Turbofish.Trace
