import Turbofish.Proofs.Brackets.Scan
import Turbofish.Proofs.Script.Trees
import Turbofish.Proofs.Tracing.Run

/-!
# Brackets match in everything that is printed

The invariant is that what was written so far can be completed to a balanced word,
and is balanced where the script ended without a fault. A regular script keeps it in
every state of tracing: a fault in the description of a scope cuts the output off in
front of the scope, where the invariant holds.
-/
namespace Turbofish

open Trace Turbofish.Bracket

namespace Script

theorem run_matched {r : Script} (h : r.Regular) (s : State) : (r.run s).output.Matched := by
  induction h generalizing s with
  | done => exact Output.matched_nil
  | fail f => exact Output.matched_fail f
  | remark _ _ ih => exact ih s
  | token ht _ ih => exact (ih s).cons ht
  | surround b hb hr ihb ihr =>
      rename_i body rest
      -- The rest is reached only behind the closer, so it is split off as a run of its own.
      have hsplit : token (.sym b.opener) (body ++ token (.sym b.closer) rest) =
          sym b.opener ++ body ++ sym b.closer ++ rest := by
        rw [append_assoc,append_assoc]; rfl
      have hpair : ((sym b.opener ++ body ++ sym b.closer).run s).output =
          Output.cons (.sym b.opener) ((body.run s).output ++ Output.cons (.sym b.closer) .nil) := by
        rw [append_assoc]
        change Output.cons _ ((body ++ sym b.closer).run s).output = _
        rw [run_append,Run.andThen_output]
        rfl
      rw [hsplit,run_append,Run.andThen_output,hpair]
      exact ((ihb s).surround b).append (ihr _)
  | scope site _ _ _ ihb ihr =>
      cases hs : s.active with
      | false =>
          rw [run_scope_of_inactive hs,Run.andThen_output]
          exact (ihb s).append (ihr _)
      | true =>
          cases hd : site.description.fault with
          | some f =>
              rw [run_scope_of_fault hs hd]
              exact Output.matched_fail f
          | none =>
              rw [run_scope_of_complete hs hd,Run.andThen_output,within_run]
              exact (ihb _).append (ihr _)

/-- The brackets of a regular script that comes to no fault form a balanced word. -/
theorem Regular.balanced {r : Script} (h : r.Regular) (hf : r.output.fault = none) :
    Balanced (Token.marks r.output.items) := by
  have hrun := run_matched h .fresh
  rw [run_of_inactive r rfl] at hrun
  exact hrun.1 hf

end Script

/-- Whatever node is printed, in whatever state of tracing or without any: the brackets
written form a balanced word, and where a fault ends the printing they form the beginning
of one, in which no closer is unmatched or mismatched. -/
theorem Node.brackets_match (n : Node) (s : State) :
    n.script.output.Matched ∧ (n.print s).output.Matched ∧
      (∃ opened, stillOpen [] (Token.marks n.script.output.items) = some opened) ∧
      ∃ opened, stillOpen [] (Token.marks (n.print s).output.items) = some opened := by
  have hrun (s : State) : (n.script.run s).output.Matched := Script.run_matched n.script_regular s
  have hscript : n.script.output.Matched := by
    have h := hrun .fresh
    rw [Script.run_of_inactive n.script rfl] at h
    exact h
  have hprint : (n.print s).output.Matched := by
    unfold Node.print
    split
    · rw [Script.print_output]; exact hrun _
    · exact hrun s
  exact ⟨hscript,hprint,(completable_iff_stillOpen _).mp hscript.2,
    (completable_iff_stillOpen _).mp hprint.2⟩

end Turbofish
