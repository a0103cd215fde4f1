import Mathlib.Data.List.Induction
import Turbofish.Proofs.Sessions.Stack

/-!
# The flag and the phase

The flag of a state is kept beside the phase and the enabled names that it is worked out
from. Switching a phase on or off, configuring and opening a phase work it out afresh. The end
of a phase brings back the flag that was found instead, so that in between the phase may have
been switched without the flag showing it. That is the only way in which the two come apart.
-/
namespace Turbofish.Trace

namespace State

/-- The flag says whether the current phase has a name that is enabled. -/
def Tracks (s : State) : Prop := s.active = s.phaseEnabled

instance (s : State) : Decidable s.Tracks := inferInstanceAs (Decidable (_ = _))

theorem tracks_refresh (s : State) : s.refresh.Tracks := rfl

theorem tracks_fresh : fresh.Tracks := rfl

end State

namespace Session

open Command (Balanced)

/-- The flag goes with the phase behind every command but the end of a phase. -/
theorem tracks_step {session : Session} (h : session.state.Tracks) {c : Command}
    (hc : c.closes = true → ∀ saved outer, session.held ≠ .phase saved :: outer) :
    (session.step c).1.state.Tracks := by
  cases c with
  | enable name => exact State.tracks_refresh _
  | disable name => exact State.tracks_refresh _
  | configure source names setting => exact State.tracks_refresh _
  | openPhase name => exact State.tracks_refresh _
  | openScope label description result => cases label <;> exact h
  | note label text => exact h
  | print node =>
      have hstate : (session.step (.print node)).1.state = session.state :=
        node.print_state session.state
      rw [hstate]
      exact h
  | close =>
      cases hheld : session.held with
      | nil =>
          rw [step_close_nothing hheld]
          exact h
      | cons held outer =>
          rw [step_close hheld]
          cases held with
          | phase saved => exact absurd hheld (hc rfl saved outer)
          | scope label result => cases label <;> exact h

/-- A phase that ended left the flag right where it left the phase around it as enabled as it
found it. -/
theorem tracks_after_phase {session : Session} (h : session.state.Tracks) {inner : List Command}
    (hinner : Balanced inner) (name : Option Text) :
    (session.after (.openPhase name :: inner ++ [.close])).state.Tracks ↔
      (session.after (.openPhase name :: inner ++ [.close])).state.phaseEnabled =
        session.state.phaseEnabled := by
  have hactive : (session.after (.openPhase name :: inner ++ [.close])).state.active =
      session.state.active := by rw [after_phase hinner]
  unfold State.Tracks
  rw [hactive,show session.state.active = session.state.phaseEnabled from h]
  exact eq_comm

/-- A phase that is held was opened by some command, with balanced commands behind it. -/
theorem exists_openPhase {cs : List Command} {saved : State.Saved} {outer : List Held}
    (h : (fresh.after cs).held = .phase saved :: outer) :
    ∃ early name inner, cs = early ++ .openPhase name :: inner ∧ Balanced inner := by
  obtain ⟨early,c,inner,rfl,ho,hinner,hopened⟩ := openedIn_of_held h
  cases c with
  | openPhase name => exact ⟨early,name,inner,rfl,hinner⟩
  | openScope label description result => cases label <;> cases hopened
  | _ => cases ho

/-- The flag goes with the phase all the way through some commands exactly when each phase
that ended there left the phase around it as enabled as it was before. -/
theorem tracks_throughout_iff (commands : List Command) :
    (∀ early, early <+: commands → (fresh.after early).state.Tracks) ↔
      ∀ early name inner, Balanced inner →
        early ++ (.openPhase name :: inner ++ [.close]) <+: commands →
        (fresh.after (early ++ (.openPhase name :: inner ++ [.close]))).state.phaseEnabled =
          (fresh.after early).state.phaseEnabled := by
  constructor
  · intro h early name inner hinner hearly
    have hbefore := h early ((List.prefix_append _ _).trans hearly)
    have hbehind := h _ hearly
    rw [after_append] at hbehind ⊢
    exact (tracks_after_phase hbefore hinner name).mp hbehind
  · intro h
    induction commands using List.reverseRecOn with
    | nil =>
        intro early hearly
        rw [List.prefix_nil.mp hearly]
        exact State.tracks_fresh
    | append_singleton cs c ih =>
        have hearlier := ih fun early name inner hinner hearly =>
          h early name inner hinner (hearly.trans (List.prefix_append cs [c]))
        intro early hearly
        rcases List.prefix_concat_iff.mp hearly with rfl | hearly
        · by_cases hended : c.closes = true ∧
              ∃ saved outer, (fresh.after cs).held = .phase saved :: outer
          · obtain ⟨hc,saved,outer,hheld⟩ := hended
            obtain rfl : c = .close := by cases c <;> first | rfl | cases hc
            obtain ⟨early,name,inner,rfl,hinner⟩ := exists_openPhase hheld
            have hbefore := hearlier early (List.prefix_append _ _)
            have hleft := h early name inner hinner ⟨[],by rw [List.append_nil,List.append_assoc]⟩
            rw [List.append_assoc,after_append]
            rw [after_append] at hleft
            exact (tracks_after_phase hbefore hinner name).mpr hleft
          · rw [after_concat]
            refine tracks_step (hearlier cs (List.prefix_refl cs)) fun hc saved outer hheld => ?_
            exact hended ⟨hc,saved,outer,hheld⟩
        · exact hearlier early hearly

/-- A phase that is disabled inside of a suspended one stays traced when that ends. -/
theorem tracks_not_throughout :
    (fresh.after [.enable "P",.openPhase (some "P"),.openPhase none,.disable "P",
        .close]).state.active = true ∧
      (fresh.after [.enable "P",.openPhase (some "P"),.openPhase none,.disable "P",
        .close]).state.phaseEnabled = false := by
  decide

end Session

end Turbofish.Trace
