import Turbofish.Proofs.Malformed
import Turbofish.Proofs.Script.Parts

/-!
# The fault that a trace comes to

Where printing is traced, the entry of a scope describes parts of its node before the node
itself is printed, so that a fault in them is met while they are described. It is the fault
that the node is printed up to, since it is described where it is printed first. There is one
exception. An associated item without a name is printed no further than to its name, but its
bounds are described all the same, and a fault among them is reported instead.
-/
namespace Turbofish

open Trace

/-! ## What scopes describe -/

/-- Whether the site is that of an associated item without a name. -/
def Site.isNameless : Site → Bool
  | constraint [] _ => true
  | _ => false

theorem Site.eq_of_isNameless {site : Site} (h : site.isNameless = true) :
    ∃ bs, site = .constraint [] bs := by
  unfold isNameless at h
  split at h
  · exact ⟨_,rfl⟩
  · cases h

/-- A fault that is described in the entry of a scope is the one that the scope comes to, and
a scope without a name for its item stops there at once. -/
structure Site.Describes (site : Site) (b : Script) : Prop where
  named : site.isNameless = false →
    site.description.fault = none ∨ site.description.fault = b.output.fault
  nameless : site.isNameless = true → b = .fail (.nowhere .emptyIdentifier)

/-- What cannot be described cannot be printed either. -/
theorem Site.Describes.exists_fault {site : Site} {b : Script} (h : site.Describes b) {f : Fault}
    (hf : site.description.fault = some f) : ∃ g, b.output.fault = some g := by
  cases hnameless : site.isNameless with
  | true =>
      rw [h.nameless hnameless]
      exact ⟨_,rfl⟩
  | false =>
      rcases h.named hnameless with hnone | hsame
      · rw [hnone] at hf
        cases hf
      · exact ⟨f,hsame.symm.trans hf⟩

/-- The self type comes first in a qualified path, and bounds come behind the name of an item. -/
theorem Site.Encloses.describes {site : Site} {b : Script} (h : site.Encloses b) :
    site.Describes b := by
  cases h with
  | qualifiedPath t n r ss =>
      refine ⟨fun _ => ?_,nofun⟩
      rw [Site.qualifiedPath_fault]
      cases hself : t.script.output.fault with
      | none => exact .inl rfl
      | some f =>
          right
          unfold Script.qualified
          simp only [Script.output_append,Output.append_fault,hself]
          rfl
  | path r size b => exact ⟨fun _ => .inl rfl,nofun⟩
  | args size r b => exact ⟨fun _ => .inl rfl,nofun⟩
  | constraint n bs =>
      cases n with
      | nil => exact ⟨nofun,fun _ => rfl⟩
      | cons c n =>
          refine ⟨fun _ => .inr ?_,nofun⟩
          have hname : (Script.ident (c :: n)).output.fault = none :=
            Script.complete_ident_iff.mpr (List.cons_ne_nil c n)
          rw [Site.constraint_fault,Script.output_append,Script.output_append,Output.append_fault,
            Output.append_fault,hname,Script.separated_fault,Bound.scripts_eq_map,List.findSome?_map]
          rfl
  | expr c b => exact ⟨fun _ => .inl rfl,nofun⟩

namespace Script

/-- What every scope describes is printed in it. -/
inductive Described : Script → Prop
  | done : Described done
  | fail (f : Fault) : Described (fail f)
  | token (t : Token) {r : Script} : Described r → Described (token t r)
  | remark (m : Remark) {r : Script} : Described r → Described (remark m r)
  | scope {site : Site} {b r : Script} : site.Describes b → Described b → Described r →
      Described (scope site b r)

namespace Described

theorem append {r s : Script} (hr : Described r) (hs : Described s) : Described (r ++ s) := by
  induction hr with
  | done => exact hs
  | fail f => exact .fail f
  | token t _ ih => exact .token t ih
  | remark m _ ih => exact .remark m ih
  | scope hsite hb _ _ ih => exact .scope hsite hb ih

theorem ofExcept : ∀ t : Except Fault Token, Described (ofExcept t)
  | .ok t => .token t .done
  | .error f => .fail f

theorem compositional : Compositional Described where
  done := .done
  append := append
  fail := .fail
  call _ := .ofExcept _
  remark m := .remark m .done
  scope h hs := .scope h.describes hs .done
  unscope h := by
    cases h with
    | scope _ hb _ => exact hb

end Described

end Script

theorem Node.script_described (n : Node) : n.script.Described :=
  Script.Described.compositional.all (fun _ => .ofExcept _) n

/-! ## The scopes around a fault -/

namespace Script

/-- The sites of the scopes that are open where a script comes to its fault, from the outside
in. -/
def openAtFault : Script → List Site
  | done | fail _ => []
  | token _ r | remark _ r => r.openAtFault
  | scope site b r =>
    match b.output.fault with
    | some _ => site :: b.openAtFault
    | none => r.openAtFault

/-- The first of these sites that describes a fault. -/
def describer? (r : Script) : Option Site :=
  r.openAtFault.find? fun site => site.description.fault.isSome

/-- The script stops at the empty name of an associated item with a fault among its bounds, and
describes none before that one. -/
def StopsAheadOf (r : Script) (f : Fault) : Prop :=
  ∃ bs, r.describer? = some (.constraint [] bs) ∧ bs.findSome? (·.script.output.fault) = some f

variable {r : Script} {f : Fault}

theorem openAtFault_of_complete (h : r.output.fault = none) : r.openAtFault = [] := by
  induction r with
  | done => rfl
  | fail f => rfl
  | token t r ih => exact ih h
  | remark m r ih => exact ih h
  | scope site b r _ ihr =>
      rw [output,Output.append_complete_iff] at h
      rw [openAtFault,h.1]
      exact ihr h.2

theorem StopsAheadOf.unique {g : Fault} (hf : r.StopsAheadOf f) (hg : r.StopsAheadOf g) :
    f = g := by
  obtain ⟨bs,hsite,hf⟩ := hf
  obtain ⟨bs',hsite',hg⟩ := hg
  cases hsite.symm.trans hsite'
  exact Option.some.inj (hf.symm.trans hg)

/-- With tracing on, a run comes to the first fault that is described around the fault of its
script, or to that fault itself. -/
theorem run_fault (h : r.Described) {s : State} (hs : s.active = true) :
    (r.run s).output.fault = (r.describer?.bind (·.description.fault)).or r.output.fault := by
  unfold describer?
  induction h generalizing s with
  | done => rfl
  | fail f => rfl
  | token t _ ih => exact ih hs
  | remark m _ ih => exact ih hs
  | @scope site b r hsite _ _ ihb ihr =>
      rw [output,Output.append_fault,openAtFault]
      cases hd : site.description.fault with
      | some f =>
          obtain ⟨g,hg⟩ := hsite.exists_fault hd
          rw [run_scope_of_fault hs hd,hg]
          dsimp only
          rw [List.find?_cons,hd]
          exact (congrArg (Option.or · _) hd).symm
      | none =>
          rw [run_scope_of_complete hs hd,Run.andThen_output,within_run,Output.append_fault,
            ihb (s := s.indented) hs,ihr hs]
          cases hb : b.output.fault with
          | none => rw [openAtFault_of_complete hb]; rfl
          | some f =>
              dsimp only
              rw [List.find?_cons,hd,Option.or_assoc]
              rfl

/-- The scopes around a fault describe that fault if any, but those of items without a name,
around an empty name, may describe any. -/
theorem Described.describes (h : r.Described) (hf : r.output.fault = some f) :
    ∀ site ∈ r.openAtFault, if site.isNameless then f = .nowhere .emptyIdentifier
      else site.description.fault = none ∨ site.description.fault = some f := by
  induction h with
  | done => cases hf
  | fail g => exact List.forall_mem_nil _
  | token t _ ih => exact ih hf
  | remark m _ ih => exact ih hf
  | @scope site b r hsite _ _ ihb ihr =>
      rw [output,Output.append_fault] at hf
      rw [openAtFault]
      cases hb : b.output.fault with
      | none =>
          rw [hb] at hf
          exact ihr hf
      | some g =>
          rw [hb] at hf
          cases hf
          refine List.forall_mem_cons.mpr ⟨?_,ihb hb⟩
          split
          · rename_i hnameless
            rw [hsite.nameless hnameless] at hb
            cases hb
            rfl
          · rename_i hnamed
            exact (hsite.named (Bool.eq_false_iff.mpr hnamed)).imp_right (·.trans hb)

/-- With tracing on, a run comes to the fault of its script, unless the script stops at the
empty name of an item, ahead of another fault. -/
theorem Described.run_cases (h : r.Described) {s : State} (hs : s.active = true)
    (hf : r.output.fault = some f) :
    (∃ g, r.StopsAheadOf g ∧ f = .nowhere .emptyIdentifier ∧ (r.run s).output.fault = some g) ∨
      (∀ g, ¬r.StopsAheadOf g) ∧ (r.run s).output.fault = some f := by
  rw [run_fault h hs,hf]
  cases hsite : r.describer? with
  | none =>
      right
      refine ⟨?_,rfl⟩
      rintro g ⟨bs,hbs,-⟩
      cases hsite.symm.trans hbs
  | some site =>
      have hsome := List.find?_some hsite
      obtain ⟨g,hg⟩ := Option.isSome_iff_exists.mp hsome
      have hdescribes := h.describes hf site (List.mem_of_find?_eq_some hsite)
      rw [Option.bind_some,hg,Option.some_or]
      split at hdescribes
      · rename_i hnameless
        left
        obtain ⟨bs,rfl⟩ := Site.eq_of_isNameless hnameless
        exact ⟨g,⟨bs,hsite,(Site.constraint_fault [] bs).symm.trans hg⟩,hdescribes,rfl⟩
      · rename_i hnamed
        right
        constructor
        · rintro g' ⟨bs,hbs,-⟩
          cases hsite.symm.trans hbs
          exact hnamed rfl
        · rcases hdescribes with hnone | hsame
          · rw [hnone] at hg
            cases hg
          · exact hg.symm.trans hsame

end Script

/-! ## What is reported -/

/-- No other fault is reported in the words of an empty name. -/
theorem Cause.eq_emptyIdentifier {c : Cause} (h : c.message = Cause.emptyIdentifier.message) :
    c = .emptyIdentifier := by
  have hstarts {start rest : Text} (h : start ++ rest = Cause.emptyIdentifier.message) :
      start <+: Cause.emptyIdentifier.message := ⟨rest,h⟩
  cases c with
  | emptyIdentifier => rfl
  | moved what => cases what <;> exact absurd h (by decide)
  | missingOperand operator => exact absurd (hstarts h) (by decide)
  | unknownOperator number => exact absurd (hstarts h) (by decide)
  | notLiteral className =>
      exact absurd (hstarts ((List.append_assoc ..).symm.trans h)) (by decide)
  | _ => exact absurd h (by decide)

theorem Fault.eq_emptyIdentifier {f : Fault}
    (hmessage : f.message = (nowhere .emptyIdentifier).message)
    (hspan : f.span = (nowhere .emptyIdentifier).span) : f = .nowhere .emptyIdentifier := by
  obtain ⟨cause,span⟩ := f
  cases Cause.eq_emptyIdentifier hmessage
  cases hspan
  rfl

namespace Node

/-- Whatever type, path or expression cannot be printed is reported with the same fault whether
printing is traced or not, unless printing stops at the empty name of an associated item, ahead
of a fault among the bounds of the item. That fault is reported instead where printing is
traced, so the message and the span are the same exactly when it is an empty name as well. -/
theorem traced_fault {n : Node} (hn : n.hasPhase = true) {s s' : State}
    (hs : Script.phaseName ∈ s.enabled) (hs' : Script.phaseName ∉ s'.enabled) {f : Fault}
    (hf : (n.print s').output.fault = some f) :
    ∃ g, (n.print s).output.fault = some g ∧
      ((g.message = f.message ∧ g.span = f.span) ↔
        ∀ h, n.script.StopsAheadOf h → h = .nowhere .emptyIdentifier) ∧
      ((∀ h, ¬n.script.StopsAheadOf h) → g = f) ∧
      ∀ h, n.script.StopsAheadOf h → f = .nowhere .emptyIdentifier ∧ g = h := by
  rw [print_of_hasPhase hn,Script.print_of_disabled _ hs'] at hf
  have hrun := n.script_described.run_cases ((Script.inside_active_iff s).mpr hs) hf
  rw [← Script.print_output,← print_of_hasPhase hn] at hrun
  rcases hrun with ⟨g,hstops,rfl,hg⟩ | ⟨hstops,hg⟩
  · refine ⟨g,hg,?_,fun h => absurd hstops (h g),fun h hstops' => ⟨rfl,hstops.unique hstops'⟩⟩
    constructor
    · rintro ⟨hmessage,hspan⟩ h hstops'
      exact (hstops'.unique hstops).trans (Fault.eq_emptyIdentifier hmessage hspan)
    · intro hsame
      cases hsame g hstops
      exact ⟨rfl,rfl⟩
  · exact ⟨f,hg,⟨fun _ h hstops' => absurd hstops' (hstops h),fun _ => ⟨rfl,rfl⟩⟩,fun _ => rfl,
      fun h hstops' => absurd hstops' (hstops h)⟩

/-- A qualified path with an invalid self type and an empty name behind it. -/
theorem traced_fault_self :
    (qpath (.ofType (.invalid (some ⟨"a.rs",1,1,1,6⟩)) [.mk [] .none])).hasPhase = true ∧
      Script.phaseName ∈ (State.fresh.enable Script.phaseName).enabled ∧
      Script.phaseName ∉ State.fresh.enabled ∧
      ((qpath (.ofType (.invalid (some ⟨"a.rs",1,1,1,6⟩)) [.mk [] .none])).print
        .fresh).output.fault = some ⟨.invalidType,some ⟨"a.rs",1,1,1,6⟩⟩ ∧
      ((qpath (.ofType (.invalid (some ⟨"a.rs",1,1,1,6⟩)) [.mk [] .none])).print
        (State.fresh.enable Script.phaseName)).output.fault =
          some ⟨.invalidType,some ⟨"a.rs",1,1,1,6⟩⟩ := by
  have hphase : (qpath (.ofType (.invalid (some ⟨"a.rs",1,1,1,6⟩)) [.mk [] .none])).hasPhase =
      true := rfl
  have henabled : Script.phaseName ∈ (State.fresh.enable Script.phaseName).enabled := by decide
  have hdisabled : Script.phaseName ∉ State.fresh.enabled := List.not_mem_nil
  have hf : ((qpath (.ofType (.invalid (some ⟨"a.rs",1,1,1,6⟩)) [.mk [] .none])).print
      .fresh).output.fault = some ⟨.invalidType,some ⟨"a.rs",1,1,1,6⟩⟩ := by decide
  obtain ⟨g,hg,-,hsame,-⟩ := traced_fault hphase henabled hdisabled hf
  refine ⟨hphase,henabled,hdisabled,hf,hg.trans (congrArg some (hsame ?_))⟩
  rintro h ⟨bs,hsite,-⟩
  cases hsite

/-- An associated item in a path `A<…>` without a name and with an empty bound: the trace
comes to the bound. -/
theorem traced_fault_differs :
    ((path (.mk false [.mk "A" (.angle false [.constraint [] [.empty]])])).print
        .fresh).output.fault = some (.nowhere .emptyIdentifier) ∧
      ((path (.mk false [.mk "A" (.angle false [.constraint [] [.empty]])])).print
        (State.fresh.enable Script.phaseName)).output.fault = some (.nowhere .emptyBound) ∧
      (Fault.nowhere .emptyIdentifier).message ≠ (Fault.nowhere .emptyBound).message := by
  decide

end Node

end Turbofish
