import Turbofish.Proofs.Malformed
import Turbofish.Proofs.Script.Parts

/-!
# Printing is calling a token buffer

Whatever node is printed, its tokens are added to an empty buffer by one call after the other,
and the text is what that buffer lays out. A fault that calls can come to is the fault of the
last one of them, which is refused. Every other fault is found between two calls.
-/
namespace Turbofish

namespace Buffer

theorem calls_singleton (c : Call) : empty.calls [c] =
    match c.token with
    | .ok t => (⟨[t]⟩,none)
    | .error f => (empty,some f) := by
  rw [calls,call]
  cases c.token <;> rfl

/-- What calls add goes behind what the buffer holds, whatever that is. -/
theorem calls_eq (buffer : Buffer) (cs : List Call) :
    buffer.calls cs = (⟨buffer.tokens ++ (empty.calls cs).1.tokens⟩,(empty.calls cs).2) := by
  induction cs generalizing buffer with
  | nil =>
      change (buffer,none) = (⟨buffer.tokens ++ []⟩,none)
      rw [List.append_nil]
  | cons c cs ih =>
      rw [calls,calls,call,call]
      cases c.token with
      | error f =>
          change (buffer,some f) = (⟨buffer.tokens ++ []⟩,some f)
          rw [List.append_nil]
      | ok t =>
          dsimp only [Except.map]
          rw [ih (buffer.push t),ih (empty.push t)]
          simp only [push,empty,List.append_assoc,List.nil_append]

theorem calls_append_of_accepted (buffer : Buffer) {cs : List Call}
    (h : (buffer.calls cs).2 = none) (ds : List Call) :
    buffer.calls (cs ++ ds) = (buffer.calls cs).1.calls ds := by
  induction cs generalizing buffer with
  | nil => rfl
  | cons c cs ih =>
      rw [List.cons_append,calls,calls]
      rw [calls] at h
      cases hc : buffer.call c with
      | error f =>
          rw [hc] at h
          cases h
      | ok next =>
          rw [hc] at h
          exact ih next.2 h

/-- Whether calls can come to this fault. -/
def Refuses (f : Fault) : Prop := ∃ c : Call, c.token = .error f

/-- The calls add the tokens of an output, and stop at a refused one exactly where the output
ends with a fault that calls can come to. -/
structure Adds (cs : List Call) (o : Output Token) : Prop where
  tokens : (empty.calls cs).1.tokens = o.items
  refused (f : Fault) : (empty.calls cs).2 = some f ↔ o.fault = some f ∧ Refuses f

namespace Adds

variable {cs ds : List Call} {o p : Output Token}

theorem nil : Adds [] .nil := ⟨rfl,fun _ => ⟨nofun,fun h => absurd h.1 nofun⟩⟩

theorem accepted (h : Adds cs o) (ho : o.fault = none) : (empty.calls cs).2 = none := by
  cases hf : (empty.calls cs).2 with
  | none => rfl
  | some f =>
      have hfault := ((h.refused f).mp hf).1
      rw [ho] at hfault
      cases hfault

/-- Where the first output ends with a fault, the calls for the second one are not made. -/
theorem append (h : Adds cs o) (h' : Adds ds p) : ∃ es, Adds es (o ++ p) := by
  cases ho : o.fault with
  | some f =>
      rw [Output.append_of_fault ho]
      exact ⟨cs,h⟩
  | none =>
      rw [Output.append_of_complete ho]
      have hcalls : empty.calls (cs ++ ds) =
          (⟨o.items ++ (empty.calls ds).1.tokens⟩,(empty.calls ds).2) := by
        rw [calls_append_of_accepted empty (h.accepted ho),calls_eq,h.tokens]
      refine ⟨cs ++ ds,?_,?_⟩
      · rw [hcalls,h'.tokens]
      · rw [hcalls]
        exact h'.refused

theorem fail (f : Fault) : ∃ cs, Adds cs (.fail f) := by
  by_cases hf : Refuses f
  · obtain ⟨c,hc⟩ := hf
    refine ⟨[c],?_,fun g => ?_⟩
    · rw [calls_singleton,hc]
      rfl
    · rw [calls_singleton,hc]
      constructor
      · rintro ⟨⟩
        exact ⟨rfl,c,hc⟩
      · exact And.left
  · refine ⟨[],rfl,fun g => ⟨nofun,?_⟩⟩
    rintro ⟨⟨⟩,hg⟩
    exact absurd hg hf

/-- A call that is not refused adds its token; a refused one ends with its fault. -/
theorem call (c : Call) : ∃ cs, Adds cs (Script.call c).output := by
  unfold Script.call
  cases hc : c.token with
  | error f => exact fail f
  | ok t =>
      refine ⟨[c],?_,fun f => ?_⟩
      · rw [calls_singleton,hc]
        rfl
      · rw [calls_singleton,hc]
        exact ⟨nofun,fun h => absurd h.1 nofun⟩

end Adds

end Buffer

namespace Script

open Buffer (Adds)

/-- Some calls write what the script does. -/
def Called (s : Script) : Prop := ∃ cs, Adds cs s.output

theorem Called.additive : Additive Called where
  done := ⟨[],.nil⟩
  append {r s} hr hs := by
    obtain ⟨cs,hcs⟩ := hr
    obtain ⟨ds,hds⟩ := hs
    unfold Called
    rw [output_append]
    exact hcs.append hds

theorem Called.compositional : Compositional Called :=
  have heq {r s : Script} (h : r.output = s.output) (hr : r.Called) : s.Called := by
    unfold Called at hr ⊢
    rw [← h]
    exact hr
  .of_output additive heq Adds.fail fun c _ => Adds.call c

theorem Called.operator (op : BinaryOp) : op.script.Called := by
  unfold BinaryOp.script
  cases op.text with
  | ok t => exact Adds.call (.operator t)
  | error f => exact Adds.fail f

end Script

/-- What is printed for a node is added to a buffer by calls. Printing in any state of tracing,
where it comes to no fault, gives the text that the buffer lays out. -/
theorem Node.exists_calls (n : Node) : ∃ cs, Buffer.Adds cs n.script.output ∧
    ∀ s t, (n.print s).text = .ok t → Buffer.empty.calls cs = (⟨n.script.output.items⟩,none) ∧
      (Buffer.empty.calls cs).1.render = t := by
  obtain ⟨cs,hcs⟩ := Script.Called.compositional.all Script.Called.operator n
  refine ⟨cs,hcs,fun s t ht => ?_⟩
  obtain ⟨hcomplete,hrender⟩ := (Script.Run.text_eq_ok_iff _ _).mp ht
  have houtput := print_output_of_complete hcomplete
  rw [houtput] at hcomplete hrender
  have htokens : (Buffer.empty.calls cs).1 = ⟨n.script.output.items⟩ :=
    congrArg Buffer.mk hcs.tokens
  have haccepted := hcs.accepted hcomplete
  refine ⟨Prod.ext htokens haccepted,?_⟩
  rw [htokens]
  exact hrender

end Turbofish
