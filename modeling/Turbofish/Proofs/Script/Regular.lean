import Turbofish.Proofs.Brackets.Word
import Turbofish.Proofs.Script.Additive
import Turbofish.Proofs.Induction
import Turbofish.Trace.Run

/-!
# The shape of printed scripts

The script of every node is regular: each bracket that it writes stands around a
regular script, and what the entry of a scope describes is written inside the scope
as well, so that a description fails only where the scope fails too. Facts about
all printing are facts about regular scripts. What a script writes outside of its
brackets may be restricted further.
-/
namespace Turbofish

namespace Script

inductive Regular : Script → Prop
  | done : Regular done
  | fail (f : Fault) : Regular (fail f)
  | remark (m : Remark) {r : Script} : Regular r → Regular (remark m r)
  | token {t : Token} {r : Script} : t.mark? = none → Regular r → Regular (token t r)
  | surround (b : Bracket) {s r : Script} : Regular s → Regular r →
      Regular (token (.sym b.opener) (s ++ token (.sym b.closer) r))
  | scope (site : Site) {b r : Script} : (b.output.fault = none → site.description.fault = none) →
      Regular b → Regular r → Regular (scope site b r)

theorem Regular.append {r s : Script} (hr : Regular r) (hs : Regular s) : Regular (r ++ s) := by
  induction hr with
  | done => exact hs
  | fail f => exact .fail f
  | remark m _ ih => exact .remark m ih
  | token ht _ ih => exact .token ht ih
  | surround b hb _ _ ih =>
      rw [token_append,append_assoc,token_append]
      exact .surround b hb ih
  | scope site hd hb _ _ ih => exact .scope site hd hb ih

theorem Regular.additive : Additive Regular where
  done := .done
  append := Regular.append

namespace Regular

theorem sym {text : Text} (h : (Token.sym text).mark? = none) : Regular (sym text) :=
  .token h .done

theorem separator {text : Text} (h : (Token.separator text).mark? = none) :
    Regular (separator text) := .token h .done

end Regular

/-! ## Outside of brackets -/

/-- A regular script that writes only tokens with a property outside of its brackets. -/
inductive Outside (P : Token → Prop) : Script → Prop
  | done : Outside P done
  | fail (f : Fault) : Outside P (fail f)
  | remark (m : Remark) {r : Script} : Outside P r → Outside P (remark m r)
  | token {t : Token} {r : Script} : t.mark? = none → P t → Outside P r → Outside P (token t r)
  | surround (b : Bracket) {s r : Script} : Regular s → Outside P r →
      Outside P (token (.sym b.opener) (s ++ token (.sym b.closer) r))
  | scope (site : Site) {b r : Script} : (b.output.fault = none → site.description.fault = none) →
      Outside P b → Outside P r → Outside P (scope site b r)

theorem Outside.append {P : Token → Prop} {r s : Script} (hr : Outside P r) (hs : Outside P s) :
    Outside P (r ++ s) := by
  induction hr with
  | done => exact hs
  | fail f => exact .fail f
  | remark m _ ih => exact .remark m ih
  | token ht hp _ ih => exact .token ht hp ih
  | surround b hb _ ih =>
      rw [token_append,append_assoc,token_append]
      exact .surround b hb ih
  | scope site hd hb _ _ ih => exact .scope site hd hb ih

theorem Outside.additive {P : Token → Prop} : Additive (Outside P) where
  done := .done
  append := Outside.append

theorem Outside.regular {P : Token → Prop} {s : Script} (h : Outside P s) : Regular s := by
  induction h with
  | done => exact .done
  | fail f => exact .fail f
  | remark m _ ih => exact .remark m ih
  | token ht _ _ ih => exact .token ht ih
  | surround b hs _ ih => exact .surround b hs ih
  | scope site hd _ _ ihb ihr => exact .scope site hd ihb ihr

theorem Outside.imp {P Q : Token → Prop} {s : Script} (h : Outside P s) (hPQ : ∀ t, P t → Q t) :
    Outside Q s := by
  induction h with
  | done => exact .done
  | fail f => exact .fail f
  | remark m _ ih => exact .remark m ih
  | token ht hp _ ih => exact .token ht (hPQ _ hp) ih
  | surround b hs _ ih => exact .surround b hs ih
  | scope site hd _ _ ihb ihr => exact .scope site hd ihb ihr

end Script

/-- Neither a comma nor an operator. -/
def Token.isPlain (t : Token) : Bool := !t.isSymbolOf [","] && t.cls != .operator

namespace Script

/-- The commas and operators of a plain script are inside of its brackets. -/
abbrev Plain (s : Script) : Prop := Outside (fun t => t.isPlain = true) s

namespace Plain

theorem sym {text : Text} (h : (Token.sym text).mark? = none)
    (hp : (Token.sym text).isPlain = true) : Plain (sym text) :=
  .token h hp .done

theorem keyword (text : Text) : Plain (keyword text) := .token (Token.mark?_of_cls nofun) rfl .done

theorem literal (text : Text) : Plain (literal text) := .token (Token.mark?_of_cls nofun) rfl .done

theorem lifetime (name : Text) : Plain (lifetime name) :=
  .token (Token.mark?_of_cls nofun) rfl .done

theorem separator {text : Text} (h : (Token.separator text).mark? = none)
    (hp : (Token.separator text).isPlain = true) : Plain (separator text) := .token h hp .done

theorem ident (name : Text) : Plain (ident name) := by
  unfold Script.ident Token.ident
  split
  · exact .fail _
  · split
    · exact keyword _
    · exact keyword _

/-- A script between a bracket and its counterpart. -/
theorem between (b : Bracket) {s : Script} (hs : Regular s) :
    Plain (Script.sym b.opener ++ s ++ Script.sym b.closer) :=
  .surround b hs .done

theorem parenthesizedIf {c : Bool} {s : Script} (hr : Regular s) (hs : c = false → Plain s) :
    Plain (parenthesizedIf c s) := by
  cases c with
  | false => exact hs rfl
  | true => exact between .round hr

end Plain

end Script

/-! ## Descriptions of scopes -/

namespace Output

variable {α : Type}

theorem append_fault (o p : Output α) : (o ++ p).fault = o.fault.or p.fault := by
  cases h : o.fault with
  | none => rw [append_of_complete h,Option.none_or]
  | some f => rw [append_of_fault h,h,Option.some_or]

theorem joined_fault (between : List α) (os : List (Output α)) :
    (joined between os).fault = os.findSome? (·.fault) := by
  match os with
  | [] => rfl
  | [o] => rw [joined,List.findSome?_singleton]
  | o :: p :: rest =>
      have hrest := joined_fault between (p :: rest)
      rw [joined,append_fault,append_fault,hrest]
      cases h : o.fault with
      | none => simp [h,ofList]
      | some f => simp [h]

end Output

namespace Script

theorem shown_fault (s : Script) : s.shown.fault = s.output.fault := by
  unfold shown
  cases h : s.output.fault <;> rfl

/-- The first fault among some scripts ends the printing of all of them. -/
theorem separated_fault (sep : Text) (ss : List Script) :
    (separated sep ss).output.fault = ss.findSome? (·.output.fault) := by
  induction ss with
  | nil => rfl
  | cons s ss ih =>
      rw [separated,output_append,output_append,Output.append_fault,Output.append_fault,ih,
        List.findSome?_cons]
      cases s.output.fault <;> rfl

theorem separated_complete_iff (sep : Text) (ss : List Script) :
    (separated sep ss).output.fault = none ↔ ∀ s ∈ ss, s.output.fault = none := by
  rw [separated_fault,List.findSome?_eq_none_iff]

end Script

/-! ## Scripts of trees -/

open Script

namespace Script.Plain

theorem lifetimeScript (l : Lifetime) : l.script.Plain := by
  unfold Lifetime.script
  split
  · exact lifetime _
  · exact .fail _

theorem bindersScript (ls : List Lifetime) : (Lifetime.bindersScript ls).Plain := by
  unfold Lifetime.bindersScript
  rw [append_assoc,append_assoc]
  refine Outside.additive.onlyIf fun _ => (keyword "for").append ?_
  rw [← append_assoc]
  refine between .angle (Regular.additive.separated (Regular.separator (by decide)) ?_)
  intro s hs
  obtain ⟨l,_,rfl⟩ := List.mem_map.mp hs
  exact (lifetimeScript l).regular

end Script.Plain

end Turbofish
