import Turbofish.Proofs.Brackets.Printing
import Turbofish.Proofs.Layout.Commas
import Turbofish.Proofs.Leading
import Turbofish.Proofs.Reading.ArgLists
import Turbofish.Proofs.Script.Congruent

/-!
# Comma lists

Arguments of both kinds, the items of tuples, the binders in front of a bound and the
arguments of calls are printed between brackets, with a separator `,` behind each. The
separators outside of the brackets of the elements are those of the list, and all of them
but the last are written. A tuple of one item has a comma that is no separator, and is no
comma list.
-/
namespace Turbofish

structure CommaList where
  bracket : Bracket
  /-- In the order in which they are printed. -/
  elements : List Node

/-- The nodes for which a comma list is printed. -/
inductive Node.HasCommaList : Node → CommaList → Prop
  | angle (r : Bool) (as : List Arg) :
      HasCommaList (args (.angle r as)) ⟨.angle,(Arg.grouped as).map arg⟩
  | parenthesized (ts : List Ty) (o : Option Ty) :
      HasCommaList (args (.parenthesized ts o)) ⟨.round,ts.map ty⟩
  | tuple (s : Span) (ts : List Ty) : ts.length ≠ 1 →
      HasCommaList (ty (.tuple s ts)) ⟨.round,ts.map ty⟩
  | binders (ls : List Lifetime) (p : Path) : ls ≠ [] →
      HasCommaList (bound (.trait ls p)) ⟨.angle,ls.map lifetime⟩
  | call (s : Span) (p : QPath) (es : List Expr) :
      HasCommaList (expr (.call s p es)) ⟨.round,es.map expr⟩

namespace CommaList

/-- The tokens between the brackets. -/
def inner (l : CommaList) : List Token :=
  Token.separatedBy "," (l.elements.map (·.script.output.items))

def tokens (l : CommaList) : List Token :=
  .sym l.bracket.opener :: (l.inner ++ [.sym l.bracket.closer])

/-- What is written between the brackets. -/
def written (l : CommaList) : List Token :=
  [Token.separator ","].intercalate (l.elements.map (Token.kept ·.script.output.items))

/-- The script that the tokens between the brackets come from. -/
def body (l : CommaList) : Script := Script.separated "," (l.elements.map Node.script)

def script (l : CommaList) : Script :=
  Script.sym l.bracket.opener ++ l.body ++ Script.sym l.bracket.closer

end CommaList

open Script (Complete Within SameOutput)

/-! ## Where a list is printed -/

namespace CommaList

variable {l : CommaList}

theorem body_complete (h : ∀ e ∈ l.elements, e.script.Complete) : l.body.Complete :=
  Script.complete_separated_iff.mpr (List.forall_mem_map.mpr h)

theorem body_items (h : ∀ e ∈ l.elements, e.script.Complete) : l.body.output.items = l.inner := by
  rw [body,Script.separated_items "," (List.forall_mem_map.mpr h),List.map_map]
  rfl

theorem script_items (h : ∀ e ∈ l.elements, e.script.Complete) :
    l.script.output.items = l.tokens := by
  have hopened : (Script.sym l.bracket.opener ++ l.body).Complete :=
    Script.complete_append_iff.mpr ⟨rfl,body_complete h⟩
  rw [script,Script.output_append,Output.append_of_complete hopened,Script.output_append,
    Output.append_of_complete rfl,body_items h]
  rfl

end CommaList

namespace Node

variable {n m : Node} {l : CommaList}

/-- The elements of a comma list are parts of its node. -/
theorem HasCommaList.mem_printedParts (h : n.HasCommaList l) :
    ∀ e ∈ l.elements, e ∈ n.printedParts := by
  cases h with
  | angle r as =>
      refine List.forall_mem_map.mpr fun a ha => ?_
      simp only [Arg.grouped,List.mem_append,List.mem_filter,decide_eq_true_eq] at ha
      refine List.mem_map_of_mem (List.mem_filter.mpr ?_)
      rcases ha with (⟨ha,hg⟩ | ⟨ha,hg⟩) | ⟨ha,hg⟩ <;> exact ⟨ha,by rw [hg]; rfl⟩
  | parenthesized ts o => exact fun e he => List.mem_append_left _ he
  | tuple s ts _ => exact fun e he => he
  | binders ls p _ => exact fun e he => List.mem_append_left _ he
  | call s p es => exact fun e he => List.mem_cons_of_mem _ he

theorem HasCommaList.elements_complete (h : n.HasCommaList l) (hc : n.script.Complete) :
    ∀ e ∈ l.elements, e.script.Complete := fun e he =>
  ((complete_iff n).mp hc).2 e (h.mem_printedParts e he)

/-- The elements of a comma list that is printed to the end are all there. -/
theorem HasCommaList.isWritten (h : n.HasCommaList l) (hc : n.script.Complete) :
    ∀ e ∈ l.elements, e.isWritten = true := by
  cases h with
  | call s p es =>
      have hmalformed : es.any Expr.isMissing = false := ((complete_iff _).mp hc).1
      refine List.forall_mem_map.mpr fun e he => ?_
      exact congrArg Bool.not (Bool.eq_false_iff.mpr (List.any_eq_false.mp hmalformed e he))
  | angle r as => exact List.forall_mem_map.mpr fun _ _ => rfl
  | parenthesized ts o => exact List.forall_mem_map.mpr fun _ _ => rfl
  | tuple s ts _ => exact List.forall_mem_map.mpr fun _ _ => rfl
  | binders ls p _ => exact List.forall_mem_map.mpr fun _ _ => rfl

/-- The arguments of a call are printed one by one, apart from the scopes of a trace. -/
theorem sameOutput_args {span : Span} {es : List Expr}
    (h : (Script.separated "," (Expr.argScripts span es)).Complete) :
    SameOutput (CommaList.body ⟨.round,es.map expr⟩)
      (Script.separated "," (Expr.argScripts span es)) := by
  have hthere := (Expr.complete_argScripts_iff span es).mp (Script.complete_separated_iff.mp h)
  rw [CommaList.body,List.map_map,Expr.argScripts_eq_map_ite]
  refine SameOutput.congruent.separated "," (SameOutput.map fun e he => ?_)
  rw [(hthere e he).1]
  exact Script.output_scope_done _ e.script

/-- The groups of the arguments in angle brackets are printed as one list. -/
theorem output_angle (r : Bool) (as : List Arg) :
    (args (.angle r as)).script.output = (Script.onlyIf r (Script.sym "::") ++
      CommaList.script ⟨.angle,(Arg.grouped as).map arg⟩).output := by
  have hbody : CommaList.body ⟨.angle,(Arg.grouped as).map arg⟩ =
      Script.separated "," ((Arg.grouped as).map Arg.script) := by
    rw [CommaList.body,List.map_map]
    rfl
  rw [script_args,Args.script,Script.output_scope_done,CommaList.script,hbody,
    ← Arg.separated_groups]
  simp only [Script.append_assoc]
  rfl

/-- A comma list is printed with its node. -/
theorem HasCommaList.within (h : n.HasCommaList l) : Within l.script n.script := by
  cases h with
  | angle r as => exact ((Within.refl _).right _).trans (.of_output_eq (output_angle r as).symm)
  | parenthesized ts o =>
      rw [script_args,Args.script,Ty.scripts_eq_map,CommaList.script,CommaList.body,List.map_map]
      exact (Within.refl _).left _
  | tuple s ts hlength =>
      have hitems : Script.items (ts.map Ty.script) = Script.separated "," (ts.map Ty.script) := by
        cases ts with
        | nil => rfl
        | cons t ts =>
            cases ts with
            | nil => exact absurd rfl hlength
            | cons u ts => rfl
      rw [script_ty,Ty.script,Ty.scripts_eq_map,hitems,CommaList.script,CommaList.body,List.map_map]
      exact .refl _
  | binders ls p hne =>
      have hcondition : (!ls.isEmpty) = true := by
        rw [Bool.not_eq_true',List.isEmpty_eq_false_iff]
        exact hne
      have hlist := Within.refl (CommaList.script ⟨.angle,ls.map lifetime⟩)
      have hbinders := Within.onlyIf hcondition (hlist.right (Script.keyword "for"))
      apply Within.left
      rw [CommaList.script,CommaList.body,List.map_map] at hbinders ⊢
      exact hbinders
  | call s p es =>
      intro hc
      have hargs : (Script.separated "," (Expr.argScripts s es)).Complete := by
        rw [script_expr,Expr.tracedScript,Script.complete_scope_iff,Expr.script] at hc
        simp only [Script.complete_append_iff] at hc
        exact hc.1.2
      have hlist : SameOutput (CommaList.script ⟨.round,es.map expr⟩)
          (Script.sym "(" ++ Script.separated "," (Expr.argScripts s es) ++ Script.sym ")") :=
        SameOutput.congruent.append (SameOutput.congruent.append rfl (sameOutput_args hargs)) rfl
      have hcall := ((Within.of_output_eq hlist).right p.script).scope
        (.expr (Expr.call s p es).className)
      simp only [← Script.append_assoc] at hcall
      exact hcall hc

end Node

/-! ## What is written of a list -/

namespace CommaList

variable {l : CommaList}

/-- The tokens of the elements, which are what stands between the commas of the list. -/
theorem commasNested (h : ∀ e ∈ l.elements, e.script.Complete) :
    ∀ e ∈ l.elements.map (·.script.output.items), Token.CommasNested e := by
  refine List.forall_mem_map.mpr fun e he => ?_
  have hopener (b : Bracket) : (Token.sym b.opener).isSymbolOf [","] = false := by
    cases b <;> decide
  exact e.script_commas.nested hopener (h e he)

theorem commasNested_kept (h : ∀ e ∈ l.elements, e.script.Complete) :
    ∀ e ∈ l.elements.map (Token.kept ·.script.output.items), Token.CommasNested e := by
  have hnested := List.forall_mem_map.mp (commasNested h)
  refine List.forall_mem_map.mpr fun e he => ?_
  exact (hnested e he).kept fun _ => e.script_regular.mark?_separator

theorem balanced_inner (h : ∀ e ∈ l.elements, e.script.Complete) :
    Bracket.Balanced (Token.marks l.inner) := by
  have hregular : l.body.Regular := Script.Regular.additive.separated (.separator (by decide))
    (List.forall_mem_map.mpr fun e _ => e.script_regular)
  have hbalanced := hregular.balanced (body_complete h)
  rw [body_items h] at hbalanced
  exact hbalanced

/-- What is written around a list does not depend on it. -/
theorem kept_tokens (h : ∀ e ∈ l.elements, e.script.Begins) (before after : List Token) :
    Token.kept (before ++ l.tokens ++ after) =
      Token.kept (before ++ [.sym l.bracket.opener]) ++ l.written ++
        Token.kept (.sym l.bracket.closer :: after) := by
  have hsplit : before ++ l.tokens ++ after = (before ++ [.sym l.bracket.opener]) ++
      (l.inner ++ .sym l.bracket.closer :: after) := by
    simp only [tokens,List.append_assoc,List.cons_append,List.nil_append]
  have hopener : ∀ t ∈ (before ++ [Token.sym l.bracket.opener]).getLast?,
      t.isSeparator = false := by
    rw [List.getLast?_concat]
    exact fun t ht => Option.some.inj ht ▸ rfl
  have hcloser :
      (Token.sym l.bracket.closer :: after).head?.all Token.replacesSeparator = true := by
    change (Token.sym l.bracket.closer).replacesSeparator = true
    cases l.bracket <;> decide
  have hheads : ∀ e ∈ l.elements.map (·.script.output.items),
      ∃ t ∈ e.head?, t.replacesSeparator = false := by
    refine List.forall_mem_map.mpr fun e he => ?_
    obtain ⟨t,r,hr,ht⟩ := h e he
    rw [hr]
    exact ⟨t,rfl,ht⟩
  rw [hsplit,Token.kept_append (.inl hopener),inner,
    Token.kept_separatedBy_of_replaces "," hheads hcloser,List.map_map,← List.append_assoc]
  rfl

end CommaList

namespace Node

end Node

end Turbofish
