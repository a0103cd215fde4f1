import Turbofish.Proofs.NormalForm
import Turbofish.Proofs.Script.Congruent
import Turbofish.Proofs.Tracing.Transparent

/-!
# Printing a normal form

A tree and its normal form write the same tokens, and come to the same fault behind the
same tokens. Every kind of node has its normal form at every depth, so the rewrites have
to agree with what is printed wherever they meet.
-/
namespace Turbofish

open Script (SameOutput)
open Script.SameOutput (congruent)

/-! ## Lists of parts -/

theorem Ty.scripts_normal {ts : List Ty} (h : ∀ t ∈ ts, SameOutput t.normal.script t.script) :
    List.Forall₂ SameOutput (scripts (normalList ts)) (scripts ts) := by
  rw [normalList_eq_map,scripts_eq_map,scripts_eq_map,List.map_map]
  exact SameOutput.map h

theorem Bound.scripts_normal {bs : List Bound}
    (h : ∀ b ∈ bs, SameOutput b.normal.script b.script) :
    List.Forall₂ SameOutput (scripts (normalList bs)) (scripts bs) := by
  rw [normalList_eq_map,scripts_eq_map,scripts_eq_map,List.map_map]
  exact SameOutput.map h

theorem Segment.scripts_normal {ss : List Segment}
    (h : ∀ s ∈ ss, SameOutput s.normal.script s.script) :
    List.Forall₂ SameOutput (scripts (normalList ss)) (scripts ss) := by
  rw [normalList_eq_map,scripts_eq_map,scripts_eq_map,List.map_map]
  exact SameOutput.map h

theorem Expr.argScripts_normal (span : Span) {es : List Expr}
    (h : ∀ e ∈ es, SameOutput e.normal.script e.script) :
    List.Forall₂ SameOutput (argScripts span (normalList es)) (argScripts span es) := by
  rw [normalList_eq_map,argScripts_eq_map_ite,argScripts_eq_map_ite,List.map_map]
  refine SameOutput.map fun e he => ?_
  simp only [Function.comp_apply,isMissing_normal]
  split
  · exact congruent.refl _
  · exact h e he

theorem Expr.statementScripts_normal (span : Span) {es : List Expr}
    (h : ∀ e ∈ es, SameOutput e.normal.script e.script) :
    List.Forall₂ SameOutput (statementScripts span (normalList es))
      (statementScripts span es) := by
  rw [normalList_eq_map,statementScripts_eq_map_ite,statementScripts_eq_map_ite,List.map_map]
  refine SameOutput.map fun e he => ?_
  simp only [Function.comp_apply,isMissing_normal]
  split
  · exact congruent.refl _
  · exact congruent.scope _ _ (h e he)

/-! ## Argument lists -/

theorem Arg.scripts_normal (group : ArgGroup) {as : List Arg}
    (h : ∀ a ∈ as, SameOutput a.normal.script a.script) :
    List.Forall₂ SameOutput (scripts group (grouped (normalList as))) (scripts group as) := by
  rw [scripts_eq_map,scripts_eq_map,filter_grouped,normalList_eq_map,
    filter_group_map group?_normal,List.map_map]
  exact SameOutput.map fun a ha => h a (List.mem_filter.mp ha).1

/-! ## Qualified paths and values -/

namespace QPath

variable {ss : List Segment}

theorem interfaceOutput_normal {r r' : Bool} (hr : ss ≠ [] → r' = r)
    (h : ∀ s ∈ ss, SameOutput s.normal.script s.script) :
    interfaceOutput r' (ss.map Segment.normal) = interfaceOutput r ss := by
  cases ss with
  | nil => rfl
  | cons s ss =>
      have hsame :
          SameOutput (Script.segments r (((s :: ss).map Segment.normal).map Segment.script))
            (Script.segments r ((s :: ss).map Segment.script)) := by
        rw [List.map_map]
        exact congruent.segments r (SameOutput.map h)
      rw [hr (List.cons_ne_nil s ss)]
      exact congrArg (Output.cons (.keyword "as")) hsame

/-- The position is looked at through the segments before it and those behind it, and the
root only where there are segments before it. -/
theorem sameOutput_normal (n : UInt64) (r : Bool) {t : Ty}
    (ht : SameOutput t.normal.script t.script)
    (hss : ∀ s ∈ ss, SameOutput s.normal.script s.script) :
    SameOutput (qualified t n (.mk r ss)).normal.script (qualified t n (.mk r ss)).script := by
  have hclamped := clamped_toNat n ss.length
  have htake : (Segment.normalList ss).take (clamped n ss.length).toNat =
      (ss.take n.toNat).map Segment.normal := by
    rw [Segment.normalList_eq_map,hclamped,← List.map_take,← List.take_eq_take_min]
  have hdrop : (Segment.normalList ss).drop (clamped n ss.length).toNat =
      (ss.drop n.toNat).map Segment.normal := by
    rw [Segment.normalList_eq_map,hclamped,← List.map_drop,← List.drop_eq_drop_min]
  have hroot : ss.take n.toNat ≠ [] → (r && clamped n ss.length != 0) = r := by
    intro h
    have hzero : clamped n ss.length ≠ 0 := by
      intro hz
      rw [hz] at hclamped
      exact h (by rw [List.take_eq_take_min,← hclamped]; rfl)
    rw [bne_iff_ne.mpr hzero,Bool.and_true]
  have heach :
      SameOutput (Script.each "::" (((ss.drop n.toNat).map Segment.normal).map Segment.script))
        (Script.each "::" ((ss.drop n.toNat).map Segment.script)) := by
    rw [List.map_map]
    exact congruent.each _ (SameOutput.map fun s hs => hss s (List.mem_of_mem_drop hs))
  have hinterface := interfaceOutput_normal hroot fun s hs => hss s (List.mem_of_mem_take hs)
  have hnormal := output_qualified t.normal (clamped n ss.length)
    (r && clamped n ss.length != 0) (Segment.normalList ss) .nil
  have hgiven := output_qualified t n r ss .nil
  rw [htake,hdrop,hinterface,heach,ht,← hgiven] at hnormal
  rw [Output.append_nil,Output.append_nil] at hnormal
  exact hnormal

end QPath

theorem Expr.sameOutput_normal_braced {e : Expr} (he : SameOutput e.normal.script e.script) :
    SameOutput e.normal.braced.script e.braced.script := by
  unfold braced
  rw [isSelfDelimiting_normal]
  split
  · exact he
  · have hstatement := statementScripts_normal none (List.forall_mem_singleton.mpr he)
    exact congruent.append (congruent.append (congruent.refl _) (congruent.statements _ hstatement))
      (congruent.refl _)

/-- The braces that a value is given are those of the block that it is put into. -/
theorem Arg.sameOutput_normal_value {e : Expr} (he : SameOutput e.normal.script e.script) :
    SameOutput (value e).normal.script (value e).script := by
  cases hm : e.isMissing with
  | true =>
      rw [normal,hm]
      exact congruent.refl _
  | false =>
      have hnormal : (value e).normal = value e.normal.braced := by
        rw [normal,hm]; rfl
      change _ = _
      rw [hnormal,output_value e.normal.isMissing_braced,Expr.braced_braced,output_value hm]
      exact Expr.sameOutput_normal_braced he

/-! ## Every kind of node -/

/-- The families of the nodes that are printed as their normal forms are. -/
def sameOutput : Family where
  ty t := SameOutput t.normal.script t.script
  bound b := SameOutput b.normal.script b.script
  path p := SameOutput p.normal.script p.script
  segment s := SameOutput s.normal.script s.script
  args as := SameOutput as.normal.script as.script
  arg a := SameOutput a.normal.script a.script
  qpath p := SameOutput p.normal.script p.script
  expr e := SameOutput e.normal.script e.script

theorem sameOutput_inductive : sameOutput.Inductive where
  movedTy _ := congruent.refl _
  invalid _ := congruent.refl _
  infer _ := congruent.refl _
  never _ := congruent.refl _
  unit _ := rfl
  tuple _ _ hts :=
    congruent.append (congruent.append (congruent.refl _) (congruent.items (Ty.scripts_normal hts)))
      (congruent.refl _)
  borrow s l m t ht := by
    change SameOutput (Ty.script (.borrow s l m t.normal)) _
    rw [Ty.script,Ty.script,Ty.needsParens_normal]
    exact congruent.append (congruent.refl _) (congruent.parenthesizedIf _ ht)
  pointer s m t ht := by
    change SameOutput (Ty.script (.pointer s m t.normal)) _
    rw [Ty.script,Ty.script,Ty.needsParens_normal]
    exact congruent.append (congruent.refl _) (congruent.parenthesizedIf _ ht)
  array s t n ht hn := by
    change SameOutput (Ty.script (.array s t.normal n.normal)) _
    rw [Ty.script,Ty.script,Expr.isMissing_normal]
    exact congruent.append (congruent.append (congruent.append (congruent.refl _) ht)
      (congruent.onlyIf _ (congruent.append (congruent.refl _) (congruent.scope _ _ hn))))
      (congruent.refl _)
  pathTy _ _ hp := hp
  traitObject _ _ hbs :=
    congruent.append (congruent.refl _) (congruent.separated _ (Bound.scripts_normal hbs))
  erased _ _ hbs :=
    congruent.append (congruent.refl _) (congruent.separated _ (Bound.scripts_normal hbs))
  movedBound := congruent.refl _
  emptyBound := congruent.refl _
  lifetimeBound _ := congruent.refl _
  trait _ _ hp := congruent.append (congruent.refl _) hp
  maybe _ hp := congruent.append (congruent.refl _) hp
  path _ _ hss := congruent.scope _ _ (congruent.segments _ (Segment.scripts_normal hss))
  segment _ _ has := congruent.append (congruent.refl _) has
  movedArgs := congruent.refl _
  noArgs := congruent.refl _
  angle _ _ has :=
    congruent.scope _ _ (congruent.append (congruent.append (congruent.append (congruent.append
      (congruent.refl _)
      (congruent.separated _ (Arg.scripts_normal .lifetimes has)))
      (congruent.separated _ (Arg.scripts_normal .values has)))
      (congruent.separated _ (Arg.scripts_normal .associated has)))
      (congruent.refl _))
  parenthesized ts o hts ho := by
    have houtput : SameOutput (Ty.outputScript (Ty.normalOption o)) (Ty.outputScript o) := by
      cases o with
      | none => exact congruent.refl _
      | some t =>
          rw [Ty.normalOption,Ty.outputScript,Ty.outputScript,Ty.needsParens_normal]
          exact congruent.append (congruent.refl _) (congruent.parenthesizedIf _ (ho t rfl))
    exact congruent.append (congruent.append (congruent.append (congruent.refl _)
      (congruent.separated _ (Ty.scripts_normal hts))) (congruent.refl _)) houtput
  movedArg := congruent.refl _
  lifetimeArg _ := congruent.refl _
  tyArg _ ht := ht
  valueArg _ he := Arg.sameOutput_normal_value he
  binding _ _ ht := congruent.append (congruent.refl _) ht
  constraint _ _ hbs := congruent.scope _ _ (congruent.append (congruent.refl _)
    (congruent.separated _ (Bound.scripts_normal hbs)))
  plain _ hp := hp
  qualified _ n r _ ht hss _ := QPath.sameOutput_normal n r ht hss
  missing := congruent.refl _
  block s k y es hes := congruent.append (congruent.append (congruent.refl _)
    (congruent.statements _ (Expr.statementScripts_normal s hes))) (congruent.refl _)
  call s _ _ hp hes := congruent.append (congruent.append (congruent.append hp (congruent.refl _))
    (congruent.separated _ (Expr.argScripts_normal s hes))) (congruent.refl _)
  int _ _ _ := congruent.refl _
  bool _ _ := congruent.refl _
  str _ _ := congruent.refl _
  name _ _ hp := hp
  binary s op l r hl hr := by
    change SameOutput (Expr.script (.binary s op l.normal r.normal)) _
    rw [Expr.script,Expr.script,Expr.isMissing_normal,Expr.isMissing_normal,Expr.isBinary_normal,
      Expr.isBinary_normal]
    split
    · exact congruent.refl _
    · exact congruent.append (congruent.append (congruent.parenthesizedIf _ hl) (congruent.refl _))
        (congruent.parenthesizedIf _ hr)
  unary s op e he := by
    change SameOutput (Expr.script (.unary s op e.normal)) _
    rw [Expr.script,Expr.script,Expr.isMissing_normal,Expr.isBinary_normal]
    split
    · exact congruent.refl _
    · exact congruent.append (congruent.refl _) (congruent.parenthesizedIf _ he)

namespace Node

theorem output_normal : ∀ n : Node, n.normal.script.output = n.script.output
  | lifetime _ => rfl
  | ty t => sameOutput_inductive.all_ty t
  | path p => sameOutput_inductive.all_path p
  | qpath p => sameOutput_inductive.all_qpath p
  | segment s => sameOutput_inductive.all_segment s
  | args as => sameOutput_inductive.all_args as
  | arg a => sameOutput_inductive.all_arg a
  | bound b => sameOutput_inductive.all_bound b
  | expr e => congruent.scope _ _ (sameOutput_inductive.all_expr e)

/-- Whether printing a node leaves records. -/
def isTraced (n : Node) (s : Trace.State) : Bool :=
  if n.hasPhase then s.enabled.contains Script.phaseName else s.active

/-- Printing that is not traced comes to the output of the script, in the state it
began in. -/
theorem print_of_not_traced {n : Node} {s : Trace.State} (h : n.isTraced s = false) :
    n.print s = ⟨s,[],n.script.output⟩ := by
  unfold Node.print
  cases hp : n.hasPhase with
  | false =>
      rw [isTraced,hp] at h
      exact Script.run_of_inactive n.script h
  | true =>
      rw [isTraced,hp,if_pos rfl] at h
      rw [if_pos rfl]
      exact Script.print_of_disabled n.script fun hc =>
        absurd (List.contains_iff_mem.mpr hc) (Bool.eq_false_iff.mp h)

/-- A tree in normal form has nothing but normal nodes in it, and where printing is not
traced, the tree it comes from is printed in the same way: as the same tokens, and to the
same fault behind them if there is one. -/
theorem print_normal (n : Node) (s : Trace.State) (h : n.isTraced s = false) :
    (∀ m, n.normal.Contains m → m.IsNormal) ∧ n.normal.print s = n.print s ∧
      n.print s = ⟨s,[],n.normal.script.output⟩ := by
  have hnormal : n.normal.isTraced s = false := by
    rw [isTraced,hasPhase_normal]
    exact h
  have hgiven := print_of_not_traced h
  rw [← n.output_normal] at hgiven
  exact ⟨n.normal_isNormal,(print_of_not_traced hnormal).trans hgiven.symm,hgiven⟩

/-- `<(), n, 'static>` with a moved argument in it. -/
theorem print_normal_angle :
    (args (.angle false [.ty (.unit none),.moved,.value (.name none (.plain (.mk false
      [.mk "n" .none]))),.lifetime .static])).isTraced .fresh = false ∧
    (args (.angle false [.lifetime .static,.ty (.tuple none []),.value (.block none .bare true
      [.name none (.plain (.mk false [.mk "n" .none]))])])).print .fresh =
    (args (.angle false [.ty (.unit none),.moved,.value (.name none (.plain (.mk false
      [.mk "n" .none]))),.lifetime .static])).print .fresh := by
  have h : (args (.angle false [.ty (.unit none),.moved,.value (.name none (.plain (.mk false
      [.mk "n" .none]))),.lifetime .static])).isTraced .fresh = false := rfl
  exact ⟨h,(print_normal _ _ h).2.1⟩

end Node

end Turbofish
