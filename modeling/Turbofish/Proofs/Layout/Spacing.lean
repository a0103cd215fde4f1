import Turbofish.Proofs.Brackets.Operators
import Turbofish.Proofs.Layout.Append
import Turbofish.Proofs.Leading
import Turbofish.Proofs.Script.Parts

/-!
# Spaces around operators and inside of brackets

An operator has a space on both sides, and a bracket has none on its inner side. The two
rules do not meet: where no path is empty, both operands write something, the left one does
not end with an opening bracket, and the right one does not start with a closing one.
-/
namespace Turbofish

namespace Token

/-! ## Two neighbours on a line -/

theorem gap_of_isOpener {t : Token} (h : t.isOpener = true) (u : Token) : gap t u = [] := by
  unfold gap apart
  rw [h,Bool.or_true]
  rfl

theorem gap_of_isCloser {u : Token} (h : u.isCloser = true) (t : Token) : gap t u = [] := by
  unfold gap apart
  rw [h,Bool.true_or]
  rfl

theorem layout_opener {t : Token} (h : t.isOpener = true) (ts us : List Token) :
    layout (ts ++ t :: us) = layout (ts ++ [t]) ++ layout us := by
  cases us with
  | nil => rw [layout,List.append_nil]
  | cons u us => rw [layout_append,gap_of_isOpener h,List.append_nil]

theorem layout_closer {t : Token} (h : t.isCloser = true) (ts us : List Token) :
    layout (ts ++ t :: us) = layout ts ++ layout (t :: us) := by
  cases hlast : ts.getLast? with
  | none =>
      rw [List.getLast?_eq_none_iff.mp hlast]
      rfl
  | some l =>
      obtain ⟨start,rfl⟩ := List.getLast?_eq_some_iff.mp hlast
      rw [List.append_assoc,List.singleton_append,layout_append,gap_of_isCloser h,List.append_nil]

/-- A space stands on either side of an operator, unless that is the inner side of a bracket. -/
theorem gap_of_operator {t u : Token} (h : t.cls = .operator ∨ u.cls = .operator)
    (ht : t.isOpener = false) (hu : u.isCloser = false) : gap t u = Text.ofString " " := by
  have hapart : apart t u = true := by
    rcases h with h | h <;> simp [apart,ht,hu,isInfix,h]
  unfold gap
  rw [hapart]
  rfl

/-- An operator is no symbol, whatever its text is. -/
theorem not_isSymbolOf {t : Token} (h : t.cls = .operator) (texts : List Text) :
    t.isSymbolOf texts = false := by
  unfold isSymbolOf
  rw [h]
  rfl

/-! ## Operators among other tokens -/

/-- An operator that is written behind a token that opens no bracket, and in front of one in
front of which everything is written. -/
structure Flanked (before : List Token) (op : Token) (after : List Token) : Prop where
  written : op.isSeparator = false
  left : ∃ l ∈ before.getLast?, l.isOpener = false
  right : ∃ r ∈ after.head?, r.replacesSeparator = false

def Infixed (ts : List Token) : Prop :=
  ∀ before op after, ts = before ++ op :: after → op.cls = .operator → Flanked before op after

section

variable {before after ts us : List Token} {op : Token}

theorem Flanked.behind (h : Flanked before op after) (ts : List Token) :
    Flanked (ts ++ before) op after where
  written := h.written
  left := by
    obtain ⟨l,hl,hopener⟩ := h.left
    refine ⟨l,?_,hopener⟩
    rw [List.getLast?_append,hl]
    rfl
  right := h.right

theorem Flanked.inFront (h : Flanked before op after) (us : List Token) :
    Flanked before op (after ++ us) where
  written := h.written
  left := h.left
  right := by
    obtain ⟨r,hr,hreplaces⟩ := h.right
    refine ⟨r,?_,hreplaces⟩
    rw [List.head?_append,hr]
    rfl

theorem Infixed.of_cls (h : ∀ t ∈ ts, t.cls ≠ .operator) : Infixed ts := by
  rintro before op after rfl hop
  exact absurd hop (h op (List.mem_append_right _ (List.mem_cons_self ..)))

theorem Infixed.append (hts : Infixed ts) (hus : Infixed us) : Infixed (ts ++ us) := by
  intro before op after h hop
  rcases List.append_eq_append_iff.mp h with ⟨a,rfl,hright⟩ | ⟨a,hleft,hright⟩
  · exact (hus a op after hright hop).behind ts
  · cases a with
    | nil =>
        -- The operator is the first token of the second list.
        have hflanked := hus [] op after hright.symm hop
        obtain ⟨l,hl,-⟩ := hflanked.left
        cases hl
    | cons t a =>
        obtain ⟨rfl,rfl⟩ := List.cons.inj hright
        exact (hts before op a hleft hop).inFront us

/-- An operator between two operands. -/
theorem Infixed.operation (hts : Infixed ts) (hus : Infixed us) (h : Flanked ts op us) :
    Infixed (ts ++ op :: us) := by
  intro before other after hsplit hother
  rcases List.append_eq_append_iff.mp hsplit with ⟨a,rfl,hright⟩ | ⟨a,rfl,hright⟩
  · cases a with
    | nil =>
        obtain ⟨rfl,rfl⟩ := List.cons.inj hright
        rw [List.append_nil]
        exact h
    | cons t a =>
        obtain ⟨rfl,rfl⟩ := List.cons.inj hright
        rw [List.append_cons]
        exact (hus a other after rfl hother).behind _
  · cases a with
    | nil =>
        obtain ⟨rfl,rfl⟩ := List.cons.inj hright
        rw [List.append_nil] at h
        exact h
    | cons t a =>
        obtain ⟨rfl,rfl⟩ := List.cons.inj hright
        exact (hts before other a rfl hother).inFront (op :: us)

/-- What is written in front of an operator ends with the token right there, a separator too. -/
theorem exists_kept (before : List Token) {l : Token} (hwritten : op.isSeparator = false)
    (hop : op.cls = .operator) : ∃ left, kept (before ++ [l,op]) = left ++ [l,op] := by
  have hreplaces : op.replacesSeparator = false := by
    unfold replacesSeparator isCloser
    rw [hwritten,not_isSymbolOf hop,not_isSymbolOf hop]
    rfl
  have hboth : kept [l,op] = [l,op] := by
    rw [kept_cons_of_not_replaced hreplaces,kept_cons_of_not_separator hwritten]
    rfl
  obtain ⟨left,hleft⟩ := kept_suffix_append before [l,op]
  rw [hboth] at hleft
  exact ⟨left,hleft.symm⟩

/-- Both neighbours of an operator are written, and a space between each of them and it. -/
theorem Flanked.render (h : Flanked before op after) (hop : op.cls = .operator) :
    ∃ left l r right, kept (before ++ [op]) = left ++ [l,op] ∧ kept after = r :: right ∧
      kept (before ++ op :: after) = left ++ l :: op :: r :: right ∧
      Token.render (before ++ op :: after) =
        layout (left ++ [l]) ++ Text.ofString " " ++ op.text ++ Text.ofString " " ++
          layout (r :: right) := by
  obtain ⟨l,hl,hopener⟩ := h.left
  obtain ⟨r,hr,hreplaces⟩ := h.right
  obtain ⟨start,rfl⟩ := List.getLast?_eq_some_iff.mp hl
  obtain ⟨rest,rfl⟩ := List.head?_eq_some_iff.mp hr
  simp only [replacesSeparator,Bool.or_eq_false_iff] at hreplaces
  obtain ⟨⟨hseparator,hcloser⟩,-⟩ := hreplaces
  obtain ⟨left,hleft⟩ := exists_kept start (l := l) h.written hop
  have hright : kept (r :: rest) = r :: kept rest := kept_cons_of_not_separator hseparator rest
  have hlast : ∀ t ∈ (start ++ [l,op]).getLast?, t.isSeparator = false := by
    rw [List.getLast?_append]
    exact fun t ht => Option.some.inj ht ▸ h.written
  have hsplit : start ++ [l] ++ op :: r :: rest = start ++ [l,op] ++ r :: rest := by
    simp only [List.append_assoc,List.cons_append,List.nil_append]
  have hkept : kept (start ++ [l] ++ op :: r :: rest) = left ++ l :: op :: r :: kept rest := by
    rw [hsplit,kept_append (.inl hlast),hleft,hright]
    simp only [List.append_assoc,List.cons_append,List.nil_append]
  refine ⟨left,l,r,kept rest,?_,hright,hkept,?_⟩
  · rw [List.append_assoc]
    exact hleft
  · have hbehind : op.isCloser = false := not_isSymbolOf hop _
    have hinFront : op.isOpener = false := not_isSymbolOf hop _
    unfold Token.render
    rw [hkept,layout_append,gap_of_operator (.inr hop) hopener hbehind,layout,
      gap_of_operator (.inl hop) hinFront hcloser]
    simp only [List.append_assoc]

end

end Token

/-! ## Operators in what is printed -/

/-- Every operator that a script writes stands between two operands. -/
def Script.Infixed (s : Script) : Prop := s.Complete → Token.Infixed s.output.items

theorem Script.Infixed.additive : Additive Infixed where
  done _ := .of_cls (List.forall_mem_nil _)
  append {r s} hr hs hc := by
    obtain ⟨hrc,hsc⟩ := complete_append_iff.mp hc
    rw [output_append,Output.append_of_complete hrc]
    exact (hr hrc).append (hs hsc)

theorem Script.Infixed.of_output_eq {r s : Script} (h : r.output = s.output) (hr : r.Infixed) :
    s.Infixed := by
  intro hc
  unfold Complete at hc
  rw [← h] at hc ⊢
  exact hr hc

theorem Script.Infixed.call {c : Buffer.Call} (hc : c.isOperator = false) :
    (Script.call c).Infixed := by
  intro hcomplete
  unfold Script.call at hcomplete ⊢
  cases ht : c.token with
  | ok t => exact .of_cls (List.forall_mem_singleton.mpr (Buffer.Call.cls_ne_operator hc ht))
  | error f =>
      rw [ht] at hcomplete
      exact absurd hcomplete (not_complete_fail f)

theorem Script.Infixed.compositional : Compositional Infixed :=
  .of_output additive of_output_eq (fun f hc => absurd hc (not_complete_fail f)) fun _ => .call

/-- In a tree without empty paths, an operand begins with a token of its own. -/
theorem Expr.operandScript_begins {e : Expr} (hm : e.isMissing = false)
    (hc : e.operandScript.Complete) (hne : ∀ k, (Node.expr e).Contains k → k.isEmptyPath = false) :
    e.operandScript.Begins := by
  refine Script.Begins.parenthesizedIf fun _ => Node.begins_of_traced ?_
  have htraced : (Node.expr e).script.Complete :=
    (Script.complete_scope_iff _).mpr (Script.complete_parenthesizedIf_iff.mp hc)
  exact Node.begins _ htraced hne (congrArg Bool.not hm)

namespace Node

/-- The last token of the left operand and the first one of the right operand are next to the
operator. -/
theorem infixed_binary {s : Span} {op : BinaryOp} {l r : Expr} (hl : (expr l).script.Infixed)
    (hr : (expr r).script.Infixed)
    (hne : ∀ m ∈ (expr (.binary s op l r)).parts, ∀ k, m.Contains k → k.isEmptyPath = false) :
    (Expr.binary s op l r).script.Infixed := by
  intro hc
  obtain ⟨hlc,hrc,text,-,hitems⟩ := Expr.binary_items hc
  have hmalformed := ((complete_iff (expr (.binary s op l r))).mp
    ((Script.complete_scope_iff _).mpr hc)).1
  simp only [isMalformed,Expr.isMalformed,Bool.or_eq_false_iff] at hmalformed
  obtain ⟨⟨-,hlm⟩,hrm⟩ := hmalformed
  have hoperand {e : Expr} (h : (expr e).script.Infixed) : e.operandScript.Infixed :=
    Script.Infixed.compositional.parenthesizedIf _ (Script.Infixed.compositional.unscope h)
  obtain ⟨first,front,hfront,-⟩ := Expr.operandScript_begins hlm hlc
    (hne (expr l) (List.mem_cons_self ..))
  obtain ⟨next,rest,hrest,hnext⟩ := Expr.operandScript_begins hrm hrc
    (hne (expr r) (List.mem_cons_of_mem _ (List.mem_singleton_self _)))
  have hlast := (Script.Plain.nested l.operandScript_plain hlc).isOpener_last
  rw [hitems]
  refine (hoperand hl hlc).operation (hoperand hr hrc) ⟨rfl,?_,next,by rw [hrest]; rfl,hnext⟩
  rw [hfront] at hlast ⊢
  exact ⟨_,List.getLast?_cons,hlast _ List.getLast?_cons⟩

/-- In a tree without empty paths, every operator that is printed stands between two operands. -/
theorem infixed (n : Node) (hne : ∀ k, n.Contains k → k.isEmptyPath = false) :
    n.script.Infixed := by
  induction n using parts_induction with
  | h n ih =>
      have hempty : ∀ m ∈ n.parts, ∀ k, m.Contains k → k.isEmptyPath = false :=
        fun m hm k hk => hne k (.head hm hk)
      have hparts : ∀ m ∈ n.parts, m.script.Infixed := fun m hm => ih m hm (hempty m hm)
      by_cases hbinary : ∀ e, n = expr e → e.isBinary = false
      · exact Script.Infixed.compositional.of_parts hbinary fun m hm =>
          hparts m (mem_parts_of_printed hm)
      · simp only [Classical.not_forall,Bool.not_eq_false] at hbinary
        obtain ⟨e,rfl,he⟩ := hbinary
        cases e with
        | binary s op l r =>
            have hl := hparts (expr l) (List.mem_cons_self ..)
            have hr := hparts (expr r) (List.mem_cons_of_mem _ (List.mem_singleton_self _))
            exact Script.Infixed.compositional.scope (.expr ..) (infixed_binary hl hr hempty)
        | _ => cases he

/-- Whatever tree without empty paths is printed to the end, an operator has a token that is
written on either side, and one space between it and each of them; and whatever tokens are
rendered, no space is written behind an opening bracket or in front of a closing one. -/
theorem operators_spaced :
    (∀ (n : Node) (s : Trace.State), (n.print s).output.fault = none →
      (∀ k, n.Contains k → k.isEmptyPath = false) →
      ∀ before op after, (n.print s).output.items = before ++ op :: after → op.cls = .operator →
        ∃ left l r right, Token.kept (before ++ [op]) = left ++ [l,op] ∧
          Token.kept after = r :: right ∧
          Token.kept (n.print s).output.items = left ++ l :: op :: r :: right ∧
          Token.render (n.print s).output.items =
            Token.layout (left ++ [l]) ++ Text.ofString " " ++ op.text ++ Text.ofString " " ++
              Token.layout (r :: right)) ∧
      ∀ tokens before t after, Token.kept tokens = before ++ t :: after →
        (t.isOpener = true →
          Token.render tokens = Token.layout (before ++ [t]) ++ Token.layout after) ∧
        (t.isCloser = true →
          Token.render tokens = Token.layout before ++ Token.layout (t :: after)) := by
  constructor
  · intro n s hf hne before op after hitems hop
    have hc := (print_complete_iff n s).mp hf
    rw [print_output_of_complete hf] at hitems ⊢
    rw [hitems]
    exact (n.infixed hne hc before op after hitems hop).render hop
  · intro tokens before t after hkept
    unfold Token.render
    rw [hkept]
    exact ⟨fun h => Token.layout_opener h before after,fun h => Token.layout_closer h before after⟩

/-- `1 < <_>::n`: the operator stands apart from the bracket behind it. -/
theorem operators_spaced_angle :
    ((expr (.binary none .lt (.int none 1 .unsuffixed)
        (.name none (.qualified (.infer none) 0 (.mk false [.mk "n" .none]))))).print
          .fresh).output.fault = none ∧
      (∀ k, (expr (.binary none .lt (.int none 1 .unsuffixed)
        (.name none (.qualified (.infer none) 0 (.mk false [.mk "n" .none]))))).Contains k →
          k.isEmptyPath = false) ∧
      ∃ left l r right, Token.render ((expr (.binary none .lt (.int none 1 .unsuffixed)
        (.name none (.qualified (.infer none) 0 (.mk false [.mk "n" .none]))))).print
          .fresh).output.items =
            Token.layout (left ++ [l]) ++ Text.ofString " " ++ Text.ofString "<" ++
              Text.ofString " " ++ Token.layout (r :: right) ∧
        left = [] ∧ l = .literal "1" ∧ r = .sym "<" := by
  have hf : ((expr (.binary none .lt (.int none 1 .unsuffixed)
      (.name none (.qualified (.infer none) 0 (.mk false [.mk "n" .none]))))).print
        .fresh).output.fault = none := by decide
  have hleaf (n : Node) (hparts : n.parts = []) (hn : n.isEmptyPath = false) :
      ∀ k, n.Contains k → k.isEmptyPath = false :=
    (forall_contains_iff n).mpr ⟨hn,by rw [hparts]; exact List.forall_mem_nil _⟩
  have hsegment : ∀ k, (segment (.mk "n" .none)).Contains k → k.isEmptyPath = false :=
    (forall_contains_iff _).mpr ⟨rfl,List.forall_mem_singleton.mpr (hleaf (args .none) rfl rfl)⟩
  have hpath : ∀ k, (qpath (.qualified (.infer none) 0 (.mk false [.mk "n" .none]))).Contains k →
      k.isEmptyPath = false :=
    (forall_contains_iff _).mpr ⟨rfl,List.forall_mem_cons.mpr
      ⟨hleaf (ty (.infer none)) rfl rfl,List.forall_mem_singleton.mpr hsegment⟩⟩
  have hname : ∀ k, (expr (.name none (.qualified (.infer none) 0
      (.mk false [.mk "n" .none])))).Contains k → k.isEmptyPath = false :=
    (forall_contains_iff _).mpr ⟨rfl,List.forall_mem_singleton.mpr hpath⟩
  have hne : ∀ k, (expr (.binary none .lt (.int none 1 .unsuffixed)
      (.name none (.qualified (.infer none) 0 (.mk false [.mk "n" .none]))))).Contains k →
        k.isEmptyPath = false :=
    (forall_contains_iff _).mpr ⟨rfl,List.forall_mem_cons.mpr
      ⟨hleaf (expr (.int none 1 .unsuffixed)) rfl rfl,List.forall_mem_singleton.mpr hname⟩⟩
  obtain ⟨left,l,r,right,hleft,hright,-,hrender⟩ := operators_spaced.1 _ _ hf hne
    [.literal "1"] (.operator "<") [.sym "<",.keyword "_",.sym ">",.sym "::",.keyword "n"]
    (by decide) rfl
  have hbefore : ([] : List Token) ++ [.literal "1",.operator "<"] = left ++ [l,.operator "<"] :=
    hleft
  obtain ⟨hnil,hlast⟩ := List.append_inj' hbefore rfl
  refine ⟨hf,hne,left,l,r,right,hrender,hnil.symm,(List.cons.inj hlast).1.symm,?_⟩
  exact (List.cons.inj hright).1.symm

end Node

end Turbofish
