import Mathlib.Data.List.TakeWhile
import Turbofish.Proofs.Lexing.Legible
import Turbofish.Proofs.Malformed

/-!
# Printed lines are cut into the lexemes of their tokens

Where every name in a tree is made of letters, digits and `_`, all that the tree prints is
legible. What no closing angle bracket may follow is a negation or a difference whose last
operand writes nothing, and as an argument in angle brackets neither stands without braces.
-/
namespace Turbofish

/-! ## Plain names -/

/-- One or more letters, digits and `_`. -/
def Text.isPlainName (n : Text) : Bool :=
  !n.isEmpty && n.all fun b => Token.startsWord b || Text.isDigit b

/-- The names of the static and the inferred lifetime are plain as well. -/
def Lifetime.isPlain : Lifetime → Bool
  | named n => n.isPlainName
  | infer | unspecified | static => true

/-- Whether the names in the node itself are plain. The lifetime of a borrow, which is no part
of it, counts as its own. -/
def Node.hasPlainNames : Node → Bool
  | lifetime l => l.isPlain
  | ty (.borrow _ l _ _) => l.isPlain
  | segment (.mk n _) => n.isPlainName
  | arg (.binding n _) => n.isPlainName
  | arg (.constraint n _) => n.isPlainName
  | _ => true

theorem Text.isPlainName_iff {n : Text} : n.isPlainName = true ↔
    n ≠ [] ∧ ∀ b ∈ n, (Token.startsWord b || Text.isDigit b) = true := by
  rw [isPlainName,Bool.and_eq_true_iff,Bool.not_eq_true',List.isEmpty_eq_false_iff,
    List.all_eq_true]

theorem Text.all_of_isPlainName {n : Text} (h : n.isPlainName = true) :
    n.all isWordByte = true := by
  refine List.all_eq_true.mpr fun b hb => ?_
  rw [isWordByte,(isPlainName_iff.mp h).2 b hb]
  rfl

theorem Text.beforeNul_of_isPlainName {n : Text} (h : n.isPlainName = true) : n.beforeNul = n := by
  have hall : ∀ b ∈ n, (b != 0) = true := by
    intro b hb
    refine bne_iff_ne.mpr fun hzero => ?_
    have hword := (isPlainName_iff.mp h).2 b hb
    rw [hzero] at hword
    exact absurd hword (by decide)
  exact List.takeWhile_eq_self_iff.mpr hall

theorem Text.isWord_ofNat (n : Nat) : (ofNat n).isWord = true := by
  refine isWord_iff.mpr ⟨fun h => Nat.toDigits_ne_nil (List.map_eq_nil_iff.mp h),?_⟩
  refine List.forall_mem_map.mpr fun d hd => ?_
  have hdigit : d.isDigit = true := Nat.isDigit_of_mem_toDigits (by decide) (by decide) hd
  rw [isWordByte,(isDigit_toUInt8 hdigit).1,Bool.or_true]
  rfl

/-- A number with the name of its type is one word. -/
theorem CoreType.isWord_literal (c : CoreType) (value : Nat) :
    (Text.ofNat value ++ c.name).isWord = true := by
  refine Text.isWord_append (Text.isWord_ofNat value) ?_
  cases c with
  | unassigned extra => exact (by decide : (Text.ofString "NFI").all Text.isWordByte = true)
  | _ => decide

namespace Script.Closable

theorem ident {n : Text} (h : n.isPlainName = true) : (ident n).Closable := by
  have hne := (Text.isPlainName_iff.mp h).1
  have hall := Text.all_of_isPlainName h
  unfold Script.ident Token.ident
  rw [Text.beforeNul_of_isPlainName h]
  split
  · exact .fail _
  · split
    · exact keyword (Text.isWord_append (by decide) hall)
    · exact keyword (Text.isWord_iff.mpr ⟨hne,List.all_eq_true.mp hall⟩)

theorem lifetimeScript {l : Lifetime} (h : l.isPlain = true) : l.script.Closable := by
  have hname : l.name.all Text.isWordByte = true := by
    cases l with
    | named n => exact Text.all_of_isPlainName h
    | _ => decide
  unfold Lifetime.script
  split
  · exact word rfl (Text.isWord_append (t := [0x27]) (by decide) hname)
  · exact .fail _

theorem bindersScript {ls : List Lifetime} (h : ∀ l ∈ ls, l.script.Closable) :
    (Lifetime.bindersScript ls).Closable := by
  have hlist : (separated "," (ls.map Lifetime.script)).Closable :=
    additive.separated (separator (by decide)) (List.forall_mem_map.mpr h)
  have hfor : (Script.keyword "for").Closable := keyword (by decide)
  have hbinders := hfor.append hlist.angle
  refine additive.onlyIf fun _ => ?_
  rw [append_assoc,append_assoc]
  rw [append_assoc] at hbinders
  exact hbinders

theorem bounds {bs : List Bound} (h : ∀ b ∈ bs, b.script.Closable) :
    (separated "+" (Bound.scripts bs)).Closable :=
  additive.separated (separator (by decide)) (scripts_bound h)

end Script.Closable

namespace Node

open Script (Legible Closable Writes scripts_ty scripts_segment scripts_arg)
open Script.Closable

/-- An expression may end with a minus sign unless it delimits itself. -/
def IsLegible : Node → Prop
  | expr e => e.script.Legible ∧ (e.isSelfDelimiting = true → e.script.Closable)
  | n => n.script.Closable

def PartsLegible (n : Node) : Prop := ∀ m ∈ n.parts, m.IsLegible

/-! ## One node -/

theorem legible_ty {t : Ty} (hn : (ty t).hasPlainNames = true) (h : (ty t).PartsLegible) :
    t.script.Closable := by
  cases t with
  | moved s => exact Writes.fail _
  | invalid s => exact Writes.fail _
  | infer s => exact keyword (by decide)
  | never s => exact sym (by decide)
  | unit s => exact Legible.additive.done.between (b := .round) (by decide)
  | tuple s ts =>
      have hts : ∀ t ∈ ts, t.script.Closable := fun t ht => h (ty t) (List.mem_map_of_mem ht)
      have hitems := additive.items (sym (by decide)) (separator (by decide)) (scripts_ty hts)
      exact hitems.legible.between (b := .round) (by decide)
  | borrow s l m t =>
      have ht : t.script.Closable := h (ty t) (List.mem_singleton_self _)
      have hl : (Script.onlyIf l.isSpecified l.script).Closable :=
        additive.onlyIf fun _ => lifetimeScript hn
      have hm : (Script.onlyIf m (Script.keyword "mut")).Closable :=
        additive.onlyIf fun _ => keyword (by decide)
      exact (((sym (by decide)).append hl).append hm).append ht.parenthesizedIf
  | pointer s m t =>
      have ht : t.script.Closable := h (ty t) (List.mem_singleton_self _)
      have hm : (Script.keyword (if m then "mut" else "const")).Closable := by
        cases m <;> exact keyword (by decide)
      exact ((sym (by decide)).append hm).append ht.parenthesizedIf
  | array s t n =>
      have ht : t.script.Closable := h (ty t) (List.mem_cons_self ..)
      have hn : (expr n).IsLegible :=
        h (expr n) (List.mem_cons_of_mem _ (List.mem_singleton_self _))
      have hlength : (Script.onlyIf (!n.isMissing) (Script.sym ";" ++ n.tracedScript)).Legible :=
        Legible.additive.onlyIf fun _ => (sym (by decide)).legible.append (hn.1.scope _)
      have hinside := (ht.legible.append hlength).between (b := .square) (by decide)
      rw [← Script.append_assoc] at hinside
      exact hinside
  | path s p => exact h (qpath p) (List.mem_singleton_self _)
  | traitObject s bs =>
      have hbs := bounds fun b hb => h (bound b) (List.mem_map_of_mem hb)
      exact (keyword (by decide)).append hbs
  | erased s bs =>
      have hbs := bounds fun b hb => h (bound b) (List.mem_map_of_mem hb)
      exact (keyword (by decide)).append hbs

theorem legible_bound {b : Bound} (h : (bound b).PartsLegible) : b.script.Closable := by
  cases b with
  | moved => exact Writes.fail _
  | empty => exact Writes.fail _
  | lifetime l => exact h (lifetime l) (List.mem_singleton_self _)
  | trait ls p =>
      obtain ⟨hls,hp⟩ := List.forall_mem_append.mp h
      have hp : p.script.Closable := hp (path p) (List.mem_singleton_self _)
      have hbinders := bindersScript fun l hl => hls (lifetime l) (List.mem_map_of_mem hl)
      exact hbinders.append hp
  | maybe p =>
      have hp : p.script.Closable := h (path p) (List.mem_singleton_self _)
      exact (sym (by decide)).append hp

theorem legible_path {p : Path} (h : (path p).PartsLegible) : p.script.Closable := by
  obtain ⟨r,ss⟩ := p
  have hss : ∀ s ∈ ss, s.script.Closable := fun s hs => h (segment s) (List.mem_map_of_mem hs)
  exact (additive.segments (sym (by decide)) (scripts_segment hss)).scope _

theorem legible_qpath {p : QPath} (h : (qpath p).PartsLegible) : p.script.Closable := by
  cases p with
  | plain p => exact h (path p) (List.mem_singleton_self _)
  | qualified t n p =>
      obtain ⟨r,ss⟩ := p
      obtain ⟨ht,hss⟩ := List.forall_mem_cons.mp h
      have hss : ∀ s ∈ ss, s.script.Closable := fun s hs => hss (segment s) (List.mem_map_of_mem hs)
      exact (additive.qualified additive id angle remark (keyword (by decide)) (sym (by decide)) ht
        n r (scripts_segment hss)).scope _

theorem legible_args {as : Args} (h : (args as).PartsLegible) : as.script.Closable := by
  cases as with
  | moved => exact Writes.fail _
  | none => exact additive.done
  | angle r as =>
      have has : ∀ a ∈ as, a.script.Closable := fun a ha => h (arg a) (List.mem_map_of_mem ha)
      have hgroup (group : ArgGroup) : (Script.separated "," (Arg.scripts group as)).Closable :=
        additive.separated (separator (by decide)) (scripts_arg has group)
      have hgroups := ((hgroup .lifetimes).append (hgroup .values)).append (hgroup .associated)
      have hroot : (Script.onlyIf r (Script.sym "::")).Closable :=
        additive.onlyIf fun _ => sym (by decide)
      have hlist := hroot.append hgroups.angle
      refine Writes.scope ?_ _
      simp only [Script.append_assoc] at hlist ⊢
      exact hlist
  | parenthesized ts o =>
      obtain ⟨hts,ho⟩ := List.forall_mem_append.mp h
      have hts : ∀ t ∈ ts, t.script.Closable := fun t ht => hts (ty t) (List.mem_map_of_mem ht)
      have hinputs : (Script.separated "," (Ty.scripts ts)).Closable :=
        additive.separated (separator (by decide)) (scripts_ty hts)
      refine (hinputs.legible.between (b := .round) (by decide)).append ?_
      cases o with
      | none => exact additive.done
      | some t =>
          have ht : t.script.Closable := ho (ty t) (List.mem_singleton_self _)
          exact (sym (by decide)).append ht.parenthesizedIf

theorem legible_arg {a : Arg} (hn : (arg a).hasPlainNames = true) (h : (arg a).PartsLegible) :
    a.script.Closable := by
  cases a with
  | moved => exact Writes.fail _
  | lifetime l => exact h (lifetime l) (List.mem_singleton_self _)
  | ty t => exact h (ty t) (List.mem_singleton_self _)
  | value e =>
      obtain ⟨he,hdelimited⟩ : (expr e).IsLegible := h (expr e) (List.mem_singleton_self _)
      cases hm : e.isMissing with
      | true =>
          rw [Arg.script_missing hm]
          exact Writes.fail _
      | false =>
          rw [Arg.script_value hm]
          split
          · exact hdelimited ‹_›
          · exact Legible.between (b := .curly) (he.scope _) (by decide)
  | binding n t =>
      have ht : t.script.Closable := h (ty t) (List.mem_singleton_self _)
      exact ((ident hn).append (sym (by decide))).append ht
  | constraint n bs =>
      have hbs := bounds fun b hb => h (bound b) (List.mem_map_of_mem hb)
      exact (((ident hn).append (sym (by decide))).append hbs).scope _

theorem isLegible_of_closable {e : Expr} (h : e.script.Closable) : (expr e).IsLegible :=
  ⟨h.legible,fun _ => h⟩

theorem legible_operator (op : BinaryOp) : op.script.Legible := by
  have hmem : ∀ t, op.text? = some t → t ∈ Token.operators := by
    intro t ht
    refine List.mem_filterMap.mpr ⟨op,?_,ht⟩
    cases op with
    | unassigned extra => cases ht
    | _ => decide
  unfold BinaryOp.script BinaryOp.text
  cases hop : op.text? with
  | none => exact Writes.fail _
  | some t => exact fun _ => .of_token (.operator (hmem t hop)) nofun

theorem legible_statements (s : Span) {es : List Expr} (h : ∀ e ∈ es, e.script.Legible) :
    ∀ r ∈ Expr.statementScripts s es, r.Legible := by
  rw [Expr.statementScripts_eq_map_ite]
  refine List.forall_mem_map.mpr fun e he => ?_
  split
  · exact Writes.fail _
  · exact (h e he).scope _

theorem legible_callArgs (s : Span) {es : List Expr} (h : ∀ e ∈ es, e.script.Legible) :
    ∀ r ∈ Expr.argScripts s es, r.Legible := by
  rw [Expr.argScripts_eq_map_ite]
  refine List.forall_mem_map.mpr fun e he => ?_
  split
  · exact Writes.fail _
  · exact h e he

theorem legible_expr {e : Expr} (h : (expr e).PartsLegible) : (expr e).IsLegible := by
  cases e with
  | missing => exact isLegible_of_closable additive.done
  | block s k y es =>
      have hes : ∀ e ∈ es, e.script.Legible := fun e he => (h (expr e) (List.mem_map_of_mem he)).1
      have hkind : k.script.Closable := by
        cases k with
        | unsafeBlock | constBlock => exact keyword (by decide)
        | bare | unassigned _ _ => exact additive.done
      have hstatements : (Script.statements y (Expr.statementScripts s es)).Legible :=
        Legible.additive.statements (sym (by decide)).legible (legible_statements s hes)
      have hblock := hkind.append (hstatements.between (b := .curly) (by decide))
      rw [← Script.append_assoc,← Script.append_assoc] at hblock
      exact isLegible_of_closable hblock
  | call s p es =>
      obtain ⟨hp,hes⟩ := List.forall_mem_cons.mp h
      have hp : p.script.Closable := hp
      have hes : ∀ e ∈ es, e.script.Legible := fun e he => (hes (expr e) (List.mem_map_of_mem he)).1
      have hargs : (Script.separated "," (Expr.argScripts s es)).Legible :=
        Legible.additive.separated (separator (by decide)).legible (legible_callArgs s hes)
      have hcall := hp.append (hargs.between (b := .round) (by decide))
      rw [← Script.append_assoc,← Script.append_assoc] at hcall
      exact isLegible_of_closable hcall
  | int s n c =>
      have hname : c.script.Closable := by
        cases c with
        | unassigned _ => exact remark _
        | _ => exact additive.done
      exact isLegible_of_closable (hname.append (word rfl (c.isWord_literal n.toNat)))
  | bool s b => exact isLegible_of_closable (keyword (by cases b <;> decide))
  | str s t => exact isLegible_of_closable (string t)
  | name s p =>
      have hp : p.script.Closable := h (qpath p) (List.mem_singleton_self _)
      exact isLegible_of_closable hp
  | binary s op l r =>
      have hl : l.script.Legible := (h (expr l) (List.mem_cons_self ..)).1
      have hr : r.script.Legible :=
        (h (expr r) (List.mem_cons_of_mem _ (List.mem_singleton_self _))).1
      refine ⟨?_,fun hdelimited => absurd hdelimited Bool.false_ne_true⟩
      rw [Expr.script]
      split
      · exact Writes.fail _
      · exact (hl.parenthesizedIf.append (legible_operator op)).append hr.parenthesizedIf
  | unary s op e =>
      have he : e.script.Legible := (h (expr e) (List.mem_singleton_self _)).1
      have hop : op.script.Legible := by
        cases op with
        | invert => exact (sym (by decide)).legible
        | negate => exact fun _ => .of_token (.symbol (by decide)) (by decide)
      refine ⟨?_,fun hdelimited => absurd hdelimited Bool.false_ne_true⟩
      rw [Expr.script]
      split
      · exact Writes.fail _
      · exact hop.append he.parenthesizedIf

/-! ## Whole trees -/

/-- All that is printed of a tree with plain names is legible. -/
theorem isLegible (n : Node) (hn : ∀ m, n.Contains m → m.hasPlainNames = true) : n.IsLegible := by
  induction n using parts_induction with
  | h n ih =>
      have hparts : n.PartsLegible := fun m hm => ih m hm fun k hk => hn k (.head hm hk)
      have hown := hn n .refl
      cases n with
      | lifetime l => exact lifetimeScript hown
      | ty t => exact legible_ty hown hparts
      | path p => exact legible_path hparts
      | qpath p => exact legible_qpath hparts
      | segment s =>
          obtain ⟨n,as⟩ := s
          have has : as.script.Closable := hparts (args as) (List.mem_singleton_self _)
          exact (ident hown).append has
      | args as => exact legible_args hparts
      | arg a => exact legible_arg hown hparts
      | bound b => exact legible_bound hparts
      | expr e => exact legible_expr hparts

theorem script_legible {n : Node} (h : n.IsLegible) : n.script.Legible := by
  cases n with
  | expr e => exact h.1.scope _
  | _ => exact Script.Closable.legible h

/-- Where every name in a tree is plain, the text that is printed of it is cut into the
lexemes of the tokens that are written, one token after the other. -/
theorem print_lexemes {n : Node} {s : Trace.State} {text : Text} (h : (n.print s).text = .ok text)
    (hn : ∀ m, n.Contains m → m.hasPlainNames = true) :
    text.lexemes = (Token.kept (n.print s).output.items).flatMap fun t => t.text.lexemes := by
  obtain ⟨hf,rfl⟩ := (Script.Run.text_eq_ok_iff _ _).mp h
  have houtput := print_output_of_complete hf
  have hc := (print_complete_iff n s).mp hf
  rw [houtput]
  exact (script_legible (n.isLegible hn) hc).lexemes_render

/-- `[&'a mut _; "\" ]"]`: the bracket and the space in the literal are no lexemes. -/
theorem print_lexemes_array :
    ((ty (.array none (.borrow none (.named "a") true (.infer none)) (.str none "\" ]"))).print
        .fresh).text = .ok "[&'a mut _; \"\\\" ]\"]" ∧
      (∀ k, (ty (.array none (.borrow none (.named "a") true (.infer none))
        (.str none "\" ]"))).Contains k → k.hasPlainNames = true) ∧
      Text.lexemes "[&'a mut _; \"\\\" ]\"]" =
        (["[","&","'a","mut","_",";","\"\\\" ]\"","]"] : List Text) := by
  have htext : ((ty (.array none (.borrow none (.named "a") true (.infer none))
      (.str none "\" ]"))).print .fresh).text = .ok "[&'a mut _; \"\\\" ]\"]" := rfl
  have hinfer : ∀ k, (ty (.infer none)).Contains k → k.hasPlainNames = true :=
    (forall_contains_iff _).mpr ⟨rfl,List.forall_mem_nil _⟩
  have hborrow : ∀ k, (ty (.borrow none (.named "a") true (.infer none))).Contains k →
      k.hasPlainNames = true :=
    (forall_contains_iff _).mpr ⟨by decide,List.forall_mem_singleton.mpr hinfer⟩
  have hstring : ∀ k, (expr (.str none "\" ]")).Contains k → k.hasPlainNames = true :=
    (forall_contains_iff _).mpr ⟨rfl,List.forall_mem_nil _⟩
  have hnames : ∀ k, (ty (.array none (.borrow none (.named "a") true (.infer none))
      (.str none "\" ]"))).Contains k → k.hasPlainNames = true :=
    (forall_contains_iff _).mpr
      ⟨rfl,List.forall_mem_cons.mpr ⟨hborrow,List.forall_mem_singleton.mpr hstring⟩⟩
  exact ⟨htext,hnames,(print_lexemes htext hnames).trans (by decide)⟩

end Node

end Turbofish
