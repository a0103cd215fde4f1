import Turbofish.Proofs.Reading.Form
import Turbofish.Proofs.Reading.Words

/-!
# First tokens

Every conforming type, bound, argument and expression writes something, and what it
starts with tells which constructor it has, up to the pairs that share their first
token: `()` and tuples, values and calls, the two kinds of literal with a token of their
own, and names of arguments and of types. No first token is a stop.
-/
namespace Turbofish

inductive Role
  | infer
  | never
  | round
  | borrow
  | pointer
  | square
  | path
  | dyn
  | impl
  | lifetime
  | binders
  | maybe
  | literal
  | truth
  | block
  | minus
  | mutable
  | other
  deriving DecidableEq, Repr

namespace Role

/-- The words that do not start a path. -/
def words : List (Text × Role) :=
  [("_", infer), ("dyn", dyn), ("impl", impl), ("for", binders), ("mut", mutable),
   ("const", block), ("unsafe", block), ("true", truth), ("false", truth)]

def symbols : List (Text × Role) :=
  [("!", never), ("(", round), ("&", borrow), ("*", pointer), ("[", square), ("::", path),
   ("<", path), ("?", maybe), ("\x7b", block), ("-", minus)]

end Role

namespace Token

/-- What a token says of the part that starts with it. -/
def role (t : Token) : Role :=
  if t.isStop then .other
  else match t.cls with
  | .lifetime => .lifetime
  | .literal => .literal
  | .word => (Role.words.lookup t.text).getD .path
  | .symbol => (Role.symbols.lookup t.text).getD .other
  | .operator => .other

theorem isStop_of_role {t : Token} (h : t.role ≠ .other) : t.isStop = false := by
  unfold role at h
  split at h
  · exact absurd rfl h
  · rename_i hs
    exact Bool.eq_false_iff.mpr hs

theorem IsName.isStop {t : Token} (h : t.IsName) : t.isStop = false := by
  have has : t ≠ keyword "as" := by
    rintro rfl
    exact h.2.2 (by decide)
  have hcontains :
      [keyword "as",sym ">",sym ")",sym "]",sym "\x7d",sym ",",sym ";"].contains t = false := by
    rw [Bool.eq_false_iff]
    intro hc
    have hm := List.contains_iff_mem.mp hc
    simp only [List.mem_cons,List.not_mem_nil,or_false,has,h.ne_sym] at hm
  unfold Token.isStop isEnd
  rw [h.1,h.2.1,hcontains]
  rfl

theorem IsName.role {t : Token} (h : t.IsName) : t.role = .path := by
  have hlookup : Role.words.lookup t.text = none := by
    rw [List.lookup_eq_none_iff]
    intro entry hentry
    refine bne_iff_ne.mpr fun he => h.2.2 ?_
    have hall : ∀ entry ∈ Role.words, entry.1 ∈ Keyword.written := by decide
    exact he ▸ hall entry hentry
  unfold Token.role
  rw [h.isStop,h.1,hlookup]
  rfl

theorem role_lifetime (n : Text) : (lifetime n).role = .lifetime := by
  have hstop : (lifetime n).isStop = false := by
    unfold isStop isEnd
    simp [lifetime,keyword,sym]
  unfold role
  rw [hstop]
  rfl

theorem role_literal (n : Text) : (literal n).role = .literal := by
  have hstop : (literal n).isStop = false := by
    unfold isStop isEnd
    simp [literal,keyword,sym]
  unfold role
  rw [hstop]
  rfl

end Token

/-! ## Paths -/

open Output

theorem Segment.output_eq {n : Text} (hn : n.IsName) (as : Args) :
    (Segment.mk n as).script.output = .cons (.ofName n) as.script.output := by
  rw [Segment.script,Script.ident,hn.ident_eq]
  rfl

theorem Segment.leads {s : Segment} (h : s.Conforming) : s.script.output.Leads Token.IsName := by
  obtain ⟨n,as⟩ := s
  rw [output_eq h.1]
  exact leads_cons h.1.isName_ofName _

theorem Script.segments_output (r : Bool) (s : Script) (ss : List Script) (p : Output Token) :
    (segments r (s :: ss)).output ++ p =
      (onlyIf r (sym "::")).output ++ (s.output ++ ((each "::" ss).output ++ p)) := by
  rw [segments,output_append,output_append,Output.append_assoc,Output.append_assoc]

theorem Path.leads {p : Path} (h : p.Conforming) :
    p.script.output.Leads fun t => t.role = .path ∧ t ≠ .sym "<" := by
  obtain ⟨r,ss⟩ := p
  obtain ⟨hne,_,hall⟩ := h
  cases ss with
  | nil => exact absurd rfl hne
  | cons s ss =>
      have hs := Segment.leads hall.1
      rw [Path.script,Script.output_scope,Script.output_done,Segment.scripts,
        Script.segments_output]
      cases r with
      | true => exact leads_cons (by decide) _
      | false =>
          rw [Script.onlyIf]
          exact (hs.append _).imp fun t ht => ⟨ht.role,ht.ne_sym _⟩

theorem QPath.leads {p : QPath} (h : p.Conforming) :
    p.script.output.Leads fun t => t.role = .path := by
  cases p with
  | plain p => exact (Path.leads h).imp fun _ ht => ht.1
  | qualified t n p =>
      obtain ⟨r,ss⟩ := p
      rw [QPath.script,Script.output_scope,Script.qualified]
      simp only [Script.output_append,Script.output_sym,cons_append,nil_append]
      exact leads_cons (by decide) _

/-! ## Types and bounds -/

def Ty.role : Ty → Role
  | .moved _ | .invalid _ => .other
  | .infer _ => .infer
  | .never _ => .never
  | .unit _ => .round
  | .tuple _ _ => .round
  | .borrow _ _ _ _ => .borrow
  | .pointer _ _ _ => .pointer
  | .array _ _ _ => .square
  | .path _ _ => .path
  | .traitObject _ _ => .dyn
  | .erased _ _ => .impl

theorem Ty.leads {t : Ty} (h : t.Conforming) :
    t.script.output.Leads fun k => k.role = t.role := by
  cases t with
  | moved _ | invalid _ => exact h.elim
  | path s p => exact QPath.leads h
  | _ =>
      rw [Ty.script]
      simp only [Script.output_append,Script.output_sym,Script.output_keyword,cons_append]
      exact leads_cons (by dsimp only [Ty.role]; decide) _

theorem Ty.role_ne_other {t : Ty} (h : t.Conforming) : t.role ≠ .other := by
  cases t with
  | moved _ | invalid _ => exact h.elim
  | _ => exact nofun

def Bound.role : Bound → Role
  | .moved | .empty => .other
  | .lifetime _ => .lifetime
  | .trait [] _ => .path
  | .trait (_ :: _) _ => .binders
  | .maybe _ => .maybe

theorem Lifetime.bindersScript_output (l : Lifetime) (ls : List Lifetime) :
    (bindersScript (l :: ls)).output = .cons (.keyword "for") (.cons (.sym "<")
      ((Script.separated "," ((l :: ls).map Lifetime.script)).output ++ .cons (.sym ">") .nil)) := by
  change (Script.keyword "for" ++ Script.sym "<" ++ _ ++ Script.sym ">").output = _
  simp only [Script.output_append,Script.output_sym,Script.output_keyword,cons_append,nil_append]

theorem Lifetime.Conforming.output_eq {l : Lifetime} (h : l.Conforming) :
    l.script.output = .cons (.lifetime l.name) .nil := by
  rw [h.script_eq]
  rfl

theorem Lifetime.leads {l : Lifetime} (h : l.Conforming) :
    l.script.output.Leads fun k => k.role = .lifetime := by
  rw [h.output_eq]
  exact leads_cons (Token.role_lifetime _) _

theorem Bound.leads {b : Bound} (h : b.Conforming) :
    b.script.output.Leads fun k => k.role = b.role := by
  cases b with
  | moved | empty => exact h.elim
  | lifetime l => exact Lifetime.leads h
  | trait ls p =>
      rw [Bound.script,Script.output_append]
      cases ls with
      | nil => exact (Path.leads h.2).imp fun _ ht => ht.1
      | cons l ls =>
          rw [Lifetime.bindersScript_output,cons_append]
          exact leads_cons (by dsimp only [Bound.role]; decide) _
  | maybe p =>
      rw [Bound.script,Script.output_append,Script.output_sym,cons_append]
      exact leads_cons (by dsimp only [Bound.role]; decide) _

theorem Bound.role_ne_other {b : Bound} (h : b.Conforming) : b.role ≠ .other := by
  cases b with
  | moved | empty => exact h.elim
  | trait ls p => cases ls <;> exact nofun
  | _ => exact nofun

/-! ## Expressions -/

def UnaryOp.role : UnaryOp → Role
  | negate => .minus
  | invert => .never

/-- The role of an expression that is not an operation on two operands, and of such an
operation in parentheses. -/
def Expr.role : Expr → Role
  | .missing => .other
  | .block _ _ _ _ => .block
  | .call _ _ _ => .path
  | .int _ _ _ => .literal
  | .bool _ _ => .truth
  | .str _ _ => .literal
  | .name _ _ => .path
  | .binary _ _ _ _ => .round
  | .unary _ op _ => op.role

theorem Expr.role_ne_other {e : Expr} (h : e.Conforming) : e.role ≠ .other := by
  cases e with
  | missing => exact h.elim
  | unary _ op _ => cases op <;> exact nofun
  | _ => exact nofun

theorem CoreType.script_output (c : CoreType) : c.script.output = .nil := by cases c <;> rfl

/-- A block kind without a meaning lies outside of the numbers that have one. -/
theorem BlockKind.unassigned_outside {code : Int32} (h : code < 0 ∨ 2 < code) :
    ¬ (0 ≤ (unassigned code h).number ∧ (unassigned code h).number ≤ 2) :=
  fun hk => h.elim (Int32.not_lt.mpr hk.1) (Int32.not_lt.mpr hk.2)

theorem Expr.leads {e : Expr} (h : e.Conforming) :
    (Script.parenthesizedIf e.isBinary e.script).output.Leads fun k => k.role = e.role := by
  cases e with
  | missing => exact h.elim
  | block s k y es =>
      change (k.script ++ Script.sym "\x7b" ++ _ ++ Script.sym "\x7d").output.Leads _
      simp only [Script.output_append,append_assoc]
      cases k with
      | unassigned code hcode => exact absurd h.1 (BlockKind.unassigned_outside hcode)
      | _ =>
          simp only [BlockKind.script,Script.output_keyword,Script.output_done,Script.output_sym,
            cons_append,nil_append]
          exact leads_cons (by dsimp only [Expr.role]; decide) _
  | call s p es =>
      change (p.script ++ Script.sym "(" ++ _ ++ Script.sym ")").output.Leads _
      simp only [Script.output_append,append_assoc]
      exact (QPath.leads h.1).append _
  | int s n c =>
      change (c.script ++ Script.literal _).output.Leads _
      rw [Script.output_append,c.script_output,nil_append]
      exact leads_cons (Token.role_literal _) _
  | bool s b => cases b <;> exact leads_cons (by dsimp only [Expr.role]; decide +revert) _
  | str s t => exact leads_cons (Token.role_literal _) _
  | name s p => exact QPath.leads h.1
  | binary s op l r =>
      change (Script.sym "(" ++ _ ++ Script.sym ")").output.Leads _
      simp only [Script.output_append,Script.output_sym,cons_append]
      exact leads_cons (by dsimp only [Expr.role]; decide) _
  | unary s op e =>
      have he : e.isMissing = false := Expr.Conforming.isMissing h
      rw [Expr.script,he]
      change (op.script ++ _).output.Leads _
      rw [Script.output_append]
      cases op <;> exact leads_cons (by dsimp only [Expr.role]; decide) _

end Turbofish
