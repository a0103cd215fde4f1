import Turbofish.Proofs.Parts
import Turbofish.Proofs.Script.Trees

/-!
# What a node writes besides its parts

Besides its parts, a node writes what single calls of a token buffer add, and an operator only
where it is an operation. So a property of scripts that holds of single calls, and of two
scripts one after the other when it holds of both, is passed on from the parts of a node to the
node, as long as the scopes of the node keep it.
-/
namespace Turbofish

open Script in
/-- The scopes of nodes, each with the script that is run inside of it. -/
inductive Site.Encloses : Site → Script → Prop
  | qualifiedPath (t : Ty) (n : UInt64) (r : Bool) (ss : List Segment) :
      Encloses (.qualifiedPath t n ss.length) (qualified t.script n r (Segment.scripts ss))
  | path (rooted : Bool) (size : Nat) (s : Script) : Encloses (.path rooted size) s
  | args (size : Nat) (rooted : Bool) (s : Script) : Encloses (.args size rooted) s
  | constraint (n : Text) (bs : List Bound) : Encloses (.constraint n bs)
      (ident n ++ sym ":" ++ separated "+" (Bound.scripts bs))
  | expr (className : Text) (s : Script) : Encloses (.expr className) s

namespace Script

structure Compositional (Q : Script → Prop) : Prop extends Additive Q where
  fail (f : Fault) : Q (fail f)
  call {c : Buffer.Call} (hc : c.isOperator = false) : Q (call c)
  remark (m : Remark) : Q (.remark m .done)
  scope {site : Site} {s : Script} (h : site.Encloses s) (hs : Q s) : Q (.scope site s .done)
  unscope {site : Site} {s : Script} (h : Q (.scope site s .done)) : Q s

namespace Compositional

variable {Q : Script → Prop} {s : Script}

/-- A property of the output alone does not see scopes and remarks. -/
theorem of_output (h : Additive Q) (heq : ∀ {r s : Script}, r.output = s.output → Q r → Q s)
    (hfail : ∀ f, Q (.fail f)) (hcall : ∀ c : Buffer.Call, c.isOperator = false → Q (.call c)) :
    Compositional Q where
  toAdditive := h
  fail := hfail
  call := hcall _
  remark _ := heq (r := .done) rfl h.done
  scope _ hs := heq (output_scope_done _ _).symm hs
  unscope hs := heq (output_scope_done _ _) hs

theorem sym (h : Compositional Q) (text : Text)
    (ht : Token.word text = .ok (.sym text) := by rfl) : Q (sym text) := by
  rw [sym_eq_call ht]
  exact h.call rfl

theorem keyword (h : Compositional Q) (text : Text)
    (ht : Token.word text = .ok (.keyword text) := by rfl) : Q (keyword text) := by
  rw [keyword_eq_call ht]
  exact h.call rfl

theorem literal (h : Compositional Q) (text : Text) : Q (literal text) :=
  h.call (c := .literal text) rfl

theorem separator (h : Compositional Q) (text : Text) : Q (separator text) :=
  h.call (c := .separator text) rfl

theorem ident (h : Compositional Q) (name : Text) : Q (ident name) :=
  h.call (c := .ident name) rfl

theorem parenthesizedIf (h : Compositional Q) (c : Bool) (hs : Q s) : Q (parenthesizedIf c s) := by
  cases c with
  | false => exact hs
  | true => exact h.append (h.append (h.sym _) hs) (h.sym _)

theorem lifetimeScript (h : Compositional Q) (l : Lifetime) : Q l.script := by
  unfold Lifetime.script
  split
  · exact h.call (c := .lifetime l.name) rfl
  · exact h.fail _

theorem bindersScript (h : Compositional Q) (ls : List Lifetime) :
    Q (Lifetime.bindersScript ls) := by
  refine h.onlyIf fun _ => h.append (h.append (h.append (h.keyword _) (h.sym _)) ?_) (h.sym _)
  exact h.separated (h.separator _) (List.forall_mem_map.mpr fun l _ => h.lifetimeScript l)

/-! ## Nodes of one kind -/

theorem bounds (h : Compositional Q) {bs : List Bound}
    (hbs : ∀ m ∈ bs.map Node.bound, Q m.script) : Q (Script.separated "+" (Bound.scripts bs)) :=
  h.separated (h.separator _) (scripts_bound fun b hb => hbs (.bound b) (List.mem_map_of_mem hb))

theorem tyScripts {ts : List Ty} (hts : ∀ m ∈ ts.map Node.ty, Q m.script) :
    ∀ s ∈ Ty.scripts ts, Q s :=
  scripts_ty fun t ht => hts (.ty t) (List.mem_map_of_mem ht)

theorem segmentScripts {ss : List Segment}
    (hss : ∀ m ∈ ss.map Node.segment, Q m.script) : ∀ s ∈ Segment.scripts ss, Q s :=
  scripts_segment fun s hs => hss (.segment s) (List.mem_map_of_mem hs)

theorem ty (h : Compositional Q) {t : Ty} (hparts : ∀ m ∈ t.parts, Q m.script) : Q t.script := by
  cases t with
  | moved s => exact h.fail _
  | invalid s => exact h.fail _
  | infer s => exact h.keyword _
  | never s => exact h.sym _
  | unit s => exact h.append (h.sym _) (h.sym _)
  | tuple s ts =>
      have hitems := h.items (h.sym ",") (h.separator ",") (tyScripts hparts)
      exact h.append (h.append (h.sym _) hitems) (h.sym _)
  | borrow s l m t =>
      have ht : Q t.script := hparts (.ty t) (List.mem_singleton_self _)
      have hl := h.onlyIf (c := l.isSpecified) fun _ => h.lifetimeScript l
      have hm := h.onlyIf (c := m) fun _ => h.keyword "mut"
      exact h.append (h.append (h.append (h.sym _) hl) hm) (h.parenthesizedIf _ ht)
  | pointer s m t =>
      have ht : Q t.script := hparts (.ty t) (List.mem_singleton_self _)
      have hkeyword := h.keyword (if m then "mut" else "const") (by cases m <;> rfl)
      exact h.append (h.append (h.sym _) hkeyword) (h.parenthesizedIf _ ht)
  | array s t n =>
      obtain ⟨ht,hn⟩ := List.forall_mem_cons.mp hparts
      have hn : Q n.tracedScript := hn (.expr n) (List.mem_singleton_self _)
      have hlength := h.onlyIf (c := !n.isMissing) fun _ => h.append (h.sym ";") hn
      exact h.append (h.append (h.append (h.sym _) ht) hlength) (h.sym _)
  | path s p => exact hparts (.qpath p) (List.mem_singleton_self _)
  | traitObject s bs => exact h.append (h.keyword _) (h.bounds hparts)
  | erased s bs => exact h.append (h.keyword _) (h.bounds hparts)

theorem bound (h : Compositional Q) {b : Bound} (hparts : ∀ m ∈ b.parts, Q m.script) :
    Q b.script := by
  cases b with
  | moved => exact h.fail _
  | empty => exact h.fail _
  | lifetime l => exact h.lifetimeScript l
  | trait ls p =>
      have hp : Q p.script := hparts (.path p) (List.mem_append_right _ (List.mem_singleton_self _))
      exact h.append (h.bindersScript ls) hp
  | maybe p =>
      have hp : Q p.script := hparts (.path p) (List.mem_singleton_self _)
      exact h.append (h.sym _) hp

theorem args (h : Compositional Q) {as : Args}
    (hparts : ∀ m ∈ (Node.args as).printedParts, Q m.script) : Q as.script := by
  cases as with
  | moved => exact h.fail _
  | none => exact h.done
  | angle r as =>
      have has (a : Arg) (ha : a ∈ as.filter (·.group? ≠ none)) : Q a.script :=
        hparts (.arg a) (List.mem_map_of_mem ha)
      have hgroup (group : ArgGroup) : Q (Script.separated "," (Arg.scripts group as)) := by
        refine h.separated (h.separator _) ?_
        rw [Arg.scripts_eq_map]
        refine List.forall_mem_map.mpr fun a ha => has a ?_
        obtain ⟨hmem,hg⟩ := List.mem_filter.mp ha
        exact List.mem_filter.mpr ⟨hmem,by rw [of_decide_eq_true hg]; rfl⟩
      have hroot := h.append (h.onlyIf (c := r) fun _ => h.sym "::") (h.sym "<")
      have hlists := h.append (h.append (h.append hroot (hgroup .lifetimes)) (hgroup .values))
        (hgroup .associated)
      exact h.scope (.args ..) (h.append hlists (h.sym _))
  | parenthesized ts o =>
      obtain ⟨hts,ho⟩ := List.forall_mem_append.mp hparts
      have hinputs := h.separated (h.separator ",") (tyScripts hts)
      have houtput : Q (Ty.outputScript o) := by
        cases o with
        | none => exact h.done
        | some t =>
            have ht : Q t.script := ho (.ty t) (List.mem_singleton_self _)
            exact h.append (h.sym _) (h.parenthesizedIf _ ht)
      exact h.append (h.append (h.append (h.sym _) hinputs) (h.sym _)) houtput

theorem arg (h : Compositional Q) {a : Arg} (hparts : ∀ m ∈ a.parts, Q m.script) : Q a.script := by
  cases a with
  | moved => exact h.fail _
  | lifetime l => exact h.lifetimeScript l
  | ty t => exact hparts (.ty t) (List.mem_singleton_self _)
  | value e =>
      have he : Q e.tracedScript := hparts (.expr e) (List.mem_singleton_self _)
      cases hm : e.isMissing with
      | true =>
          rw [Arg.script_missing hm]
          exact h.fail _
      | false =>
          rw [Arg.script_value hm]
          split
          · exact h.unscope he
          · exact h.append (h.append (h.sym _) he) (h.sym _)
  | binding n t =>
      have ht : Q t.script := hparts (.ty t) (List.mem_singleton_self _)
      exact h.append (h.append (h.ident n) (h.sym _)) ht
  | constraint n bs =>
      have hbody := h.append (h.append (h.ident n) (h.sym ":")) (h.bounds hparts)
      exact h.scope (.constraint n bs) hbody

theorem qpath (h : Compositional Q) {p : QPath} (hparts : ∀ m ∈ p.parts, Q m.script) :
    Q p.script := by
  cases p with
  | plain p => exact hparts (.path p) (List.mem_singleton_self _)
  | qualified t n p =>
      obtain ⟨r,ss⟩ := p
      obtain ⟨ht,hss⟩ := List.forall_mem_cons.mp hparts
      have hbetween {s : Script} (hs : Q s) : Q (Script.sym "<" ++ s ++ Script.sym ">") :=
        h.append (h.append (h.sym _) hs) (h.sym _)
      exact h.scope (.qualifiedPath t n r ss) (h.toAdditive.qualified h.toAdditive id hbetween
        h.remark (h.keyword _) (h.sym _) ht n r (segmentScripts hss))

/-- An operation is left out: its operator asks for more. -/
theorem expr (h : Compositional Q) {e : Expr} (hbinary : e.isBinary = false)
    (hparts : ∀ m ∈ e.parts, Q m.script) : Q e.script := by
  have htraced {e : Expr} (he : Q e.tracedScript) : Q e.script := h.unscope he
  cases e with
  | missing => exact h.done
  | block s k y es =>
      have hkind : Q k.script := by
        cases k with
        | unsafeBlock => exact h.keyword _
        | constBlock => exact h.keyword _
        | bare => exact h.done
        | unassigned code _ => exact h.done
      have hstatements : ∀ r ∈ Expr.statementScripts s es, Q r := by
        rw [Expr.statementScripts_eq_map_ite]
        refine List.forall_mem_map.mpr fun e he => ?_
        split
        · exact h.fail _
        · exact hparts (.expr e) (List.mem_map_of_mem he)
      exact h.append (h.append (h.append hkind (h.sym _)) (h.statements (h.sym _) hstatements))
        (h.sym _)
  | call s p es =>
      obtain ⟨hp,hes⟩ := List.forall_mem_cons.mp hparts
      have hargs : ∀ r ∈ Expr.argScripts s es, Q r := by
        rw [Expr.argScripts_eq_map_ite]
        refine List.forall_mem_map.mpr fun e he => ?_
        split
        · exact h.fail _
        · exact htraced (hes (.expr e) (List.mem_map_of_mem he))
      exact h.append (h.append (h.append hp (h.sym _)) (h.separated (h.separator _) hargs)) (h.sym _)
  | int s n c =>
      have hname : Q c.script := by
        cases c with
        | unassigned n => exact h.remark _
        | _ => exact h.done
      exact h.append hname (h.literal _)
  | bool s b => exact h.keyword _ (by cases b <;> rfl)
  | str s t => exact h.literal _
  | name s p => exact hparts (.qpath p) (List.mem_singleton_self _)
  | binary s op l r => cases hbinary
  | unary s op e =>
      have he : Q e.tracedScript := hparts (.expr e) (List.mem_singleton_self _)
      rw [Expr.script]
      split
      · exact h.fail _
      · refine h.append ?_ (h.parenthesizedIf _ (htraced he))
        cases op <;> exact h.sym _

/-- Whatever node is not an operation has the property when its printed parts have it. -/
theorem of_parts (h : Compositional Q) {n : Node}
    (hbinary : ∀ e, n = .expr e → e.isBinary = false)
    (hparts : ∀ m ∈ n.printedParts, Q m.script) : Q n.script := by
  cases n with
  | lifetime l => exact h.lifetimeScript l
  | ty t => exact h.ty hparts
  | path p =>
      obtain ⟨r,ss⟩ := p
      have hss := segmentScripts hparts
      exact h.scope (.path ..) (h.segments (h.sym _) hss)
  | qpath p => exact h.qpath hparts
  | segment s =>
      obtain ⟨n,as⟩ := s
      exact h.append (h.ident n) (hparts (.args as) (List.mem_singleton_self _))
  | args as => exact h.args hparts
  | arg a => exact h.arg hparts
  | bound b => exact h.bound hparts
  | expr e => exact h.scope (.expr ..) (h.expr (hbinary e rfl) hparts)

/-- A property that operators have as well is a property of every node. -/
theorem all (h : Compositional Q) (hop : ∀ op : BinaryOp, Q op.script) (n : Node) :
    Q n.script := by
  induction n using Node.parts_induction with
  | h n ih =>
      by_cases hbinary : ∀ e, n = .expr e → e.isBinary = false
      · exact h.of_parts hbinary fun m hm => ih m (Node.mem_parts_of_printed hm)
      · simp only [Classical.not_forall,Bool.not_eq_false] at hbinary
        obtain ⟨e,rfl,he⟩ := hbinary
        cases e with
        | binary s op l r =>
            have hl : Q l.script := h.unscope (ih (.expr l) (List.mem_cons_self ..))
            have hr : Q r.script :=
              h.unscope (ih (.expr r) (List.mem_cons_of_mem _ (List.mem_singleton_self _)))
            refine h.scope (.expr ..) ?_
            rw [Expr.script]
            split
            · exact h.fail _
            · exact h.append (h.append (h.parenthesizedIf _ hl) (hop op)) (h.parenthesizedIf _ hr)
        | _ => cases he

end Compositional

end Script

end Turbofish
