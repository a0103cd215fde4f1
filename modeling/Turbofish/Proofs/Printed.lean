import Turbofish.Proofs.Malformed
import Turbofish.Proofs.Script.Placed

/-!
# Where the parts of a node are printed

Each node that is reached through printed parts is printed whole, in one run of tokens
among those of the node it is reached from. That run ends where the tokens of that node end,
or in front of a token that follows parts.
-/
namespace Turbofish

open Script (Within Last Followed Placed Follows)

theorem Ty.followed_items {t : Ty} {ts : List Ty} (ht : t ∈ ts) :
    Followed t.script (Script.items (scripts ts)) := by
  rw [scripts_eq_map]
  exact .items (List.mem_map_of_mem ht)

theorem Ty.followed_separated {t : Ty} {ts : List Ty} (ht : t ∈ ts) (sep : Text) :
    Followed t.script (Script.separated sep (scripts ts)) := by
  rw [scripts_eq_map]
  exact .separated (List.mem_map_of_mem ht) sep

theorem Bound.followed_separated {b : Bound} {bs : List Bound} (hb : b ∈ bs) (sep : Text) :
    Followed b.script (Script.separated sep (scripts bs)) := by
  rw [scripts_eq_map]
  exact .separated (List.mem_map_of_mem hb) sep

theorem Segment.mem_scripts {s : Segment} {ss : List Segment} (hs : s ∈ ss) :
    s.script ∈ scripts ss := by
  rw [scripts_eq_map]
  exact List.mem_map_of_mem hs

theorem Arg.followed_separated {a : Arg} {as : List Arg} (ha : a ∈ as) {group : ArgGroup}
    (hg : a.group? = some group) (sep : Text) :
    Followed a.script (Script.separated sep (scripts group as)) := by
  rw [scripts_eq_map]
  exact .separated (List.mem_map_of_mem (List.mem_filter.mpr ⟨ha,decide_eq_true hg⟩)) sep

theorem Expr.last_tracedScript (e : Expr) : Last e.tracedScript e.script :=
  .of_output_eq (Script.output_scope_done _ e.script)

/-- An argument of a call is printed unless it is missing, where the call fails. -/
theorem Expr.followed_args (span : Span) {e : Expr} {es : List Expr} (he : e ∈ es) (sep : Text) :
    Followed e.tracedScript (Script.separated sep (argScripts span es)) := by
  rw [argScripts_eq_map_ite]
  apply Followed.of_last _ (.separated (List.mem_map_of_mem he) sep)
  split
  · exact .fail _ _
  · exact e.last_tracedScript

/-- So is a statement of a block. -/
theorem Expr.placed_statements (span : Span) {e : Expr} {es : List Expr} (he : e ∈ es)
    (yields : Bool) :
    Placed e.tracedScript (Script.statements yields (statementScripts span es)) := by
  rw [statementScripts_eq_map_ite]
  apply Placed.trans (.inr _) (.statements (List.mem_map_of_mem he) yields)
  split
  · exact .fail _ _
  · exact .refl _

theorem BinaryOp.follows {op : BinaryOp} (h : op.script.Complete) : op.script.Follows := by
  unfold BinaryOp.script at h ⊢
  cases hop : op.text with
  | ok t => exact .token rfl _
  | error f =>
      rw [hop] at h
      exact absurd h (Script.not_complete_fail f)

namespace Node

/-! ## One node -/

theorem placed_ty {t : Ty} {m : Node} (h : m ∈ (ty t).parts) : Placed m.script t.script := by
  cases t with
  | tuple s ts =>
      obtain ⟨t,ht,rfl⟩ := List.mem_map.mp h
      exact .inl (((Ty.followed_items ht).right _).left _)
  | borrow s l b t =>
      rw [List.mem_singleton.mp h]
      exact (Placed.parenthesizedIf (.inr (.refl t.script)) _).right _
  | pointer s b t =>
      rw [List.mem_singleton.mp h]
      exact (Placed.parenthesizedIf (.inr (.refl t.script)) _).right _
  | array s t n =>
      have hclosed : (Script.sym "]").Follows := .token (by decide) _
      rcases List.mem_cons.mp h with rfl | hn
      · have hitem := (Last.refl t.script).right (Script.sym "[")
        exact .inl ((hitem.placed_onlyIf _ (.token (by decide) _)).followed hclosed)
      · rw [List.mem_singleton.mp hn]
        cases hm : n.isMissing with
        | true => cases n <;> first | exact .inr (.of_output_nil rfl _) | cases hm
        | false =>
            have hlength : Placed n.tracedScript (Script.sym ";" ++ n.tracedScript) :=
              .inr ((Last.refl n.tracedScript).right _)
            exact .inl (((hlength.onlyIf (by rw [hm]; rfl)).right _).followed hclosed)
  | path s p =>
      rw [List.mem_singleton.mp h]
      exact .inr (.refl p.script)
  | traitObject s bs =>
      obtain ⟨b,hb,rfl⟩ := List.mem_map.mp h
      exact .inl ((Bound.followed_separated hb "+").right _)
  | erased s bs =>
      obtain ⟨b,hb,rfl⟩ := List.mem_map.mp h
      exact .inl ((Bound.followed_separated hb "+").right _)
  | _ => cases h

theorem placed_bound {b : Bound} {m : Node} (h : m ∈ (bound b).parts) :
    Placed m.script b.script := by
  cases b with
  | lifetime l =>
      rw [List.mem_singleton.mp h]
      exact .inr (.refl l.script)
  | trait ls p =>
      rcases List.mem_append.mp h with hmem | hp
      · obtain ⟨l,hl,rfl⟩ := List.mem_map.mp hmem
        have hne : (!ls.isEmpty) = true := by
          rw [Bool.not_eq_true',List.isEmpty_eq_false_iff]
          exact List.ne_nil_of_mem hl
        have hlist := Followed.separated (List.mem_map_of_mem hl (f := Lifetime.script)) ","
        have hbinders :=
          (hlist.right (Script.keyword "for" ++ Script.sym "<")).left (Script.sym ">")
        exact .inl ((hbinders.trans_within (Within.onlyIf hne (.refl _))).left _)
      · rw [List.mem_singleton.mp hp]
        exact .inr ((Last.refl p.script).right _)
  | maybe p =>
      rw [List.mem_singleton.mp h]
      exact .inr ((Last.refl p.script).right _)
  | _ => cases h

theorem placed_args {as : Args} {m : Node} (h : m ∈ (args as).printedParts) :
    Placed m.script as.script := by
  cases as with
  | angle r as =>
      obtain ⟨a,ha,rfl⟩ := List.mem_map.mp h
      obtain ⟨ha,hg⟩ := List.mem_filter.mp ha
      refine .inl (Followed.scope ?_ _)
      obtain ⟨group,hg⟩ := Option.ne_none_iff_exists'.mp (of_decide_eq_true hg)
      have hlist := Arg.followed_separated ha hg ","
      cases group with
      | lifetimes => exact (((hlist.right _).left _).left _).left _
      | values => exact ((hlist.right _).left _).left _
      | associated => exact (hlist.right _).left _
  | parenthesized ts o =>
      rcases List.mem_append.mp h with hmem | hmem
      · obtain ⟨t,ht,rfl⟩ := List.mem_map.mp hmem
        exact .inl ((((Ty.followed_separated ht ",").right _).left _).left _)
      · obtain ⟨t,ht,rfl⟩ := List.mem_map.mp hmem
        cases o with
        | none => cases ht
        | some u =>
            rw [List.mem_singleton.mp ht]
            exact ((Placed.parenthesizedIf (.inr (.refl u.script)) _).right _).right _
  | _ => cases h

theorem placed_arg {a : Arg} {m : Node} (h : m ∈ (arg a).parts) : Placed m.script a.script := by
  cases a with
  | lifetime l =>
      rw [List.mem_singleton.mp h]
      exact .inr (.refl l.script)
  | ty t =>
      rw [List.mem_singleton.mp h]
      exact .inr (.refl t.script)
  | value e =>
      rw [List.mem_singleton.mp h]
      cases hm : e.isMissing with
      | true =>
          rw [Arg.script_missing hm]
          exact .inr (.fail _ _)
      | false =>
          rw [Arg.script_value hm]
          split
          · exact .inr e.last_tracedScript
          · exact .inl (((Last.refl e.tracedScript).right _).followed (.token (by decide) _))
  | binding n t =>
      rw [List.mem_singleton.mp h]
      exact .inr ((Last.refl t.script).right _)
  | constraint n bs =>
      obtain ⟨b,hb,rfl⟩ := List.mem_map.mp h
      exact .inl (((Bound.followed_separated hb "+").right _).scope _)
  | moved => cases h

theorem placed_qpath {p : QPath} {m : Node} (h : m ∈ (qpath p).parts) :
    Placed m.script p.script := by
  cases p with
  | plain p =>
      rw [List.mem_singleton.mp h]
      exact .inr (.refl p.script)
  | qualified t n p =>
      obtain ⟨r,ss⟩ := p
      apply Placed.scope
      rcases List.mem_cons.mp h with rfl | hmem
      · exact .qualified n r (.inl rfl)
      · obtain ⟨s,hs,rfl⟩ := List.mem_map.mp hmem
        exact .qualified n r (.inr (Segment.mem_scripts hs))

theorem placed_expr {e : Expr} {m : Node} (h : m ∈ (expr e).parts) : Placed m.script e.script := by
  cases e with
  | block s k y es =>
      obtain ⟨e,he,rfl⟩ := List.mem_map.mp h
      exact .inl (((Expr.placed_statements s he y).right _).followed (.token (by decide) _))
  | call s p es =>
      rcases List.mem_cons.mp h with rfl | hmem
      · exact .inl ((((Last.refl p.script).followed (.token (by decide) _)).left _).left _)
      · obtain ⟨e,he,rfl⟩ := List.mem_map.mp hmem
        exact .inl (((Expr.followed_args s he ",").right _).left _)
  | name s p =>
      rw [List.mem_singleton.mp h]
      exact .inr (.refl p.script)
  | binary s op l r =>
      rw [Expr.script]
      split
      · exact .inr (.fail _ _)
      · rcases List.mem_cons.mp h with rfl | hr
        · refine .inl fun hc => ?_
          have hop := (Script.complete_append_iff.mp (Script.complete_append_iff.mp hc).1).2
          have hoperand := Placed.parenthesizedIf (.inr l.last_tracedScript) l.isBinary
          exact ((hoperand.followed (BinaryOp.follows hop)).left _) hc
        · rw [List.mem_singleton.mp hr]
          exact (Placed.parenthesizedIf (.inr r.last_tracedScript) _).right _
  | unary s op e =>
      rw [List.mem_singleton.mp h,Expr.script]
      split
      · exact .inr (.fail _ _)
      · exact (Placed.parenthesizedIf (.inr e.last_tracedScript) _).right _
  | _ => cases h

theorem placed_of_mem_printedParts : ∀ {n m : Node}, m ∈ n.printedParts → Placed m.script n.script
  | lifetime _, _, h => by cases h
  | ty _, _, h => placed_ty h
  | path (.mk r ss), _, h => by
      obtain ⟨s,hs,rfl⟩ := List.mem_map.mp h
      exact (Placed.segments (Segment.mem_scripts hs) r).scope _
  | qpath _, _, h => placed_qpath h
  | segment (.mk n as), _, h => by
      rw [List.mem_singleton.mp h]
      exact .inr ((Last.refl as.script).right _)
  | args _, _, h => placed_args h
  | arg _, _, h => placed_arg h
  | bound _, _, h => placed_bound h
  | expr e, _, h => (placed_expr h).scope _

/-! ## Whole trees -/

/-- What is printed of a tree is printed whole, one node within the other, and at the end or in
front of a token that follows parts. -/
theorem Prints.placed {n m : Node} (h : n.Prints m) : Placed m.script n.script := by
  induction h with
  | refl => exact .inr (.refl _)
  | tail _ hstep ih => exact (placed_of_mem_printedParts hstep).trans ih

theorem Prints.within {n m : Node} (h : n.Prints m) : Within m.script n.script := h.placed.within

end Node

end Turbofish
