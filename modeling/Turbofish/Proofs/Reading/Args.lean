import Turbofish.Proofs.Reading.Exprs
import Turbofish.Proofs.Reading.Paths
import Turbofish.Proofs.Reading.Types

/-!
# Bounds and generic arguments can be read back

An expression that does not delimit itself is written in braces, as the bare block that
gives its value would be; among conforming arguments, only one of the two occurs. An
argument with a name is told from a type by the token behind the name. Argument lists
are told from each other and from none by their first tokens, of which two are needed
where the list is rooted, since `::` can also go on with a path.
-/
namespace Turbofish

open Output

/-! ## Bounds -/

namespace Bound

theorem role_eq {b c : Bound} (hb : b.Conforming) (hc : c.Conforming) {p q : Output Token}
    (h : b.script.output ++ p = c.script.output ++ q) : b.role = c.role :=
  (leads hb).role_eq (leads hc) h

theorem readable_lifetime (l : Lifetime) : form.Readable (lifetime l) := by
  intro hv c hc p q _ _ he
  have hrole := role_eq hv hc he
  cases c with
  | lifetime l' =>
      obtain ⟨hl,hpq⟩ := Lifetime.readable l hv l' hc p q trivial trivial he
      exact ⟨congrArg lifetime hl,hpq⟩
  | trait ls path => cases ls <;> cases hrole
  | _ => cases hrole

theorem output_maybe (path : Path) (p : Output Token) :
    (maybe path).script.output ++ p = cons (.sym "?") (path.script.output ++ p) := by
  rw [script]
  simp only [Script.output_append,Script.output_sym,cons_append,nil_append]

theorem readable_maybe {path : Path} (hpath : (Path.form false).Readable path) :
    form.Readable (maybe path) := by
  intro hv c hc p q hp hq he
  have hrole := role_eq hv hc he
  cases c with
  | maybe path' =>
      change (maybe path).script.output ++ p = (maybe path').script.output ++ q at he
      rw [output_maybe,output_maybe] at he
      obtain ⟨hcontent,hpq⟩ := hpath ⟨hv,nofun⟩ path' ⟨hc,nofun⟩ p q (.inl hp) (.inl hq)
        (cons_inj he).2
      exact ⟨congrArg maybe hcontent,hpq⟩
  | trait ls path => cases ls <;> cases hrole
  | _ => cases hrole

theorem output_binders (l : Lifetime) (ls : List Lifetime) (path : Path) (p : Output Token) :
    (trait (l :: ls) path).script.output ++ p = cons (.keyword "for") (cons (.sym "<")
      ((Script.separated "," ((l :: ls).map Lifetime.script)).output ++
        cons (.sym ">") (path.script.output ++ p))) := by
  rw [script,Script.output_append,Lifetime.bindersScript_output]
  simp only [append_assoc,cons_append,nil_append]

theorem readable_trait (ls : List Lifetime) {path : Path}
    (hpath : (Path.form false).Readable path) : form.Readable (trait ls path) := by
  intro hv c hc p q hp hq he
  have hrole := role_eq hv hc he
  cases c with
  | trait ls' path' =>
      have hsame : ls = ls' ∧ path.script.output ++ p = path'.script.output ++ q := by
        cases ls with
        | nil =>
            cases ls' with
            | nil => exact ⟨rfl,he⟩
            | cons l' ls' => cases hrole
        | cons l ls =>
            cases ls' with
            | nil => cases hrole
            | cons l' ls' =>
                change (trait (l :: ls) path).script.output ++ p =
                  (trait (l' :: ls') path').script.output ++ q at he
                rw [output_binders,output_binders] at he
                obtain ⟨hls,hrest⟩ := Lifetime.listable.separated_readable ","
                  (fun m _ => Lifetime.readable m) hv.1 hc.1 (ends_angle _).stops
                  (ends_angle _).stops (cons_inj (cons_inj he).2).2
                have hls : (l :: ls).map id = (l' :: ls').map id := hls
                rw [List.map_id,List.map_id] at hls
                exact ⟨hls,(cons_inj hrest).2⟩
      obtain ⟨rfl,hrest⟩ := hsame
      obtain ⟨hcontent,hpq⟩ := hpath ⟨hv.2,nofun⟩ path' ⟨hc.2,nofun⟩ p q (.inl hp) (.inl hq) hrest
      exact ⟨congrArg (trait ls) hcontent,hpq⟩
  | _ => cases ls <;> cases hrole

end Bound

/-! ## Values -/

namespace Expr

/-- The expression that is written where a value is an argument. -/
def braced (e : Expr) : Expr := if e.isSelfDelimiting then e else block none .bare true [e]

theorem braced_conforming {e : Expr} (h : e.Conforming) : e.braced.Conforming := by
  unfold braced
  split
  · exact h
  · exact ⟨by decide,nofun,h,trivial⟩

theorem braced_isBinary (e : Expr) : e.braced.isBinary = false := by
  unfold braced
  cases e with
  | block _ k _ _ => cases k <;> rfl
  | _ => rfl

theorem braced_readable {e : Expr} (h : ∀ operand, (form operand).Readable e) :
    (form true).Readable e.braced := by
  unfold braced
  split
  · exact h true
  · refine readable_block none .bare true (fun f hf => ?_) true
    rw [List.mem_singleton.mp hf]
    exact h false

/-- Only a redundant block is what another expression is put into. -/
theorem not_redundant {e f : Expr} (hf : f.isSelfDelimiting = false)
    (h : e.unlocated = (block none .bare true [f]).unlocated) : e.isRedundantBlock = true := by
  cases e with
  | block s k y es =>
      rw [unlocated,unlocated,unlocatedList_eq_map] at h
      obtain ⟨_,rfl,rfl,hes⟩ := Expr.block.inj h
      obtain ⟨g,rfl,hg⟩ := List.map_eq_singleton_iff.mp hes
      have hdelimited := congrArg isSelfDelimiting hg
      rw [isSelfDelimiting_unlocated,isSelfDelimiting_unlocated,hf] at hdelimited
      change (!g.isSelfDelimiting) = true
      rw [hdelimited]
      rfl
  | _ => cases h

theorem braced_inj {e f : Expr} (he : e.isRedundantBlock = false) (hf : f.isRedundantBlock = false)
    (h : e.braced.unlocated = f.braced.unlocated) : e.unlocated = f.unlocated := by
  unfold braced at h
  cases hde : e.isSelfDelimiting <;> cases hdf : f.isSelfDelimiting
  · rw [hde,hdf] at h
    exact (List.cons.inj (Expr.block.inj h).2.2.2).1
  · rw [hde,hdf] at h
    have hredundant : f.isRedundantBlock = true := not_redundant hde h.symm
    rw [hredundant] at hf
    cases hf
  · rw [hde,hdf] at h
    have hredundant : e.isRedundantBlock = true := not_redundant hdf h
    rw [hredundant] at he
    cases he
  · rw [hde,hdf] at h
    exact h

end Expr

/-! ## Arguments -/

namespace Arg

theorem output_value {e : Expr} (h : e.isMissing = false) :
    (value e).script.output = e.braced.script.output := by
  rw [script_value h]
  unfold Expr.braced
  cases e.isSelfDelimiting with
  | true => rfl
  | false =>
      have hstatement : Expr.statementScripts none [e] = [e.tracedScript] := by
        rw [Expr.statementScripts,h]; rfl
      rw [if_neg Bool.false_ne_true,if_neg Bool.false_ne_true,Expr.script,hstatement]
      rfl

def role : Arg → Role
  | moved => .other
  | lifetime _ => .lifetime
  | ty t => t.role
  | value e => e.braced.role
  | binding _ _ | constraint _ _ => .path

theorem output_binding {n : Text} (h : n.IsName) (t : Ty) (p : Output Token) :
    (binding n t).script.output ++ p =
      cons (.ofName n) (cons (.sym "=") (t.script.output ++ p)) := by
  rw [script,Script.ident,h.ident_eq]
  simp only [Script.ofExcept,Script.output_append,Script.output_token,Script.output_done,
    Script.output_sym,cons_append,nil_append]

theorem output_constraint {n : Text} (h : n.IsName) (bs : List Bound) (p : Output Token) :
    (constraint n bs).script.output ++ p = cons (.ofName n) (cons (.sym ":")
      ((Script.separated "+" (bs.map Bound.script)).output ++ p)) := by
  rw [script,Script.ident,h.ident_eq,Bound.scripts_eq_map]
  simp only [Script.ofExcept,Script.output_append,Script.output_token,Script.output_done,
    Script.output_scope,Script.output_sym,append_nil,cons_append,nil_append]

theorem leads {a : Arg} (h : a.Conforming) : a.script.output.Leads fun k => k.role = a.role := by
  cases a with
  | moved => exact h.elim
  | lifetime l => exact Lifetime.leads h
  | ty t => exact Ty.leads h
  | value e =>
      have hlead := Expr.leads (Expr.braced_conforming h.1)
      rw [Expr.braced_isBinary] at hlead
      rw [output_value h.1.isMissing]
      exact hlead
  | binding n t =>
      rw [← append_nil (binding n t).script.output,output_binding h.1]
      exact leads_cons h.1.isName_ofName.role _
  | constraint n bs =>
      rw [← append_nil (constraint n bs).script.output,output_constraint h.1]
      exact leads_cons h.1.isName_ofName.role _

theorem role_ne_other {a : Arg} (h : a.Conforming) : a.role ≠ .other := by
  cases a with
  | moved => exact h.elim
  | ty t => exact Ty.role_ne_other h
  | value e => exact Expr.role_ne_other (Expr.braced_conforming h.1)
  | _ => exact nofun

theorem listable : form.Listable where
  starts h := (leads h).starts fun _ ht => ht ▸ role_ne_other h
  fits _ hp := hp.stops

theorem role_eq {a b : Arg} (ha : a.Conforming) (hb : b.Conforming) {p q : Output Token}
    (h : a.script.output ++ p = b.script.output ++ q) : a.role = b.role :=
  (leads ha).role_eq (leads hb) h

/-- No type, lifetime or name starts as a value does. -/
theorem value_role (e : Expr) : e.braced.role = .literal ∨ e.braced.role = .truth ∨
    e.braced.role = .block := by
  unfold Expr.braced
  cases e with
  | block _ k _ _ => cases k <;> exact .inr (.inr rfl)
  | int _ _ _ | str _ _ => exact .inl rfl
  | bool _ _ => exact .inr (.inl rfl)
  | _ => exact .inr (.inr rfl)

theorem isValue_of_role {a : Arg} {e : Expr} (h : a.role = e.braced.role) : ∃ f, a = value f := by
  cases a with
  | value f => exact ⟨f,rfl⟩
  | ty t =>
      have hrole : t.role = e.braced.role := h
      rcases value_role e with he | he | he <;> rw [he] at hrole <;> cases t <;> cases hrole
  | _ => rcases value_role e with he | he | he <;> rw [he] at h <;> cases h

/-- Behind a name in a path stand arguments, the next segment or a stop. -/
theorem after_segment {as : Args} (has : as.Conforming) (ss : List Segment) {p o : Output Token}
    {u : Token} (hp : p.Stops) (h : as.script.output ++
      ((Script.each "::" (ss.map Segment.script)).output ++ p) = cons u o) :
    u.isStop = true ∨ u.role ≠ .other := by
  have hcolons : (Token.sym "::").role ≠ .other := by decide
  cases as with
  | moved => exact has.elim
  | none =>
      cases ss with
      | nil =>
          have hstops : (cons u o).Stops := h ▸ hp
          exact .inl hstops.isStop
      | cons s ss =>
          rw [Segment.output_each] at h
          exact .inr ((cons_inj h).1 ▸ hcolons)
  | angle r as =>
      rw [Args.script,Script.output_scope] at h
      simp only [Script.output_append,append_assoc] at h
      cases r with
      | true => exact .inr ((cons_inj h).1 ▸ hcolons)
      | false => exact .inr ((cons_inj h).1 ▸ by decide)
  | parenthesized ts out =>
      rw [Args.script] at h
      simp only [Script.output_append,append_assoc] at h
      exact .inr ((cons_inj h).1 ▸ by decide)

/-- A type that is a name ends there or goes on as a path does. -/
theorem after_name {t : Ty} (ht : t.Conforming) {p o : Output Token} {k u : Token} (hp : p.Stops)
    (hk : k.IsName) (h : t.script.output ++ p = cons k (cons u o)) :
    u.isStop = true ∨ u.role ≠ .other := by
  have hrole : t.role = .path := by
    obtain ⟨k',r,hr,hk'⟩ := (Ty.leads ht).append p
    rw [← hk',(cons_inj (hr.symm.trans h)).1,hk.role]
  obtain ⟨s,path,rfl⟩ : ∃ s path, t = .path s path := by
    cases t with
    | path s path => exact ⟨s,path,rfl⟩
    | _ => cases hrole
  cases path with
  | qualified t n path =>
      obtain ⟨r,ss⟩ := path
      change (QPath.qualified t n (.mk r ss)).script.output ++ p = _ at h
      rw [QPath.output_qualified] at h
      exact absurd (cons_inj h).1.symm (hk.ne_sym _)
  | plain path =>
      obtain ⟨r,ss⟩ := path
      obtain ⟨⟨n,as⟩,ss,rfl⟩ := List.exists_cons_of_ne_nil ht.1
      have hsegment : (Segment.mk n as).Conforming := ht.2.2.1
      change (Path.mk r (.mk n as :: ss)).script.output ++ p = _ at h
      rw [Path.output_eq,List.map_cons,Script.segments_output,Segment.output_eq hsegment.1,
        cons_append] at h
      cases r with
      | true => exact absurd (cons_inj h).1.symm (hk.ne_sym _)
      | false => exact after_segment hsegment.2 ss hp (cons_inj h).2

theorem readable_lifetime (l : Lifetime) : form.Readable (lifetime l) := by
  intro hv b hb p q _ _ he
  have hrole := role_eq hv hb he
  cases b with
  | lifetime l' =>
      obtain ⟨hl,hpq⟩ := Lifetime.readable l hv l' hb p q trivial trivial he
      exact ⟨congrArg lifetime hl,hpq⟩
  | value e => obtain ⟨_,hf⟩ := isValue_of_role hrole; cases hf
  | ty t => cases t <;> cases hrole
  | _ => cases hrole

theorem readable_value {e : Expr} (h : ∀ operand, (Expr.form operand).Readable e) :
    form.Readable (value e) := by
  intro hv b hb p q hp hq he
  obtain ⟨f,rfl⟩ := isValue_of_role (role_eq hv hb he).symm
  change (value e).script.output ++ p = (value f).script.output ++ q at he
  rw [output_value hv.1.isMissing,output_value hb.1.isMissing,
    ← Expr.write_operand (Expr.braced_isBinary e) true,
    ← Expr.write_operand (Expr.braced_isBinary f) true] at he
  obtain ⟨hcontent,hpq⟩ := Expr.braced_readable h (Expr.braced_conforming hv.1) f.braced
    (Expr.braced_conforming hb.1) p q ⟨hp,nofun⟩ ⟨hq,nofun⟩ he
  exact ⟨congrArg value (Expr.braced_inj hv.2 hb.2 hcontent),hpq⟩

theorem not_named {t : Ty} (ht : t.Conforming) {n : Text} (hn : n.IsName) {p o : Output Token}
    (hp : p.Stops) {u : Token} (hu : u.isStop = false) (hrole : u.role = .other) :
    t.script.output ++ p ≠ cons (.ofName n) (cons u o) := by
  intro h
  rcases after_name ht hp hn.isName_ofName h with hstop | hother
  · rw [hu] at hstop; cases hstop
  · exact hother hrole

theorem readable_ty {t : Ty} (h : (Ty.form false).Readable t) : form.Readable (ty t) := by
  intro hv b hb p q hp hq he
  have hrole := role_eq hv hb he
  cases b with
  | moved => exact hb.elim
  | lifetime l => cases t <;> cases hrole
  | ty t' =>
      obtain ⟨hcontent,hpq⟩ := h hv t' hb p q hp hq he
      exact ⟨congrArg ty hcontent,hpq⟩
  | value e => obtain ⟨_,hf⟩ := isValue_of_role hrole; cases hf
  | binding n t' =>
      change t.script.output ++ p = (binding n t').script.output ++ q at he
      rw [output_binding hb.1] at he
      exact absurd he (not_named hv hb.1 hp (by decide) (by decide))
  | constraint n bs =>
      change t.script.output ++ p = (constraint n bs).script.output ++ q at he
      rw [output_constraint hb.1] at he
      exact absurd he (not_named hv hb.1 hp (by decide) (by decide))

theorem readable_binding (n : Text) {t : Ty} (h : (Ty.form false).Readable t) :
    form.Readable (binding n t) := by
  intro hv b hb p q hp hq he
  have hrole := role_eq hv hb he
  change (binding n t).script.output ++ p = b.script.output ++ q at he
  rw [output_binding hv.1] at he
  cases b with
  | moved => exact hb.elim
  | lifetime l => cases hrole
  | ty t' => exact absurd he.symm (not_named hb hv.1 hq (by decide) (by decide))
  | value e => obtain ⟨_,hf⟩ := isValue_of_role hrole; cases hf
  | binding n' t' =>
      rw [output_binding hb.1] at he
      obtain ⟨hname,hrest⟩ := cons_inj he
      obtain ⟨hcontent,hpq⟩ := h hv.2 t' hb.2 p q hp hq (cons_inj hrest).2
      refine ⟨?_,hpq⟩
      rw [Text.IsName.ofName_inj hv.1 hb.1 hname]
      exact congrArg (binding n') hcontent
  | constraint n' bs =>
      rw [output_constraint hb.1] at he
      exact absurd (cons_inj (cons_inj he).2).1 (by decide)

theorem readable_constraint (n : Text) {bs : List Bound}
    (hbs : ∀ b ∈ bs, Bound.form.Readable b) : form.Readable (constraint n bs) := by
  intro hv b hb p q hp hq he
  have hrole := role_eq hv hb he
  change (constraint n bs).script.output ++ p = b.script.output ++ q at he
  rw [output_constraint hv.1] at he
  cases b with
  | moved => exact hb.elim
  | lifetime l => cases hrole
  | ty t' => exact absurd he.symm (not_named hb hv.1 hq (by decide) (by decide))
  | value e => obtain ⟨_,hf⟩ := isValue_of_role hrole; cases hf
  | binding n' t' =>
      rw [output_binding hb.1] at he
      exact absurd (cons_inj (cons_inj he).2).1 (by decide)
  | constraint n' bs' =>
      rw [output_constraint hb.1] at he
      obtain ⟨hname,hrest⟩ := cons_inj he
      obtain ⟨hcontent,hpq⟩ := Bound.listable.separated_readable "+" hbs
        ((Bound.allConforming_iff bs).mp hv.2) ((Bound.allConforming_iff bs').mp hb.2) hp hq
        (cons_inj hrest).2
      have hbounds : bs.map Bound.unlocated = bs'.map Bound.unlocated := hcontent
      refine ⟨?_,hpq⟩
      change unlocated _ = unlocated _
      rw [unlocated,unlocated,Bound.unlocatedList_eq_map,Bound.unlocatedList_eq_map,hbounds,
        Text.IsName.ofName_inj hv.1 hb.1 hname]

end Arg

end Turbofish
