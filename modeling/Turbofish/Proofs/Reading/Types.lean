import Turbofish.Proofs.Reading.Kinds

/-!
# Types can be read back

A type is told by its first token, except that a parenthesis starts the unit type, a
tuple, and bounds in parentheses. Of these, the unit type closes it at once, and a comma
behind the first type inside it makes a tuple, so that `(T,)` and bounds in parentheses
differ.
-/
namespace Turbofish

open Output

namespace Ty

/-! ## What is written -/

theorem write_alone (t : Ty) : (form false).write t = t.script := rfl

theorem write_of_not_parens {t : Ty} {operand : Bool} (h : (operand && t.needsParens) = false) :
    (form operand).write t = t.script := by
  change Script.parenthesizedIf (operand && t.needsParens) t.script = t.script
  rw [h]
  rfl

theorem write_operand {t : Ty} (h : t.needsParens = false) (operand : Bool) :
    (form operand).write t = t.script :=
  write_of_not_parens (by rw [h,Bool.and_false])

theorem output_parens {t : Ty} (h : t.needsParens = true) (p : Output Token) :
    ((form true).write t).output ++ p =
      cons (.sym "(") (t.script.output ++ cons (.sym ")") p) := by
  change (Script.parenthesizedIf (true && t.needsParens) t.script).output ++ p = _
  rw [h,Bool.and_true]
  change (Script.sym "(" ++ t.script ++ Script.sym ")").output ++ p = _
  simp only [Script.output_append,Script.output_sym,append_assoc,cons_append,nil_append]

theorem output_unit (s : Span) (p : Output Token) :
    (unit s).script.output ++ p = cons (.sym "(") (cons (.sym ")") p) := rfl

theorem output_tuple (s : Span) (ts : List Ty) (p : Output Token) :
    (tuple s ts).script.output ++ p =
      cons (.sym "(") ((Script.items (ts.map script)).output ++ cons (.sym ")") p) := by
  rw [script,scripts_eq_map]
  simp only [Script.output_append,Script.output_sym,append_assoc,cons_append,nil_append]

theorem output_borrow (s : Span) (l : Lifetime) (m : Bool) (t : Ty) (p : Output Token) :
    (borrow s l m t).script.output ++ p =
      cons (.sym "&") ((Script.onlyIf l.isSpecified l.script).output ++
        ((Script.onlyIf m (Script.keyword "mut")).output ++
          (((form true).write t).output ++ p))) := by
  rw [script]
  simp only [Script.output_append,Script.output_sym,append_assoc,cons_append,nil_append]
  rfl

theorem output_pointer (s : Span) (m : Bool) (t : Ty) (p : Output Token) :
    (pointer s m t).script.output ++ p = cons (.sym "*")
      (cons (.keyword (if m then "mut" else "const")) (((form true).write t).output ++ p)) := by
  rw [script]
  simp only [Script.output_append,Script.output_sym,Script.output_keyword,cons_append,nil_append]
  rfl

theorem output_array (s : Span) (t : Ty) (n : Expr) (p : Output Token) :
    (array s t n).script.output ++ p = cons (.sym "[") (t.script.output ++
      ((Script.onlyIf (!n.isMissing) (Script.sym ";" ++ n.script)).output ++
        cons (.sym "]") p)) := by
  rw [script]
  cases n.isMissing <;>
    simp only [Script.onlyIf,Script.output_append,Script.output_sym,Script.output_scope,
      Script.output_done,append_assoc,append_nil,cons_append,nil_append,if_true,if_false,
      Bool.not_true,Bool.not_false,Bool.false_eq_true]

theorem output_bounds (word : Text) (bs : List Bound) (p : Output Token) :
    (Script.keyword word ++ Script.separated "+" (Bound.scripts bs)).output ++ p =
      cons (.keyword word) ((Script.separated "+" (bs.map Bound.script)).output ++ p) := by
  rw [Bound.scripts_eq_map]
  simp only [Script.output_append,Script.output_keyword,cons_append,nil_append]

/-- Behind the first item of a tuple stands a comma, and not a parenthesis. -/
theorem output_items (t : Ty) (ts : List Ty) (p : Output Token) :
    ∃ k o, (Script.items ((t :: ts).map script)).output ++ p = t.script.output ++ cons k o ∧
      k.isEnd = true ∧ k ≠ .sym ")" := by
  cases ts with
  | nil =>
      refine ⟨.sym ",",p,?_,by decide,by decide⟩
      change (t.script ++ Script.sym ",").output ++ p = _
      rw [Script.output_append,append_assoc]
      rfl
  | cons u us =>
      refine ⟨.separator ",",(Script.separated "," ((u :: us).map script)).output ++ p,
        ?_,by decide,by decide⟩
      change (t.script ++ Script.separator "," ++ _).output ++ p = _
      rw [Script.output_append,Script.output_append,append_assoc,append_assoc]
      rfl

/-! ## Reading types alone and as operands -/

/-- What an operand starts with is neither a lifetime nor `mut`. -/
theorem leads_operand {t : Ty} (h : t.Conforming) (operand : Bool) :
    ((form operand).write t).output.Leads fun k =>
      k.role ≠ .lifetime ∧ k.role ≠ .mutable ∧ k.role ≠ .other := by
  change (Script.parenthesizedIf (operand && t.needsParens) t.script).output.Leads _
  cases hc : operand && t.needsParens with
  | true =>
      change (Script.sym "(" ++ t.script ++ Script.sym ")").output.Leads _
      simp only [Script.output_append,Script.output_sym,cons_append,nil_append]
      exact leads_cons (by decide) _
  | false =>
      refine (leads h).imp fun k hk => ?_
      rw [hk]
      cases t with
      | moved _ | invalid _ => exact h.elim
      | _ => exact ⟨nofun,nofun,nofun⟩

/-- Two types that start alike have the same role. -/
theorem role_eq {t u : Ty} (ht : t.Conforming) (hu : u.Conforming) {p q : Output Token}
    (h : t.script.output ++ p = u.script.output ++ q) : t.role = u.role :=
  (leads ht).role_eq (leads hu) h

theorem role_eq_round {t : Ty} (ht : t.Conforming) {p o : Output Token}
    (h : t.script.output ++ p = cons (.sym "(") o) : t.role = .round := by
  have hround : (cons (.sym "(") nil).Leads fun k => k.role = .round := leads_cons (by decide) _
  exact (leads ht).role_eq hround (h.trans (cons_append _ nil o).symm)

/-- What a parenthesis can be the first token of. -/
theorem round_cases {t : Ty} (ht : t.Conforming) {operand : Bool} {p o : Output Token}
    (h : ((form operand).write t).output ++ p = cons (.sym "(") o) :
    (∃ s, t = unit s ∧ o = cons (.sym ")") p) ∨
      (∃ s u us, t = tuple s (u :: us) ∧
        o = (Script.items ((u :: us).map script)).output ++ cons (.sym ")") p) ∨
      operand = true ∧ t.needsParens = true ∧ o = t.script.output ++ cons (.sym ")") p := by
  cases hc : operand && t.needsParens with
  | true =>
      obtain ⟨rfl,hparens⟩ := Bool.and_eq_true_iff.mp hc
      rw [output_parens hparens] at h
      exact .inr (.inr ⟨rfl,hparens,(cons_inj h).2.symm⟩)
  | false =>
      rw [write_of_not_parens hc] at h
      have hrole := role_eq_round ht h
      cases t with
      | unit s =>
          rw [output_unit] at h
          exact .inl ⟨s,rfl,(cons_inj h).2.symm⟩
      | tuple s ts =>
          obtain ⟨u,us,rfl⟩ := List.exists_cons_of_ne_nil ht.1
          rw [output_tuple] at h
          exact .inr (.inl ⟨s,u,us,rfl,(cons_inj h).2.symm⟩)
      | _ => cases hrole

/-- No type starts with what closes a parenthesis. -/
theorem not_closed {t : Ty} (ht : t.Conforming) (o p : Output Token) :
    cons (.sym ")") o ≠ t.script.output ++ p := fun h =>
  (listable.starts ht).not_stops p (h ▸ (ends_round o).stops)

/-- A type with a role of its own, read when it stands alone, is read as an operand. -/
theorem readable_operand {t : Ty} (hround : t.role ≠ .round) (h : (form false).Readable t)
    (operand : Bool) : (form operand).Readable t := by
  intro ht u hu p q hp hq he
  cases hpt : operand && t.needsParens with
  | true =>
      obtain ⟨rfl,hparens⟩ := Bool.and_eq_true_iff.mp hpt
      rw [output_parens hparens] at he
      rcases round_cases hu he.symm with ⟨s,rfl,ho⟩ | ⟨s,v,vs,rfl,ho⟩ | ⟨_,_,ho⟩
      · exact absurd ho.symm (not_closed ht _ _)
      · obtain ⟨k,o,hitems,hk,hclose⟩ := output_items v vs (cons (.sym ")") q)
        rw [hitems] at ho
        obtain ⟨_,hrest⟩ := h ht v hu.2.1 _ _ (ends_round _).stops (ends_cons hk _).stops ho
        exact absurd (cons_inj hrest).1.symm hclose
      · obtain ⟨htu,hrest⟩ := h ht u hu _ _ (ends_round _).stops (ends_round _).stops ho
        exact ⟨htu,(cons_inj hrest).2⟩
  | false =>
      rw [write_of_not_parens hpt] at he
      cases hpu : operand && u.needsParens with
      | true =>
          obtain ⟨rfl,hparens⟩ := Bool.and_eq_true_iff.mp hpu
          rw [output_parens hparens] at he
          exact absurd (role_eq_round ht he) hround
      | false =>
          rw [write_of_not_parens hpu] at he
          exact h ht u hu p q hp hq he

/-! ## The constructors -/

theorem readable_infer (s : Span) : (form false).Readable (infer s) := by
  intro ht u hu p q _ _ he
  have hrole := role_eq ht hu he
  cases u with
  | infer s' => exact ⟨rfl,(cons_inj he).2⟩
  | _ => cases hrole

theorem readable_never (s : Span) : (form false).Readable (never s) := by
  intro ht u hu p q _ _ he
  have hrole := role_eq ht hu he
  cases u with
  | never s' => exact ⟨rfl,(cons_inj he).2⟩
  | _ => cases hrole

/-- Nothing but the unit type is closed right after its parenthesis. -/
theorem readable_unit (s : Span) (operand : Bool) : (form operand).Readable (unit s) := by
  intro _ u hu p q _ _ he
  rw [write_operand rfl,output_unit] at he
  rcases round_cases hu he.symm with ⟨s',rfl,ho⟩ | ⟨s',v,vs,rfl,ho⟩ | ⟨_,_,ho⟩
  · exact ⟨rfl,(cons_inj ho).2⟩
  · obtain ⟨k,o,hitems,_,_⟩ := output_items v vs (cons (.sym ")") q)
    rw [hitems] at ho
    exact absurd ho (not_closed hu.2.1 _ _)
  · exact absurd ho (not_closed hu _ _)

theorem items_readable {ts us : List Ty} (hts : ∀ t ∈ ts, (form false).Readable t)
    (hvt : ∀ t ∈ ts, t.Conforming) (hvu : ∀ u ∈ us, u.Conforming) (ht : ts ≠ []) (hu : us ≠ [])
    {p q : Output Token} (hp : p.Stops) (hq : q.Stops)
    (he : (Script.items (ts.map script)).output ++ p = (Script.items (us.map script)).output ++ q) :
    ts.map unlocated = us.map unlocated ∧ p = q := by
  have hlone (t : Ty) (p : Output Token) : (Script.items ([t].map script)).output ++ p =
      t.script.output ++ cons (.sym ",") p := by
    change (t.script ++ Script.sym ",").output ++ p = _
    rw [Script.output_append,append_assoc]
    rfl
  have hmany (t t' : Ty) (ts : List Ty) (p : Output Token) :
      (Script.items ((t :: t' :: ts).map script)).output ++ p = t.script.output ++
        cons (.separator ",") ((Script.separated "," ((t' :: ts).map script)).output ++ p) := by
    change (t.script ++ Script.separator "," ++ _).output ++ p = _
    rw [Script.output_append,Script.output_append,append_assoc,append_assoc]
    rfl
  have hcomma (o : Output Token) : (cons (.sym ",") o).Stops := (ends_comma o).stops
  have hseparator (o : Output Token) : (cons (.separator ",") o).Stops :=
    (ends_separator "," o).stops
  match ts, us with
  | [], _ => exact absurd rfl ht
  | _, [] => exact absurd rfl hu
  | [t], [u] =>
      rw [hlone,hlone] at he
      have hread := hts t (List.mem_cons_self ..) (hvt t (List.mem_cons_self ..)) u
        (hvu u (List.mem_cons_self ..)) _ _ (hcomma p) (hcomma q) he
      exact ⟨congrArg ([·]) hread.1,(cons_inj hread.2).2⟩
  | [t], u :: u' :: us =>
      rw [hlone,hmany] at he
      have hread := hts t (List.mem_cons_self ..) (hvt t (List.mem_cons_self ..)) u
        (hvu u (List.mem_cons_self ..)) _ _ (hcomma p) (hseparator _) he
      exact absurd (cons_inj hread.2).1 (by decide)
  | t :: t' :: ts, [u] =>
      rw [hlone,hmany] at he
      have hread := hts t (List.mem_cons_self ..) (hvt t (List.mem_cons_self ..)) u
        (hvu u (List.mem_cons_self ..)) _ _ (hseparator _) (hcomma q) he
      exact absurd (cons_inj hread.2).1 (by decide)
  | t :: t' :: ts, u :: u' :: us =>
      exact listable.separated_readable "," hts hvt hvu hp hq he

theorem readable_tuple (s : Span) (ts : List Ty) (hts : ∀ t ∈ ts, (form false).Readable t)
    (operand : Bool) : (form operand).Readable (tuple s ts) := by
  intro ht u hu p q hp hq he
  have hvt := (allConforming_iff ts).mp ht.2
  obtain ⟨t,ts',rfl⟩ := List.exists_cons_of_ne_nil ht.1
  obtain ⟨k,o,hitems,hk,hclose⟩ := output_items t ts' (cons (.sym ")") p)
  rw [write_operand rfl,output_tuple] at he
  rcases round_cases hu he.symm with ⟨s',rfl,ho⟩ | ⟨s',v,vs,rfl,ho⟩ | ⟨_,_,ho⟩
  · rw [hitems] at ho
    exact absurd ho.symm (not_closed ht.2.1 _ _)
  · have hvu := (allConforming_iff (v :: vs)).mp hu.2
    obtain ⟨hcontent,hrest⟩ := items_readable hts hvt hvu ht.1 hu.1 (ends_round _).stops
      (ends_round _).stops ho
    refine ⟨?_,(cons_inj hrest).2⟩
    change unlocated _ = unlocated _
    rw [unlocated,unlocated,unlocatedList_eq_map,unlocatedList_eq_map,hcontent]
  · rw [hitems] at ho
    have hread := hts t (List.mem_cons_self ..) ht.2.1 u hu _ _ (ends_cons hk _).stops
      (ends_round _).stops ho
    exact absurd (cons_inj hread.2).1 hclose

/-- A lifetime that may be left out, in front of something that does not start with one. -/
theorem lifetime_inj {l l' : Lifetime} (hl : l = .unspecified ∨ l.Conforming)
    (hl' : l' = .unspecified ∨ l'.Conforming) {o o' : Output Token}
    (ho : o.Leads fun k => k.role ≠ .lifetime) (ho' : o'.Leads fun k => k.role ≠ .lifetime)
    (h : (Script.onlyIf l.isSpecified l.script).output ++ o =
      (Script.onlyIf l'.isSpecified l'.script).output ++ o') : l = l' ∧ o = o' := by
  have hlifetime {l : Lifetime} (h : l.Conforming) (p : Output Token) :
      ((Script.onlyIf l.isSpecified l.script).output ++ p).Leads fun k => k.role = .lifetime := by
    rw [h.isSpecified]
    exact (Lifetime.leads h).append p
  rcases hl with rfl | hl <;> rcases hl' with rfl | hl'
  · exact ⟨rfl,h⟩
  · have hlead := hlifetime hl' o'
    rw [← h] at hlead
    obtain ⟨k,hk,hk'⟩ := ho.common hlead
    exact absurd hk' hk
  · have hlead := hlifetime hl o
    rw [h] at hlead
    obtain ⟨k,hk,hk'⟩ := ho'.common hlead
    exact absurd hk' hk
  · rw [hl.isSpecified,hl'.isSpecified] at h
    exact Lifetime.readable l hl l' hl' _ _ trivial trivial h

/-- No target of a reference starts with `mut`. -/
theorem mut_inj {m m' : Bool} {t t' : Ty} (ht : t.Conforming) (ht' : t'.Conforming)
    {p q : Output Token}
    (h : (Script.onlyIf m (Script.keyword "mut")).output ++ (((form true).write t).output ++ p) =
      (Script.onlyIf m' (Script.keyword "mut")).output ++ (((form true).write t').output ++ q)) :
    m = m' ∧ ((form true).write t).output ++ p = ((form true).write t').output ++ q := by
  have hmut {t : Ty} (ht : t.Conforming) (p o : Output Token) :
      ((form true).write t).output ++ p ≠ cons (.keyword "mut") o := by
    intro h
    obtain ⟨k,r,hr,_,hk,_⟩ := (leads_operand ht true).append p
    rw [hr] at h
    rw [(cons_inj h).1] at hk
    exact absurd (by decide) hk
  cases m <;> cases m'
  · exact ⟨rfl,h⟩
  · exact absurd h (hmut ht _ _)
  · exact absurd h.symm (hmut ht' _ _)
  · exact ⟨rfl,(cons_inj h).2⟩

theorem readable_borrow (s : Span) (l : Lifetime) (m : Bool) (t : Ty)
    (ht : (form true).Readable t) : (form false).Readable (borrow s l m t) := by
  intro hb u hu p q hp hq he
  have hrole := role_eq hb hu he
  cases u with
  | borrow s' l' m' t' =>
      obtain ⟨hl,hvt⟩ := hb
      obtain ⟨hl',hvt'⟩ := hu
      rw [write_alone,write_alone,output_borrow,output_borrow] at he
      have hrest {m : Bool} {t : Ty} (hvt : t.Conforming) (p : Output Token) :
          ((Script.onlyIf m (Script.keyword "mut")).output ++
            (((form true).write t).output ++ p)).Leads fun k => k.role ≠ .lifetime := by
        cases m with
        | true => exact leads_cons (by decide) _
        | false => exact ((leads_operand hvt true).append p).imp fun _ hk => hk.1
      obtain ⟨rfl,htail⟩ := lifetime_inj hl hl' (hrest hvt p) (hrest hvt' q) (cons_inj he).2
      obtain ⟨rfl,htarget⟩ := mut_inj hvt hvt' htail
      obtain ⟨hcontent,hpq⟩ := ht hvt t' hvt' p q hp hq htarget
      exact ⟨congrArg (borrow none l m) hcontent,hpq⟩
  | _ => cases hrole

theorem readable_pointer (s : Span) (m : Bool) (t : Ty) (ht : (form true).Readable t) :
    (form false).Readable (pointer s m t) := by
  intro hb u hu p q hp hq he
  have hrole := role_eq hb hu he
  cases u with
  | pointer s' m' t' =>
      rw [write_alone,write_alone,output_pointer,output_pointer] at he
      obtain ⟨hword,htarget⟩ := cons_inj (cons_inj he).2
      have hm : m = m' := by
        cases m <;> cases m'
        · rfl
        · exact absurd hword (by decide)
        · exact absurd hword (by decide)
        · rfl
      obtain ⟨hcontent,hpq⟩ := ht hb t' hu p q hp hq htarget
      exact ⟨hm ▸ congrArg (pointer none m) hcontent,hpq⟩
  | _ => cases hrole

/-- The length of an array in front of its bracket, where there is one. -/
def lengthOutput (n : Expr) (p : Output Token) : Output Token :=
  (Script.onlyIf (!n.isMissing) (Script.sym ";" ++ n.script)).output ++ cons (.sym "]") p

theorem lengthOutput_eq {n : Expr} (h : n.Conforming) (p : Output Token) :
    lengthOutput n p = cons (.sym ";") (n.script.output ++ cons (.sym "]") p) := by
  unfold lengthOutput
  rw [h.isMissing]
  change (Script.sym ";" ++ n.script).output ++ _ = _
  simp only [Script.output_append,Script.output_sym,cons_append,nil_append]

theorem lengthOutput_stops {n : Expr} (h : n.isMissing = true ∨ n.Conforming)
    (p : Output Token) : (lengthOutput n p).Stops := by
  rcases h with h | h
  · unfold lengthOutput
    rw [h]
    exact (ends_square p).stops
  · rw [lengthOutput_eq h]
    exact (ends_semicolon _).stops

/-- A slice is told from an array by what follows the type of its items. -/
theorem lengthOutput_inj {n n' : Expr} (hn : (Expr.form false).Readable n)
    (hv : n.isMissing = true ∨ n.Conforming) (hv' : n'.isMissing = true ∨ n'.Conforming)
    {p q : Output Token} (h : lengthOutput n p = lengthOutput n' q) :
    n.unlocated = n'.unlocated ∧ p = q := by
  have hmissing {n : Expr} (h : n.isMissing = true) : n = .missing := by
    cases n with
    | missing => rfl
    | _ => cases h
  have hslice (p : Output Token) : lengthOutput .missing p = cons (.sym "]") p := rfl
  rcases hv with hv | hv <;> rcases hv' with hv' | hv'
  · rw [hmissing hv,hmissing hv',hslice,hslice] at h
    rw [hmissing hv,hmissing hv']
    exact ⟨rfl,(cons_inj h).2⟩
  · rw [hmissing hv,hslice,lengthOutput_eq hv'] at h
    exact absurd (cons_inj h).1 (by decide)
  · rw [hmissing hv',hslice,lengthOutput_eq hv] at h
    exact absurd (cons_inj h).1 (by decide)
  · rw [lengthOutput_eq hv,lengthOutput_eq hv'] at h
    have hend (p : Output Token) : (Expr.form false).Fits n (cons (.sym "]") p) :=
      ⟨(ends_square p).stops,fun _ => ends_square p⟩
    obtain ⟨hcontent,hrest⟩ := hn hv n' hv' _ _ (hend p) (hend q) (cons_inj h).2
    exact ⟨hcontent,(cons_inj hrest).2⟩

theorem readable_array (s : Span) (t : Ty) (n : Expr) (ht : (form false).Readable t)
    (hn : (Expr.form false).Readable n) : (form false).Readable (array s t n) := by
  intro hb u hu p q hp hq he
  have hrole := role_eq hb hu he
  cases u with
  | array s' t' n' =>
      obtain ⟨hvt,hvn⟩ := hb
      obtain ⟨hvt',hvn'⟩ := hu
      rw [write_alone,write_alone,output_array,output_array] at he
      obtain ⟨hitem,htail⟩ := ht hvt t' hvt' _ _ (lengthOutput_stops hvn p)
        (lengthOutput_stops hvn' q) (cons_inj he).2
      obtain ⟨hlength,hpq⟩ := lengthOutput_inj hn hvn hvn' htail
      have hitem : t.unlocated = t'.unlocated := hitem
      refine ⟨?_,hpq⟩
      change array none t.unlocated n.unlocated = array none t'.unlocated n'.unlocated
      rw [hitem,hlength]
  | _ => cases hrole

theorem readable_path (s : Span) (path : QPath) (hpath : (QPath.form false).Readable path) :
    (form false).Readable (.path s path) := by
  intro hb u hu p q hp hq he
  have hrole := role_eq hb hu he
  cases u with
  | path s' path' =>
      obtain ⟨hcontent,hpq⟩ := hpath ⟨hb,nofun⟩ path' ⟨hu,nofun⟩ p q (.inl hp) (.inl hq) he
      exact ⟨congrArg (Ty.path none) hcontent,hpq⟩
  | _ => cases hrole

/-- A list of bounds ends at the first stop behind it. -/
theorem bounds_readable (word : Text) {bs bs' : List Bound}
    (hbs : ∀ b ∈ bs, Bound.form.Readable b) (hvb : Bound.AllConforming bs)
    (hvb' : Bound.AllConforming bs') {p q : Output Token} (hp : p.Stops) (hq : q.Stops)
    (he : (Script.keyword word ++ Script.separated "+" (Bound.scripts bs)).output ++ p =
      (Script.keyword word ++ Script.separated "+" (Bound.scripts bs')).output ++ q) :
    Bound.unlocatedList bs = Bound.unlocatedList bs' ∧ p = q := by
  rw [output_bounds,output_bounds] at he
  rw [Bound.unlocatedList_eq_map,Bound.unlocatedList_eq_map]
  exact Bound.listable.separated_readable "+" hbs ((Bound.allConforming_iff bs).mp hvb)
    ((Bound.allConforming_iff bs').mp hvb') hp hq (cons_inj he).2

theorem readable_traitObject (s : Span) (bs : List Bound)
    (hbs : ∀ b ∈ bs, Bound.form.Readable b) : (form false).Readable (traitObject s bs) := by
  intro hb u hu p q hp hq he
  have hrole := role_eq hb hu he
  cases u with
  | traitObject s' bs' =>
      obtain ⟨hcontent,hpq⟩ := bounds_readable "dyn" hbs hb hu hp hq he
      exact ⟨congrArg (traitObject none) hcontent,hpq⟩
  | _ => cases hrole

theorem readable_erased (s : Span) (bs : List Bound)
    (hbs : ∀ b ∈ bs, Bound.form.Readable b) : (form false).Readable (erased s bs) := by
  intro hb u hu p q hp hq he
  have hrole := role_eq hb hu he
  cases u with
  | erased s' bs' =>
      obtain ⟨hcontent,hpq⟩ := bounds_readable "impl" hbs hb hu hp hq he
      exact ⟨congrArg (erased none) hcontent,hpq⟩
  | _ => cases hrole

end Ty

end Turbofish
