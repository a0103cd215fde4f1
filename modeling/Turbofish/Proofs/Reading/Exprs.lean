import Turbofish.Proofs.Reading.Kinds

/-!
# Expressions can be read back

An operation on two operands is told by the operator behind the first of them. As an
operand it stands in parentheses, so that no expression begins with another that could
be taken for it. Other expressions are told by their first token, values and calls by
the parenthesis behind their path.
-/
namespace Turbofish

open Output

theorem Token.isEnd_operator (text : Text) : (operator text).isEnd = false := by
  unfold isEnd
  simp [operator,keyword,sym]

theorem Output.not_ends_operator (text : Text) (o : Output Token) :
    ¬ (cons (.operator text) o).Ends := fun h =>
  Bool.eq_false_iff.mp (Token.isEnd_operator text) h.isEnd

theorem Token.isStop_operator (text : Text) : (operator text).isStop = true := by
  unfold isStop
  exact Bool.or_true _

namespace Expr

/-! ## What is written -/

theorem write_alone (e : Expr) : (form false).write e = e.script := rfl

theorem write_operand {e : Expr} (h : e.isBinary = false) (operand : Bool) :
    (form operand).write e = e.script := by
  change Script.parenthesizedIf (operand && e.isBinary) e.script = e.script
  rw [h,Bool.and_false]
  rfl

theorem output_parens {e : Expr} (h : e.isBinary = true) (p : Output Token) :
    ((form true).write e).output ++ p =
      cons (.sym "(") (e.script.output ++ cons (.sym ")") p) := by
  change (Script.parenthesizedIf (true && e.isBinary) e.script).output ++ p = _
  rw [h,Bool.and_true]
  change (Script.sym "(" ++ e.script ++ Script.sym ")").output ++ p = _
  simp only [Script.output_append,Script.output_sym,append_assoc,cons_append,nil_append]

/-- An operation with the token of its operator. -/
theorem output_binary {s : Span} {op : BinaryOp} {l r : Expr}
    (h : (binary s op l r).Conforming) :
    ∃ text, BinaryOp.ofText? text = some op ∧ ∀ p, (binary s op l r).script.output ++ p =
      ((form true).write l).output ++
        cons (.operator text) (((form true).write r).output ++ p) := by
  obtain ⟨text,htext,hop⟩ := BinaryOp.script_eq h.1
  refine ⟨text,htext,fun p => ?_⟩
  have hl : l.isMissing = false := h.2.1.isMissing
  have hr : r.isMissing = false := h.2.2.isMissing
  rw [script,hl,hr,hop]
  change (Script.parenthesizedIf l.isBinary l.script ++ _ ++
    Script.parenthesizedIf r.isBinary r.script).output ++ p = _
  simp only [Script.output_append,Script.output_token,Script.output_done,append_assoc,
    cons_append,nil_append]
  rfl

theorem argScripts_eq_map (s : Span) {es : List Expr} (h : ∀ e ∈ es, e.Conforming) :
    argScripts s es = es.map script := by
  induction es with
  | nil => rfl
  | cons e es ih =>
      obtain ⟨he,hes⟩ := List.forall_mem_cons.mp h
      rw [argScripts,he.isMissing,ih hes]
      rfl

theorem statementScripts_eq_map (s : Span) {es : List Expr} (h : ∀ e ∈ es, e.Conforming) :
    statementScripts s es = es.map tracedScript := by
  induction es with
  | nil => rfl
  | cons e es ih =>
      obtain ⟨he,hes⟩ := List.forall_mem_cons.mp h
      rw [statementScripts,he.isMissing,ih hes]
      rfl

theorem output_call {s : Span} {path : QPath} {es : List Expr} (h : ∀ e ∈ es, e.Conforming)
    (p : Output Token) : (call s path es).script.output ++ p = path.script.output ++
      cons (.sym "(") ((Script.separated "," (es.map script)).output ++ cons (.sym ")") p) := by
  rw [script,argScripts_eq_map s h]
  simp only [Script.output_append,Script.output_sym,append_assoc,cons_append,nil_append]

theorem output_unary {s : Span} {op : UnaryOp} {e : Expr} (h : e.Conforming)
    (p : Output Token) : (unary s op e).script.output ++ p =
      op.script.output ++ (((form true).write e).output ++ p) := by
  rw [script,h.isMissing]
  change (op.script ++ Script.parenthesizedIf e.isBinary e.script).output ++ p = _
  rw [Script.output_append,append_assoc]
  rfl

theorem output_int (s : Span) (n : UInt64) (c : CoreType) (p : Output Token) :
    (int s n c).script.output ++ p = cons (.literal (Text.ofNat n.toNat ++ c.name)) p := by
  change (c.script ++ Script.literal _).output ++ p = _
  rw [Script.output_append,c.script_output,nil_append]
  rfl

/-! ## Operations and their operands -/

theorem isBinary_of_role {e : Expr} (h : e.role = .round) : e.isBinary = true := by
  cases e with
  | binary _ _ _ _ => rfl
  | unary _ op _ => cases op <;> cases h
  | _ => cases h

/-- As operands, expressions that start alike have the same role. -/
theorem role_eq {e f : Expr} (he : e.Conforming) (hf : f.Conforming) {p q : Output Token}
    (h : ((form true).write e).output ++ p = ((form true).write f).output ++ q) :
    e.role = f.role := (leads he).role_eq (leads hf) h

/-- An expression that is no operation is read in both forms when it is read against
others of its role. -/
theorem readable_of_role {e : Expr} (hbinary : e.isBinary = false)
    (h : e.Conforming → ∀ f : Expr, f.Conforming → f.role = e.role → ∀ p q, p.Stops → q.Stops →
      e.script.output ++ p = f.script.output ++ q → e.unlocated = f.unlocated ∧ p = q)
    (operand : Bool) : (form operand).Readable e := by
  have hoperand : (form true).Readable e := by
    intro he f hf p q hp hq heq
    have hrole := role_eq he hf heq
    have hf' : f.isBinary = false := by
      cases f with
      | binary _ _ _ _ => rw [isBinary_of_role hrole] at hbinary; cases hbinary
      | _ => rfl
    rw [write_operand hbinary,write_operand hf'] at heq
    exact h he f hf hrole.symm p q hp.1 hq.1 heq
  cases operand with
  | true => exact hoperand
  | false =>
      intro he f hf p q hp hq heq
      cases f with
      | binary s op l r =>
          -- The operator would have to follow the expression alone.
          obtain ⟨text,_,hwrite⟩ := output_binary hf
          rw [write_alone (binary s op l r),hwrite,write_operand hbinary,
            ← write_operand hbinary true] at heq
          obtain ⟨_,hrest⟩ := hoperand he l hf.2.1 _ _ ⟨hp.1,nofun⟩
            ⟨stops_cons (Token.isStop_operator text) _,nofun⟩ heq
          exact absurd (hrest ▸ hp.2 rfl) (not_ends_operator _ _)
      | _ =>
          rw [write_alone,← write_operand hbinary true] at heq
          exact hoperand he _ hf p q ⟨hp.1,nofun⟩ ⟨hq.1,nofun⟩ heq

/-- Operations alone, in front of anything that may follow an operand. -/
theorem binary_inj {s s' : Span} {op op' : BinaryOp} {l r l' r' : Expr}
    (hl : (form true).Readable l) (hr : (form true).Readable r)
    (hv : (binary s op l r).Conforming) (hv' : (binary s' op' l' r').Conforming)
    {p q : Output Token} (hp : p.Stops) (hq : q.Stops)
    (h : (binary s op l r).script.output ++ p = (binary s' op' l' r').script.output ++ q) :
    (binary s op l r).unlocated = (binary s' op' l' r').unlocated ∧ p = q := by
  obtain ⟨text,htext,hwrite⟩ := output_binary hv
  obtain ⟨text',htext',hwrite'⟩ := output_binary hv'
  rw [hwrite,hwrite'] at h
  obtain ⟨hleft,hrest⟩ := hl hv.2.1 l' hv'.2.1 _ _
    ⟨stops_cons (Token.isStop_operator text) _,nofun⟩
    ⟨stops_cons (Token.isStop_operator text') _,nofun⟩ h
  obtain ⟨hop,hrest⟩ := cons_inj hrest
  have hop : op = op' := by
    rw [show text = text' from congrArg Token.text hop,htext'] at htext
    exact (Option.some.inj htext).symm
  obtain ⟨hright,hpq⟩ := hr hv.2.2 r' hv'.2.2 p q ⟨hp,nofun⟩ ⟨hq,nofun⟩ hrest
  refine ⟨?_,hpq⟩
  rw [unlocated,unlocated,hop,show l.unlocated = l'.unlocated from hleft,
    show r.unlocated = r'.unlocated from hright]

theorem readable_binary (s : Span) (op : BinaryOp) {l r : Expr} (hl : (form true).Readable l)
    (hr : (form true).Readable r) (operand : Bool) : (form operand).Readable (binary s op l r) := by
  intro he f hf p q hp hq heq
  cases operand with
  | true =>
      have hbinary : f.isBinary = true := isBinary_of_role (role_eq he hf heq).symm
      cases f with
      | binary s' op' l' r' =>
          rw [output_parens rfl,output_parens rfl] at heq
          obtain ⟨hcontent,hrest⟩ := binary_inj hl hr he hf (ends_round p).stops
            (ends_round q).stops (cons_inj heq).2
          exact ⟨hcontent,(cons_inj hrest).2⟩
      | _ => cases hbinary
  | false =>
      by_cases hbinary : f.isBinary = true
      · cases f with
        | binary s' op' l' r' => exact binary_inj hl hr he hf hp.1 hq.1 heq
        | _ => cases hbinary
      · obtain ⟨text,_,hwrite⟩ := output_binary he
        rw [write_alone (binary s op l r),hwrite,write_alone f,
          ← write_operand (Bool.eq_false_iff.mpr hbinary) true] at heq
        obtain ⟨_,hrest⟩ := hl he.2.1 f hf _ _ ⟨stops_cons (Token.isStop_operator text) _,nofun⟩
          ⟨hq.1,nofun⟩ heq
        exact absurd (hrest ▸ hq.2 rfl) (not_ends_operator _ _)

/-! ## Literals and operations on one operand -/

theorem readable_int (s : Span) (n : UInt64) (c : CoreType) (operand : Bool) :
    (form operand).Readable (int s n c) := by
  refine readable_of_role rfl (fun he f hf hrole p q _ _ heq => ?_) operand
  rw [output_int] at heq
  cases f with
  | int s' n' c' =>
      rw [output_int] at heq
      obtain ⟨htoken,hpq⟩ := cons_inj heq
      obtain ⟨rfl,rfl⟩ := CoreType.literal_inj he hf (congrArg Token.text htoken)
      exact ⟨rfl,hpq⟩
  | str s' t =>
      exact absurd (congrArg Token.text (cons_inj heq).1) (Text.ofNat_append_ne_quoted _ _ _)
  | unary _ op _ => cases op <;> cases hrole
  | _ => cases hrole

theorem readable_str (s : Span) (t : Text) (operand : Bool) : (form operand).Readable (str s t) := by
  refine readable_of_role rfl (fun _ f _ hrole p q _ _ heq => ?_) operand
  cases f with
  | int s' n c =>
      rw [output_int] at heq
      exact absurd (congrArg Token.text (cons_inj heq).1).symm (Text.ofNat_append_ne_quoted _ _ _)
  | str s' t' =>
      obtain ⟨htoken,hpq⟩ := cons_inj heq
      have ht : t = t' := Text.quoted_inj (congrArg Token.text htoken)
      exact ⟨congrArg (str none) ht,hpq⟩
  | unary _ op _ => cases op <;> cases hrole
  | _ => cases hrole

theorem readable_bool (s : Span) (b : Bool) (operand : Bool) :
    (form operand).Readable (bool s b) := by
  refine readable_of_role rfl (fun _ f _ hrole p q _ _ heq => ?_) operand
  cases f with
  | bool s' b' =>
      obtain ⟨htoken,hpq⟩ := cons_inj heq
      have hb : b = b' := by
        cases b <;> cases b'
        · rfl
        · exact absurd htoken (by decide)
        · exact absurd htoken (by decide)
        · rfl
      exact ⟨congrArg (bool none) hb,hpq⟩
  | unary _ op _ => cases op <;> cases hrole
  | _ => cases hrole

theorem readable_unary (s : Span) (op : UnaryOp) {e : Expr} (he : (form true).Readable e)
    (operand : Bool) : (form operand).Readable (unary s op e) := by
  refine readable_of_role rfl (fun hv f hf hrole p q hp hq heq => ?_) operand
  cases f with
  | unary s' op' e' =>
      have hve : e.Conforming := hv
      have hve' : e'.Conforming := hf
      rw [output_unary hve,output_unary hve'] at heq
      have hop : op = op' := by
        cases op <;> cases op'
        · rfl
        · cases hrole
        · cases hrole
        · rfl
      subst hop
      have hrest : ((form true).write e).output ++ p = ((form true).write e').output ++ q := by
        cases op <;> exact (cons_inj heq).2
      obtain ⟨hcontent,hpq⟩ := he hve e' hve' p q ⟨hp,nofun⟩ ⟨hq,nofun⟩ hrest
      exact ⟨congrArg (unary none op) hcontent,hpq⟩
  | _ => cases op <;> cases hrole

/-! ## Values and calls -/

/-- What may follow a path in an expression, with or without a call. -/
theorem endsPath_call (o : Output Token) : (cons (.sym "(") o).EndsPath true := .inr ⟨rfl,o,rfl⟩

theorem not_stops_call (o : Output Token) : ¬ (cons (.sym "(") o).Stops :=
  fun h => absurd h.isStop (by decide)

theorem readable_name (s : Span) {path : QPath} (hpath : (QPath.form true).Readable path)
    (operand : Bool) : (form operand).Readable (name s path) := by
  refine readable_of_role rfl (fun hv f hf hrole p q hp hq heq => ?_) operand
  cases f with
  | name s' path' =>
      obtain ⟨hcontent,hpq⟩ := hpath ⟨hv.1,fun _ => hv.2⟩ path' ⟨hf.1,fun _ => hf.2⟩ p q (.inl hp)
        (.inl hq) heq
      exact ⟨congrArg (name none) hcontent,hpq⟩
  | call s' path' es =>
      rw [output_call ((allConforming_iff es).mp hf.2.2)] at heq
      obtain ⟨_,hrest⟩ := hpath ⟨hv.1,fun _ => hv.2⟩ path' ⟨hf.1,fun _ => hf.2.1⟩ _ _ (.inl hp)
        (endsPath_call _) heq
      exact absurd (hrest ▸ hp) (not_stops_call _)
  | unary _ op _ => cases op <;> cases hrole
  | _ => cases hrole

theorem readable_call (s : Span) {path : QPath} {es : List Expr}
    (hpath : (QPath.form true).Readable path) (hes : ∀ e ∈ es, (form false).Readable e)
    (operand : Bool) : (form operand).Readable (call s path es) := by
  refine readable_of_role rfl (fun hv f hf hrole p q hp hq heq => ?_) operand
  have hves := (allConforming_iff es).mp hv.2.2
  rw [output_call hves] at heq
  cases f with
  | name s' path' =>
      obtain ⟨_,hrest⟩ := hpath ⟨hv.1,fun _ => hv.2.1⟩ path' ⟨hf.1,fun _ => hf.2⟩ _ q
        (endsPath_call _) (.inl hq) heq
      exact absurd (hrest ▸ hq) (not_stops_call _)
  | call s' path' es' =>
      have hves' := (allConforming_iff es').mp hf.2.2
      rw [output_call hves'] at heq
      obtain ⟨hcontent,hrest⟩ := hpath ⟨hv.1,fun _ => hv.2.1⟩ path' ⟨hf.1,fun _ => hf.2.1⟩ _ _
        (endsPath_call _) (endsPath_call _) heq
      obtain ⟨hargs,hpq⟩ := listable.separated_readable "," hes hves hves' (ends_round p).stops
        (ends_round q).stops (cons_inj hrest).2
      refine ⟨?_,(cons_inj hpq).2⟩
      have hargs : es.map unlocated = es'.map unlocated := hargs
      rw [unlocated,unlocated,unlocatedList_eq_map,unlocatedList_eq_map,hargs,
        show path.unlocated = path'.unlocated from hcontent]
  | unary _ op _ => cases op <;> cases hrole
  | _ => cases hrole

/-! ## Blocks -/

/-- What follows a statement inside a block. -/
def afterStatement (yields : Bool) (es : List Expr) (p : Output Token) : Output Token :=
  match es, yields with
  | [], true => cons (.sym "\x7d") p
  | [], false => cons (.sym ";") (cons (.sym "\x7d") p)
  | e :: es, _ => cons (.sym ";")
      ((Script.statements yields ((e :: es).map tracedScript)).output ++ cons (.sym "\x7d") p)

theorem output_statements (yields : Bool) (e : Expr) (es : List Expr) (p : Output Token) :
    (Script.statements yields ((e :: es).map tracedScript)).output ++ cons (.sym "\x7d") p =
      e.script.output ++ afterStatement yields es p := by
  have htraced : e.tracedScript.output = e.script.output := append_nil _
  cases es with
  | nil =>
      change (e.tracedScript ++ Script.onlyIf (!yields) (Script.sym ";")).output ++ _ = _
      rw [Script.output_append,htraced,append_assoc]
      cases yields <;> rfl
  | cons f es =>
      change (e.tracedScript ++ Script.sym ";" ++ _).output ++ _ = _
      rw [Script.output_append,Script.output_append,htraced,append_assoc,append_assoc]
      cases yields <;> rfl

theorem afterStatement_ends (yields : Bool) (es : List Expr) (p : Output Token) :
    (afterStatement yields es p).Ends := by
  cases es with
  | nil =>
      cases yields with
      | true => exact ends_curly p
      | false => exact ends_semicolon _
  | cons e es => exact ends_semicolon _

/-- No statement starts with what closes a block. -/
theorem not_closed {e : Expr} (he : e.Conforming) (y : Bool) (es : List Expr)
    (o p : Output Token) : cons (.sym "\x7d") o ≠
      (Script.statements y ((e :: es).map tracedScript)).output ++ cons (.sym "\x7d") p := by
  intro h
  rw [output_statements] at h
  exact (starts he).not_stops _ (h ▸ (ends_curly o).stops)

/-- What follows a statement shows whether it is the last one, and then whether it is the
value of the block. -/
theorem afterStatement_cases {y y' : Bool} {es es' : List Expr} (hv : ∀ e ∈ es, e.Conforming)
    (hv' : ∀ e ∈ es', e.Conforming) {p q : Output Token}
    (h : afterStatement y es p = afterStatement y' es' q) :
    (es = [] ∧ es' = [] ∧ y = y' ∧ p = q) ∨ (es ≠ [] ∧ es' ≠ [] ∧
      (Script.statements y (es.map tracedScript)).output ++ cons (.sym "\x7d") p =
        (Script.statements y' (es'.map tracedScript)).output ++ cons (.sym "\x7d") q) := by
  cases es with
  | nil =>
      cases es' with
      | nil =>
          refine .inl ⟨rfl,rfl,?_⟩
          cases y <;> cases y'
          · exact ⟨rfl,(cons_inj (cons_inj h).2).2⟩
          · exact absurd (cons_inj h).1 (by decide)
          · exact absurd (cons_inj h).1 (by decide)
          · exact ⟨rfl,(cons_inj h).2⟩
      | cons f' es' =>
          cases y with
          | false => exact absurd (cons_inj h).2 (not_closed (hv' f' (List.mem_cons_self ..)) _ _ _ _)
          | true => exact absurd (cons_inj h).1 (by decide)
  | cons f es =>
      cases es' with
      | nil =>
          cases y' with
          | false =>
              exact absurd (cons_inj h).2.symm (not_closed (hv f (List.mem_cons_self ..)) _ _ _ _)
          | true => exact absurd (cons_inj h).1 (by decide)
      | cons f' es' => exact .inr ⟨nofun,nofun,(cons_inj h).2⟩

/-- A block is closed, and has a value or not, where its statements end. -/
theorem statements_readable {y y' : Bool} {es es' : List Expr}
    (hes : ∀ e ∈ es, (form false).Readable e) (hv : ∀ e ∈ es, e.Conforming)
    (hv' : ∀ e ∈ es', e.Conforming) (hy : es = [] → y = true) (hy' : es' = [] → y' = true)
    {p q : Output Token}
    (h : (Script.statements y (es.map tracedScript)).output ++ cons (.sym "\x7d") p =
      (Script.statements y' (es'.map tracedScript)).output ++ cons (.sym "\x7d") q) :
    y = y' ∧ es.map unlocated = es'.map unlocated ∧ p = q := by
  induction es generalizing es' with
  | nil =>
      cases es' with
      | nil => exact ⟨(hy rfl).trans (hy' rfl).symm,rfl,(cons_inj h).2⟩
      | cons e' es' => exact absurd h (not_closed (hv' e' (List.mem_cons_self ..)) _ _ _ _)
  | cons e es ih =>
      cases es' with
      | nil => exact absurd h.symm (not_closed (hv e (List.mem_cons_self ..)) _ _ _ _)
      | cons e' es' =>
          obtain ⟨he,hes⟩ := List.forall_mem_cons.mp hes
          obtain ⟨hve,hves⟩ := List.forall_mem_cons.mp hv
          obtain ⟨hve',hves'⟩ := List.forall_mem_cons.mp hv'
          rw [output_statements,output_statements] at h
          have hafter (y : Bool) (es : List Expr) (p : Output Token) :
              (form false).Fits e (afterStatement y es p) :=
            ⟨(afterStatement_ends y es p).stops,fun _ => afterStatement_ends y es p⟩
          obtain ⟨hcontent,hrest⟩ := he hve e' hve' _ _ (hafter ..) (hafter ..) h
          have hcontent : e.unlocated = e'.unlocated := hcontent
          rw [List.map_cons,List.map_cons,hcontent]
          rcases afterStatement_cases hves hves' hrest with ⟨rfl,rfl,hyy,hpq⟩ | ⟨hne,hne',htail⟩
          · exact ⟨hyy,rfl,hpq⟩
          · obtain ⟨hyy,htails,hpq⟩ := ih hes hves hves' (absurd · hne) (absurd · hne') htail
            exact ⟨hyy,congrArg (_ :: ·) htails,hpq⟩

theorem output_block {s : Span} {k : BlockKind} {y : Bool} {es : List Expr}
    (h : ∀ e ∈ es, e.Conforming) (p : Output Token) :
    (block s k y es).script.output ++ p = k.script.output ++ cons (.sym "\x7b")
      ((Script.statements y (es.map tracedScript)).output ++ cons (.sym "\x7d") p) := by
  rw [script,statementScripts_eq_map s h]
  simp only [Script.output_append,Script.output_sym,append_assoc,cons_append,nil_append]

theorem readable_block (s : Span) (k : BlockKind) (y : Bool) {es : List Expr}
    (hes : ∀ e ∈ es, (form false).Readable e) (operand : Bool) :
    (form operand).Readable (block s k y es) := by
  refine readable_of_role rfl (fun hv f hf hrole p q hp hq heq => ?_) operand
  cases f with
  | block s' k' y' es' =>
      obtain ⟨hk,hy,hves⟩ := hv
      obtain ⟨hk',hy',hves'⟩ := hf
      have hves := (allConforming_iff es).mp hves
      have hves' := (allConforming_iff es').mp hves'
      rw [output_block hves,output_block hves'] at heq
      have hkind : k = k' ∧
          (Script.statements y (es.map tracedScript)).output ++ cons (.sym "\x7d") p =
            (Script.statements y' (es'.map tracedScript)).output ++ cons (.sym "\x7d") q := by
        cases k <;> cases k' <;>
          first
          | exact absurd hk (BlockKind.unassigned_outside _)
          | exact absurd hk' (BlockKind.unassigned_outside _)
          | exact absurd (cons_inj heq).1 (by decide)
          | exact ⟨rfl,(cons_inj heq).2⟩
          | exact ⟨rfl,(cons_inj (cons_inj heq).2).2⟩
      obtain ⟨rfl,hbody⟩ := hkind
      obtain ⟨rfl,hcontent,hpq⟩ := statements_readable hes hves hves' hy hy' hbody
      refine ⟨?_,hpq⟩
      rw [unlocated,unlocated,unlocatedList_eq_map,unlocatedList_eq_map,hcontent]
  | unary _ op _ => cases op <;> cases hrole
  | _ => cases hrole

end Expr

end Turbofish
