import Turbofish.Printing.Script
import Turbofish.Text.Escaped

/-!
# How trees are printed

The script of every kind of node. A list of several bounds stands in parentheses
behind `&`, `*const`, `*mut` and `->`, and an operator inside an operand does
too. The arguments in angle brackets come in three groups: lifetimes, types and
values, associated items.
-/
namespace Turbofish

open Script

/-- A lifetime that is written out has to be specified. -/
def Lifetime.script (l : Lifetime) : Script :=
  if l.isSpecified then Script.lifetime l.name else fail (.nowhere .unspecifiedLifetime)

/-- The binders in front of a bound, `for<'a, 'b>`. -/
def Lifetime.bindersScript (ls : List Lifetime) : Script :=
  onlyIf (!ls.isEmpty)
    (keyword "for" ++ sym "<" ++ separated "," (ls.map Lifetime.script) ++ sym ">")

def CoreType.script : CoreType → Script
  | unassigned extra => remark (.unknownCoreType (unassigned extra).number) done
  | _ => done

/-- An integer literal with its type behind it. -/
def CoreType.literalScript (c : CoreType) (value : UInt64) : Script :=
  c.script ++ literal (Text.ofNat value.toNat ++ c.name)

def BinaryOp.script (op : BinaryOp) : Script := ofExcept (op.text.map .operator)

/-- The fault of an operator without both its operands. An operator without a
text is reported as such instead. -/
def BinaryOp.missingOperand (op : BinaryOp) (span : Span) : Fault :=
  match op.text with
  | .ok t => ⟨.missingOperand t, span⟩
  | .error f => f

def UnaryOp.script : UnaryOp → Script
  | negate => sym "-"
  | invert => sym "!"

def BlockKind.script : BlockKind → Script
  | unsafeBlock => keyword "unsafe"
  | constBlock => keyword "const"
  | bare | unassigned _ _ => done

/-- `<T as a::Tr>::x` from the script of the type and those of the segments, of
which the first `position` are the interface. -/
def Script.qualified (self : Script) (position : UInt64) (rooted : Bool) (ss : List Script) :
    Script :=
  let interface := ss.take position.toNat
  sym "<" ++ self
    ++ onlyIf (ss.length < position.toNat) (remark (.clampedPosition position ss.length) done)
    ++ onlyIf (!interface.isEmpty) (keyword "as" ++ segments rooted interface)
    ++ sym ">"
    ++ each "::" (ss.drop position.toNat)

mutual

def Ty.script : Ty → Script
  | .moved _ => fail (.moved .ty)
  | .invalid s => fail ⟨.invalidType, s⟩
  | .infer _ => keyword "_"
  | .never _ => sym "!"
  | .unit _ => sym "(" ++ sym ")"
  | .tuple _ ts => sym "(" ++ items (Ty.scripts ts) ++ sym ")"
  | .borrow _ l m t =>
    sym "&" ++ onlyIf l.isSpecified l.script ++ onlyIf m (keyword "mut")
      ++ parenthesizedIf t.needsParens t.script
  | .pointer _ m t =>
    sym "*" ++ keyword (if m then "mut" else "const") ++ parenthesizedIf t.needsParens t.script
  | .array _ t n =>
    sym "[" ++ t.script
      ++ onlyIf (!n.isMissing) (sym ";" ++ scope (.expr n.className) n.script done) ++ sym "]"
  | .path _ p => p.script
  | .traitObject _ bs => keyword "dyn" ++ separated "+" (Bound.scripts bs)
  | .erased _ bs => keyword "impl" ++ separated "+" (Bound.scripts bs)

def Ty.scripts : List Ty → List Script
  | [] => []
  | t :: ts => t.script :: Ty.scripts ts

/-- The output type of a parenthesized argument list. -/
def Ty.outputScript : Option Ty → Script
  | none => done
  | some t => sym "->" ++ parenthesizedIf t.needsParens t.script

def Bound.script : Bound → Script
  | .moved => fail (.moved .bound)
  | .empty => fail (.nowhere .emptyBound)
  | .lifetime l => l.script
  | .trait ls p => Lifetime.bindersScript ls ++ p.script
  | .maybe p => sym "?" ++ p.script

def Bound.scripts : List Bound → List Script
  | [] => []
  | b :: bs => b.script :: Bound.scripts bs

def Path.script : Path → Script
  | .mk r ss => scope (.path r ss.length) (segments r (Segment.scripts ss)) done

def Segment.script : Segment → Script
  | .mk n as => ident n ++ as.script

def Segment.scripts : List Segment → List Script
  | [] => []
  | s :: ss => s.script :: Segment.scripts ss

def Args.script : Args → Script
  | .moved => fail (.moved .args)
  | .none => done
  | .angle r as =>
    scope (.args as.length r)
      (onlyIf r (sym "::") ++ sym "<"
        ++ separated "," (Arg.scripts .lifetimes as)
        ++ separated "," (Arg.scripts .values as)
        ++ separated "," (Arg.scripts .associated as)
        ++ sym ">")
      done
  | .parenthesized ts o =>
    sym "(" ++ separated "," (Ty.scripts ts) ++ sym ")" ++ Ty.outputScript o

def Arg.script : Arg → Script
  | .moved => fail (.moved .arg)
  | .lifetime l => l.script
  | .ty t => t.script
  | .value .missing => fail (.nowhere .missingConstArgument)
  | .value e =>
    if e.isSelfDelimiting then e.script
    else sym "\x7b" ++ scope (.expr e.className) e.script done ++ sym "\x7d"
  | .binding n t => ident n ++ sym "=" ++ t.script
  | .constraint n bs =>
    scope (.constraint n bs) (ident n ++ sym ":" ++ separated "+" (Bound.scripts bs)) done

/-- The scripts of the arguments in one group. -/
def Arg.scripts (group : ArgGroup) : List Arg → List Script
  | [] => []
  | a :: as =>
    if a.group? = some group then a.script :: Arg.scripts group as else Arg.scripts group as

def QPath.script : QPath → Script
  | .plain p => p.script
  | .qualified t n (.mk r ss) =>
    scope (.qualifiedPath t n ss.length)
      (Script.qualified t.script n r (Segment.scripts ss)) done

/-- An expression without the scope that a trace shows around it. -/
def Expr.script : Expr → Script
  | .missing => done
  | .block s k y es => k.script ++ sym "\x7b" ++ statements y (Expr.statementScripts s es) ++ sym "\x7d"
  | .call s p es => p.script ++ sym "(" ++ separated "," (Expr.argScripts s es) ++ sym ")"
  | .int _ n c => c.literalScript n
  | .bool _ b => keyword (if b then "true" else "false")
  | .str _ t => literal t.quoted
  | .name _ p => p.script
  | .binary s op l r =>
    if l.isMissing || r.isMissing then fail (op.missingOperand s)
    else parenthesizedIf l.isBinary l.script ++ op.script ++ parenthesizedIf r.isBinary r.script
  | .unary s op e =>
    if e.isMissing then fail ⟨.missingUnaryOperand, s⟩
    else op.script ++ parenthesizedIf e.isBinary e.script

def Expr.statementScripts (span : Span) : List Expr → List Script
  | [] => []
  | e :: es =>
    (if e.isMissing then fail ⟨.missingStatement, span⟩
      else scope (.expr e.className) e.script done) :: Expr.statementScripts span es

def Expr.argScripts (span : Span) : List Expr → List Script
  | [] => []
  | e :: es =>
    (if e.isMissing then fail ⟨.missingCallArgument, span⟩ else e.script) :: Expr.argScripts span es

end

/-! ## Lists of nodes, element by element -/

theorem Ty.scripts_eq_map (ts : List Ty) : Ty.scripts ts = ts.map Ty.script := by
  induction ts with
  | nil => rfl
  | cons t ts ih => simp only [Ty.scripts, List.map_cons, ih]

theorem Bound.scripts_eq_map (bs : List Bound) : Bound.scripts bs = bs.map Bound.script := by
  induction bs with
  | nil => rfl
  | cons b bs ih => simp only [Bound.scripts, List.map_cons, ih]

theorem Segment.scripts_eq_map (ss : List Segment) :
    Segment.scripts ss = ss.map Segment.script := by
  induction ss with
  | nil => rfl
  | cons s ss ih => simp only [Segment.scripts, List.map_cons, ih]

/-- The arguments of a group keep their order. -/
theorem Arg.scripts_eq_map (group : ArgGroup) (as : List Arg) :
    Arg.scripts group as = (as.filter (·.group? = some group)).map Arg.script := by
  induction as with
  | nil => rfl
  | cons a as ih =>
    by_cases h : a.group? = some group
    · simp only [Arg.scripts, if_pos h, List.filter_cons, decide_eq_true h, if_true, List.map_cons, ih]
    · simp only [Arg.scripts, if_neg h, List.filter_cons, decide_eq_false h, ih, Bool.false_eq_true,
        if_false]

/-- Arguments that are changed within their group. -/
theorem Arg.filter_group_map {f : Arg → Arg} (hf : ∀ a, (f a).group? = a.group?)
    (group : ArgGroup) (as : List Arg) :
    (as.map f).filter (·.group? = some group) = (as.filter (·.group? = some group)).map f := by
  rw [List.filter_map]
  simp only [Function.comp_def, hf]

/-- What is printed for the arguments of a call, one by one. -/
theorem Expr.argScripts_eq_map_ite (span : Span) (es : List Expr) :
    Expr.argScripts span es = es.map fun e =>
      if e.isMissing then fail ⟨.missingCallArgument, span⟩ else e.script := by
  induction es with
  | nil => rfl
  | cons e es ih => simp only [Expr.argScripts, List.map_cons, ih]

/-- What is printed for the statements of a block, one by one. -/
theorem Expr.statementScripts_eq_map_ite (span : Span) (es : List Expr) :
    Expr.statementScripts span es = es.map fun e =>
      if e.isMissing then fail ⟨.missingStatement, span⟩
      else scope (.expr e.className) e.script done := by
  induction es with
  | nil => rfl
  | cons e es ih => simp only [Expr.statementScripts, List.map_cons, ih]

/-- An expression in the scope that a trace shows around it. -/
def Expr.tracedScript (e : Expr) : Script := scope (.expr e.className) e.script done

theorem Arg.script_missing {e : Expr} (h : e.isMissing = true) :
    (Arg.value e).script = fail (.nowhere .missingConstArgument) := by
  cases e with
  | missing => rfl
  | _ => cases h

/-- Values that delimit themselves stand alone, the others in braces. -/
theorem Arg.script_value {e : Expr} (h : e.isMissing = false) :
    (Arg.value e).script =
      if e.isSelfDelimiting then e.script else sym "\x7b" ++ e.tracedScript ++ sym "\x7d" := by
  cases e with
  | missing => cases h
  | _ => rfl

/-- A literal alone; every other expression is refused. -/
def Expr.literalScript (e : Expr) : Script :=
  if e.isLiteral then e.script else fail ⟨.notLiteral e.className, e.span⟩

end Turbofish
