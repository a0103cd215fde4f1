import Turbofish.Syntax.Describe
import Turbofish.Token.Buffer
import Turbofish.Output

/-!
# Scripts

A script says what printing a node does, step by step: tokens to write, remarks,
scopes that a trace shows as entered and left, and the fault where printing ends
early. A script is read in two ways: for its output alone, or together with a
trace.
-/
namespace Turbofish

/-- A place in a tree whose printing a trace shows, with the parts that the
entry describes. -/
inductive Site
  | qualifiedPath (self : Ty) (position : UInt64) (size : Nat)
  | path (rooted : Bool) (size : Nat)
  | args (size : Nat) (rooted : Bool)
  | constraint (name : Text) (bounds : List Bound)
  | expr (className : Text)
  deriving Repr

/-- The name a site has in a trace. -/
def Site.label : Site → Text
  | qualifiedPath _ _ _ => "qpath"
  | path _ _ => "path"
  | args _ _ => "angle_bracketed_generic_arguments"
  | constraint _ _ => "constraint"
  | expr _ => "expr"

/-- Something odd that is passed over, and that only a trace mentions. -/
inductive Remark
  | clampedPosition (position : UInt64) (size : Nat)
  | unknownCoreType (number : Nat)
  deriving DecidableEq, Repr

namespace Remark

/-- The name in a trace of the activity that the remark comes from. -/
def label : Remark → Text
  | clampedPosition _ _ => "qpath"
  | unknownCoreType _ => "coretype_name"

def text : Remark → Text
  | clampedPosition position size =>
    Text.ofString "Clamped qself position " ++ Text.ofNat position.toNat ++ Text.ofString " to "
      ++ Text.ofNat size
  | unknownCoreType number => Text.ofString "Unknown core type?! " ++ Text.ofNat number

end Remark

inductive Script
  | done
  | token (t : Token) (rest : Script)
  | remark (r : Remark) (rest : Script)
  | fail (fault : Fault)
  | scope (site : Site) (body rest : Script)
  deriving Repr

namespace Script

/-- What comes after a failure is not reached. -/
def append : Script → Script → Script
  | done, s => s
  | token t r, s => token t (r.append s)
  | remark n r, s => remark n (r.append s)
  | fail f, _ => fail f
  | scope site b r, s => scope site b (r.append s)

instance : Append Script := ⟨append⟩

/-- The tokens, up to the fault if there is one. -/
def output : Script → Output Token
  | done => .nil
  | token t r => r.output.cons t
  | remark _ r => r.output
  | fail f => .fail f
  | scope _ b r => b.output ++ r.output

@[simp] theorem done_append (s : Script) : done ++ s = s := rfl

@[simp] theorem token_append (t : Token) (r s : Script) : token t r ++ s = token t (r ++ s) := rfl

@[simp] theorem remark_append (m : Remark) (r s : Script) : remark m r ++ s = remark m (r ++ s) := rfl

@[simp] theorem fail_append (f : Fault) (s : Script) : fail f ++ s = fail f := rfl

@[simp] theorem scope_append (site : Site) (b r s : Script) :
    scope site b r ++ s = scope site b (r ++ s) := rfl

@[simp] theorem append_done (s : Script) : s ++ done = s := by
  induction s with
  | done | fail => rfl
  | token _ _ ih => simp only [token_append, ih]
  | remark _ _ ih => simp only [remark_append, ih]
  | scope _ _ _ _ ih => simp only [scope_append, ih]

theorem append_assoc (r s t : Script) : r ++ s ++ t = r ++ (s ++ t) := by
  induction r with
  | done | fail => rfl
  | token _ _ ih => simp only [token_append, ih]
  | remark _ _ ih => simp only [remark_append, ih]
  | scope _ _ _ _ ih => simp only [scope_append, ih]

@[simp] theorem output_append (r s : Script) : (r ++ s).output = r.output ++ s.output := by
  induction r with
  | done | fail => rfl
  | token t _ ih => simp only [token_append, output, ih, Output.cons_append]
  | remark _ _ ih => simp only [remark_append, output, ih]
  | scope _ _ _ _ ih => simp only [scope_append, output, ih, Output.append_assoc]

/-- A scope leaves no mark on the output. -/
theorem output_scope_done (site : Site) (s : Script) : (scope site s done).output = s.output :=
  Output.append_nil s.output

/-! ## Single steps -/

def sym (text : Text) : Script := token (.sym text) done
def keyword (text : Text) : Script := token (.keyword text) done
def literal (text : Text) : Script := token (.literal text) done
def separator (text : Text) : Script := token (.separator text) done
def lifetime (name : Text) : Script := token (.lifetime name) done

/-- A token, or the reason why there is none. -/
def ofExcept : Except Fault Token → Script
  | .ok t => token t done
  | .error f => fail f

def ident (name : Text) : Script := ofExcept (Token.ident name)

/-- What a call of a token buffer writes. -/
def call (c : Buffer.Call) : Script := ofExcept c.token

theorem sym_eq_call {text : Text} (h : Token.word text = .ok (.sym text)) :
    sym text = call (.word text) := by
  rw [call, Buffer.Call.token, h, ofExcept, sym]

theorem keyword_eq_call {text : Text} (h : Token.word text = .ok (.keyword text)) :
    keyword text = call (.word text) := by
  rw [call, Buffer.Call.token, h, ofExcept, keyword]

/-- A script that is used only where a condition holds. -/
def onlyIf (c : Bool) (s : Script) : Script := if c then s else done

def parenthesizedIf (c : Bool) (s : Script) : Script :=
  if c then sym "(" ++ s ++ sym ")" else s

/-! ## Lists -/

/-- A separator after every element. -/
def separated (sep : Text) : List Script → Script
  | [] => done
  | s :: ss => s ++ separator sep ++ separated sep ss

/-- A symbol in front of every element. -/
def each (mark : Text) : List Script → Script
  | [] => done
  | s :: ss => sym mark ++ s ++ each mark ss

/-- The segments of a path, with `::` between them, and in front where the path
is rooted. -/
def segments (rooted : Bool) : List Script → Script
  | [] => done
  | s :: ss => onlyIf rooted (sym "::") ++ s ++ each "::" ss

/-- The items of a tuple. A lone item keeps its comma. -/
def items : List Script → Script
  | [s] => s ++ sym ","
  | ss => separated "," ss

/-- The statements of a block. The last one has no semicolon where it gives the
block its value. -/
def statements (yields : Bool) : List Script → Script
  | [] => done
  | [s] => s ++ onlyIf (!yields) (sym ";")
  | s :: ss => s ++ sym ";" ++ statements yields ss

/-- The text that a script lays out, when nothing else is to be shown. -/
def shown (s : Script) : Output UInt8 :=
  match s.output.fault with
  | none => .ofList (Token.render s.output.items)
  | some f => .fail f

end Script

end Turbofish
