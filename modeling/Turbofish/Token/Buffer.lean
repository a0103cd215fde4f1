import Turbofish.Token.Layout

/-!
# Token buffers

A list of tokens that grows at its end by one of six calls. A call that is
refused leaves the buffer as it was.
-/
namespace Turbofish

structure Buffer where
  tokens : List Token
  deriving DecidableEq, Repr

namespace Buffer

inductive Call
  | word (text : Text)
  | ident (name : Text)
  | separator (text : Text)
  | lifetime (name : Text)
  | literal (text : Text)
  | operator (text : Text)
  deriving DecidableEq, Repr

/-- The token that a call adds. -/
def Call.token : Call → Except Fault Token
  | word text => Token.word text
  | ident name => Token.ident name
  | separator text => .ok (.separator text)
  | lifetime name => .ok (.lifetime name)
  | literal text => .ok (.literal text)
  | operator text => .ok (.operator text)

def Call.isOperator : Call → Bool
  | operator _ => true
  | word _ | ident _ | separator _ | lifetime _ | literal _ => false

theorem Call.cls_ne_operator {c : Call} (hc : c.isOperator = false) {t : Token}
    (h : c.token = .ok t) : t.cls ≠ .operator := by
  cases c with
  | word text =>
    cases text with
    | nil => cases h
    | cons b rest =>
      cases h
      split <;> exact nofun
  | ident name =>
    rw [token, Token.ident] at h
    split at h
    · cases h
    · split at h <;> (cases h; exact nofun)
  | operator text => cases hc
  | separator text | lifetime name | literal text => cases h; exact nofun

def empty : Buffer := ⟨[]⟩

def push (buffer : Buffer) (t : Token) : Buffer := ⟨buffer.tokens ++ [t]⟩

/-- The token that was added, and the buffer with it. -/
def call (buffer : Buffer) (c : Call) : Except Fault (Token × Buffer) :=
  c.token.map fun t => (t, buffer.push t)

/-- Calls one after the other, up to the first one that is refused. -/
def calls (buffer : Buffer) : List Call → Buffer × Option Fault
  | [] => (buffer, none)
  | c :: cs =>
    match buffer.call c with
    | .ok (_, next) => next.calls cs
    | .error f => (buffer, some f)

def isEmpty (buffer : Buffer) : Bool := buffer.tokens.isEmpty

def render (buffer : Buffer) : Text := Token.render buffer.tokens

end Buffer

end Turbofish
