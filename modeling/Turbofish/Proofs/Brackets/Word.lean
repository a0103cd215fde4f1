import Turbofish.Output
import Turbofish.Token

/-!
# Bracket words

The brackets among tokens are the symbols `<`, `(`, `[` and the opening brace, with
their counterparts. Operators, names and literals are no brackets, whatever their
text is. A word of brackets is balanced when every bracket is closed by its own
counterpart, innermost first.
-/
namespace Turbofish

inductive Bracket where
  | angle | round | square | curly
  deriving DecidableEq, Repr

namespace Bracket

def opener : Bracket → Text
  | angle => "<"
  | round => "("
  | square => "["
  | curly => "\x7b"

def closer : Bracket → Text
  | angle => ">"
  | round => ")"
  | square => "]"
  | curly => "\x7d"

def all : List Bracket := [angle, round, square, curly]

inductive Mark where
  | opening (b : Bracket)
  | closing (b : Bracket)
  deriving DecidableEq, Repr

/-- The words in which brackets match and are nested. -/
inductive Balanced : List Mark → Prop
  | nil : Balanced []
  | surround (b : Bracket) {w : List Mark} : Balanced w →
      Balanced (.opening b :: (w ++ [.closing b]))
  | append {v w : List Mark} : Balanced v → Balanced w → Balanced (v ++ w)

end Bracket

open Turbofish.Bracket

/-- The bracket that a token is. -/
def Token.mark? (t : Token) : Option Mark :=
  if t.cls = .symbol then
    all.findSome? fun b =>
      if t.text = b.opener then some (.opening b)
      else if t.text = b.closer then some (.closing b)
      else none
  else none

/-- The brackets among tokens, in order. -/
def Token.marks (tokens : List Token) : List Mark := tokens.filterMap Token.mark?

namespace Token

@[simp] theorem marks_append (ts us : List Token) : marks (ts ++ us) = marks ts ++ marks us :=
  List.filterMap_append

theorem marks_cons_of_none {t : Token} (h : t.mark? = none) (ts : List Token) :
    marks (t :: ts) = marks ts := List.filterMap_cons_none h

theorem marks_opener (b : Bracket) (ts : List Token) :
    marks (sym b.opener :: ts) = .opening b :: marks ts :=
  List.filterMap_cons_some (by cases b <;> decide)

theorem marks_closer (b : Bracket) (ts : List Token) :
    marks (sym b.closer :: ts) = .closing b :: marks ts :=
  List.filterMap_cons_some (by cases b <;> decide)

/-- The brackets are what the layout of a line takes for openers and closers. -/
theorem mark?_isSome (t : Token) : t.mark?.isSome = (t.isOpener || t.isCloser) := by
  obtain ⟨cls,text,sep⟩ := t
  cases cls with
  | symbol =>
      rw [Bool.eq_iff_iff]
      simp only [mark?,if_true,List.findSome?_isSome_iff,isOpener,isCloser,isSymbolOf]
      simp [all,opener,closer]
      grind
  | _ => rfl

theorem mark?_of_cls {t : Token} (h : t.cls ≠ .symbol) : t.mark? = none :=
  if_neg h

end Token

namespace Output

/-- The brackets of an output match: all of them where the output is whole, and
otherwise those it holds can still be closed. -/
def Matched (o : Output Token) : Prop :=
  (o.fault = none → Balanced (Token.marks o.items)) ∧
    ∃ rest, Balanced (Token.marks o.items ++ rest)

theorem matched_nil : Matched nil := ⟨fun _ => .nil,[],.nil⟩

theorem matched_fail (f : Fault) : Matched (fail f) := ⟨nofun,[],.nil⟩

theorem Matched.of_items {o p : Output Token} (h : o.Matched) (hi : p.fault = none → o.fault = none)
    (hm : Token.marks p.items = Token.marks o.items) : p.Matched := by
  unfold Matched
  rw [hm]
  exact ⟨fun hf => h.1 (hi hf),h.2⟩

theorem Matched.cons {o : Output Token} {t : Token} (h : o.Matched) (ht : t.mark? = none) :
    (o.cons t).Matched :=
  h.of_items (fun hf => hf) (Token.marks_cons_of_none ht o.items)

theorem Matched.append {o p : Output Token} (ho : o.Matched) (hp : p.Matched) :
    (o ++ p).Matched := by
  cases hf : o.fault with
  | some f => rw [append_of_fault hf]; exact ho
  | none =>
      have hb := ho.1 hf
      obtain ⟨rest,hrest⟩ := hp.2
      rw [append_of_complete hf]
      refine ⟨fun hpf => ?_,rest,?_⟩
      · rw [Token.marks_append]
        exact hb.append (hp.1 hpf)
      · rw [Token.marks_append,List.append_assoc]
        exact hb.append hrest

/-- A bracket that is opened before an output is closed after it, if that is reached. -/
theorem Matched.surround {o : Output Token} (b : Bracket) (ho : o.Matched) :
    (Output.cons (.sym b.opener) (o ++ Output.cons (.sym b.closer) nil)).Matched := by
  cases hf : o.fault with
  | some f =>
      obtain ⟨rest,hrest⟩ := ho.2
      rw [append_of_fault hf]
      refine ⟨fun h => absurd (hf.symm.trans h) nofun,rest ++ [.closing b],?_⟩
      change Balanced (Token.marks (Token.sym b.opener :: o.items) ++ (rest ++ [.closing b]))
      rw [Token.marks_opener,List.cons_append,← List.append_assoc]
      exact .surround b hrest
  | none =>
      have hb : Balanced (Token.marks (Token.sym b.opener :: (o.items ++ [Token.sym b.closer]))) := by
        rw [Token.marks_opener,Token.marks_append,Token.marks_closer]
        exact .surround b (ho.1 hf)
      rw [append_of_complete hf]
      exact ⟨fun _ => hb,[],(List.append_nil _).symm ▸ hb⟩

end Output

end Turbofish
