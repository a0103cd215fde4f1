import Turbofish.Printing.Script

/-!
# Reading back what was written

A part of a tree is written in front of other tokens, and where it ends has to be seen
from those. A form of values says how they are written, which of them it covers and
what may follow them. A value is readable in a form when any value that agrees with it
on what is written, whatever follows either, is the same up to spans, and the same
tokens follow. Lists are readable when their elements are, because an element is told
by its first token from everything that may follow a list.
-/
namespace Turbofish

namespace Token

/-- The tokens with which nothing goes on that was begun in front of them. -/
def isEnd (t : Token) : Bool :=
  t.isSeparator ||
    [keyword "as", sym ">", sym ")", sym "]", sym "\x7d", sym ",", sym ";"].contains t

/-- An operator goes on with an expression, but with nothing smaller. -/
def isStop (t : Token) : Bool := t.isEnd || t.cls == .operator

theorem isStop_of_isEnd {t : Token} (h : t.isEnd = true) : t.isStop = true := by
  unfold isStop
  rw [h,Bool.true_or]

end Token

namespace Output

variable {o p q : Output Token}

theorem cons_inj {α : Type} {a b : α} {o p : Output α} (h : cons a o = cons b p) :
    a = b ∧ o = p := by
  obtain ⟨items,fault⟩ := o
  obtain ⟨items',fault'⟩ := p
  obtain ⟨hitems,rfl⟩ := Output.mk.inj h
  obtain ⟨rfl,rfl⟩ := List.cons.inj hitems
  exact ⟨rfl,rfl⟩

def Ends (o : Output Token) : Prop := ∀ t ∈ o.items.head?, t.isEnd = true

def Stops (o : Output Token) : Prop := ∀ t ∈ o.items.head?, t.isStop = true

theorem Ends.stops (h : o.Ends) : o.Stops := fun t ht => Token.isStop_of_isEnd (h t ht)

theorem ends_nil : (nil : Output Token).Ends := nofun

theorem ends_cons {t : Token} (h : t.isEnd = true) (o : Output Token) : (cons t o).Ends :=
  fun _ hu => Option.some.inj hu ▸ h

theorem stops_cons {t : Token} (h : t.isStop = true) (o : Output Token) : (cons t o).Stops :=
  fun _ hu => Option.some.inj hu ▸ h

theorem ends_round (o : Output Token) : (cons (.sym ")") o).Ends := ends_cons (by decide) o

theorem ends_angle (o : Output Token) : (cons (.sym ">") o).Ends := ends_cons (by decide) o

theorem ends_square (o : Output Token) : (cons (.sym "]") o).Ends := ends_cons (by decide) o

theorem ends_curly (o : Output Token) : (cons (.sym "\x7d") o).Ends := ends_cons (by decide) o

theorem ends_comma (o : Output Token) : (cons (.sym ",") o).Ends := ends_cons (by decide) o

theorem ends_semicolon (o : Output Token) : (cons (.sym ";") o).Ends := ends_cons (by decide) o

theorem ends_separator (text : Text) (o : Output Token) : (cons (.separator text) o).Ends :=
  ends_cons rfl o

theorem Stops.isStop {t : Token} (h : (cons t o).Stops) : t.isStop = true := h t rfl

theorem Ends.isEnd {t : Token} (h : (cons t o).Ends) : t.isEnd = true := h t rfl

/-- The first token satisfies a condition. -/
def Leads (P : Token → Prop) (o : Output Token) : Prop := ∃ t p, o = cons t p ∧ P t

theorem leads_cons {P : Token → Prop} {t : Token} (h : P t) (o : Output Token) :
    (cons t o).Leads P := ⟨t,o,rfl,h⟩

theorem Leads.append {P : Token → Prop} (h : o.Leads P) (p : Output Token) :
    (o ++ p).Leads P := by
  obtain ⟨t,r,rfl,ht⟩ := h
  exact ⟨t,r ++ p,cons_append t r p,ht⟩

theorem Leads.imp {P Q : Token → Prop} (h : o.Leads P) (hPQ : ∀ t, P t → Q t) : o.Leads Q := by
  obtain ⟨t,r,hr,ht⟩ := h
  exact ⟨t,r,hr,hPQ t ht⟩

theorem Leads.common {P Q : Token → Prop} (h : o.Leads P) (h' : o.Leads Q) : ∃ t, P t ∧ Q t := by
  obtain ⟨t,r,hr,ht⟩ := h
  obtain ⟨t',r',hr',ht'⟩ := h'
  obtain ⟨rfl,_⟩ := cons_inj (hr.symm.trans hr')
  exact ⟨t,ht,ht'⟩

/-- Outputs that are equal in front of what follows have a first token in common. -/
theorem Leads.both {P Q : Token → Prop} {p' : Output Token} (h : o.Leads P) (h' : p.Leads Q)
    (he : o ++ q = p ++ p') : ∃ t, P t ∧ Q t := by
  have ho := h.append q
  rw [he] at ho
  exact ho.common (h'.append p')

/-- Something is written, and it does not start with a stop. -/
abbrev Starts (o : Output Token) : Prop := o.Leads fun t => t.isStop = false

theorem Starts.not_stops (h : o.Starts) (p : Output Token) : ¬ (o ++ p).Stops := by
  obtain ⟨t,r,hr,ht⟩ := h.append p
  intro hs
  rw [hr] at hs
  rw [hs.isStop] at ht
  cases ht

end Output

/-! ## Forms -/

structure Form (α : Type) where
  write : α → Script
  /-- What is left of a value without its spans. -/
  content : α → α
  Valid : α → Prop
  Fits : α → Output Token → Prop

namespace Form

variable {α : Type} (F : Form α)

def Readable (a : α) : Prop :=
  F.Valid a → ∀ b, F.Valid b → ∀ p q, F.Fits a p → F.Fits b q →
    (F.write a).output ++ p = (F.write b).output ++ q → F.content a = F.content b ∧ p = q

/-- A form whose values can be the elements of a list with separators. -/
structure Listable : Prop where
  starts {a : α} : F.Valid a → (F.write a).output.Starts
  fits {a : α} {p : Output Token} : F.Valid a → p.Ends → F.Fits a p

variable {F}

theorem Listable.fits_separator (hF : F.Listable) {a : α} (ha : F.Valid a) (sep : Text)
    (p : Output Token) : F.Fits a (.cons (.separator sep) p) :=
  hF.fits ha (Output.ends_separator sep p)

/-- A list with a separator behind each element, in front of a stop. -/
theorem Listable.separated_readable (hF : F.Listable) (sep : Text) {as bs : List α}
    (has : ∀ a ∈ as, F.Readable a) (hva : ∀ a ∈ as, F.Valid a) (hvb : ∀ b ∈ bs, F.Valid b)
    {p q : Output Token} (hp : p.Stops) (hq : q.Stops)
    (h : (Script.separated sep (as.map F.write)).output ++ p =
      (Script.separated sep (bs.map F.write)).output ++ q) :
    as.map F.content = bs.map F.content ∧ p = q := by
  have hcons (a : α) (as : List α) (p : Output Token) :
      (Script.separated sep ((a :: as).map F.write)).output ++ p = (F.write a).output ++
        .cons (.separator sep) ((Script.separated sep (as.map F.write)).output ++ p) := by
    rw [List.map_cons,Script.separated,Script.output_append,Script.output_append,
      Output.append_assoc,Output.append_assoc]
    rfl
  induction as generalizing bs with
  | nil =>
      cases bs with
      | nil => exact ⟨rfl,h⟩
      | cons b bs =>
          have hp' : p = (Script.separated sep ((b :: bs).map F.write)).output ++ q := h
          rw [hp',hcons] at hp
          exact absurd hp ((hF.starts (hvb b (List.mem_cons_self ..))).not_stops _)
  | cons a as ih =>
      obtain ⟨ha,has⟩ := List.forall_mem_cons.mp has
      obtain ⟨hva,hvas⟩ := List.forall_mem_cons.mp hva
      cases bs with
      | nil =>
          have hq' : q = (Script.separated sep ((a :: as).map F.write)).output ++ p := h.symm
          rw [hq',hcons] at hq
          exact absurd hq ((hF.starts hva).not_stops _)
      | cons b bs =>
          obtain ⟨hvb,hvbs⟩ := List.forall_mem_cons.mp hvb
          rw [hcons,hcons] at h
          obtain ⟨hab,hrest⟩ := ha hva b hvb _ _ (hF.fits_separator hva sep _)
            (hF.fits_separator hvb sep _) h
          obtain ⟨hasbs,hpq⟩ := ih has hvas hvbs (Output.cons_inj hrest).2
          rw [List.map_cons,List.map_cons,hab,hasbs]
          exact ⟨rfl,hpq⟩

end Form

/-! ## Steps of a script -/

namespace Script

@[simp] theorem output_done : done.output = .nil := rfl

@[simp] theorem output_token (t : Token) (r : Script) : (token t r).output = .cons t r.output := rfl

@[simp] theorem output_scope (site : Site) (b r : Script) :
    (scope site b r).output = b.output ++ r.output := rfl

@[simp] theorem output_sym (text : Text) : (sym text).output = .cons (.sym text) .nil := rfl

@[simp] theorem output_keyword (text : Text) :
    (keyword text).output = .cons (.keyword text) .nil := rfl

end Script

end Turbofish
