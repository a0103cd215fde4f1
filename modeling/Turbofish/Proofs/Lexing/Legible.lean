import Turbofish.Proofs.Layout.Kept
import Turbofish.Proofs.Lexing.Tokens
import Turbofish.Proofs.Script.Failure

/-!
# Legible scripts

A script is legible where its tokens can be told apart on a line of any other legible
script: all of them are lexical, it does not begin with a closing angle bracket, and no minus
sign in it stands in front of one, even where separators are left out. It is closable as well
where it does not end with a minus sign, so that a closing angle bracket may be written behind
it. Behind every other bracket it is enough to be legible.
-/
namespace Turbofish

namespace Token

variable {ts us : List Token}

/-- The tokens that are written wherever they stand. -/
def solid (ts : List Token) : List Token := ts.filter fun t => !t.isSeparator

theorem solid_cons {t : Token} (h : t.isSeparator = false) (ts : List Token) :
    solid (t :: ts) = t :: solid ts :=
  List.filter_cons_of_pos (p := fun t : Token => !t.isSeparator) (congrArg (!·) h)

theorem solid_cons_separator {t : Token} (h : t.isSeparator = true) (ts : List Token) :
    solid (t :: ts) = solid ts :=
  List.filter_cons_of_neg (p := fun t : Token => !t.isSeparator)
    (Bool.eq_false_iff.mp (congrArg (!·) h))

theorem solid_append (ts us : List Token) : solid (ts ++ us) = solid ts ++ solid us :=
  List.filter_append ..

theorem solid_kept (ts : List Token) : solid (kept ts) = solid ts := by
  induction ts with
  | nil => rfl
  | cons t ts ih =>
      cases ht : t.isSeparator with
      | false => rw [kept_cons_of_not_separator ht,solid_cons ht,solid_cons ht,ih]
      | true =>
          rw [kept]
          split
          · rw [ih,solid_cons_separator ht]
          · rw [solid_cons_separator ht,solid_cons_separator ht,ih]

/-- Neither a minus sign nor a closing angle bracket is a separator, so where the two stand
next to each other they do so without the separators as well. -/
theorem isChain_of_solid (h : (solid ts).IsChain Clear) : ts.IsChain Clear := by
  induction ts with
  | nil => exact List.isChain_nil
  | cons t ts ih =>
      have htail : (solid ts).IsChain Clear := by
        cases ht : t.isSeparator with
        | false => rw [solid_cons ht] at h; exact h.tail
        | true => rw [solid_cons_separator ht] at h; exact h
      refine List.isChain_cons.mpr ⟨fun u hu hminus => ?_,ih htail⟩
      have ht : t.isSeparator = false :=
        (Bool.not_eq_true' _).mp (Bool.and_eq_true_iff.mp hminus).1
      rintro rfl
      obtain ⟨us,hus⟩ := List.head?_eq_some_iff.mp hu
      rw [hus,solid_cons ht,solid_cons rfl] at h
      exact (List.isChain_cons_cons.mp h).1 hminus rfl

/-! ## Legible tokens -/

structure Legible (ts : List Token) : Prop where
  lexical : ∀ t ∈ ts, t.Lexical
  clear : (solid ts).IsChain Clear
  first : ∀ t ∈ (solid ts).head?, t ≠ sym ">"

structure Closable (ts : List Token) : Prop extends Legible ts where
  last : ∀ t ∈ (solid ts).getLast?, t.isMinus = false

theorem Legible.nil : Legible [] := ⟨List.forall_mem_nil _,List.isChain_nil,nofun⟩

theorem Legible.append (ht : Legible ts) (hu : Legible us) : Legible (ts ++ us) where
  lexical := List.forall_mem_append.mpr ⟨ht.lexical,hu.lexical⟩
  clear := by
    rw [solid_append]
    exact ht.clear.append hu.clear fun _ _ u hmem _ => hu.first u hmem
  first := by
    rw [solid_append,List.head?_append]
    intro t hmem
    rcases Option.or_eq_some_iff.mp hmem with h | ⟨-,h⟩
    · exact ht.first t h
    · exact hu.first t h

theorem Closable.nil : Closable [] := ⟨.nil,nofun⟩

theorem Closable.append (ht : Closable ts) (hu : Closable us) : Closable (ts ++ us) where
  toLegible := ht.toLegible.append hu.toLegible
  last := by
    rw [solid_append,List.getLast?_append]
    intro t hmem
    rcases Option.or_eq_some_iff.mp hmem with h | ⟨-,h⟩
    · exact hu.last t h
    · exact ht.last t h

/-- A token by itself, a separator too. -/
theorem Legible.of_token {t : Token} (ht : t.Lexical) (hne : t ≠ sym ">") : Legible [t] where
  lexical := List.forall_mem_singleton.mpr ht
  clear := by
    cases hsep : t.isSeparator with
    | false => rw [solid_cons hsep]; exact List.isChain_singleton t
    | true => rw [solid_cons_separator hsep]; exact List.isChain_nil
  first u hu := by
    have hmem : u ∈ [t] := (List.filter_sublist.subset) (List.mem_of_mem_head? hu)
    rw [List.mem_singleton.mp hmem]
    exact hne

theorem Closable.of_token {t : Token} (ht : t.Lexical) (hne : t ≠ sym ">")
    (hminus : t.isMinus = false) : Closable [t] where
  toLegible := .of_token ht hne
  last u hu := by
    have hmem : u ∈ [t] := (List.filter_sublist.subset) (List.mem_of_getLast? hu)
    rw [List.mem_singleton.mp hmem]
    exact hminus

/-- An angle bracket may close what does not end with a minus sign, and any other bracket
whatever is legible. -/
theorem Legible.surround (h : Legible ts) (b : Bracket) (hb : b = .angle → Closable ts) :
    Closable (sym b.opener :: (ts ++ [sym b.closer])) := by
  have hopener : (sym b.opener).Lexical := .symbol (by cases b <;> decide)
  have hcloser : (sym b.closer).Lexical := .symbol (by cases b <;> decide)
  have hsolid : solid (sym b.opener :: (ts ++ [sym b.closer])) =
      sym b.opener :: (solid ts ++ [sym b.closer]) := by
    rw [solid_cons rfl,solid_append]
    rfl
  refine ⟨⟨?_,?_,?_⟩,?_⟩
  · exact List.forall_mem_cons.mpr ⟨hopener,
      List.forall_mem_append.mpr ⟨h.lexical,List.forall_mem_singleton.mpr hcloser⟩⟩
  · rw [hsolid]
    refine List.isChain_cons.mpr ⟨fun u _ hminus => ?_,?_⟩
    · exact absurd hminus (by cases b <;> decide)
    · refine h.clear.append (List.isChain_singleton _) fun t ht u hu hminus => ?_
      rw [← Option.some.inj hu]
      by_cases hangle : b = .angle
      · rw [(hb hangle).last t ht] at hminus
        cases hminus
      · cases b with
        | angle => exact absurd rfl hangle
        | round | square | curly => decide
  · rw [hsolid]
    intro t ht
    rw [← Option.some.inj ht]
    cases b <;> decide
  · rw [hsolid,← List.cons_append,List.getLast?_concat]
    intro t ht
    rw [← Option.some.inj ht]
    cases b <;> decide

/-- A line of legible tokens is cut into the lexemes of each token that is written. -/
theorem Legible.lexemes_render (h : Legible ts) :
    (render ts).lexemes = (kept ts).flatMap fun t => t.text.lexemes := by
  have hclear : (kept ts).IsChain Clear := isChain_of_solid (by rw [solid_kept]; exact h.clear)
  exact lexemes_layout (fun t ht => h.lexical t ((kept_sublist ts).subset ht)) hclear

end Token

namespace Script

/-! ## Scripts -/

/-- A property of what a script writes where it comes to its end. -/
def Writes (P : List Token → Prop) (s : Script) : Prop := s.Complete → P s.output.items

namespace Writes

variable {P : List Token → Prop} {r s : Script}

theorem fail (f : Fault) : (fail f).Writes P := fun h => absurd h (not_complete_fail f)

theorem append (hP : ∀ {ts us}, P ts → P us → P (ts ++ us)) (hr : r.Writes P) (hs : s.Writes P) :
    (r ++ s).Writes P := by
  intro hc
  obtain ⟨hrc,hsc⟩ := complete_append_iff.mp hc
  rw [output_append,Output.append_of_complete hrc]
  exact hP (hr hrc) (hs hsc)

theorem scope (h : s.Writes P) (site : Site) : (scope site s done).Writes P := by
  intro hc
  rw [output_scope_done]
  exact h ((complete_scope_iff site).mp hc)

end Writes

/-- The script may be written among others that are legible. -/
abbrev Legible (s : Script) : Prop := s.Writes Token.Legible

/-- The script may be written in front of a closing angle bracket as well. -/
abbrev Closable (s : Script) : Prop := s.Writes Token.Closable

theorem Legible.append {r s : Script} (hr : r.Legible) (hs : s.Legible) : (r ++ s).Legible :=
  Writes.append Token.Legible.append hr hs

theorem Legible.additive : Additive Legible where
  done := fun _ => .nil
  append := Legible.append

theorem Closable.append {r s : Script} (hr : r.Closable) (hs : s.Closable) : (r ++ s).Closable :=
  Writes.append Token.Closable.append hr hs

theorem Closable.additive : Additive Closable where
  done := fun _ => .nil
  append := Closable.append

theorem Closable.legible {s : Script} (h : s.Closable) : s.Legible := fun hc => (h hc).toLegible

namespace Closable

variable {s : Script} {text : Text}

/-- A symbol that is neither a minus sign nor a closing angle bracket. -/
theorem sym (h : text ∈ Token.symbols ∧ text ∉ ([">", "-"] : List Text)) : (sym text).Closable := by
  intro _
  refine .of_token (.symbol h.1) (fun heq => h.2 ?_) (Bool.eq_false_iff.mpr fun hminus => h.2 ?_)
  · have htext : text = ">" := congrArg Token.text heq
    rw [htext]
    exact List.mem_cons_self ..
  · have htext : text = "-" := beq_iff_eq.mp hminus
    rw [htext]
    exact List.mem_cons_of_mem _ (List.mem_singleton_self _)

theorem separator (h : text ∈ Token.separators) : (separator text).Closable := fun _ =>
  .of_token (.separator h) (fun heq => absurd (congrArg Token.isSeparator heq) nofun) rfl

/-- A word, a lifetime or a number. -/
theorem word {t : Token} (hw : t.isWordLike = true) (h : t.text.isWord = true) :
    (token t done).Closable := by
  intro _
  refine .of_token (.word hw h) ?_ (Bool.eq_false_iff.mpr fun hminus => ?_)
  · rintro rfl
    cases hw
  · rw [beq_iff_eq.mp (Bool.and_eq_true_iff.mp hminus).2] at h
    exact absurd h (by decide)

theorem keyword (h : text.isWord = true) : (keyword text).Closable := word rfl h

theorem remark (m : Remark) : (remark m done).Closable := fun _ => .nil

theorem string (text : Text) : (literal text.quoted).Closable := fun _ =>
  .of_token (.string text) nofun rfl

theorem surround (h : s.Legible) (b : Bracket) (hb : b = .angle → s.Closable) :
    (Script.sym b.opener ++ s ++ Script.sym b.closer).Closable := by
  intro hc
  have hs : s.Complete := (complete_append_iff.mp (complete_append_iff.mp hc).1).2
  have houtput : (Script.sym b.opener ++ s ++ Script.sym b.closer).output.items =
      Token.sym b.opener :: (s.output.items ++ [Token.sym b.closer]) := by
    rw [append_assoc,output_append,output_append,Output.append_of_complete hs]
    rfl
  rw [houtput]
  exact (h hs).surround b fun hangle => hb hangle hs

theorem angle (h : s.Closable) : (Script.sym "<" ++ s ++ Script.sym ">").Closable :=
  surround h.legible .angle fun _ => h

end Closable

/-- A bracket other than an angle bracket. -/
theorem Legible.between {s : Script} (h : s.Legible) {b : Bracket} (hb : b ≠ .angle) :
    (sym b.opener ++ s ++ sym b.closer).Closable :=
  .surround h b fun hangle => absurd hangle hb

theorem Legible.parenthesizedIf {s : Script} (h : s.Legible) {c : Bool} :
    (parenthesizedIf c s).Legible := by
  cases c with
  | false => exact h
  | true => exact (h.between (b := .round) (by decide)).legible

theorem Closable.parenthesizedIf {s : Script} (h : s.Closable) {c : Bool} :
    (parenthesizedIf c s).Closable := by
  cases c with
  | false => exact h
  | true => exact h.legible.between (b := .round) (by decide)

end Script

end Turbofish
