import Mathlib.Data.List.Chain
import Turbofish.Proofs.Lexing.Lexemes
import Turbofish.Token.Layout

/-!
# The lexemes of a line

Every token that is printed is a word, a string literal, or punctuation out of a closed list.
Where such a token would take in the beginning of the next one, the two are written apart,
except that nothing ever stands apart from a closing bracket: a minus sign in front of `>`
would be read as an arrow. Where that does not occur, cutting a line gives what cutting each
of its tokens gives.
-/
namespace Turbofish

namespace Token

/-- The symbols that are printed, besides separators. -/
def symbols : List Text :=
  ["<", ">", "(", ")", "[", "]", "\x7b", "\x7d", "::", "->", ",", ";", ":", "=", "!", "?", "&",
    "*", "-"]

def separators : List Text := [",", "+"]

def operators : List Text := BinaryOp.assigned.filterMap BinaryOp.text?

/-- The tokens whose lexemes are known from their kind. -/
inductive Lexical : Token → Prop
  | word {t : Token} : t.isWordLike = true → t.text.isWord = true → Lexical t
  | string (s : Text) : Lexical (literal s.quoted)
  | symbol {text : Text} : text ∈ symbols → Lexical (sym text)
  | separator {text : Text} : text ∈ separators → Lexical (separator text)
  | operator {text : Text} : text ∈ operators → Lexical (operator text)

/-- A minus sign, of a negation or of a difference. -/
def isMinus (t : Token) : Bool := !t.isSeparator && t.text == "-"

/-- The two tokens are not a minus sign and a closing angle bracket. -/
def Clear (t u : Token) : Prop := t.isMinus = true → u ≠ sym ">"

theorem isMark_of_mem : ∀ w ∈ symbols ++ separators ++ operators, Text.isMark w = true := by decide

namespace Lexical

variable {t u : Token}

theorem mem_of_isWordLike (h : t.Lexical) (hw : t.isWordLike = false) :
    t.text ∈ symbols ++ separators ++ operators := by
  cases h with
  | word hword _ => exact absurd hword (Bool.eq_false_iff.mp hw)
  | string s => cases hw
  | symbol hs => exact List.mem_append_left _ (List.mem_append_left _ hs)
  | separator hs => exact List.mem_append_left _ (List.mem_append_right _ hs)
  | operator ho => exact List.mem_append_right _ ho

theorem isMark (h : t.Lexical) (hw : t.isWordLike = false) : t.text.isMark = true :=
  isMark_of_mem _ (h.mem_of_isWordLike hw)

theorem delimited (h : t.Lexical) : t.text.Delimited := by
  cases hw : t.isWordLike with
  | false => exact Text.delimited_mark (h.isMark hw)
  | true =>
      cases h with
      | word _ ht => exact Text.delimited_word ht
      | string s => exact Text.delimited_quoted s
      | symbol _ | separator _ | operator _ => cases hw

theorem text_ne_nil (h : t.Lexical) : t.text ≠ [] := by
  cases hw : t.isWordLike with
  | false => exact fun hnil => absurd (h.isMark hw) (by rw [hnil]; decide)
  | true =>
      cases h with
      | word _ ht => exact (Text.isWord_iff.mp ht).1
      | string s => exact List.cons_ne_nil _ _
      | symbol _ | separator _ | operator _ => cases hw

/-- Only words and literals hold bytes of words. -/
theorem isWordLike_of_mem (h : t.Lexical) {b : UInt8} (hb : b ∈ t.text)
    (hword : Text.isWordByte b = true) : t.isWordLike = true := by
  cases hw : t.isWordLike with
  | true => rfl
  | false =>
      have hsign := Text.isSign_of_isMark (h.isMark hw) b hb
      rw [Text.isWordByte_of_isSign hsign] at hword
      cases hword

/-- Words and literals hold no single sign. -/
theorem not_isWordLike_of_text (h : t.Lexical) {b : UInt8} (hb : Text.isSign b = true)
    (ht : t.text = [b]) : t.isWordLike = false := by
  cases h with
  | word _ hall =>
      have hword := (Text.isWord_iff.mp hall).2 b (by rw [ht]; exact List.mem_singleton_self b)
      rw [Text.isWordByte_of_isSign hb] at hword
      cases hword
  | string s =>
      have hlength := congrArg List.length ht
      change (Text.escape s ++ [0x22]).length + 1 = 1 at hlength
      rw [List.length_append] at hlength
      cases hlength
  | symbol _ | separator _ | operator _ => rfl

/-! ## Neighbours -/

theorem apart_of_words (ht : t.isWordLike = true) (hu : u.isWordLike = true) :
    apart t u = true := by
  have hsymbol {v : Token} (hv : v.isWordLike = true) (texts : List Text) :
      v.isSymbolOf texts = false := by
    obtain ⟨cls,text,sep⟩ := v
    cases cls with
    | symbol => cases hv
    | _ => rfl
  rw [apart,isCloser,isOpener,hsymbol ht,hsymbol hu,ht,hu]
  simp

theorem apart_of_isInfix (ht : t.isOpener = false) (hu : u.isCloser = false)
    (h : t.isInfix = true ∨ u.isInfix = true) : apart t u = true := by
  rw [apart,ht,hu]
  rcases h with h | h <;> simp [h]

theorem eq_sym_colon (ht : t.Lexical) (htext : t.text = ":") : t = sym ":" := by
  have hword := ht.not_isWordLike_of_text (by decide) htext
  have hothers : (":" : Text) ∉ separators ++ operators := by decide
  cases ht with
  | word hw _ => exact absurd hw (Bool.eq_false_iff.mp hword)
  | string s => cases hword
  | symbol _ => exact congrArg sym htext
  | separator hs => exact absurd (List.mem_append_left _ (htext ▸ hs)) hothers
  | operator ho => exact absurd (List.mem_append_right _ (htext ▸ ho)) hothers

/-- Behind a colon every token but a closing bracket stands apart. -/
theorem apart_of_colon (ht : t.Lexical) (htext : t.text = ":") (hu : u.text.head? = some 0x3A) :
    apart t u = true := by
  have hclosers : ∀ w ∈ ([">", ")", "]", "\x7d"] : List Text), w.head? ≠ some 0x3A := by decide
  have hcloser : u.isCloser = false := by
    refine Bool.eq_false_iff.mpr fun hc => ?_
    exact hclosers u.text (List.contains_iff_mem.mp (Bool.and_eq_true_iff.mp hc).2) hu
  have hopener : (sym ":").isOpener = false := by decide
  have hcolon : (sym ":").isSymbolOf [",", ";", ":"] = true := by decide
  rw [ht.eq_sym_colon htext,apart,hcloser,hopener,hcolon]
  rfl

/-- A token that starts like a closing angle bracket is one, or it is an operator. -/
theorem operator_of_head (hu : u.Lexical) (hhead : u.text.head? = some 0x3E) (hne : u ≠ sym ">") :
    u.cls = .operator := by
  have hangle : ∀ w ∈ symbols, w.head? = some 0x3E → w = ">" := by decide
  have hseparator : ∀ w ∈ separators, w.head? ≠ some 0x3E := by decide
  have hmem : 0x3E ∈ u.text := List.mem_of_mem_head? hhead
  cases hu with
  | word _ hall => exact absurd ((Text.isWord_iff.mp hall).2 _ hmem) (by decide)
  | string s => cases hhead
  | symbol hs => exact absurd (congrArg sym (hangle _ hs hhead)) hne
  | separator hs => exact absurd hhead (hseparator _ hs)
  | operator _ => rfl

/-- Behind a minus sign an operator stands apart. -/
theorem apart_of_minus (ht : t.Lexical) (hu : u.Lexical) (hclear : Clear t u)
    (htext : t.text = "-") (hhead : u.text.head? = some 0x3E) : apart t u = true := by
  have hopeners : ("-" : Text) ∉ (["<", "(", "[", "\x7b"] : List Text) := by decide
  have hseparators : ("-" : Text) ∉ separators := by decide
  have hminus : t.isMinus = true := by
    have hword := ht.not_isWordLike_of_text (by decide) htext
    have hsep : t.isSeparator = false := by
      cases ht with
      | word hw _ => exact absurd hw (Bool.eq_false_iff.mp hword)
      | separator hs => exact absurd (htext ▸ hs) hseparators
      | _ => rfl
    rw [isMinus,hsep,htext]
    rfl
  have hopener : t.isOpener = false := by
    refine Bool.eq_false_iff.mpr fun ho => hopeners ?_
    rw [← htext]
    exact List.contains_iff_mem.mp (Bool.and_eq_true_iff.mp ho).2
  have hoperator := hu.operator_of_head hhead (hclear hminus)
  have hcloser : u.isCloser = false := by rw [isCloser,isSymbolOf,hoperator]; rfl
  have hinfix : u.isInfix = true := by rw [isInfix,hoperator]; rfl
  exact apart_of_isInfix hopener hcloser (.inr hinfix)

/-- Two tokens stand apart where the first would take in the beginning of the second. -/
theorem apart_of_takesIn (ht : t.Lexical) (hu : u.Lexical) (hclear : Clear t u) {b : UInt8}
    (hb : u.text.head? = some b) (h : t.text.takesIn b = true) : apart t u = true := by
  rcases Bool.or_eq_true_iff.mp h with hwords | hsigns
  · obtain ⟨hlast,hfirst⟩ := Bool.and_eq_true_iff.mp hwords
    have hut := hu.isWordLike_of_mem (List.mem_of_mem_head? hb) hfirst
    cases ha : t.text.getLast? with
    | none =>
        rw [ha] at hlast
        cases hlast
    | some a =>
        rw [ha] at hlast
        exact apart_of_words (ht.isWordLike_of_mem (List.mem_of_getLast? ha) hlast) hut
  · obtain ⟨hlength,hpair⟩ := Bool.and_eq_true_iff.mp hsigns
    obtain ⟨a,ha⟩ := List.length_eq_one_iff.mp (beq_iff_eq.mp hlength)
    rw [ha,List.any_cons,List.any_nil,Bool.or_false] at hpair
    rcases Bool.or_eq_true_iff.mp hpair with hcolons | harrow
    · obtain ⟨hac,hbc⟩ := Bool.and_eq_true_iff.mp hcolons
      rw [beq_iff_eq.mp hac] at ha
      rw [beq_iff_eq.mp hbc] at hb
      exact ht.apart_of_colon ha hb
    · obtain ⟨ham,hba⟩ := Bool.and_eq_true_iff.mp harrow
      rw [beq_iff_eq.mp ham] at ha
      rw [beq_iff_eq.mp hba] at hb
      exact ht.apart_of_minus hu hclear ha hb

end Lexical

/-! ## Lines -/

theorem layout_head? {t : Token} (ht : t.text ≠ []) (ts : List Token) :
    (layout (t :: ts)).head? = t.text.head? := by
  obtain ⟨b,text,htext⟩ := List.exists_cons_of_ne_nil ht
  cases ts with
  | nil => rfl
  | cons u ts =>
      rw [layout,htext]
      rfl

/-- A line of tokens in which no minus sign makes an arrow is cut into the lexemes of each. -/
theorem lexemes_layout {ts : List Token} (hts : ∀ t ∈ ts, t.Lexical) (hclear : ts.IsChain Clear) :
    (layout ts).lexemes = ts.flatMap fun t => t.text.lexemes := by
  induction ts with
  | nil => rfl
  | cons t ts ih =>
      obtain ⟨ht,hrest⟩ := List.forall_mem_cons.mp hts
      cases ts with
      | nil =>
          rw [List.flatMap_cons,List.flatMap_nil,List.append_nil]
          rfl
      | cons u ts =>
          obtain ⟨hu,-⟩ := List.forall_mem_cons.mp hrest
          obtain ⟨hnext,hchain⟩ := List.isChain_cons_cons.mp hclear
          have hline := ih hrest hchain
          have hgap : (gap t u ++ layout (u :: ts)).lexemes = (layout (u :: ts)).lexemes := by
            unfold gap
            split
            · exact Text.lexemes_space _
            · rfl
          have hfree : (gap t u ++ layout (u :: ts)).head?.any t.text.takesIn = false := by
            unfold gap
            split
            · exact Text.takesIn_space t.text
            · rename_i happart
              rw [List.nil_append,layout_head? hu.text_ne_nil]
              refine Bool.eq_false_iff.mpr fun htakes => happart ?_
              cases hb : u.text.head? with
              | none => rw [hb] at htakes; cases htakes
              | some b => rw [hb] at htakes; exact ht.apart_of_takesIn hu hnext hb htakes
          rw [layout,List.append_assoc,ht.delimited _ hfree,hgap,hline]
          rfl

end Token

end Turbofish
