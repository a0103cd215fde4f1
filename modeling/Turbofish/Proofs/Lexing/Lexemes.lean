import Turbofish.Proofs.Reading.Words

/-!
# Lexemes

How a line is cut when it is read. Spaces are passed over; a string literal goes to its
closing quote; letters, digits and the signs `_`, `#` and `'` stick together; `::` and `->`
are one sign each; and every other byte stands alone. Where a text ends is where one of
its lexemes ends, unless the byte behind it is one that its last lexeme takes in.
-/
namespace Turbofish.Text

/-- The bytes that names, lifetimes and numbers are made of. -/
def isWordByte (b : UInt8) : Bool := Token.startsWord b || isDigit b || b == 0x23 || b == 0x27

/-- Two bytes that are one sign: `::` and `->`. -/
def isPair (b c : UInt8) : Bool := (b == 0x3A && c == 0x3A) || (b == 0x2D && c == 0x3E)

/-- The rest of a string literal, up to the first quote that is not escaped. -/
def throughQuote : Text → Text
  | [] => []
  | [b] => [b]
  | b :: c :: rest =>
    if b = 0x22 then [b]
    else if b = 0x5C then b :: c :: throughQuote rest
    else b :: throughQuote (c :: rest)

/-- What belongs to the lexeme that a byte begins, behind that byte. -/
def continuation (b : UInt8) (rest : Text) : Text :=
  if b = 0x22 then throughQuote rest
  else if isWordByte b then rest.takeWhile isWordByte
  else if rest.head?.any (isPair b) then rest.take 1
  else []

/-- The lexemes of a text behind some bytes at its front. -/
def lexemesBehind : Nat → Text → List Text
  | _, [] => []
  | skipped + 1, _ :: rest => lexemesBehind skipped rest
  | 0, b :: rest =>
    if b = 0x20 then lexemesBehind 0 rest
    else (b :: continuation b rest) :: lexemesBehind (continuation b rest).length rest

/-- The lexemes of a text, in order. -/
def lexemes (t : Text) : List Text := lexemesBehind 0 t

/-! ## One lexeme -/

theorem lexemesBehind_append (t r : Text) : lexemesBehind t.length (t ++ r) = lexemes r := by
  induction t with
  | nil => rfl
  | cons b t ih => exact ih

theorem lexemes_space (t : Text) : lexemes (0x20 :: t) = lexemes t := by
  rw [lexemes,lexemesBehind]
  rfl

theorem lexemes_cons {b : UInt8} (hb : b ≠ 0x20) {t r : Text} (h : continuation b (t ++ r) = t) :
    lexemes (b :: (t ++ r)) = (b :: t) :: lexemes r := by
  rw [lexemes,lexemesBehind,if_neg hb,h,lexemesBehind_append]

/-! ## Texts that end where a lexeme ends -/

/-- Whether the last lexeme of a text takes in a byte behind it. -/
def takesIn (t : Text) (b : UInt8) : Bool :=
  (t.getLast?.any isWordByte && isWordByte b) || (t.length == 1 && t.any fun a => isPair a b)

theorem takesIn_space (t : Text) : takesIn t 0x20 = false := by
  have hword : isWordByte 0x20 = false := by decide
  have hpair (a : UInt8) : isPair a 0x20 = false := by simp [isPair]
  simp [takesIn,hword,hpair]

/-- A text is read by itself, in front of whatever it does not take in. -/
def Delimited (t : Text) : Prop :=
  ∀ r : Text, r.head?.any t.takesIn = false → lexemes (t ++ r) = lexemes t ++ lexemes r

/-- A text that is one lexeme wherever it ends. -/
theorem Delimited.of_continuation {b : UInt8} (hb : b ≠ 0x20) {t : Text}
    (h : ∀ r : Text, r.head?.any (takesIn (b :: t)) = false → continuation b (t ++ r) = t) :
    Delimited (b :: t) := by
  intro r hr
  have hfront := lexemes_cons hb (h r hr)
  have halone := lexemes_cons hb (h [] rfl)
  have hnil : lexemes [] = [] := rfl
  rw [List.append_nil,hnil] at halone
  rw [List.cons_append,hfront,halone,List.singleton_append]

/-- One or more bytes of words. -/
def isWord (t : Text) : Bool := !t.isEmpty && t.all isWordByte

theorem isWord_iff {t : Text} : t.isWord = true ↔ t ≠ [] ∧ ∀ b ∈ t, isWordByte b = true := by
  rw [isWord,Bool.and_eq_true_iff,Bool.not_eq_true',List.isEmpty_eq_false_iff,List.all_eq_true]

theorem isWord_append {t u : Text} (ht : t.isWord = true) (hu : u.all isWordByte = true) :
    (t ++ u).isWord = true := by
  obtain ⟨hne,ht⟩ := isWord_iff.mp ht
  refine isWord_iff.mpr ⟨List.append_ne_nil_of_left_ne_nil hne u,?_⟩
  exact List.forall_mem_append.mpr ⟨ht,List.all_eq_true.mp hu⟩

theorem delimited_word {t : Text} (h : t.isWord = true) : Delimited t := by
  obtain ⟨hne,ht⟩ := isWord_iff.mp h
  obtain ⟨b,t,rfl⟩ := List.exists_cons_of_ne_nil hne
  obtain ⟨hb,hrest⟩ := List.forall_mem_cons.mp ht
  have hspace : b ≠ 0x20 := fun h => absurd hb (by subst h; decide)
  have hquote : b ≠ 0x22 := fun h => absurd hb (by subst h; decide)
  refine Delimited.of_continuation hspace fun r hr => ?_
  have hend : r.takeWhile isWordByte = [] := by
    cases r with
    | nil => rfl
    | cons c r =>
        have hlast : (b :: t).getLast?.any isWordByte = true := by
          rw [List.getLast?_eq_some_getLast hne]
          exact ht _ (List.getLast_mem hne)
        have hc : isWordByte c = false := by
          have htakes : takesIn (b :: t) c = false := hr
          rw [takesIn,hlast,Bool.true_and] at htakes
          exact (Bool.or_eq_false_iff.mp htakes).1
        exact List.takeWhile_cons_of_neg (Bool.eq_false_iff.mp hc)
  rw [continuation,if_neg hquote,if_pos hb,List.takeWhile_append_of_pos hrest,hend,List.append_nil]

/-! ## String literals -/

theorem throughQuote_plain {t u : Text} (ht : ∀ b ∈ t, b ≠ 0x22 ∧ b ≠ 0x5C) (hu : u ≠ []) :
    throughQuote (t ++ u) = t ++ throughQuote u := by
  induction t with
  | nil => rfl
  | cons b t ih =>
      obtain ⟨⟨hquote,hbackslash⟩,ht⟩ := List.forall_mem_cons.mp ht
      obtain ⟨c,v,hv⟩ := List.exists_cons_of_ne_nil (List.append_ne_nil_of_right_ne_nil t hu)
      have hrest := ih ht
      rw [List.cons_append,hv,throughQuote,if_neg hquote,if_neg hbackslash,← hv,hrest]
      rfl

/-- An escape is passed over, and so is every byte that stands for itself. -/
theorem throughQuote_escapeByte (b : UInt8) {t : Text} (ht : t ≠ []) :
    throughQuote (escapeByte b ++ t) = escapeByte b ++ throughQuote t := by
  -- Behind its backslash and the byte that this escapes, an escape has no more of either kind.
  have hescapes : ∀ b ∈ escapedBytes, ∀ d ∈ (escapeByte b).drop 2, d ≠ 0x22 ∧ d ≠ 0x5C := by
    decide +kernel
  have hlong : ∀ b ∈ escapedBytes, 2 ≤ (escapeByte b).length := by decide +kernel
  rcases escapeByte_cases b with ⟨hb,hhead⟩ | ⟨hb,hbackslash⟩
  · obtain ⟨e,he⟩ : ∃ e, escapeByte b = 0x5C :: e := List.head?_eq_some_iff.mp hhead
    have hdrop := hescapes b hb
    have hlength := hlong b hb
    rw [he] at hdrop hlength ⊢
    cases e with
    | nil => exact absurd hlength (by decide)
    | cons c e =>
        have hrest := throughQuote_plain hdrop ht
        rw [List.cons_append,List.cons_append,throughQuote,if_neg (by decide),if_pos rfl]
        exact congrArg (0x5C :: c :: ·) hrest
  · have hquote : b ≠ 0x22 := fun h => absurd hb (by subst h; decide)
    rw [hb]
    exact throughQuote_plain (List.forall_mem_singleton.mpr ⟨hquote,hbackslash⟩) ht

theorem throughQuote_escape (t r : Text) :
    throughQuote (escape t ++ 0x22 :: r) = escape t ++ [0x22] := by
  induction t with
  | nil => cases r <;> rfl
  | cons b t ih =>
      have happend : escape (b :: t) = escapeByte b ++ escape t := rfl
      rw [happend,List.append_assoc,throughQuote_escapeByte b (by simp),ih,List.append_assoc]

theorem delimited_quoted (t : Text) : Delimited t.quoted := by
  refine Delimited.of_continuation (by decide) fun r _ => ?_
  have h := throughQuote_escape t r
  rw [List.append_cons] at h
  exact h

/-! ## Signs -/

/-- The bytes that are lexemes by themselves, unless they are half of a pair. -/
def isSign (b : UInt8) : Bool := !(b == 0x20 || b == 0x22 || isWordByte b)

/-- One or two signs. The second of two that are no pair does not begin one. -/
def isMark : Text → Bool
  | [b] => isSign b
  | [b, c] => isSign b && isSign c && (isPair b c || !(c == 0x3A || c == 0x2D))
  | _ => false

theorem isSign_of_isMark {t : Text} (h : t.isMark = true) : ∀ b ∈ t, isSign b = true := by
  unfold isMark at h
  split at h
  · exact List.forall_mem_singleton.mpr h
  · obtain ⟨hsigns,-⟩ := Bool.and_eq_true_iff.mp h
    obtain ⟨hb,hc⟩ := Bool.and_eq_true_iff.mp hsigns
    exact List.forall_mem_cons.mpr ⟨hb,List.forall_mem_singleton.mpr hc⟩
  · cases h

section

variable {b c : UInt8}

theorem ne_space_of_isSign (hb : isSign b = true) : b ≠ 0x20 :=
  fun h => absurd hb (by subst h; decide)

theorem isWordByte_of_isSign (hb : isSign b = true) : isWordByte b = false :=
  (Bool.or_eq_false_iff.mp ((Bool.not_eq_true' _).mp hb)).2

theorem continuation_sign (hb : isSign b = true) (r : Text) :
    continuation b r = if r.head?.any (isPair b) then r.take 1 else [] := by
  have hquote : b ≠ 0x22 := fun h => absurd hb (by subst h; decide)
  rw [continuation,if_neg hquote,isWordByte_of_isSign hb]
  rfl

theorem takesIn_sign (hb : isSign b = true) : takesIn [b] = isPair b := by
  funext d
  have hlast : takesIn [b] d = ((isWordByte b && isWordByte d) || (isPair b d || false)) := rfl
  rw [hlast,isWordByte_of_isSign hb,Bool.false_and,Bool.false_or,Bool.or_false]

theorem delimited_sign (hb : isSign b = true) : Delimited [b] := by
  refine Delimited.of_continuation (ne_space_of_isSign hb) fun r hr => ?_
  rw [takesIn_sign hb] at hr
  rw [List.nil_append,continuation_sign hb,hr]
  rfl

theorem delimited_pair (hb : isSign b = true) (h : isPair b c = true) : Delimited [b,c] := by
  refine Delimited.of_continuation (ne_space_of_isSign hb) fun r _ => ?_
  have hhead : ([c] ++ r).head?.any (isPair b) = true := h
  rw [continuation_sign hb,hhead]
  rfl

theorem delimited_signs (hb : isSign b = true) (hc : isSign c = true) (h : isPair b c = false)
    (hend : ∀ d, isPair c d = false) : Delimited [b,c] := by
  have hfirst (r : Text) : lexemes (b :: c :: r) = [b] :: lexemes (c :: r) := by
    have hcontinuation : continuation b ([] ++ c :: r) = [] := by
      have hhead : (c :: r).head?.any (isPair b) = false := h
      rw [List.nil_append,continuation_sign hb,hhead]
      rfl
    exact lexemes_cons (ne_space_of_isSign hb) hcontinuation
  intro r _
  have hr : r.head?.any (takesIn [c]) = false := by
    rw [takesIn_sign hc]
    cases r with
    | nil => rfl
    | cons d r => exact hend d
  have hsecond : lexemes (c :: r) = lexemes [c] ++ lexemes r := delimited_sign hc r hr
  change lexemes (b :: c :: r) = lexemes (b :: c :: []) ++ lexemes r
  rw [hfirst,hfirst,hsecond]
  rfl

end

theorem delimited_mark {t : Text} (h : t.isMark = true) : Delimited t := by
  unfold isMark at h
  split at h
  · exact delimited_sign h
  · rename_i b c
    obtain ⟨hsigns,hpair⟩ := Bool.and_eq_true_iff.mp h
    obtain ⟨hb,hc⟩ := Bool.and_eq_true_iff.mp hsigns
    cases hbc : isPair b c with
    | true => exact delimited_pair hb hbc
    | false =>
        rw [hbc,Bool.false_or,Bool.not_eq_true',Bool.or_eq_false_iff] at hpair
        refine delimited_signs hb hc hbc fun d => ?_
        rw [isPair,hpair.1,hpair.2]
        rfl
  · cases h

end Turbofish.Text
