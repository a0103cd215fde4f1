import Turbofish.Proofs.Conforming
import Turbofish.Printing.Tree

/-!
# Words can be read back

A name, a lifetime, a literal and an operator are each known from the token that is
written for them. Names are told from keywords by the raw form of those that are
reserved, and numbers end where the name of their type begins.
-/
namespace Turbofish

/-! ## Names -/

/-- The words that printing writes besides names. -/
def Keyword.written : List Text :=
  ["_", "as", "for", "dyn", "impl", "mut", "const", "unsafe", "true", "false"].map Text.ofString

namespace Token

/-- The token of a name that has one. -/
def ofName (n : Text) : Token :=
  if Keyword.isReserved n then keyword (Text.ofString "r#" ++ n) else keyword n

/-- A word that is a name and not one of the written keywords. -/
def IsName (t : Token) : Prop := t.cls = .word ∧ t.isSeparator = false ∧ t.text ∉ Keyword.written

theorem IsName.ne_sym {t : Token} (h : t.IsName) (text : Text) : t ≠ sym text := by
  rintro rfl
  cases h.1

end Token

namespace Text.IsName

variable {n m : Text}

theorem beforeNul_eq (h : n.IsName) : n.beforeNul = n := by
  have hall : ∀ b ∈ n, (b != 0) = true := fun b hb => bne_iff_ne.mpr fun h0 => h.2.1 (h0 ▸ hb)
  have happend : (n ++ []).takeWhile (· != 0) = n ++ [] := List.takeWhile_append_of_pos hall
  rw [List.append_nil] at happend
  exact happend

theorem isReserved_iff (h : n.IsName) : Keyword.isReserved n = true ↔ n ∈ Keyword.reserved := by
  unfold Keyword.isReserved
  rw [h.beforeNul_eq]
  exact List.contains_iff_mem

theorem ident_eq (h : n.IsName) : Token.ident n = .ok (Token.ofName n) := by
  have hne : n.isEmpty = false := List.isEmpty_eq_false_iff.mpr h.1
  unfold Token.ident Token.ofName
  rw [hne,h.beforeNul_eq]
  split
  · contradiction
  · split <;> rfl

theorem hash_mem_raw (n : Text) : 0x23 ∈ Text.ofString "r#" ++ n :=
  List.mem_append_left n (by decide)

theorem ofName_inj (hn : n.IsName) (hm : m.IsName) (h : Token.ofName n = Token.ofName m) :
    n = m := by
  have hplain {k l : Text} (hk : k.IsName) : k ≠ Text.ofString "r#" ++ l :=
    fun he => hk.2.2.1 (he ▸ hash_mem_raw l)
  have ht : (Token.ofName n).text = (Token.ofName m).text := congrArg Token.text h
  unfold Token.ofName at ht
  by_cases hr : Keyword.isReserved n = true <;> by_cases hs : Keyword.isReserved m = true
  · rw [if_pos hr,if_pos hs] at ht
    exact List.append_cancel_left ht
  · rw [if_pos hr,if_neg hs] at ht
    exact absurd ht.symm (hplain hm)
  · rw [if_neg hr,if_pos hs] at ht
    exact absurd ht (hplain hn)
  · rw [if_neg hr,if_neg hs] at ht
    exact ht

/-- Every written keyword but `_` is reserved, so no name is written as one. -/
theorem isName_ofName (h : n.IsName) : (Token.ofName n).IsName := by
  have hwritten : ∀ t ∈ Keyword.written,
      0x23 ∉ t ∧ (t ≠ Text.ofString "_" → t ∈ Keyword.reserved) := by decide
  unfold Token.ofName
  by_cases hr : Keyword.isReserved n = true
  · rw [if_pos hr]
    exact ⟨rfl,rfl,fun hm => (hwritten _ hm).1 (hash_mem_raw n)⟩
  · rw [if_neg hr]
    exact ⟨rfl,rfl,fun hm => hr (h.isReserved_iff.mpr ((hwritten n hm).2 h.2.2.2))⟩

end Text.IsName

/-! ## Lifetimes -/

namespace Lifetime

variable {l l' : Lifetime}

theorem Conforming.isSpecified (h : l.Conforming) : l.isSpecified = true := by
  cases l with
  | unspecified => exact h.elim
  | _ => rfl

theorem Conforming.script_eq (h : l.Conforming) : l.script = Script.lifetime l.name :=
  if_pos h.isSpecified

theorem Conforming.name_inj (h : l.Conforming) (h' : l'.Conforming) (hn : l.name = l'.name) :
    l = l' := by
  cases l <;> cases l' <;>
    first
    | rfl
    | exact congrArg named hn
    | exact absurd hn h.1
    | exact absurd hn h.2
    | exact absurd hn.symm h'.1
    | exact absurd hn.symm h'.2
    | exact h.elim
    | exact h'.elim
    | exact absurd hn (by decide)

end Lifetime

/-! ## Integer literals -/

namespace Text

def isDigit (b : UInt8) : Bool := 0x30 ≤ b && b ≤ 0x39

/-- A digit is the byte of its number. -/
theorem isDigit_toUInt8 {c : Char} (hc : c.isDigit = true) :
    isDigit c.toNat.toUInt8 = true ∧ c.toNat.toUInt8.toNat = c.toNat := by
  have hrange := Char.isDigit_iff_toNat.mp hc
  have hlt : c.toNat < 256 := Nat.lt_of_le_of_lt hrange.2 (by decide)
  have hto : c.toNat.toUInt8.toNat = c.toNat := by
    rw [Nat.toUInt8_eq,UInt8.toNat_ofNat']
    exact Nat.mod_eq_of_lt hlt
  unfold isDigit
  rw [Bool.and_eq_true,decide_eq_true_iff,decide_eq_true_iff,UInt8.le_iff_toNat_le,
    UInt8.le_iff_toNat_le,hto]
  exact ⟨hrange,rfl⟩

/-- Digits end where a text that starts with no digit begins. -/
theorem ofDigits_append_inj {cs ds : List Char} (hcs : ∀ c ∈ cs, c.isDigit = true)
    (hds : ∀ d ∈ ds, d.isDigit = true) {x y : Text} (hx : x.head?.any isDigit = false)
    (hy : y.head?.any isDigit = false) (h : ofDigits cs ++ x = ofDigits ds ++ y) :
    cs = ds ∧ x = y := by
  induction cs generalizing ds with
  | nil =>
      cases ds with
      | nil => exact ⟨rfl,h⟩
      | cons d ds =>
          have hd := (isDigit_toUInt8 (hds d (List.mem_cons_self ..))).1
          have hx' : x = d.toNat.toUInt8 :: (ofDigits ds ++ y) := h
          subst hx'
          exact absurd hd (Bool.eq_false_iff.mp hx)
  | cons c cs ih =>
      obtain ⟨hc,hcs⟩ := List.forall_mem_cons.mp hcs
      cases ds with
      | nil =>
          have hy' : y = c.toNat.toUInt8 :: (ofDigits cs ++ x) := h.symm
          subst hy'
          exact absurd (isDigit_toUInt8 hc).1 (Bool.eq_false_iff.mp hy)
      | cons d ds =>
          obtain ⟨hd,hds⟩ := List.forall_mem_cons.mp hds
          obtain ⟨hcd,hrest⟩ := List.cons.inj h
          obtain ⟨rfl,hxy⟩ := ih hcs hds hrest
          have hbytes : c.toNat.toUInt8 = d.toNat.toUInt8 := hcd
          have hnat : c.toNat = d.toNat := by
            rw [← (isDigit_toUInt8 hc).2,← (isDigit_toUInt8 hd).2,hbytes]
          exact ⟨congrArg (· :: cs) (Char.toNat_inj.mp hnat),hxy⟩

end Text

/-- An integer literal is known from its text. -/
theorem CoreType.literal_inj {c c' : CoreType} {v v' : UInt64} (hc : c.number ≤ 13)
    (hc' : c'.number ≤ 13)
    (h : Text.ofNat v.toNat ++ c.name = Text.ofNat v'.toNat ++ c'.name) : v = v' ∧ c = c' := by
  have hname {c : CoreType} : c.name.head?.any Text.isDigit = false := by
    cases c <;> rfl
  have hdigits (n : Nat) : ∀ d ∈ Nat.toDigits 10 n, d.isDigit = true := fun d hd =>
    Nat.isDigit_of_mem_toDigits (by decide) (by decide) hd
  obtain ⟨hv,hcc⟩ := Text.ofDigits_append_inj (hdigits _) (hdigits _) hname hname h
  have hnat : v.toNat = v'.toNat := by
    rw [← Nat.ofDigitChars_ten_toDigits (n := v.toNat),hv,Nat.ofDigitChars_ten_toDigits]
  have hread {c : CoreType} (hc : c.number ≤ 13) : CoreType.ofName? c.name = some c := by
    cases c with
    | unassigned e => exact absurd (Nat.le_trans (Nat.le_add_right 14 e.val) hc) (by decide)
    | _ => decide
  refine ⟨UInt64.toNat_inj.mp hnat,Option.some.inj ?_⟩
  rw [← hread hc,← hread hc',hcc]

/-! ## String literals -/

namespace Text

/-- The bytes that do not stand for themselves inside quotes. -/
def escapedBytes : List UInt8 := (List.range 0x20).map Nat.toUInt8 ++ [0x22,0x5C,0x7F]

theorem escapeByte_ne_nil (b : UInt8) : escapeByte b ≠ [] := by
  unfold escapeByte
  repeat' split
  all_goals exact fun h => nomatch h

theorem mem_escapedBytes {b : UInt8} (h : b < 0x20 ∨ b = 0x22 ∨ b = 0x5C ∨ b = 0x7F) :
    b ∈ escapedBytes := by
  rcases h with h | rfl | rfl | rfl
  · have hb : b.toNat.toUInt8 = b := UInt8.ofNat_toNat
    have hlt : b.toNat < 0x20 := UInt8.lt_iff_toNat_lt.mp h
    exact List.mem_append_left _ (List.mem_map.mpr ⟨b.toNat,List.mem_range.mpr hlt,hb⟩)
  · decide
  · decide
  · decide

theorem escapeByte_of_not_mem {b : UInt8} (h : b ∉ escapedBytes) : escapeByte b = [b] := by
  have hne {c : UInt8} (hc : c ∈ escapedBytes) : b ≠ c := fun hb => h (hb ▸ hc)
  have hprinted : ¬(b < 0x20 ∨ b = 0x7F) := by
    rintro (hb | hb)
    · exact h (mem_escapedBytes (.inl hb))
    · exact hne (by decide) hb
  rw [escapeByte,if_neg (hne (by decide)),if_neg (hne (by decide)),if_neg (hne (by decide)),
    if_neg (hne (by decide)),if_neg (hne (by decide)),if_neg (hne (by decide)),if_neg hprinted]

/-- An escape starts with a backslash, and no other byte is written as one. -/
theorem escapeByte_cases (b : UInt8) :
    (b ∈ escapedBytes ∧ (escapeByte b).head? = some 0x5C) ∨ (escapeByte b = [b] ∧ b ≠ 0x5C) := by
  have hhead : ∀ b ∈ escapedBytes, (escapeByte b).head? = some 0x5C := by decide +kernel
  by_cases h : b ∈ escapedBytes
  · exact .inl ⟨h,hhead b h⟩
  · exact .inr ⟨escapeByte_of_not_mem h,fun hb => h (hb ▸ by decide)⟩

/-- No escape is the beginning of another. -/
theorem escapeByte_append_inj {b c : UInt8} {x y : Text}
    (h : escapeByte b ++ x = escapeByte c ++ y) : b = c ∧ x = y := by
  have hfree : ∀ b ∈ escapedBytes, ∀ c ∈ escapedBytes, escapeByte b <+: escapeByte c → b = c := by
    decide +kernel
  have hhead {b c : UInt8} {x y : Text} (hb : (escapeByte b).head? = some 0x5C)
      (hc : escapeByte c = [c]) (h : escapeByte b ++ x = escapeByte c ++ y) : c = 0x5C := by
    obtain ⟨e,he⟩ : ∃ e, escapeByte b = 0x5C :: e := List.head?_eq_some_iff.mp hb
    rw [he,hc] at h
    exact (List.cons.inj h).1.symm
  have heq : b = c := by
    rcases escapeByte_cases b with ⟨hb,hb'⟩ | ⟨hb,hb'⟩ <;>
      rcases escapeByte_cases c with ⟨hc,hc'⟩ | ⟨hc,hc'⟩
    · rcases List.append_eq_append_iff.mp h with ⟨a,ha,_⟩ | ⟨a,ha,_⟩
      · exact hfree b hb c hc ⟨a,ha.symm⟩
      · exact (hfree c hc b hb ⟨a,ha.symm⟩).symm
    · exact absurd (hhead hb' hc h) hc'
    · exact absurd (hhead hc' hb h.symm) hb'
    · rw [hb,hc] at h
      exact (List.cons.inj h).1
  subst heq
  exact ⟨rfl,List.append_cancel_left h⟩

theorem escape_inj {t u : Text} (h : escape t = escape u) : t = u := by
  induction t generalizing u with
  | nil =>
      cases u with
      | nil => rfl
      | cons c u =>
          have happend : escapeByte c ++ escape u = [] := h.symm
          exact absurd (List.append_eq_nil_iff.mp happend).1 (escapeByte_ne_nil c)
  | cons b t ih =>
      cases u with
      | nil =>
          have happend : escapeByte b ++ escape t = [] := h
          exact absurd (List.append_eq_nil_iff.mp happend).1 (escapeByte_ne_nil b)
      | cons c u =>
          have happend : escapeByte b ++ escape t = escapeByte c ++ escape u := h
          obtain ⟨rfl,hrest⟩ := escapeByte_append_inj happend
          rw [ih hrest]

theorem quoted_inj {t u : Text} (h : t.quoted = u.quoted) : t = u :=
  escape_inj (List.append_cancel_right (List.cons.inj h).2)

/-- A number starts with a digit and a string with a quote. -/
theorem ofNat_append_ne_quoted (n : Nat) (x t : Text) : ofNat n ++ x ≠ t.quoted := by
  intro h
  obtain ⟨c,cs,hc⟩ := List.exists_cons_of_ne_nil (Nat.toDigits_ne_nil (n := n) (b := 10))
  have hdigit : c.isDigit = true :=
    Nat.isDigit_of_mem_toDigits (by decide) (by decide) (hc ▸ List.mem_cons_self ..)
  have hbyte : c.toNat.toUInt8 = 0x22 := by
    unfold ofNat ofDigits at h
    rw [hc] at h
    exact (List.cons.inj h).1
  have hrange := Char.isDigit_iff_toNat.mp hdigit
  have hnat : c.toNat % 256 = 0x22 := by
    rw [← UInt8.toNat_ofNat',← Nat.toUInt8_eq,hbyte]
    rfl
  simp only [Char.reduceToNat] at hrange
  omega

end Text

/-! ## Operators -/

namespace BinaryOp

/-- An assigned operator is known from its text. -/
theorem ofText?_text {op : BinaryOp} (h : op.number ≤ 17) :
    ∃ t, op.text? = some t ∧ ofText? t = some op := by
  cases op with
  | unassigned e => exact absurd (Nat.le_trans (Nat.le_add_right 18 e.val) h) (by decide)
  | _ => exact ⟨_,rfl,by decide⟩

/-- The token of an assigned operator. -/
theorem script_eq {op : BinaryOp} (h : op.number ≤ 17) :
    ∃ t, ofText? t = some op ∧ op.script = .token (.operator t) .done := by
  obtain ⟨t,ht,hread⟩ := ofText?_text h
  refine ⟨t,hread,?_⟩
  unfold script text
  rw [ht]
  rfl

end BinaryOp

end Turbofish
