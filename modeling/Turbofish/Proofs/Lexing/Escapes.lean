import Turbofish.Proofs.Malformed
import Turbofish.Proofs.Reading.Words

/-!
# Escapes are undone

Reading what stands inside of quotes: an escape is read as the byte it stands for, and every
other byte as itself. An escape ends where it ends whatever stands behind it, so an escaped
text is read back byte by byte, and the quotes of a string literal are the only ones in it
that are not part of an escape.
-/
namespace Turbofish

namespace Text

/-! ## Reading escapes -/

/-- The value of a hexadecimal digit. -/
def hexDigit? (b : UInt8) : Option Nat :=
  if 0x30 ≤ b ∧ b ≤ 0x39 then some (b.toNat - 0x30)
  else if 0x41 ≤ b ∧ b ≤ 0x46 then some (b.toNat - 0x41 + 10)
  else if 0x61 ≤ b ∧ b ≤ 0x66 then some (b.toNat - 0x61 + 10)
  else none

/-- The number that hexadecimal digits make behind those of `n`, up to a closing brace, and
what is behind the brace. -/
def hexThrough? (n : Nat) : Text → Option (Nat × Text)
  | [] => none
  | b :: rest =>
    if b = 0x7D then some (n, rest) else (hexDigit? b).bind fun d => hexThrough? (16 * n + d) rest

/-- The byte whose number stands in front in braces, and what is behind them. The numbers of
bytes that are escaped are below 0x80. -/
def bracedByte? : Text → Option (UInt8 × Text)
  | [] | [_] => none
  | b :: d :: rest =>
    if b ≠ 0x7B then none
    else (hexDigit? d).bind fun n => (hexThrough? n rest).bind fun (m, behind) =>
      if m < 0x80 then some (m.toUInt8, behind) else none

/-- The bytes that are written as a backslash and one more byte, each behind that one. -/
def shortEscapes : List (UInt8 × UInt8) :=
  [(0x30, 0x00), (0x6E, 0x0A), (0x72, 0x0D), (0x74, 0x09), (0x5C, 0x5C), (0x22, 0x22)]

/-- The byte that an escape in front stands for, and what is behind the escape. -/
def escaped? : Text → Option (UInt8 × Text)
  | [] | [_] => none
  | b :: c :: rest =>
    if b ≠ 0x5C then none
    else match shortEscapes.lookup c with
      | some e => some (e, rest)
      | none => if c = 0x75 then bracedByte? rest else none

/-- A byte of a text inside of quotes: itself or as an escape. -/
inductive Spelled
  | plain (b : UInt8)
  | escape (b : UInt8)
  deriving DecidableEq, Repr

def Spelled.byte : Spelled → UInt8
  | plain b | escape b => b

/-! ## Where an escape ends -/

theorem hexThrough?_append {n m : Nat} {t behind : Text} (h : hexThrough? n t = some (m,behind)) :
    ∃ e, t = e ++ behind ∧ ∀ r, hexThrough? n (e ++ r) = some (m,r) := by
  induction t generalizing n with
  | nil => cases h
  | cons b t ih =>
      rw [hexThrough?] at h
      split at h
      · rename_i hb
        cases h
        exact ⟨[b],rfl,fun r => if_pos hb⟩
      · rename_i hb
        obtain ⟨d,hd,h⟩ := Option.bind_eq_some_iff.mp h
        obtain ⟨e,rfl,he⟩ := ih h
        refine ⟨b :: e,rfl,fun r => ?_⟩
        rw [List.cons_append,hexThrough?,if_neg hb,hd]
        exact he r

theorem bracedByte?_append {t behind : Text} {b : UInt8} (h : bracedByte? t = some (b,behind)) :
    ∃ e, t = e ++ behind ∧ ∀ r, bracedByte? (e ++ r) = some (b,r) := by
  unfold bracedByte? at h
  split at h
  · cases h
  · cases h
  · rename_i brace d rest
    split at h
    · cases h
    · rename_i hbrace
      obtain ⟨n,hn,h⟩ := Option.bind_eq_some_iff.mp h
      obtain ⟨⟨m,behind'⟩,hm,h⟩ := Option.bind_eq_some_iff.mp h
      obtain ⟨hlt,h⟩ := Option.ite_none_right_eq_some.mp h
      cases h
      obtain ⟨e,rfl,he⟩ := hexThrough?_append hm
      refine ⟨brace :: d :: e,rfl,fun r => ?_⟩
      rw [List.cons_append,List.cons_append,bracedByte?,if_neg hbrace,hn,Option.bind_some,he,
        Option.bind_some]
      exact if_pos hlt

/-- An escape ends where it ends, whatever stands behind it. -/
theorem escaped?_append {t behind : Text} {b : UInt8} (h : escaped? t = some (b,behind)) :
    ∃ e, e ≠ [] ∧ t = e ++ behind ∧ ∀ r, escaped? (e ++ r) = some (b,r) := by
  unfold escaped? at h
  split at h
  · cases h
  · cases h
  · rename_i first c rest
    split at h
    · cases h
    · rename_i hfirst
      cases hc : shortEscapes.lookup c with
      | some e =>
          rw [hc] at h
          cases h
          refine ⟨[first,c],List.cons_ne_nil _ _,rfl,fun r => ?_⟩
          rw [List.cons_append,List.cons_append,escaped?,if_neg hfirst,hc]
          rfl
      | none =>
          rw [hc] at h
          obtain ⟨hu,h⟩ := Option.ite_none_right_eq_some.mp h
          obtain ⟨e,rfl,he⟩ := bracedByte?_append h
          refine ⟨first :: c :: e,List.cons_ne_nil _ _,rfl,fun r => ?_⟩
          rw [List.cons_append,List.cons_append,escaped?,if_neg hfirst,hc]
          exact (if_pos hu).trans (he r)

theorem escaped?_length {t behind : Text} {b : UInt8} (h : escaped? t = some (b,behind)) :
    behind.length < t.length := by
  obtain ⟨e,hne,rfl,-⟩ := escaped?_append h
  rw [List.length_append]
  exact Nat.lt_add_of_pos_left (List.length_pos_iff.mpr hne)

/-- How the bytes of a text are spelled. -/
def spelled (t : Text) : List Spelled :=
  match t with
  | [] => []
  | b :: rest =>
    match h : escaped? (b :: rest) with
    | some (c, behind) =>
      have := escaped?_length h
      .escape c :: spelled behind
    | none => .plain b :: spelled rest
termination_by t.length
decreasing_by
  · assumption
  · exact Nat.lt_succ_self _

/-- The text that is written inside of quotes. -/
def unescape (t : Text) : Text := (spelled t).map Spelled.byte

/-! ## Reading what was escaped -/

/-- How a byte is spelled where it is written. -/
def spelling (b : UInt8) : Spelled := if b ∈ escapedBytes then .escape b else .plain b

theorem byte_spelling (b : UInt8) : (spelling b).byte = b := by
  unfold spelling
  split <;> rfl

theorem spelled_nil : spelled [] = [] := by rw [spelled]

theorem spelled_escaped {b c : UInt8} {rest behind : Text}
    (h : escaped? (b :: rest) = some (c,behind)) :
    spelled (b :: rest) = .escape c :: spelled behind := by
  rw [spelled]
  split
  · rename_i heq
    rw [h] at heq
    cases heq
    rfl
  · rename_i heq
    rw [h] at heq
    cases heq

theorem spelled_plain {b : UInt8} (hb : b ≠ 0x5C) (rest : Text) :
    spelled (b :: rest) = .plain b :: spelled rest := by
  have h : escaped? (b :: rest) = none := by
    cases rest with
    | nil => rfl
    | cons c rest => exact if_pos hb
  rw [spelled]
  split
  · rename_i heq
    rw [h] at heq
    cases heq
  · rfl

/-- Each byte is read as it was written, in front of any text. -/
theorem spelled_escapeByte (b : UInt8) (r : Text) :
    spelled (escapeByte b ++ r) = spelling b :: spelled r := by
  have hescaped : ∀ b ∈ escapedBytes, escaped? (escapeByte b) = some (b,[]) := by decide +kernel
  by_cases hb : b ∈ escapedBytes
  · obtain ⟨e,hne,he,hread⟩ := escaped?_append (hescaped b hb)
    rw [List.append_nil] at he
    obtain ⟨c,e,rfl⟩ := List.exists_cons_of_ne_nil hne
    rw [he,spelling,if_pos hb]
    exact spelled_escaped (hread r)
  · have hbackslash : b ≠ 0x5C := fun h => hb (h ▸ by decide)
    rw [escapeByte_of_not_mem hb,spelling,if_neg hb]
    exact spelled_plain hbackslash r

/-- So is every byte of a text. -/
theorem spelled_escape_append (t r : Text) :
    spelled (escape t ++ r) = t.map spelling ++ spelled r := by
  induction t with
  | nil => rfl
  | cons b t ih =>
      have hcons : escape (b :: t) = escapeByte b ++ escape t := rfl
      rw [hcons,List.append_assoc,spelled_escapeByte,ih,List.map_cons,List.cons_append]

theorem spelled_escape (t : Text) : spelled (escape t) = t.map spelling := by
  have h := spelled_escape_append t []
  rw [List.append_nil,spelled_nil,List.append_nil] at h
  exact h

theorem unescape_escape (t : Text) : unescape (escape t) = t := by
  rw [unescape,spelled_escape,List.map_map]
  exact (List.map_congr_left fun b _ => byte_spelling b).trans (List.map_id t)

/-- No control byte is written. -/
theorem escape_printed (t : Text) : ∀ b ∈ escape t, 0x20 ≤ b ∧ b ≠ 0x7F := by
  have hescaped : ∀ c ∈ escapedBytes, ∀ b ∈ escapeByte c, 0x20 ≤ b ∧ b ≠ 0x7F := by
    decide +kernel
  intro b hb
  obtain ⟨c,-,hb⟩ := List.mem_flatMap.mp hb
  by_cases hc : c ∈ escapedBytes
  · exact hescaped c hc b hb
  · rw [escapeByte_of_not_mem hc] at hb
    obtain rfl := List.mem_singleton.mp hb
    refine ⟨?_,fun h => hc (mem_escapedBytes (.inr (.inr (.inr h))))⟩
    exact UInt8.not_lt.mp fun h => hc (mem_escapedBytes (.inl h))

/-- A quote or a backslash is written as an escape alone. -/
theorem spelled_escape_plain {t : Text} {b : UInt8} (h : .plain b ∈ spelled (escape t)) :
    b ≠ 0x22 ∧ b ≠ 0x5C := by
  rw [spelled_escape] at h
  obtain ⟨c,-,hc⟩ := List.mem_map.mp h
  unfold spelling at hc
  split at hc
  · cases hc
  · rename_i hplain
    cases hc
    exact ⟨fun hb => hplain (hb ▸ by decide),fun hb => hplain (hb ▸ by decide)⟩

end Text

namespace Node

/-- A string literal is printed as one token. -/
theorem print_string (span : Span) (t : Text) (s : Trace.State) :
    ((expr (.str span t)).print s).output = ⟨[.literal t.quoted],none⟩ :=
  print_output_of_complete ((print_complete_iff (expr (.str span t)) s).mpr rfl)

open Text (escape unescape spelled)

/-- An escaped text is read back as it was, has no control byte in it, and no quote or
backslash that is not part of an escape. So two string literals are printed as the same token
exactly when they are the same text, and reading a printed literal, whatever stands behind it,
comes to no quote but its first and its last byte. -/
theorem escape_reversible (t : Text) :
    unescape (escape t) = t ∧
      (∀ b ∈ escape t, 0x20 ≤ b ∧ b ≠ 0x7F) ∧
      (∀ b, .plain b ∈ spelled (escape t) → b ≠ 0x22 ∧ b ≠ 0x5C) ∧
      (∀ span s, ((expr (.str span t)).print s).output =
        ⟨[.literal (0x22 :: escape t ++ [0x22])],none⟩) ∧
      (∀ u span span' s s', ((expr (.str span t)).print s).output.items =
        ((expr (.str span' u)).print s').output.items ↔ t = u) ∧
      ∀ r, spelled (0x22 :: escape t ++ 0x22 :: r) =
        .plain 0x22 :: (spelled (escape t) ++ .plain 0x22 :: spelled r) := by
  refine ⟨Text.unescape_escape t,Text.escape_printed t,fun b => Text.spelled_escape_plain,
    fun span s => print_string span t s,fun u span span' s s' => ?_,fun r => ?_⟩
  · rw [print_string,print_string]
    refine ⟨fun h => ?_,fun h => by rw [h]⟩
    exact Text.quoted_inj (congrArg Token.text (List.cons.inj h).1)
  · rw [List.cons_append,Text.spelled_plain (by decide),Text.spelled_escape_append,
      Text.spelled_plain (by decide),Text.spelled_escape]

end Node

end Turbofish
