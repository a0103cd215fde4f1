/-!
# Text as bytes

Names, literals and everything written are lists of bytes. Nothing here asks
whether they are valid UTF-8, and a NUL is a byte like any other except where
a rule says that a name ends at its first NUL.
-/
namespace Turbofish

abbrev Text := List UInt8

namespace Text

/-- The UTF-8 bytes of a string. -/
def ofString (s : String) : Text := s.toUTF8.data.toList

instance : Coe String Text := ⟨ofString⟩

/-- The bytes of digits, which are all ASCII. -/
def ofDigits (cs : List Char) : Text := cs.map fun c => c.toNat.toUInt8

/-- Decimal, without leading zeros. -/
def ofNat (n : Nat) : Text := ofDigits (Nat.toDigits 10 n)

/-- Lower-case hexadecimal, without leading zeros. -/
def hex (n : Nat) : Text := ofDigits (Nat.toDigits 16 n)

/-- A truth value as one digit. -/
def ofBool (b : Bool) : Text := if b then "1" else "0"

/-- The part before the first NUL. -/
def beforeNul (t : Text) : Text := t.takeWhile (· != 0)

/-- Byte by byte; of two texts where one starts with the other, the shorter
comes first. -/
def order (a b : Text) : Ordering := List.compareLex compare a b

end Text

end Turbofish
