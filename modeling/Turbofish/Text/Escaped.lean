import Turbofish.Text

/-!
# The text of a string literal

A quote, a backslash and the four control bytes with short names are written
with a backslash; the other control bytes are written by their number, and
every other byte stands for itself, the bytes of multi-byte characters too.
-/
namespace Turbofish.Text

/-- One byte as it stands inside quotes. -/
def escapeByte (b : UInt8) : Text :=
  if b = 0x00 then "\\0"
  else if b = 0x0A then "\\n"
  else if b = 0x0D then "\\r"
  else if b = 0x09 then "\\t"
  else if b = 0x5C then "\\\\"
  else if b = 0x22 then "\\\""
  else if b < 0x20 ∨ b = 0x7F then [0x5C, 0x75, 0x7B] ++ hex b.toNat ++ [0x7D]
  else [b]

def escape (t : Text) : Text := t.flatMap escapeByte

/-- A string literal with its quotes. -/
def quoted (t : Text) : Text := 0x22 :: escape t ++ [0x22]

end Turbofish.Text
