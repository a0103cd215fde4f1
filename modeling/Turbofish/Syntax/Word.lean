import Turbofish.Text

/-!
# Built-in integer types, operators and block keywords

The closed vocabularies of expressions. Each is numbered, and each can also
hold a number that names nothing, as a damaged tree may.
-/
namespace Turbofish

/-- The type written after an integer literal. -/
inductive CoreType
  | invalid
  | unsuffixed
  | usize
  | isize
  | u8
  | i8
  | u16
  | i16
  | u32
  | i32
  | u64
  | i64
  | u128
  | i128
  | unassigned (extra : Fin 2)
  deriving DecidableEq, Repr

namespace CoreType

/-- The types that have a name, in the order of their numbers. -/
def assigned : List CoreType :=
  [invalid, unsuffixed, usize, isize, u8, i8, u16, i16, u32, i32, u64, i64, u128, i128]

def number : CoreType → Nat
  | invalid => 0
  | unsuffixed => 1
  | usize => 2
  | isize => 3
  | u8 => 4
  | i8 => 5
  | u16 => 6
  | i16 => 7
  | u32 => 8
  | i32 => 9
  | u64 => 10
  | i64 => 11
  | u128 => 12
  | i128 => 13
  | unassigned extra => 14 + extra.val

def name : CoreType → Text
  | invalid => "INVAL"
  | unsuffixed => ""
  | usize => "usize"
  | isize => "isize"
  | u8 => "u8"
  | i8 => "i8"
  | u16 => "u16"
  | i16 => "i16"
  | u32 => "u32"
  | i32 => "i32"
  | u64 => "u64"
  | i64 => "i64"
  | u128 => "u128"
  | i128 => "i128"
  | unassigned _ => "NFI"

def ofNumber? (n : Nat) : Option CoreType :=
  if n < 14 then assigned[n]?
  else if h : n - 14 < 2 then some (unassigned ⟨n - 14, h⟩)
  else none

def ofName? (name : Text) : Option CoreType := assigned.find? fun t => t.name == name

end CoreType

inductive BinaryOp
  | eq
  | ne
  | lt
  | le
  | gt
  | ge
  | and
  | or
  | bitAnd
  | bitOr
  | bitXor
  | shl
  | shr
  | mul
  | div
  | rem
  | add
  | sub
  | unassigned (extra : Fin 14)
  deriving DecidableEq, Repr

namespace BinaryOp

/-- The operators that have a text, in the order of their numbers. -/
def assigned : List BinaryOp :=
  [eq, ne, lt, le, gt, ge, and, or, bitAnd, bitOr, bitXor, shl, shr, mul, div, rem, add, sub]

def number : BinaryOp → Nat
  | eq => 0
  | ne => 1
  | lt => 2
  | le => 3
  | gt => 4
  | ge => 5
  | and => 6
  | or => 7
  | bitAnd => 8
  | bitOr => 9
  | bitXor => 10
  | shl => 11
  | shr => 12
  | mul => 13
  | div => 14
  | rem => 15
  | add => 16
  | sub => 17
  | unassigned extra => 18 + extra.val

def text? : BinaryOp → Option Text
  | eq => some "=="
  | ne => some "!="
  | lt => some "<"
  | le => some "<="
  | gt => some ">"
  | ge => some ">="
  | and => some "&&"
  | or => some "||"
  | bitAnd => some "&"
  | bitOr => some "|"
  | bitXor => some "^"
  | shl => some "<<"
  | shr => some ">>"
  | mul => some "*"
  | div => some "/"
  | rem => some "%"
  | add => some "+"
  | sub => some "-"
  | unassigned _ => none

def ofNumber? (n : Nat) : Option BinaryOp :=
  if n < 18 then assigned[n]?
  else if h : n - 18 < 14 then some (unassigned ⟨n - 18, h⟩)
  else none

def ofText? (text : Text) : Option BinaryOp := assigned.find? fun op => op.text? == some text

end BinaryOp

inductive UnaryOp
  | invert
  | negate
  deriving DecidableEq, Repr

namespace UnaryOp

def number : UnaryOp → Nat
  | invert => 0
  | negate => 1

end UnaryOp

/-- The keyword in front of a block, kept as a 32-bit number of which three have a meaning. -/
inductive BlockKind
  | bare
  | unsafeBlock
  | constBlock
  | unassigned (code : Int32) (h : code < 0 ∨ 2 < code)
  deriving DecidableEq, Repr

namespace BlockKind

def number : BlockKind → Int32
  | bare => 0
  | unsafeBlock => 1
  | constBlock => 2
  | unassigned code _ => code

def ofNumber (n : Int) : BlockKind :=
  let code := Int32.ofInt n
  if h : code < 0 ∨ 2 < code then unassigned code h
  else if code = 0 then bare
  else if code = 1 then unsafeBlock
  else constBlock

theorem ofNumber_number (k : BlockKind) : ofNumber k.number.toInt = k := by
  cases k with
  | bare | unsafeBlock | constBlock => decide
  | unassigned code h =>
    rw [number, ofNumber, Int32.ofInt_toInt]
    exact dif_pos h

end BlockKind

end Turbofish
