/-!
# Scalars

The scalar types of a native program: truth values, characters, texts, floats, whole numbers of
fixed width and the unit. Whole numbers of up to thirty-two bits are native numbers, wider ones
whole numbers of their own kind.
-/

namespace ShapeSchema

inductive Scalar where
  | bool | char | string | f32 | f64
  | i8 | i16 | i32 | u8 | u16 | u32
  | i64 | isize | u64 | usize | i128 | u128
  | unit
deriving DecidableEq, Inhabited

namespace Scalar

def all : List Scalar :=
  [bool, char, string, f32, f64, i8, i16, i32, u8, u16, u32, i64, isize, u64, usize, i128, u128,
    unit]

def text : Scalar → String
  | bool => "bool"
  | char => "char"
  | string => "string"
  | f32 => "f32"
  | f64 => "f64"
  | i8 => "i8"
  | i16 => "i16"
  | i32 => "i32"
  | u8 => "u8"
  | u16 => "u16"
  | u32 => "u32"
  | i64 => "i64"
  | isize => "isize"
  | u64 => "u64"
  | usize => "usize"
  | i128 => "i128"
  | u128 => "u128"
  | unit => "unit"

/-- The type identifier by which error messages and trails call a scalar. -/
def ident : Scalar → String
  | string => "String"
  | unit => "()"
  | s => s.text

/-- Least and greatest value of a whole-number scalar. -/
def range? : Scalar → Option (Int × Int)
  | i8 => some (-0x80, 0x7F)
  | i16 => some (-0x8000, 0x7FFF)
  | i32 => some (-0x80000000, 0x7FFFFFFF)
  | i64 | isize => some (-0x8000000000000000, 0x7FFFFFFFFFFFFFFF)
  | u8 => some (0, 0xFF)
  | u16 => some (0, 0xFFFF)
  | u32 => some (0, 0xFFFFFFFF)
  | u64 | usize => some (0, 0xFFFFFFFFFFFFFFFF)
  | i128 => some (-0x80000000000000000000000000000000, 0x7FFFFFFFFFFFFFFFFFFFFFFFFFFFFFFF)
  | u128 => some (0, 0xFFFFFFFFFFFFFFFFFFFFFFFFFFFFFFFF)
  | _ => none

def isInteger (s : Scalar) : Bool := s.range?.isSome

/-- Does a whole number lie in the scalar's range? -/
def admits (s : Scalar) (n : Int) : Bool :=
  match s.range? with
  | some (low, high) => decide (low ≤ n) && decide (n ≤ high)
  | none => false

/-- Whole numbers that are native numbers. -/
def isNarrow : Scalar → Bool
  | i8 | i16 | i32 | u8 | u16 | u32 => true
  | _ => false

/-- Whole numbers that need not fit sixty-four signed bits. -/
def isWide : Scalar → Bool
  | u64 | usize | i128 | u128 => true
  | _ => false

end Scalar

end ShapeSchema
