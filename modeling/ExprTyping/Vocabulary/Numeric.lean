/-!
# Numeric type names

The names that stand for numbers when they occur as a named type: the integer family, including
the Foundation spellings, and the floating-point family.
-/

namespace ExprTyping

/-- A numeric type that is referred to by name. -/
inductive Numeric where
  | int
  | int8
  | int16
  | int32
  | int64
  | uInt
  | uInt8
  | uInt16
  | uInt32
  | uInt64
  | nsInteger
  | nsUInteger
  | float
  | float32
  | float64
  | double
  | cgFloat
  | timeInterval
  | nsTimeInterval
  deriving DecidableEq, Repr

namespace Numeric

/-- Every numeric type, integers first. -/
def all : List Numeric :=
  [.int, .int8, .int16, .int32, .int64, .uInt, .uInt8, .uInt16, .uInt32, .uInt64,
   .nsInteger, .nsUInteger,
   .float, .float32, .float64, .double, .cgFloat, .timeInterval, .nsTimeInterval]

/-- The name a program writes. -/
def name : Numeric → String
  | .int => "Int"
  | .int8 => "Int8"
  | .int16 => "Int16"
  | .int32 => "Int32"
  | .int64 => "Int64"
  | .uInt => "UInt"
  | .uInt8 => "UInt8"
  | .uInt16 => "UInt16"
  | .uInt32 => "UInt32"
  | .uInt64 => "UInt64"
  | .nsInteger => "NSInteger"
  | .nsUInteger => "NSUInteger"
  | .float => "Float"
  | .float32 => "Float32"
  | .float64 => "Float64"
  | .double => "Double"
  | .cgFloat => "CGFloat"
  | .timeInterval => "TimeInterval"
  | .nsTimeInterval => "NSTimeInterval"

/-- Whether the values are whole numbers. -/
def isInteger : Numeric → Bool
  | .float | .float32 | .float64 | .double | .cgFloat | .timeInterval | .nsTimeInterval => false
  | _ => true

/-- The numeric type called `text`, if there is one. -/
def ofName? (text : String) : Option Numeric := all.find? fun n => n.name == text

theorem ofName?_name (n : Numeric) : ofName? n.name = some n := by cases n <;> decide

end Numeric

end ExprTyping
