import Mathlib.Algebra.Group.Int.Defs
import Mathlib.Data.Fin.Tuple.Basic

/-! The C++ types whose values `repr` renders as expressions, and their values.
Widths of the integer types are those of some data model the standard allows. -/
namespace Hegel.Repr

/-- Source text. The bytes a rendering consists of are characters here. -/
abbrev Text := List Char

/-- What the data models of the supported compilers differ in. Everywhere
`short` has 16 bits, `int` has 32 and `long long` has 64. -/
structure DataModel where
  longBits : Nat
  longBits_eq : longBits = 32 ∨ longBits = 64

/-- 64-bit Linux and macOS. -/
def DataModel.lp64 : DataModel := ⟨64, .inr rfl⟩

/-- 64-bit Windows, and 32-bit systems. -/
def DataModel.llp64 : DataModel := ⟨32, .inl rfl⟩

/-- What `compiler_type_name` returns for a type without a spelling of its own.
No type name starts with a closing brace. -/
structure TypeName where
  text : Text
  start : text.head? ≠ some '}'
  deriving DecidableEq

/-- The standard integer types. -/
inductive IntType where
  | signedChar
  | unsignedChar
  | short
  | unsignedShort
  | int
  | unsignedInt
  | long
  | unsignedLong
  | longLong
  | unsignedLongLong
  deriving DecidableEq, Repr

namespace IntType

def signed : IntType → Bool
  | signedChar | short | int | long | longLong => true
  | unsignedChar | unsignedShort | unsignedInt | unsignedLong | unsignedLongLong => false

variable (m : DataModel) (type : IntType)

def bits : IntType → Nat
  | signedChar | unsignedChar => 8
  | short | unsignedShort => 16
  | int | unsignedInt => 32
  | long | unsignedLong => m.longBits
  | longLong | unsignedLongLong => 64

/-- `std::numeric_limits<T>::min()`. -/
def minimum : Int := if type.signed then -2 ^ (type.bits m - 1) else 0

/-- `std::numeric_limits<T>::max()`. -/
def maximum : Int := if type.signed then 2 ^ (type.bits m - 1) - 1 else 2 ^ type.bits m - 1

/-- The value is one of the type. -/
def Holds (v : Int) : Prop := type.minimum m ≤ v ∧ v ≤ type.maximum m

instance (v : Int) : Decidable (type.Holds m v) := inferInstanceAs (Decidable (_ ∧ _))

end IntType

/-- `std::is_integral`. The last form stands for `wchar_t`, `char16_t` and the
like, with the range of their values. -/
inductive Integral where
  | bool
  | char
  | number (type : IntType)
  | other (name : TypeName) (minimum maximum : Int)
  deriving DecidableEq

/-- A char is the byte `static_cast<unsigned char>` makes of it. -/
def Integral.Val (m : DataModel) : Integral → Type
  | bool => Bool
  | char => UInt8
  | number type => { v : Int // type.Holds m v }
  | other _ minimum maximum => { v : Int // minimum ≤ v ∧ v ≤ maximum }

/-- The types with a renderable form. Names of enumerations and aggregates come
from the compiler, names of fields from reflection. -/
inductive Ty where
  | integral (type : Integral)
  | enum (name : TypeName) (underlying : Integral)
  | string
  | monostate
  | pair (first second : Ty)
  | tuple (n : Nat) (types : Fin n → Ty)
  | optional (value : Ty)
  | variant (n : Nat) (types : Fin (n + 1) → Ty)
  | vector (element : Ty)
  | set (element : Ty)
  | array (element : Ty) (n : Nat)
  | map (key mapped : Ty)
  | aggregate (name : TypeName) (n : Nat) (fields : Fin n → Text) (types : Fin n → Ty)

/-- The values. A set or a map is the list of its elements in iteration order,
an enumerator is its value in the underlying type, a string is its bytes. -/
def Ty.Val (m : DataModel) : Ty → Type
  | integral type => type.Val m
  | enum _ underlying => underlying.Val m
  | string => List UInt8
  | monostate => Unit
  | pair first second => first.Val m × second.Val m
  | tuple n types => (i : Fin n) → (types i).Val m
  | optional value => Option (value.Val m)
  | variant n types => (i : Fin (n + 1)) × (types i).Val m
  | vector element => List (element.Val m)
  | set element => List (element.Val m)
  | array element n => Fin n → element.Val m
  | map key mapped => List (key.Val m × mapped.Val m)
  | aggregate _ n _ types => (i : Fin n) → (types i).Val m

end Hegel.Repr
