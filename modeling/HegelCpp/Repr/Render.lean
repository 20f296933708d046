import HegelCpp.Logic.Decoder
import HegelCpp.Repr.Types

/-! `repr`: the C++ expression for a drawn value. -/
namespace Hegel.Repr

open Logic.Decoder

/-- The three octal digits of a byte. -/
def octal (c : UInt8) : Text :=
  [Nat.digitChar (c.toNat / 64), Nat.digitChar (c.toNat / 8 % 8), Nat.digitChar (c.toNat % 8)]

/-- What `append_escaped` appends. -/
def escaped (inString : Bool) (c : UInt8) : Text :=
  if c = 10 then "\\n".toList
  else if c = 9 then "\\t".toList
  else if c = 13 then "\\r".toList
  else if c = 92 then "\\\\".toList
  else if c = 34 ∧ inString = true then "\\\"".toList
  else if c = 39 ∧ inString = false then "\\'".toList
  else if 0x20 ≤ c ∧ c < 0x7f then [Char.ofNat c.toNat]
  else "\\".toList ++ octal c

/-- `type_name_list`, and the separators of every braced list. -/
def listed (items : List Text) : Text := joined ", ".toList items

def IntType.typeName : IntType → Text
  | signedChar => "signed char".toList
  | unsignedChar => "unsigned char".toList
  | short => "short".toList
  | unsignedShort => "unsigned short".toList
  | int => "int".toList
  | unsignedInt => "unsigned int".toList
  | long => "long".toList
  | unsignedLong => "unsigned long".toList
  | longLong => "long long".toList
  | unsignedLongLong => "unsigned long long".toList

def Integral.typeName : Integral → Text
  | bool => "bool".toList
  | char => "char".toList
  | number type => type.typeName
  | other name _ _ => name.text

/-- `cpp_type_name`. -/
def cppTypeName : Ty → Text
  | .integral type => type.typeName
  | .enum name _ => name.text
  | .string => "std::string".toList
  | .monostate => "std::monostate".toList
  | .vector element => "std::vector<".toList ++ cppTypeName element ++ ">".toList
  | .set element => "std::set<".toList ++ cppTypeName element ++ ">".toList
  | .map key mapped =>
      "std::map<".toList ++ cppTypeName key ++ ", ".toList ++ cppTypeName mapped ++ ">".toList
  | .optional value => "std::optional<".toList ++ cppTypeName value ++ ">".toList
  | .pair first second =>
      "std::pair<".toList ++ cppTypeName first ++ ", ".toList ++ cppTypeName second ++ ">".toList
  | .tuple _ types =>
      "std::tuple<".toList ++ listed (List.ofFn fun i => cppTypeName (types i)) ++ ">".toList
  | .variant _ types =>
      "std::variant<".toList ++ listed (List.ofFn fun i => cppTypeName (types i)) ++ ">".toList
  | .array element n => "std::array<".toList ++ cppTypeName element ++ ", ".toList ++
      Nat.toDigits 10 n ++ ">".toList
  | .aggregate name _ _ _ => name.text

/-- `static_cast<name>(`. -/
def castTo (name : Text) : Text := "static_cast<".toList ++ name ++ ">(".toList

/-- The text before the decimal value: none for the types with a literal. -/
def IntType.opening : IntType → Text
  | int | unsignedInt | long | unsignedLong | longLong | unsignedLongLong => []
  | type => castTo type.typeName

/-- The text behind the decimal value: the suffix of a literal. -/
def IntType.closing : IntType → Text
  | int => []
  | unsignedInt => "u".toList
  | long => "l".toList
  | unsignedLong => "ul".toList
  | longLong => "ll".toList
  | unsignedLongLong => "ull".toList
  | _ => ")".toList

/-- `repr` of an integer; `std::to_string` gives the decimal value. -/
def IntType.render (type : IntType) (v : Int) : Text := type.opening ++ (decimal v ++ type.closing)

variable (m : DataModel)

/-- `repr` of the integral types. -/
def Integral.render : (type : Integral) → type.Val m → Text
  | bool, value => cond value "true".toList "false".toList
  | char, value => "'".toList ++ (escaped false value ++ "'".toList)
  | number type, value => type.render value.1
  | other name _ _, value => castTo name.text ++ (decimal value.1 ++ ")".toList)

/-- `repr` of a `std::string`. The size is given when the pointer constructor
would stop at a NUL. -/
def renderString (value : List UInt8) : Text :=
  "std::string(\"".toList ++ value.flatMap (escaped true) ++ "\"".toList ++
    (if 0 ∈ value then ", ".toList ++ Nat.toDigits 10 value.length else []) ++ ")".toList

/-- `repr`. -/
def repr : (type : Ty) → type.Val m → Text
  | .integral type, value => type.render m value
  | .enum name underlying, value =>
      castTo name.text ++ (underlying.render m value ++ ")".toList)
  | .string, value => renderString value
  | .monostate, _ => "std::monostate\x7b\x7d".toList
  | type@(.pair first second), value =>
      cppTypeName type ++ "\x7b".toList ++
        (repr first value.1 ++ (", ".toList ++ repr second value.2) ++ "\x7d".toList)
  | type@(.tuple _ types), value =>
      cppTypeName type ++ "\x7b".toList ++
        (listed (List.ofFn fun i => repr (types i) (value i)) ++ "\x7d".toList)
  | type@(.optional element), value =>
      cppTypeName type ++ "\x7b".toList ++
        ((Option.map (repr element) value).getD [] ++ "\x7d".toList)
  | type@(.variant _ types), value =>
      cppTypeName type ++ "\x7bstd::in_place_index<".toList ++
        (Nat.toDigits 10 value.1 ++ (">, ".toList ++ repr (types value.1) value.2) ++ "\x7d".toList)
  | type@(.vector element), value =>
      cppTypeName type ++ "\x7b".toList ++ (listed (List.map (repr element) value) ++ "\x7d".toList)
  | type@(.set element), value =>
      cppTypeName type ++ "\x7b".toList ++ (listed (List.map (repr element) value) ++ "\x7d".toList)
  | type@(.array element _), value =>
      cppTypeName type ++ "\x7b".toList ++
        (listed (List.ofFn fun i => repr element (value i)) ++ "\x7d".toList)
  | type@(.map key mapped), value =>
      cppTypeName type ++ "\x7b".toList ++ (listed (List.map (fun entry => "\x7b".toList ++
        (repr key entry.1 ++ (", ".toList ++ repr mapped entry.2) ++ "\x7d".toList)) value) ++
        "\x7d".toList)
  | type@(.aggregate _ _ fields types), value =>
      cppTypeName type ++ "\x7b".toList ++ (listed (List.ofFn fun i =>
        ".".toList ++ fields i ++ " = ".toList ++ repr (types i) (value i)) ++ "\x7d".toList)

end Hegel.Repr
