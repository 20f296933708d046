import HegelCpp.Repr.Render

/-! Rendered values are uniquely decodable. The decoder is directed by the type,
and what it reads goes on with a comma, a closing brace or a semicolon. -/
namespace Hegel.Repr

open Logic Decoder

/-- What follows a rendered value: another element, the end of a braced list,
or the end of the declaration. -/
def Stops (rest : Text) : Prop :=
  ∃ c tail, rest = c :: tail ∧ (c = ',' ∨ c = '}' ∨ c = ';')

theorem Stops.noDigit {rest : Text} (h : Stops rest) : NoDigit rest := by
  obtain ⟨c, tail, rfl, hChar⟩ := h
  intro c' hHead
  cases hHead
  rcases hChar with rfl | rfl | rfl <;> rfl

theorem stops_comma (rest : Text) : Stops (", ".toList ++ rest) :=
  ⟨',', ' ' :: rest, rfl, .inl rfl⟩

theorem stops_brace (rest : Text) : Stops ("\x7d".toList ++ rest) :=
  ⟨'}', rest, rfl, .inr (.inl rfl)⟩

theorem noDigit_close (rest : Text) : NoDigit (")".toList ++ rest) := by
  intro c hHead
  cases hHead
  rfl

/-! Bytes inside a char or string literal. -/

/-- The named escapes, by the character behind the backslash. -/
def namedEscape (c : Char) : Option UInt8 :=
  if c = 'n' then some 10
  else if c = 't' then some 9
  else if c = 'r' then some 13
  else if c.toNat = 92 ∨ c.toNat = 34 ∨ c.toNat = 39 then some (UInt8.ofNat c.toNat)
  else none

/-- The byte of three octal digits. -/
def octalByte (a b c : Char) : UInt8 :=
  UInt8.ofNat ((a.toNat - 48) * 64 + (b.toNat - 48) * 8 + (c.toNat - 48))

def byte : Decoder Char UInt8
  | [] => none
  | c :: rest =>
      if c.toNat ≠ 92 then some (UInt8.ofNat c.toNat, rest)
      else match rest with
        | a :: b :: c :: tail => match namedEscape a with
          | some value => some (value, b :: c :: tail)
          | none => some (octalByte a b c, tail)
        | a :: tail => (namedEscape a).map fun value => (value, tail)
        | [] => none

theorem byte_named {a : Char} {value : UInt8} (h : namedEscape a = some value) (rest : Text) :
    byte ("\\".toList ++ a :: rest) = some (value, rest) := by
  match rest with
  | [] => simp [byte, h]
  | [b] => simp [byte, h]
  | b :: c :: tail => simp [byte, h]

theorem namedEscape_digit {n : Nat} (h : n < 8) : namedEscape (Nat.digitChar n) = none := by
  have hDigits : ∀ n : Fin 8, namedEscape (Nat.digitChar n) = none := by decide
  exact hDigits ⟨n, h⟩

theorem octalByte_octal (c : UInt8) : octalByte (Nat.digitChar (c.toNat / 64))
    (Nat.digitChar (c.toNat / 8 % 8)) (Nat.digitChar (c.toNat % 8)) = c := by
  have hByte := c.toNat_lt
  rw [octalByte, Nat.toNat_digitChar_sub_48_of_lt_ten (by omega),
    Nat.toNat_digitChar_sub_48_of_lt_ten (by omega),
    Nat.toNat_digitChar_sub_48_of_lt_ten (by omega)]
  have hValue : c.toNat / 64 * 64 + c.toNat / 8 % 8 * 8 + c.toNat % 8 = c.toNat := by omega
  rw [hValue, UInt8.ofNat_toNat]

theorem toNat_ofNat_byte (c : UInt8) : (Char.ofNat c.toNat).toNat = c.toNat := by
  have hByte := c.toNat_lt
  have hValid : c.toNat.isValidChar := Or.inl (by omega)
  rw [Char.ofNat, dif_pos hValid]
  rfl

theorem byte_inverts (inString : Bool) : byte.Inverts (escaped inString) fun _ => True := by
  intro c rest _
  unfold escaped
  split_ifs with hNewline hTab hReturn hBackslash hQuote hApostrophe hPrintable
  · subst hNewline
    exact byte_named rfl rest
  · subst hTab
    exact byte_named rfl rest
  · subst hReturn
    exact byte_named rfl rest
  · subst hBackslash
    exact byte_named rfl rest
  · rw [hQuote.1]
    exact byte_named rfl rest
  · rw [hApostrophe.1]
    exact byte_named rfl rest
  · have hPlain : c.toNat ≠ 92 := fun h => hBackslash (UInt8.toNat_inj.mp h)
    simp [byte, toNat_ofNat_byte, hPlain]
  · have hDigit := namedEscape_digit (n := c.toNat / 64) (by have := c.toNat_lt; omega)
    simp [byte, octal, hDigit, octalByte_octal]

/-- Inside a string literal a byte never looks like the closing quote. -/
theorem not_quote_escaped (c : UInt8) (rest : Text) :
    ¬ "\"".toList <+: escaped true c ++ rest := by
  unfold escaped
  split_ifs with hNewline hTab hReturn hBackslash hQuote hApostrophe hPrintable
  all_goals simp_all
  intro hSame
  have hCode : c.toNat = 34 := by rw [← toNat_ofNat_byte c, ← hSame]; rfl
  exact hQuote (UInt8.toNat_inj.mp hCode)

/-! No rendering starts with a closing brace, so an empty list is told apart
from a list of one element. -/
section Starts

/-- The text starts with something else than a closing brace. -/
def Starts (text : Text) : Prop := ∃ c tail, text = c :: tail ∧ c ≠ '}'

theorem Starts.append {text : Text} (h : Starts text) (rest : Text) : Starts (text ++ rest) := by
  obtain ⟨c, tail, rfl, hBrace⟩ := h
  exact ⟨c, tail ++ rest, rfl, hBrace⟩

theorem Starts.not_brace {text : Text} (h : Starts text) (rest : Text) :
    ¬ "\x7d".toList <+: text ++ rest := by
  obtain ⟨c, tail, rfl, hBrace⟩ := h
  rintro ⟨tail', hSame⟩
  exact hBrace (List.cons_eq_cons.mp hSame).1.symm

theorem starts_decimal (v : Int) : Starts (decimal v) := by
  cases v with
  | ofNat n =>
      obtain ⟨c, digits, hText, hDigit⟩ := exists_toDigits_eq_cons n
      refine ⟨c, digits, hText, ?_⟩
      rintro rfl
      cases hDigit
  | negSucc n => exact ⟨'-', _, rfl, by decide⟩

theorem starts_integer (type : IntType) (v : Int) : Starts (type.render v) := by
  have hLiteral := (starts_decimal v).append type.closing
  have hCast : Starts (castTo type.typeName ++ (decimal v ++ type.closing)) :=
    ⟨'s', _, rfl, by decide⟩
  cases type <;> first | exact hLiteral | exact hCast

theorem starts_name (name : TypeName) (rest : Text) :
    Starts (name.text ++ "\x7b".toList ++ rest) := by
  obtain ⟨text, hStart⟩ := name
  cases text with
  | nil => exact ⟨'{', rest, rfl, by decide⟩
  | cons c text => exact ⟨c, _, rfl, fun h => hStart (congrArg some h)⟩

theorem starts_repr (m : DataModel) (type : Ty) (value : type.Val m) :
    Starts (repr m type value) := by
  cases type with
  | integral type =>
      cases type with
      | bool => cases value <;> exact ⟨_, _, rfl, by decide⟩
      | char => exact ⟨_, _, rfl, by decide⟩
      | number type => exact starts_integer type value.1
      | other name minimum maximum => exact ⟨'s', _, rfl, by decide⟩
  | aggregate name n fields types => exact starts_name name _
  | _ => exact ⟨_, _, rfl, by decide⟩

end Starts

/-! The decoder, type by type. -/
section Decode

variable (m : DataModel)

def IntType.decode (type : IntType) : Decoder Char { v : Int // type.Holds m v } :=
  (integer.framed type.opening type.closing).refine fun v =>
    if h : type.Holds m v then some ⟨v, h⟩ else none

def decodeCast (name : TypeName) (minimum maximum : Int) :
    Decoder Char { v : Int // minimum ≤ v ∧ v ≤ maximum } :=
  (integer.framed (castTo name.text) ")".toList).refine fun v =>
    if h : minimum ≤ v ∧ v ≤ maximum then some ⟨v, h⟩ else none

def decodeBool : Decoder Char Bool := fun text =>
  match expect "true".toList text with
  | some found => some (true, found.2)
  | none => (expect "false".toList text).map fun found => (false, found.2)

def Integral.decode : (type : Integral) → Decoder Char (type.Val m)
  | bool => decodeBool
  | char => byte.framed "'".toList "'".toList
  | number type => type.decode m
  | other name minimum maximum => decodeCast name minimum maximum

/-- The size behind a literal with a NUL says nothing the bytes do not say. -/
def decodeString : Decoder Char (List UInt8) := fun text => do
  let bytes ← (byte.sequence [] "\"".toList).behind "std::string(\"".toList text
  match expect ")".toList bytes.2 with
  | some closed => pure (bytes.1, closed.2)
  | none => do
      let size ← natural.framed ", ".toList ")".toList bytes.2
      pure (bytes.1, size.2)

def decode : (type : Ty) → Decoder Char (type.Val m)
  | .integral type => type.decode m
  | .enum name underlying => (underlying.decode m).framed (castTo name.text) ")".toList
  | .string => decodeString
  | .monostate => expect "std::monostate\x7b\x7d".toList
  | type@(.pair first second) =>
      ((decode first).pairing ", ".toList (decode second)).framed
        (cppTypeName type ++ "\x7b".toList) "\x7d".toList
  | type@(.tuple _ types) => (items ", ".toList fun i => decode (types i)).framed
      (cppTypeName type ++ "\x7b".toList) "\x7d".toList
  | type@(.optional value) => ((decode value).maybe "\x7d".toList).behind
      (cppTypeName type ++ "\x7b".toList)
  | type@(.variant _ types) =>
      (alternative natural ">, ".toList fun i => decode (types i)).framed
        (cppTypeName type ++ "\x7bstd::in_place_index<".toList) "\x7d".toList
  | type@(.vector element) => ((decode element).sequence ", ".toList "\x7d".toList).behind
      (cppTypeName type ++ "\x7b".toList)
  | type@(.set element) => ((decode element).sequence ", ".toList "\x7d".toList).behind
      (cppTypeName type ++ "\x7b".toList)
  | type@(.array element _) => (items ", ".toList fun _ => decode element).framed
      (cppTypeName type ++ "\x7b".toList) "\x7d".toList
  | type@(.map key mapped) =>
      ((((decode key).pairing ", ".toList (decode mapped)).framed "\x7b".toList "\x7d".toList).sequence
        ", ".toList "\x7d".toList).behind (cppTypeName type ++ "\x7b".toList)
  | type@(.aggregate _ _ fields types) => (items ", ".toList fun i =>
      (decode (types i)).behind (".".toList ++ fields i ++ " = ".toList)).framed
        (cppTypeName type ++ "\x7b".toList) "\x7d".toList

variable {m}

theorem IntType.decode_inverts (type : IntType) :
    (type.decode m).Inverts (fun v => type.render v.1) NoDigit := by
  have hClosing : ∀ rest, NoDigit rest → NoDigit (type.closing ++ rest) := by
    intro rest hRest
    cases type with
    | int => exact hRest
    | _ =>
        intro c hHead
        cases hHead
        rfl
  refine (integer_inverts.framed hClosing).refine fun v => ?_
  rw [dif_pos v.2]

theorem decodeCast_inverts (name : TypeName) (minimum maximum : Int) :
    (decodeCast name minimum maximum).Inverts
      (fun v => castTo name.text ++ (decimal v.1 ++ ")".toList)) NoDigit := by
  refine (integer_inverts.framed fun rest _ => noDigit_close rest).refine fun v => ?_
  rw [dif_pos v.2]

theorem decodeBool_inverts :
    decodeBool.Inverts (fun value => cond value "true".toList "false".toList) fun _ => True := by
  rintro (_ | _) rest -
  · rfl
  · rfl

theorem Integral.decode_inverts (type : Integral) :
    (type.decode m).Inverts (type.render m) NoDigit := by
  cases type with
  | bool => exact decodeBool_inverts.mono fun _ _ => trivial
  | char => exact (byte_inverts false).framed fun _ _ => trivial
  | number type => exact type.decode_inverts
  | other name minimum maximum =>
      exact decodeCast_inverts name minimum maximum

/-- What is behind the closing quote of a string literal. -/
def sizeText (value : List UInt8) : Text :=
  if 0 ∈ value then ", ".toList ++ Nat.toDigits 10 value.length else []

theorem renderString_append (value : List UInt8) (rest : Text) :
    renderString value ++ rest =
      "std::string(\"".toList ++ (joined [] (value.map (escaped true)) ++ "\"".toList) ++
        (sizeText value ++ (")".toList ++ rest)) := by
  have hFlat : joined [] (value.map (escaped true)) = value.flatMap (escaped true) := by
    cases value with
    | nil => rfl
    | cons c value => simp [joined, List.flatMap_def, Function.comp_def]
  have hShape (a b c d e : Text) :
      a ++ b ++ c ++ d ++ e ++ rest = a ++ (b ++ c) ++ (d ++ (e ++ rest)) := by
    simp only [List.append_assoc]
  rw [hFlat]
  exact hShape "std::string(\"".toList (value.flatMap (escaped true)) "\"".toList
    (sizeText value) ")".toList

theorem decodeString_inverts : decodeString.Inverts renderString fun _ => True := by
  intro value rest _
  have hQuoted : (byte.sequence [] "\"".toList).Inverts _ _ := (byte_inverts true).sequence
    (fun _ => trivial) (fun _ => trivial) not_quote_escaped not_quote_escaped
  have hBytes := hQuoted.behind "std::string(\"".toList
  rw [renderString_append, decodeString, hBytes value _ trivial, sizeText]
  by_cases hNul : 0 ∈ value
  · have hFramed : (natural.framed ", ".toList ")".toList).Inverts _ fun _ => True :=
      natural_inverts.framed fun rest _ => noDigit_close rest
    have hSize := hFramed value.length rest trivial
    have hText : ", ".toList ++ Nat.toDigits 10 value.length ++ (")".toList ++ rest) =
        ", ".toList ++ (Nat.toDigits 10 value.length ++ ")".toList) ++ rest := by
      rw [List.append_assoc, List.append_assoc, List.append_assoc]
    have hOpen (text : Text) : expect ")".toList (", ".toList ++ text ++ rest) = none := rfl
    rw [if_pos hNul, hText]
    simp only [Option.bind_eq_bind, Option.bind_some, hOpen, hSize]
    rfl
  · rw [if_neg hNul]
    simp only [List.nil_append, Option.bind_eq_bind, Option.bind_some, expect_append]
    rfl

/-- The induction is on the type. Whatever follows an element of a braced list
is a comma or the closing brace. -/
theorem decode_inverts (type : Ty) : (decode m type).Inverts (repr m type) Stops := by
  have hBrace {rest : Text} (_ : Stops rest) : Stops ("\x7d".toList ++ rest) := stops_brace rest
  have hApart {α : Type} {encode : α → Text} (a : α) (rest : Text) :
      ¬ "\x7d".toList <+: ", ".toList ++ (encode a ++ rest) := by
    rintro ⟨tail, hSame⟩
    exact absurd (List.cons_eq_cons.mp hSame).1 (by decide)
  induction type with
  | integral type => exact type.decode_inverts.mono fun _ => Stops.noDigit
  | enum name underlying =>
      exact underlying.decode_inverts.framed fun rest _ => noDigit_close rest
  | string => exact decodeString_inverts.mono fun _ _ => trivial
  | monostate => exact fun _ rest _ => expect_append _ rest
  | pair first second ihFirst ihSecond =>
      exact (ihFirst.pairing stops_comma ihSecond).framed fun _ => hBrace
  | tuple n types ih => exact (items_inverts stops_comma ih).framed fun _ => hBrace
  | optional value ih =>
      exact ((ih.maybe stops_brace fun a => (starts_repr m value a).not_brace).behind _).mono
        fun _ _ => trivial
  | variant n types ih =>
      have hIndex : ∀ rest, NoDigit (">, ".toList ++ rest) := fun _ c hHead => by cases hHead; rfl
      exact (alternative_inverts natural_inverts hIndex ih).framed fun _ => hBrace
  | vector element ih =>
      exact ((ih.sequence stops_comma stops_brace hApart fun a =>
        (starts_repr m element a).not_brace).behind _).mono fun _ _ => trivial
  | set element ih =>
      exact ((ih.sequence stops_comma stops_brace hApart fun a =>
        (starts_repr m element a).not_brace).behind _).mono fun _ _ => trivial
  | array element n ih => exact (items_inverts stops_comma fun _ => ih).framed fun _ => hBrace
  | map key mapped ihKey ihMapped =>
      have hEntry : (((decode m key).pairing ", ".toList (decode m mapped)).framed "\x7b".toList
          "\x7d".toList).Inverts _ Stops :=
        (ihKey.pairing stops_comma ihMapped).framed fun rest _ => stops_brace rest
      have hStart (a : key.Val m × mapped.Val m) (rest : Text) : ¬ "\x7d".toList <+: "\x7b".toList ++
          (repr m key a.1 ++ (", ".toList ++ repr m mapped a.2) ++ "\x7d".toList) ++ rest :=
        Starts.not_brace ⟨'{', _, rfl, by decide⟩ rest
      exact ((hEntry.sequence stops_comma stops_brace hApart hStart).behind _).mono
        fun _ _ => trivial
  | aggregate name n fields types ih =>
      exact (items_inverts stops_comma fun i => (ih i).behind _).framed fun _ => hBrace

end Decode

/-- For every type, a value is recovered from its rendering and whatever may
stand behind it, so no two values of the type are rendered alike. -/
theorem repr_uniquely_decodable (m : DataModel) (type : Ty) :
    (∀ (value : type.Val m) (rest : Text), Stops rest →
      decode m type (repr m type value ++ rest) = some (value, rest)) ∧
    Function.Injective (repr m type) :=
  ⟨decode_inverts type, (decode_inverts type).injective (stops_comma [])⟩

/-- A string with a quote, a brace, a NUL and a digit behind the NUL. -/
theorem repr_uniquely_decodable_strings :
    decode .lp64 (.vector (.optional .string))
        (repr .lp64 (.vector (.optional .string)) [none, some [34, 125, 0, 49]] ++ ";".toList) =
      some ([none, some [34, 125, 0, 49]], ";".toList) :=
  (repr_uniquely_decodable .lp64 (.vector (.optional .string))).1 _ _
    ⟨';', [], rfl, .inr (.inr rfl)⟩

example : repr .lp64 (.pair .string (.optional (.integral (.number .long))))
    ([34, 0, 49], some ⟨-5, by decide⟩) =
      ("std::pair<std::string, std::optional<long>>\x7bstd::string(\"\\\"\\0001\", 3), " ++
        "std::optional<long>\x7b-5l\x7d\x7d").toList := by decide

end Hegel.Repr
