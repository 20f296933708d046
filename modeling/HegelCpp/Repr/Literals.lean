import HegelCpp.Repr.Render

/-! Is a rendered integer a C++ expression for its value and type? A literal is
typed by its magnitude before the minus sign applies to it, so the least value
of a signed type does not get the type it was drawn at. -/
namespace Hegel.Repr

open Logic Decoder

/-- The suffixes of a decimal literal. -/
inductive Suffix where
  | none
  | u
  | l
  | ul
  | ll
  | ull
  deriving DecidableEq, Repr

namespace Suffix

def text : Suffix → Text
  | none => []
  | u => "u".toList
  | l => "l".toList
  | ul => "ul".toList
  | ll => "ll".toList
  | ull => "ull".toList

def ofText (letters : Text) : Option Suffix :=
  [none, u, l, ul, ll, ull].find? fun suffix => suffix.text = letters

/-- The types a decimal literal is tried at, in this order. -/
def candidates : Suffix → List IntType
  | none => [.int, .long, .longLong]
  | u => [.unsignedInt, .unsignedLong, .unsignedLongLong]
  | l => [.long, .longLong]
  | ul => [.unsignedLong, .unsignedLongLong]
  | ll => [.longLong]
  | ull => [.unsignedLongLong]

end Suffix

/-- A decimal literal behind an optional unary minus. -/
structure Literal where
  negative : Bool
  magnitude : Nat
  suffix : Suffix
  deriving DecidableEq, Repr

/-! Reading the text. -/

/-- The digits, and the letters behind them as a suffix. -/
def numeral : Decoder Char (Nat × Suffix) := fun text => do
  let digits ← natural text
  let suffix ← Suffix.ofText (digits.2.takeWhile Char.isAlpha)
  pure ((digits.1, suffix), digits.2.dropWhile Char.isAlpha)

def literal : Decoder Char Literal := fun text =>
  match text with
  | '-' :: rest => (numeral rest).map fun read => (⟨true, read.1.1, read.1.2⟩, read.2)
  | text => (numeral text).map fun read => (⟨false, read.1.1, read.1.2⟩, read.2)

/-- A literal inside casts to the named types, the outermost first. -/
def operand : List Text → Decoder Char Literal
  | [] => literal
  | name :: names => (operand names).framed (castTo name) ")".toList

/-! Evaluating the expression. -/
section Evaluate

variable (m : DataModel)

/-- Conversion to an integer type, which is modulo its width. -/
def convert (type : IntType) (v : Int) : Int :=
  type.minimum m + (v - type.minimum m) % 2 ^ type.bits m

/-- The literal has the first type that holds its magnitude, and is ill-formed
when none does. The minus is then computed in that type. -/
def Literal.evaluate (read : Literal) : Option (IntType × Int) := do
  let type ← read.suffix.candidates.find? fun type => (read.magnitude : Int) ≤ type.maximum m
  pure (type, if read.negative then convert m type (-read.magnitude) else read.magnitude)

/-- A cast to a named type with the values of an integer type, which for an
enumeration is its underlying type. -/
structure Cast where
  name : Text
  type : IntType
  deriving DecidableEq, Repr

/-- The type and the value of an initializer, if it is well-formed. -/
def evaluate (casts : List Cast) (text : Text) : Option (IntType × Int) := do
  let read ← operand (casts.map (·.name)) text
  if read.2 = [] then
    let value ← read.1.evaluate m
    pure (casts.foldr (fun cast value => (cast.type, convert m cast.type value.2)) value)
  else none

end Evaluate

/-- The cast `repr` puts around the decimal value, where the type has no literal. -/
def IntType.casts : IntType → List Cast
  | int | unsignedInt | long | unsignedLong | longLong | unsignedLongLong => []
  | type => [⟨type.typeName, type⟩]

def IntType.suffix : IntType → Suffix
  | unsignedInt => .u
  | long => .l
  | unsignedLong => .ul
  | longLong => .ll
  | unsignedLongLong => .ull
  | _ => .none

/-! What the reader makes of a rendering. -/
section Read

/-- Neither a digit nor a letter continues a literal. -/
def EndsLiteral (rest : Text) : Prop :=
  NoDigit rest ∧ ∀ c ∈ rest.head?, c.isAlpha = false

theorem endsLiteral_nil : EndsLiteral [] := ⟨nofun, nofun⟩

theorem endsLiteral_close (rest : Text) : EndsLiteral (")".toList ++ rest) := by
  constructor <;>
  · intro c hHead
    cases hHead
    rfl

theorem numeral_inverts :
    numeral.Inverts (fun read => Nat.toDigits 10 read.1 ++ read.2.text) EndsLiteral := by
  rintro ⟨n, suffix⟩ rest ⟨hDigit, hAlpha⟩
  have hDigits : NoDigit (suffix.text ++ rest) := by
    cases suffix with
    | none => exact hDigit
    | _ =>
        intro c hHead
        cases hHead
        rfl
  have hLetters : suffix.text.all Char.isAlpha = true := by cases suffix <;> rfl
  obtain ⟨hTake, hDrop⟩ := takeWhile_run (List.all_eq_true.mp hLetters) hAlpha
  have hSuffix : Suffix.ofText suffix.text = some suffix := by cases suffix <;> decide
  show numeral (Nat.toDigits 10 n ++ suffix.text ++ rest) = _
  rw [List.append_assoc, numeral, natural_inverts n _ hDigits]
  simp [hTake, hDrop, hSuffix]

/-- The sign and the magnitude of a value, and the suffix of its type. -/
def literalOf (suffix : Suffix) (v : Int) : Literal := ⟨decide (v < 0), v.natAbs, suffix⟩

/-- The reader takes the casts and the literal off the text. -/
def Reads (names : List Text) (text : Text) (read : Literal) : Prop :=
  ∀ rest, EndsLiteral rest → operand names (text ++ rest) = some (read, rest)

theorem reads_literal (suffix : Suffix) (v : Int) :
    Reads [] (decimal v ++ suffix.text) (literalOf suffix v) := by
  intro rest hRest
  cases v with
  | ofNat n =>
      have hNumeral : numeral (Nat.toDigits 10 n ++ suffix.text ++ rest) =
          some ((n, suffix), rest) := numeral_inverts (n, suffix) rest hRest
      obtain ⟨c, digits, hText, hDigit⟩ := exists_toDigits_eq_cons n
      have hSign : c ≠ '-' := by
        rintro rfl
        cases hDigit
      rw [hText] at hNumeral
      simp [operand, literal, decimal, hText, hSign] at hNumeral ⊢
      simp [hNumeral, literalOf]
  | negSucc n =>
      have hNumeral := numeral_inverts (n + 1, suffix) rest hRest
      rw [List.append_assoc] at hNumeral
      simp [operand, literal, decimal, hNumeral, literalOf, Int.negSucc_lt_zero]

theorem Reads.cast {names : List Text} {text : Text} {read : Literal} (h : Reads names text read)
    (name : Text) : Reads (name :: names) (castTo name ++ (text ++ ")".toList)) read := by
  intro rest _
  have hOperand := h (")".toList ++ rest) (endsLiteral_close rest)
  rw [List.append_assoc, List.append_assoc, operand, framed]
  simp only [expect_append, hOperand, Option.bind_eq_bind, Option.bind_some]
  rfl

theorem reads_render (type : IntType) (v : Int) :
    Reads (type.casts.map (·.name)) (type.render v) (literalOf type.suffix v) := by
  have hLiteral := reads_literal type.suffix v
  have hCast := (reads_literal .none v).cast type.typeName
  rw [Suffix.text, List.append_nil] at hCast
  cases type <;> first | exact hLiteral | exact hCast

variable (m : DataModel)

/-- The value a cast makes of an evaluated operand. -/
theorem evaluate_eq {casts : List Cast} {text : Text} {read : Literal}
    (h : Reads (casts.map (·.name)) text read) :
    evaluate m casts text = (read.evaluate m).map fun value =>
      casts.foldr (fun cast value => (cast.type, convert m cast.type value.2)) value := by
  have hRead := h [] endsLiteral_nil
  rw [List.append_nil] at hRead
  rw [evaluate, hRead]
  cases hValue : read.evaluate m <;> simp [hValue]

end Read

/-! The literal's type against the value. -/
section Types

variable {m : DataModel} {type : IntType} {v : Int}

theorem maximum_sub_minimum (type : IntType) :
    type.maximum m - type.minimum m + 1 = 2 ^ type.bits m := by
  rcases m.longBits_eq with hBits | hBits <;>
    cases type <;> simp [IntType.maximum, IntType.minimum, IntType.signed, IntType.bits, hBits]

/-- The greatest value of a signed type is one short of the least one's magnitude. -/
theorem maximum_signed (hSigned : type.signed = true) :
    type.maximum m = -type.minimum m - 1 := by
  simp only [IntType.maximum, IntType.minimum, hSigned, if_true]
  omega

theorem minimum_unsigned (hUnsigned : type.signed = false) : type.minimum m = 0 := by
  simp [IntType.minimum, hUnsigned]

theorem convert_holds (h : type.Holds m v) : convert m type v = v := by
  obtain ⟨hMin, hMax⟩ := h
  have hWidth := maximum_sub_minimum (m := m) type
  have hMod : (v - type.minimum m) % 2 ^ type.bits m = v - type.minimum m :=
    Int.emod_eq_of_lt (by omega) (by omega)
  rw [convert, hMod]
  omega

/-- A literal is first tried at the type whose suffix it has, and then at others. -/
theorem candidates_literal (hLiteral : type.casts = []) :
    ∃ later, type.suffix.candidates = type :: later ∧ type ∉ later := by
  cases type <;> first | exact ⟨_, rfl, by decide⟩ | cases hLiteral

theorem candidates_signed (hSigned : type.signed = true) :
    .longLong ∈ type.suffix.candidates ∧
      ∀ candidate ∈ type.suffix.candidates, candidate.signed = true := by
  cases type <;> first | decide | cases hSigned

/-- Some candidate holds the magnitude, so the literal has a type and the
expression the value. -/
theorem literalOf_evaluate (h : type.Holds m v) {candidate : IntType}
    (hCandidate : candidate ∈ type.suffix.candidates)
    (hFits : (v.natAbs : Int) ≤ candidate.maximum m) :
    ∃ found, type.suffix.candidates.find? (fun candidate =>
        (v.natAbs : Int) ≤ candidate.maximum m) = some found ∧
      (literalOf type.suffix v).evaluate m = some (found, v) := by
  have hSome : (type.suffix.candidates.find? fun candidate =>
      (v.natAbs : Int) ≤ candidate.maximum m).isSome := by
    rw [List.find?_isSome]
    exact ⟨candidate, hCandidate, by simpa using hFits⟩
  obtain ⟨found, hFound⟩ := Option.isSome_iff_exists.mp hSome
  have hHolds : (v.natAbs : Int) ≤ found.maximum m := by simpa using List.find?_some hFound
  have hMem := List.mem_of_find?_eq_some hFound
  refine ⟨found, hFound, ?_⟩
  rw [Literal.evaluate, literalOf, hFound]
  show some (found, if decide (v < 0) then convert m found (-v.natAbs) else (v.natAbs : Int)) = _
  by_cases hNegative : v < 0
  · have hSigned : type.signed = true := by
      by_contra hUnsigned
      have hMin : type.minimum m = 0 := minimum_unsigned (by simpa using hUnsigned)
      have hLow := h.1
      omega
    have hMax := maximum_signed (m := m) ((candidates_signed hSigned).2 found hMem)
    have hValue : found.Holds m v := ⟨by omega, by omega⟩
    have hAbs : -(v.natAbs : Int) = v := by omega
    rw [if_pos (decide_eq_true hNegative), hAbs, convert_holds hValue]
  · have hAbs : (v.natAbs : Int) = v := by omega
    rw [if_neg (by simpa using hNegative), hAbs]

/-- The magnitude fits the type it was drawn at, but for the least value of a
signed type. -/
theorem natAbs_le_maximum (h : type.Holds m v) :
    (v.natAbs : Int) ≤ type.maximum m ↔ (type.signed = true → v ≠ type.minimum m) := by
  obtain ⟨hMin, hMax⟩ := h
  cases hSigned : type.signed with
  | true =>
      have hLimits := maximum_signed (m := m) hSigned
      constructor
      · intro hFits _ hLeast
        omega
      · intro hLeast
        have hApart := hLeast rfl
        omega
  | false =>
      have hZero := minimum_unsigned (m := m) hSigned
      constructor
      · exact fun _ => nofun
      · intro _
        omega

theorem literal_evaluate_iff (hLiteral : type.casts = []) (h : type.Holds m v) :
    (literalOf type.suffix v).evaluate m = some (type, v) ↔
      (type.signed = true → v ≠ type.minimum m) := by
  rw [← natAbs_le_maximum h]
  obtain ⟨later, hCandidates, hApart⟩ := candidates_literal hLiteral
  constructor
  · intro hEvaluate
    obtain ⟨found, hFound, hSame⟩ := Option.bind_eq_some_iff.mp hEvaluate
    obtain ⟨rfl, -⟩ := Prod.mk.inj (Option.some.inj hSame)
    have hHolds := List.find?_some hFound
    exact of_decide_eq_true hHolds
  · intro hFits
    have hMem : type ∈ type.suffix.candidates := by simp [hCandidates]
    obtain ⟨found, hFound, hEvaluate⟩ := literalOf_evaluate h hMem hFits
    have hFirst : (type :: later).find? (fun candidate =>
        (v.natAbs : Int) ≤ candidate.maximum m) = some type :=
      List.find?_cons_of_pos (decide_eq_true hFits)
    rw [hCandidates, hFirst] at hFound
    rwa [← Option.some.inj hFound] at hEvaluate

theorem minimum_ge (type : IntType) : -9223372036854775808 ≤ type.minimum m := by
  rcases m.longBits_eq with hBits | hBits <;>
    cases type <;> simp [IntType.minimum, IntType.signed, IntType.bits, hBits]

/-- The types without a literal are narrower than `int`. -/
theorem cast_fits (hCast : type.casts ≠ []) (h : type.Holds m v) :
    .int ∈ type.suffix.candidates ∧ (v.natAbs : Int) ≤ IntType.int.maximum m := by
  obtain ⟨hMin, hMax⟩ := h
  cases type <;> first
    | exact absurd rfl hCast
    | refine ⟨by decide, ?_⟩
      have hInt : IntType.int.maximum m = 2147483647 := rfl
      simp [IntType.minimum, IntType.maximum, IntType.signed, IntType.bits] at hMin hMax
      omega

/-- Only the least value of a 64-bit type has a magnitude no candidate holds. -/
theorem some_candidate_iff (h : type.Holds m v) :
    (∃ candidate ∈ type.suffix.candidates, (v.natAbs : Int) ≤ candidate.maximum m) ↔
      v ≠ -9223372036854775808 := by
  have hLow := minimum_ge (m := m) type
  constructor
  · rintro ⟨candidate, hMem, hFits⟩ rfl
    have hSigned : type.signed = true := by
      by_contra hUnsigned
      have hZero : type.minimum m = 0 := minimum_unsigned (by simpa using hUnsigned)
      have hMin := h.1
      omega
    have hLimits := maximum_signed (m := m) ((candidates_signed hSigned).2 candidate hMem)
    have hLeast := minimum_ge (m := m) candidate
    omega
  · intro hApart
    by_cases hCast : type.casts = []
    case neg => exact ⟨.int, (cast_fits hCast h).1, (cast_fits hCast h).2⟩
    by_cases hFits : (v.natAbs : Int) ≤ type.maximum m
    · obtain ⟨later, hCandidates, -⟩ := candidates_literal hCast
      exact ⟨type, by simp [hCandidates], hFits⟩
    · rw [natAbs_le_maximum h] at hFits
      obtain ⟨hSigned, hLeast⟩ := Classical.not_imp.mp hFits
      have hMax : IntType.longLong.maximum m = 9223372036854775807 := rfl
      have hMin := not_not.mp hLeast
      have hHigh := h.2
      have hLimits := maximum_signed (m := m) hSigned
      exact ⟨.longLong, (candidates_signed hSigned).1, by omega⟩

end Types

/-- A rendered integer is read back as the value at its type exactly when it is
not the least value of a signed type that has a literal; the types rendered by
a cast are always read back. An enumerator is read back exactly when its value
is not the least one of 64 bits, whatever the underlying type. -/
theorem rendered_integer_iff (m : DataModel) (type : IntType) :
    (∀ v : (Ty.integral (.number type)).Val m,
      evaluate m type.casts (repr m (.integral (.number type)) v) = some (type, v.1) ↔
        (type.casts = [] → type.signed = true → v.1 ≠ type.minimum m)) ∧
    (∀ (name : TypeName) (v : (Ty.enum name (.number type)).Val m),
      evaluate m (⟨name.text, type⟩ :: type.casts) (repr m (.enum name (.number type)) v) =
          some (type, v.1) ↔
        v.1 ≠ -9223372036854775808) := by
  constructor
  · rintro ⟨v, h⟩
    show evaluate m type.casts (type.render v) = _ ↔ _
    rw [evaluate_eq m (reads_render type v)]
    by_cases hLiteral : type.casts = []
    · simp [hLiteral, literal_evaluate_iff hLiteral h]
    · obtain ⟨hMem, hFits⟩ := cast_fits hLiteral h
      obtain ⟨found, -, hEvaluate⟩ := literalOf_evaluate h hMem hFits
      have hCasts : type.casts = [⟨type.typeName, type⟩] := by
        cases type <;> first | rfl | exact absurd rfl hLiteral
      simp [hEvaluate, hCasts, convert_holds h]
  · rintro name ⟨v, h⟩
    have hReads := (reads_render type v).cast name.text
    show evaluate m _ (castTo name.text ++ (type.render v ++ ")".toList)) = _ ↔ _
    have hEvaluated : evaluate m (⟨name.text, type⟩ :: type.casts) _ = _ := evaluate_eq m hReads
    rw [hEvaluated, ← some_candidate_iff h]
    constructor
    · intro hSame
      obtain ⟨value, hEvaluate, -⟩ := Option.map_eq_some_iff.mp hSame
      obtain ⟨found, hFound, -⟩ := Option.bind_eq_some_iff.mp hEvaluate
      have hHolds := List.find?_some hFound
      exact ⟨found, List.mem_of_find?_eq_some hFound, of_decide_eq_true hHolds⟩
    · rintro ⟨candidate, hMem, hFits⟩
      obtain ⟨found, -, hEvaluate⟩ := literalOf_evaluate h hMem hFits
      have hInner : (type.casts.foldr (fun cast value => (cast.type, convert m cast.type value.2))
          (found, v)).2 = v := by
        cases type <;> first | rfl | exact convert_holds h
      rw [hEvaluate, Option.map_some, List.foldr_cons, hInner, convert_holds h]

/-- `INT_MIN` is read back at type `long`. -/
theorem not_every_integer_rendered :
    ¬ ∀ (m : DataModel) (type : IntType) (v : (Ty.integral (.number type)).Val m),
      evaluate m type.casts (repr m (.integral (.number type)) v) = some (type, v.1) := by
  intro hAll
  have hLeast := hAll .lp64 .int ⟨-2147483648, by decide⟩
  have hLong : evaluate .lp64 [] (repr .lp64 (.integral (.number .int))
      ⟨-2147483648, by decide⟩) = some (.long, -2147483648) := by decide
  have hSame := hLong.symm.trans hLeast
  cases hSame

example : evaluate .lp64 [] (repr .lp64 (.integral (.number .long))
    ⟨-9223372036854775808, by decide⟩) = none := by decide

end Hegel.Repr
