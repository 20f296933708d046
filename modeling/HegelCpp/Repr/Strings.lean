import HegelCpp.Repr.Decode

/-! What a C++ compiler makes of the expression for a string. A string literal
is read one character at a time; an octal escape goes on over the digits behind
it, three at most. -/
namespace Hegel.Repr

open Logic Decoder

/-- Where a reader of a string literal stands: between two characters, behind a
backslash, or behind some digits of an octal escape. -/
inductive Scan where
  | text
  | escape
  | octal (digits value : Nat)
  deriving DecidableEq, Repr

/-- The simple escape sequences of C++. -/
def simpleEscape (c : Char) : Option UInt8 :=
  match c with
  | 'n' => some 10
  | 't' => some 9
  | 'r' => some 13
  | 'a' => some 7
  | 'b' => some 8
  | 'f' => some 12
  | 'v' => some 11
  | '?' => some 63
  | '\\' => some 92
  | '"' => some 34
  | '\'' => some 39
  | _ => none

def octalDigit (c : Char) : Option Nat :=
  if 48 ≤ c.toNat ∧ c.toNat ≤ 55 then some (c.toNat - 48) else none

/-- What one character of a literal does: it goes on or closes the literal,
and completes some bytes. -/
structure ScanStep where
  next : Option Scan
  bytes : List UInt8

/-- A character between two others. A literal does not go over the end of the
line, and only ASCII text is read. -/
def textStep (c : Char) : Option ScanStep :=
  if c = '"' then some ⟨none, []⟩
  else if c = '\\' then some ⟨some .escape, []⟩
  else if c = '\n' ∨ 128 ≤ c.toNat then none
  else some ⟨some .text, [UInt8.ofNat c.toNat]⟩

/-- Hexadecimal escapes and universal character names are not read. -/
def escapeStep (c : Char) : Option ScanStep :=
  match simpleEscape c with
  | some byte => some ⟨some .text, [byte]⟩
  | none => (octalDigit c).map fun digit => ⟨some (.octal 1 digit), []⟩

/-- A further octal digit extends the escape. Any other character, and the one
behind three digits, ends it. A value that is no byte is an error. -/
def octalStep (digits value : Nat) (c : Char) : Option ScanStep :=
  match if digits < 3 then octalDigit c else none with
  | some digit => some ⟨some (.octal (digits + 1) (value * 8 + digit)), []⟩
  | none =>
      if value < 256 then
        (textStep c).map fun step => { step with bytes := UInt8.ofNat value :: step.bytes }
      else none

def Scan.step : Scan → Char → Option ScanStep
  | text => textStep
  | escape => escapeStep
  | octal digits value => octalStep digits value

/-- The bytes of a literal up to its closing quote, and the text behind it. -/
def readLiteral : Scan → Text → Option (List UInt8 × Text)
  | _, [] => none
  | scan, c :: rest =>
      match scan.step c with
      | none => none
      | some ⟨none, bytes⟩ => some (bytes, rest)
      | some ⟨some next, bytes⟩ =>
          (readLiteral next rest).map fun read => (bytes ++ read.1, read.2)

/-- The array of a literal ends in a NUL, and `std::string(const char*)` reads
up to the first one. -/
def fromPointer (bytes : List UInt8) : List UInt8 := (bytes ++ [0]).takeWhile (· != 0)

/-- `std::string(const char*, size_t)` takes exactly that many bytes, which the
array has to have. -/
def fromPointerAndSize (bytes : List UInt8) (size : Nat) : Option (List UInt8) :=
  if size ≤ (bytes ++ [0]).length then some ((bytes ++ [0]).take size) else none

/-- The value of a `std::string(...)` expression. -/
def evaluateString (text : Text) : Option (List UInt8) := do
  let opened ← expect "std::string(\"".toList text
  let read ← readLiteral .text opened.2
  if read.2 = ")".toList then pure (fromPointer read.1)
  else
    let size ← natural.framed ", ".toList ")".toList read.2
    if size.2 = [] then fromPointerAndSize read.1 size.1 else none

/-- The quoted part of a literal: every backslash has its character behind it,
and no quote stands alone. -/
inductive Quoted : Text → Prop where
  | nil : Quoted []
  | plain {c : Char} {rest : Text} (hQuote : c ≠ '"') (hBackslash : c ≠ '\\')
      (hRest : Quoted rest) : Quoted (c :: rest)
  | escape {c : Char} {rest : Text} (hRest : Quoted rest) : Quoted ('\\' :: c :: rest)

/-- Printable ASCII. -/
def Printable (c : Char) : Prop := 32 ≤ c.toNat ∧ c.toNat ≤ 126

instance (c : Char) : Decidable (Printable c) := inferInstanceAs (Decidable (_ ∧ _))

theorem octalDigit_digitChar {n : Nat} (h : n < 8) : octalDigit (Nat.digitChar n) = some n := by
  have hDigits : ∀ n : Fin 8, octalDigit (Nat.digitChar n) = some n.val := by decide
  exact hDigits ⟨n, h⟩

theorem simpleEscape_digitChar {n : Nat} (h : n < 8) : simpleEscape (Nat.digitChar n) = none := by
  have hDigits : ∀ n : Fin 8, simpleEscape (Nat.digitChar n) = none := by decide
  exact hDigits ⟨n, h⟩

/-- Behind three octal digits every text is read as it is between characters. -/
theorem readLiteral_octal_three {value : Nat} (hByte : value < 256) (text : Text) :
    readLiteral (.octal 3 value) text =
      (readLiteral .text text).map fun read => (UInt8.ofNat value :: read.1, read.2) := by
  cases text with
  | nil => rfl
  | cons c rest =>
      have hStep : Scan.step (.octal 3 value) c = (textStep c).map fun step =>
          { step with bytes := UInt8.ofNat value :: step.bytes } := by
        simp [Scan.step, octalStep, hByte]
      rw [readLiteral, readLiteral, hStep, Scan.step]
      cases textStep c with
      | none => rfl
      | some step =>
          obtain ⟨next, bytes⟩ := step
          cases next with
          | none => rfl
          | some next => simp [Function.comp_def]

theorem readLiteral_named {c : Char} {byte : UInt8} (h : simpleEscape c = some byte) (rest : Text) :
    readLiteral .text ('\\' :: c :: rest) =
      (readLiteral .text rest).map fun read => (byte :: read.1, read.2) := by
  have hEscape : escapeStep c = some ⟨some .text, [byte]⟩ := by simp [escapeStep, h]
  simp [readLiteral, Scan.step, textStep, hEscape, Function.comp_def]

/-- The three digits of an octal escape are read before the next character is
looked at. -/
theorem readLiteral_octal (byte : UInt8) (rest : Text) :
    readLiteral .text ('\\' :: (octal byte ++ rest)) =
      (readLiteral .text rest).map fun read => (byte :: read.1, read.2) := by
  have hByte := byte.toNat_lt
  have hHigh : byte.toNat / 64 < 8 := by omega
  have hMiddle : byte.toNat / 8 % 8 < 8 := by omega
  have hLow : byte.toNat % 8 < 8 := by omega
  have hValue : (byte.toNat / 64 * 8 + byte.toNat / 8 % 8) * 8 + byte.toNat % 8 = byte.toNat := by
    omega
  have hRead := readLiteral_octal_three hByte rest
  rw [UInt8.ofNat_toNat] at hRead
  simp [readLiteral, octal, Scan.step, textStep, escapeStep, octalStep, simpleEscape_digitChar,
    octalDigit_digitChar, hHigh, hMiddle, hLow, hValue, hRead, Function.comp_def]

theorem ofNat_byte_ne {byte : UInt8} {c : Char} (hCode : byte.toNat ≠ c.toNat) :
    Char.ofNat byte.toNat ≠ c := by
  intro hSame
  apply hCode
  rw [← hSame, toNat_ofNat_byte]

theorem readLiteral_plain {byte : UInt8} (hPrintable : 0x20 ≤ byte ∧ byte < 0x7f)
    (hQuote : byte.toNat ≠ 34) (hBackslash : byte.toNat ≠ 92) (rest : Text) :
    readLiteral .text (Char.ofNat byte.toNat :: rest) =
      (readLiteral .text rest).map fun read => (byte :: read.1, read.2) := by
  have hLower : 32 ≤ byte.toNat := UInt8.le_iff_toNat_le.mp hPrintable.1
  have hUpper : byte.toNat < 127 := UInt8.lt_iff_toNat_lt.mp hPrintable.2
  have hNewline : byte.toNat ≠ 10 := by omega
  have hSmall : ¬ 128 ≤ byte.toNat := by omega
  have hStep : textStep (Char.ofNat byte.toNat) = some ⟨some .text, [byte]⟩ := by
    rw [textStep, if_neg (ofNat_byte_ne hQuote), if_neg (ofNat_byte_ne hBackslash),
      toNat_ofNat_byte, if_neg (not_or.mpr ⟨ofNat_byte_ne hNewline, hSmall⟩), UInt8.ofNat_toNat]
  simp [readLiteral, Scan.step, hStep]

example : readLiteral .text ['\\', '1', 'x', '\\', '1', '2', '3', '4', '"'] =
    some ([1, 120, 83, 52], []) := by decide

/-- Whatever follows it, an escaped byte is read as that byte. -/
theorem readLiteral_escaped (byte : UInt8) (rest : Text) :
    readLiteral .text (escaped true byte ++ rest) =
      (readLiteral .text rest).map fun read => (byte :: read.1, read.2) := by
  unfold escaped
  split_ifs with hNewline hTab hReturn hBackslash hQuote hApostrophe hPrintable
  · subst hNewline
    exact readLiteral_named rfl rest
  · subst hTab
    exact readLiteral_named rfl rest
  · subst hReturn
    exact readLiteral_named rfl rest
  · subst hBackslash
    exact readLiteral_named rfl rest
  · rw [hQuote.1]
    exact readLiteral_named rfl rest
  · exact absurd hApostrophe.2 (by decide)
  · have hNotQuote : byte.toNat ≠ 34 := fun hSame => hQuote ⟨UInt8.toNat_inj.mp hSame, rfl⟩
    have hNotBackslash : byte.toNat ≠ 92 := fun hSame => hBackslash (UInt8.toNat_inj.mp hSame)
    exact readLiteral_plain hPrintable hNotQuote hNotBackslash rest
  · exact readLiteral_octal byte rest

theorem readLiteral_flatMap_escaped (value : List UInt8) (rest : Text) :
    readLiteral .text (value.flatMap (escaped true) ++ '"' :: rest) = some (value, rest) := by
  induction value with
  | nil => rfl
  | cons byte value ih =>
      rw [List.flatMap_cons, List.append_assoc, readLiteral_escaped, ih]
      rfl

theorem fromPointer_of_not_mem {value : List UInt8} (hNul : 0 ∉ value) :
    fromPointer value = value := by
  have hKept : ∀ byte ∈ value, (byte != 0) = true := by
    intro byte hByte
    rw [bne_iff_ne]
    rintro rfl
    exact hNul hByte
  rw [fromPointer, List.takeWhile_append_of_pos hKept]
  simp

theorem fromPointerAndSize_length (value : List UInt8) :
    fromPointerAndSize value value.length = some value := by
  rw [fromPointerAndSize, if_pos (by simp), List.take_left]

/-- The rendered string by its parts. -/
theorem renderString_eq (value : List UInt8) :
    renderString value = "std::string(\"".toList ++
      (value.flatMap (escaped true) ++ '"' :: (sizeText value ++ ")".toList)) := by
  have hShape (a b c d : Text) : a ++ b ++ "\"".toList ++ c ++ d = a ++ (b ++ '"' :: (c ++ d)) := by
    simp
  exact hShape _ _ (sizeText value) _

/-- A rendered string is an expression whose value is the string. -/
theorem evaluateString_renderString (value : List UInt8) :
    evaluateString (renderString value) = some value := by
  rw [renderString_eq, evaluateString]
  by_cases hNul : 0 ∈ value
  · have hFramed : (natural.framed ", ".toList ")".toList).Inverts _ fun _ => True :=
      natural_inverts.framed fun rest _ => noDigit_close rest
    have hSize := hFramed value.length [] trivial
    have hText : sizeText value ++ ")".toList =
        ", ".toList ++ (Nat.toDigits 10 value.length ++ ")".toList) ++ [] := by
      rw [sizeText, if_pos hNul, List.append_nil, List.append_assoc]
    have hTwo : sizeText value ++ ")".toList ≠ ")".toList := by
      rw [hText]
      simp
    rw [← hText] at hSize
    simp only [expect_append, readLiteral_flatMap_escaped, Option.bind_eq_bind, Option.bind_some,
      if_neg hTwo, hSize, if_true, fromPointerAndSize_length]
  · have hText : sizeText value ++ ")".toList = ")".toList := by
      rw [sizeText, if_neg hNul, List.nil_append]
    simp only [expect_append, readLiteral_flatMap_escaped, Option.bind_eq_bind, Option.bind_some,
      hText, if_true, fromPointer_of_not_mem hNul]
    rfl

theorem printable_digitChar {n : Nat} (h : n < 10) : Printable (Nat.digitChar n) := by
  have hDigits : ∀ n : Fin 10, Printable (Nat.digitChar n) := by decide
  exact hDigits ⟨n, h⟩

theorem printable_of_all {text : Text} (h : text.all (Printable ·) = true) :
    ∀ c ∈ text, Printable c := by simpa using h

theorem printable_escaped (byte : UInt8) : ∀ c ∈ escaped true byte, Printable c := by
  have hByte := byte.toNat_lt
  unfold escaped
  split_ifs with hNewline hTab hReturn hBackslash hQuote hApostrophe hPrintable
  iterate 6 exact printable_of_all (by decide)
  · have hLower : 32 ≤ byte.toNat := UInt8.le_iff_toNat_le.mp hPrintable.1
    have hUpper : byte.toNat < 127 := UInt8.lt_iff_toNat_lt.mp hPrintable.2
    rw [List.forall_mem_singleton, Printable, toNat_ofNat_byte]
    omega
  · rw [List.forall_mem_append]
    constructor
    · exact printable_of_all (by decide)
    · simp only [octal, List.forall_mem_cons]
      exact ⟨printable_digitChar (by omega), printable_digitChar (by omega),
        printable_digitChar (by omega), List.forall_mem_nil _⟩

theorem printable_toDigits (n : Nat) : ∀ c ∈ Nat.toDigits 10 n, Printable c := by
  intro c hc
  have hDigit : c.isDigit = true := isDigit_of_mem_toDigits hc
  rw [Char.isDigit, Bool.and_eq_true, decide_eq_true_eq, decide_eq_true_eq] at hDigit
  have hLower : 48 ≤ c.toNat := UInt32.le_iff_toNat_le.mp hDigit.1
  have hUpper : c.toNat ≤ 57 := UInt32.le_iff_toNat_le.mp hDigit.2
  constructor
  · omega
  · omega

theorem printable_renderString (value : List UInt8) : ∀ c ∈ renderString value, Printable c := by
  rw [renderString_eq]
  have hQuoted : ∀ c ∈ value.flatMap (escaped true), Printable c := by
    intro c hc
    obtain ⟨byte, -, hByte⟩ := List.mem_flatMap.mp hc
    exact printable_escaped byte c hByte
  have hSize : ∀ c ∈ sizeText value, Printable c := by
    unfold sizeText
    split
    · rw [List.forall_mem_append]
      exact ⟨printable_of_all (by decide), printable_toDigits value.length⟩
    · exact List.forall_mem_nil _
  simp only [List.forall_mem_append, List.forall_mem_cons]
  exact ⟨printable_of_all (by decide), hQuoted, by decide, hSize, printable_of_all (by decide)⟩

theorem Quoted.append {front back : Text} (hFront : Quoted front) (hBack : Quoted back) :
    Quoted (front ++ back) := by
  induction hFront with
  | nil => exact hBack
  | plain hQuote hBackslash _ ih => exact .plain hQuote hBackslash ih
  | escape _ ih => exact .escape ih

theorem quoted_digits {n : Nat} (h : n < 8) {rest : Text} (hRest : Quoted rest) :
    Quoted (Nat.digitChar n :: rest) := by
  have hDigits : ∀ n : Fin 8, Nat.digitChar n ≠ '"' ∧ Nat.digitChar n ≠ '\\' := by decide
  exact .plain (hDigits ⟨n, h⟩).1 (hDigits ⟨n, h⟩).2 hRest

theorem quoted_escaped (byte : UInt8) : Quoted (escaped true byte) := by
  have hByte := byte.toNat_lt
  unfold escaped
  split_ifs with hNewline hTab hReturn hBackslash hQuote hApostrophe hPrintable
  iterate 5 exact .escape .nil
  · exact absurd hApostrophe.2 (by decide)
  · have hNotQuote : byte.toNat ≠ 34 := fun hSame => hQuote ⟨UInt8.toNat_inj.mp hSame, rfl⟩
    have hNotBackslash : byte.toNat ≠ 92 := fun hSame => hBackslash (UInt8.toNat_inj.mp hSame)
    exact .plain (ofNat_byte_ne hNotQuote) (ofNat_byte_ne hNotBackslash) .nil
  · exact .escape (quoted_digits (by omega) (quoted_digits (by omega) .nil))

theorem quoted_flatMap_escaped (value : List UInt8) : Quoted (value.flatMap (escaped true)) := by
  induction value with
  | nil => exact .nil
  | cons byte value ih => exact (quoted_escaped byte).append ih

theorem repr_string (m : DataModel) (value : List UInt8) :
    repr m .string value = renderString value := rfl

/-- One of the two constructors is called. -/
theorem renderString_form (value : List UInt8) :
    renderString value =
      "std::string(\"".toList ++ value.flatMap (escaped true) ++ "\")".toList ∨
    ∃ n, renderString value = "std::string(\"".toList ++ value.flatMap (escaped true) ++
      "\", ".toList ++ Nat.toDigits 10 n ++ ")".toList := by
  unfold renderString
  by_cases hNul : 0 ∈ value
  · right
    exact ⟨value.length, by simp [hNul]⟩
  · left
    simp [hNul]

/-- `repr` of a string is one line of printable ASCII, a call of one of the two
constructors on a literal whose quoted part is complete, and evaluates to the
string. -/
theorem repr_string_rebuilds (m : DataModel) (value : List UInt8) :
    evaluateString (repr m .string value) = some value ∧
    (∀ c ∈ repr m .string value, Printable c) ∧
    ∃ quoted, Quoted quoted ∧
      (repr m .string value = "std::string(\"".toList ++ quoted ++ "\")".toList ∨
       ∃ n, repr m .string value =
          "std::string(\"".toList ++ quoted ++ "\", ".toList ++ Nat.toDigits 10 n ++ ")".toList) := by
  rw [repr_string]
  exact ⟨evaluateString_renderString value, printable_renderString value,
    value.flatMap (escaped true), quoted_flatMap_escaped value, renderString_form value⟩

example : repr .lp64 .string [34, 200, 49, 0] =
    "std::string(\"\\\"\\3101\\000\", 4)".toList := by decide

end Hegel.Repr
