import HegelCpp.Logic.FixedWidth

/-! Bytes as pairs of lowercase hexadecimal digits. Texts of equal length are
ordered as their bytes, and every text of pairs of digits stands for some. -/
namespace Logic.Hexadecimal

open FixedWidth

/-- The high digit and the low digit of a byte. -/
def byteText (byte : UInt8) : List Char :=
  [Nat.digitChar (byte.toNat / 16), Nat.digitChar (byte.toNat % 16)]

def bytesText (bytes : List UInt8) : List Char := bytes.flatMap byteText

/-- A lowercase hexadecimal digit. -/
def IsDigit (c : Char) : Prop := ∃ n < 16, c = Nat.digitChar n

theorem digitChar_lt_iff {m n : Nat} (hm : m < 16) (hn : n < 16) :
    Nat.digitChar m < Nat.digitChar n ↔ m < n := by
  have hAll : ∀ m n : Fin 16, Nat.digitChar m < Nat.digitChar n ↔ m < n := by decide
  exact hAll ⟨m, hm⟩ ⟨n, hn⟩

theorem digitChar_eq_iff {m n : Nat} (hm : m < 16) (hn : n < 16) :
    Nat.digitChar m = Nat.digitChar n ↔ m = n := by
  have hAll : ∀ m n : Fin 16, Nat.digitChar m = Nat.digitChar n ↔ m = n := by decide
  exact (hAll ⟨m, hm⟩ ⟨n, hn⟩).trans (by rw [Fin.mk.injEq])

section Order

theorem byteText_lt_iff (byte byte' : UInt8) : byteText byte < byteText byte' ↔ byte < byte' := by
  have hByte := byte.toNat_lt
  have hByte' := byte'.toNat_lt
  rw [byteText, byteText, List.cons_lt_cons_iff, List.cons_lt_cons_iff,
    digitChar_lt_iff (by omega) (by omega), digitChar_eq_iff (by omega) (by omega),
    digitChar_lt_iff (by omega) (by omega), UInt8.lt_iff_toNat_lt]
  simp only [List.not_lt_nil, and_false, or_false]
  omega

theorem byteText_injective : Function.Injective byteText := by
  intro byte byte' hSame
  have hByte := byte.toNat_lt
  have hByte' := byte'.toNat_lt
  rw [byteText, byteText, List.cons.injEq, List.cons.injEq,
    digitChar_eq_iff (by omega) (by omega), digitChar_eq_iff (by omega) (by omega)] at hSame
  exact UInt8.toNat_inj.mp (by omega)

theorem length_bytesText (bytes : List UInt8) : (bytesText bytes).length = 2 * bytes.length := by
  induction bytes with
  | nil => rfl
  | cons byte bytes ih =>
      rw [bytesText, List.flatMap_cons, List.length_append, ← bytesText, ih, List.length_cons]
      simp only [byteText, List.length_cons, List.length_nil]
      omega

end Order

theorem isDigit_of_mem_bytesText {c : Char} {bytes : List UInt8} (h : c ∈ bytesText bytes) :
    IsDigit c := by
  obtain ⟨byte, -, hMem⟩ := List.mem_flatMap.mp h
  have hByte := byte.toNat_lt
  rcases List.mem_cons.mp hMem with rfl | hMem
  · exact ⟨byte.toNat / 16, by omega, rfl⟩
  · rw [List.mem_singleton.mp hMem]
    exact ⟨byte.toNat % 16, by omega, rfl⟩

/-- Pairs of digits are bytes. -/
theorem exists_bytesText (count : Nat) {text : List Char} (hLength : text.length = 2 * count)
    (hDigits : ∀ c ∈ text, IsDigit c) :
    ∃ bytes, bytes.length = count ∧ bytesText bytes = text := by
  induction count generalizing text with
  | zero => exact ⟨[], rfl, (List.eq_nil_of_length_eq_zero hLength).symm⟩
  | succ count ih =>
      match text, hLength, hDigits with
      | high :: low :: rest, hLength, hDigits =>
          obtain ⟨m, hm, rfl⟩ := hDigits high (by simp)
          obtain ⟨n, hn, rfl⟩ := hDigits low (by simp)
          obtain ⟨bytes, hBytes, hRest⟩ := ih (by simpa [Nat.mul_succ] using hLength)
            fun c hc => hDigits c (by simp [hc])
          refine ⟨UInt8.ofNat (16 * m + n) :: bytes, by rw [List.length_cons, hBytes], ?_⟩
          have hByte : (UInt8.ofNat (16 * m + n)).toNat = 16 * m + n := by
            rw [UInt8.toNat_ofNat']
            omega
          have hText : byteText (UInt8.ofNat (16 * m + n)) = [m.digitChar, n.digitChar] := by
            rw [byteText, hByte, show (16 * m + n) / 16 = m by omega,
              show (16 * m + n) % 16 = n by omega]
          rw [bytesText, List.flatMap_cons, ← bytesText, hRest, hText]
          rfl

end Logic.Hexadecimal
