import HegelCpp.Logic.Decoder
import Mathlib.Algebra.Group.Nat.Defs
import Mathlib.Data.List.Lex
import Mathlib.Order.Nat

/-! Decimal numerals of a fixed width. Read as texts they are ordered as the
numbers they stand for, alone and as the fields of a longer text. -/
namespace Logic.FixedWidth

open Decoder

/-- The number with zeros in front, up to the width. -/
def padded (width n : Nat) : List Char := (Nat.toDigits 10 n).leftpad width '0'

/-- As many digits as the width says. -/
def digits (width : Nat) : Decoder Char Nat := fun text =>
  if (text.take width).length = width ∧ (text.take width).all Char.isDigit then
    some (Nat.ofDigitChars 10 (text.take width) 0, text.drop width)
  else none

variable {width n m : Nat}

theorem isDigit_of_mem_padded {c : Char} (h : c ∈ padded width n) : c.isDigit = true := by
  rw [padded, List.leftpad, List.mem_append] at h
  rcases h with hZero | hDigit
  · rw [List.eq_of_mem_replicate hZero]
    rfl
  · exact isDigit_of_mem_toDigits hDigit

theorem length_padded (hWidth : 0 < width) (hLt : n < 10 ^ width) :
    (padded width n).length = width := by
  have hDigits := (Nat.length_toDigits_le_iff (by omega) hWidth).mpr hLt
  rw [padded, List.leftpad, List.length_append, List.length_replicate]
  exact Nat.sub_add_cancel hDigits

theorem ofDigitChars_padded (width n : Nat) : Nat.ofDigitChars 10 (padded width n) 0 = n := by
  rw [padded, List.leftpad, Nat.ofDigitChars_append, Nat.ofDigitChars_replicate_zero]
  simp

theorem digits_padded (hWidth : 0 < width) (hLt : n < 10 ^ width) (rest : List Char) :
    digits width (padded width n ++ rest) = some (n, rest) := by
  have hLength := length_padded hWidth hLt
  have hTake : (padded width n ++ rest).take width = padded width n := List.take_left' hLength
  have hDrop : (padded width n ++ rest).drop width = rest := List.drop_left' hLength
  have hAll : (padded width n).all Char.isDigit = true :=
    List.all_eq_true.mpr fun c hc => isDigit_of_mem_padded hc
  rw [digits, hTake, hDrop, if_pos ⟨hLength, hAll⟩, ofDigitChars_padded]

/-! The order. -/

theorem append_lt_append_iff {α : Type*} [LT α] {a a' b b' : List α}
    (hLength : a.length = a'.length) : a ++ b < a' ++ b' ↔ a < a' ∨ a = a' ∧ b < b' := by
  induction a generalizing a' with
  | nil =>
      rw [List.eq_nil_of_length_eq_zero hLength.symm]
      simp
  | cons x a ih =>
      cases a' with
      | nil => cases hLength
      | cons x' a' =>
          rw [List.cons_append, List.cons_append, List.cons_lt_cons_iff, List.cons_lt_cons_iff,
            ih (Nat.succ.inj hLength), List.cons.injEq]
          tauto

/-- Of two numerals to a base the leading part decides first. -/
theorem mul_add_lt_iff {base i j a b : Nat} (hFits : a < base) (hFits' : b < base) :
    i * base + a < j * base + b ↔ i < j ∨ i = j ∧ a < b := by
  rcases Nat.lt_trichotomy i j with hLess | rfl | hMore
  · have hStep := Nat.mul_le_mul_right base (Nat.succ_le_of_lt hLess)
    rw [Nat.succ_mul] at hStep
    omega
  · omega
  · have hStep := Nat.mul_le_mul_right base (Nat.succ_le_of_lt hMore)
    rw [Nat.succ_mul] at hStep
    omega

theorem toNat_of_isDigit {c : Char} (h : c.isDigit = true) : 48 ≤ c.toNat ∧ c.toNat ≤ 57 := by
  rw [Char.isDigit, Bool.and_eq_true, decide_eq_true_eq, decide_eq_true_eq] at h
  exact ⟨h.1, h.2⟩

theorem ofDigitChars_cons_zero (c : Char) (text : List Char) :
    Nat.ofDigitChars 10 (c :: text) 0 =
      (c.toNat - 48) * 10 ^ text.length + Nat.ofDigitChars 10 text 0 := by
  rw [Nat.ofDigitChars_cons, Nat.ofDigitChars_eq_ofDigitChars_zero, Nat.mul_zero, Nat.zero_add,
    Nat.mul_comm]
  rfl

theorem ofDigitChars_lt {text : List Char} (hDigits : ∀ c ∈ text, c.isDigit = true) :
    Nat.ofDigitChars 10 text 0 < 10 ^ text.length := by
  induction text with
  | nil => exact Nat.one_pos
  | cons c text ih =>
      have hRest := ih fun d hd => hDigits d (List.mem_cons_of_mem c hd)
      have hDigit := toNat_of_isDigit (hDigits c List.mem_cons_self)
      have hLe : (c.toNat - 48) * 10 ^ text.length ≤ 9 * 10 ^ text.length :=
        Nat.mul_le_mul_right _ (by omega)
      rw [ofDigitChars_cons_zero, List.length_cons, Nat.pow_succ]
      omega

/-- The first digit that differs decides both comparisons. -/
theorem digits_lt_iff {text text' : List Char} (hDigits : ∀ c ∈ text, c.isDigit = true)
    (hDigits' : ∀ c ∈ text', c.isDigit = true) (hLength : text.length = text'.length) :
    text < text' ↔ Nat.ofDigitChars 10 text 0 < Nat.ofDigitChars 10 text' 0 := by
  induction text generalizing text' with
  | nil =>
      rw [List.eq_nil_of_length_eq_zero hLength.symm]
      simp
  | cons c text ih =>
      cases text' with
      | nil => cases hLength
      | cons c' text' =>
          have hLength := Nat.succ.inj hLength
          have hMem : ∀ d ∈ text, d.isDigit = true := fun d hd =>
            hDigits d (List.mem_cons_of_mem c hd)
          have hMem' : ∀ d ∈ text', d.isDigit = true := fun d hd =>
            hDigits' d (List.mem_cons_of_mem c' hd)
          have hc := toNat_of_isDigit (hDigits c List.mem_cons_self)
          have hc' := toNat_of_isDigit (hDigits' c' List.mem_cons_self)
          have hLess : c < c' ↔ c.toNat - 48 < c'.toNat - 48 := by
            show c.toNat < c'.toNat ↔ _
            omega
          have hSame : c = c' ↔ c.toNat - 48 = c'.toNat - 48 := by
            rw [← Char.toNat_inj]
            omega
          have hLt := ofDigitChars_lt hMem
          rw [hLength] at hLt
          rw [List.cons_lt_cons_iff, ih hMem hMem' hLength, ofDigitChars_cons_zero,
            ofDigitChars_cons_zero, hLength, mul_add_lt_iff hLt (ofDigitChars_lt hMem'), hLess,
            hSame]

theorem padded_lt_iff (hWidth : 0 < width) (hLt : n < 10 ^ width) (hLt' : m < 10 ^ width) :
    padded width n < padded width m ↔ n < m := by
  have hLength := (length_padded hWidth hLt).trans (length_padded hWidth hLt').symm
  rw [digits_lt_iff (fun c => isDigit_of_mem_padded) (fun c => isDigit_of_mem_padded) hLength,
    ofDigitChars_padded, ofDigitChars_padded]

theorem padded_injective (width : Nat) : Function.Injective (padded width) :=
  fun n m hSame => by
    rw [← ofDigitChars_padded width n, ← ofDigitChars_padded width m, hSame]

/-- A numeral as a field of a longer text. -/
theorem padded_append_lt_iff (hWidth : 0 < width) (hLt : n < 10 ^ width) (hLt' : m < 10 ^ width)
    {rest rest' : List Char} :
    padded width n ++ rest < padded width m ++ rest' ↔ n < m ∨ n = m ∧ rest < rest' := by
  have hLength := (length_padded hWidth hLt).trans (length_padded hWidth hLt').symm
  rw [append_lt_append_iff hLength, padded_lt_iff hWidth hLt hLt', (padded_injective width).eq_iff]

end Logic.FixedWidth
