import Mathlib.Data.Nat.Digits.Defs
import Mathlib.Tactic.Ring

/-! Numbers as bytes, least significant byte first. -/
namespace Logic.LittleEndian

/-- The number that unsigned bytes stand for. -/
def ofBytes (bytes : List UInt8) : Nat := Nat.ofDigits 256 (bytes.map UInt8.toNat)

/-- The lowest `width` bytes of a number. -/
def bytesOf (width n : Nat) : List UInt8 :=
  (List.range width).map fun i => UInt8.ofNat (n >>> (8 * i))

/-- The number that bytes stand for in two's complement. -/
def ofSignedBytes (bytes : List UInt8) : Int :=
  (ofBytes bytes : Int).bmod (256 ^ bytes.length)

/-- The `width` bytes of a number in two's complement. A number that fits in
fewer bytes is filled up with its sign. -/
def signedBytes (width : Nat) (x : Int) : List UInt8 :=
  bytesOf width (x % (256 ^ width : Nat)).toNat

@[simp] theorem length_bytesOf (width n : Nat) : (bytesOf width n).length = width := by
  simp [bytesOf]

theorem bytesOf_succ (width n : Nat) :
    bytesOf (width + 1) n = bytesOf width n ++ [UInt8.ofNat (n >>> (8 * width))] := by
  simp [bytesOf, List.range_succ]

@[simp] theorem ofBytes_nil : ofBytes [] = 0 := rfl

theorem ofBytes_append_singleton (bytes : List UInt8) (byte : UInt8) :
    ofBytes (bytes ++ [byte]) = ofBytes bytes + 256 ^ bytes.length * byte.toNat := by
  simp [ofBytes, Nat.ofDigits_append]

theorem ofBytes_lt (bytes : List UInt8) : ofBytes bytes < 256 ^ bytes.length := by
  have hDigits : ∀ digit ∈ bytes.map UInt8.toNat, digit < 256 := by
    intro digit hDigit
    obtain ⟨byte, -, rfl⟩ := List.mem_map.mp hDigit
    exact byte.toNat_lt
  simpa [ofBytes] using Nat.ofDigits_lt_base_pow_length (by decide) hDigits

theorem two_pow_eight_mul (width : Nat) : 2 ^ (8 * width) = 256 ^ width := by
  rw [Nat.pow_mul]

/-- The bytes may be put together by shifting and `|`. -/
theorem ofBytes_append_singleton_eq_or (bytes : List UInt8) (byte : UInt8) :
    ofBytes (bytes ++ [byte]) = ofBytes bytes ||| byte.toNat <<< (8 * bytes.length) := by
  have hLt : ofBytes bytes < 2 ^ (8 * bytes.length) := by
    rw [two_pow_eight_mul]
    exact ofBytes_lt bytes
  rw [ofBytes_append_singleton, Nat.or_comm, ← Nat.shiftLeft_add_eq_or_of_lt hLt,
    Nat.shiftLeft_eq, two_pow_eight_mul]
  ring

theorem ofBytes_bytesOf (width n : Nat) : ofBytes (bytesOf width n) = n % 256 ^ width := by
  induction width with
  | zero => simp [bytesOf, Nat.mod_one]
  | succ width ih =>
      rw [bytesOf_succ, ofBytes_append_singleton, ih, length_bytesOf, Nat.mod_pow_succ,
        Nat.shiftRight_eq_div_pow, two_pow_eight_mul, UInt8.toNat_ofNat']

@[simp] theorem length_signedBytes (width : Nat) (x : Int) :
    (signedBytes width x).length = width := by
  simp [signedBytes]

/-- Two's complement is read back within its range. -/
theorem ofSignedBytes_signedBytes {width : Nat} {x : Int}
    (hLower : -(256 ^ width : Nat) ≤ x * 2) (hUpper : x * 2 < (256 ^ width : Nat)) :
    ofSignedBytes (signedBytes width x) = x := by
  have hPos : (0 : Int) < (256 ^ width : Nat) := by positivity
  have hNat : ((x % (256 ^ width : Nat)).toNat : Int) = x % (256 ^ width : Nat) :=
    Int.toNat_of_nonneg (Int.emod_nonneg x hPos.ne')
  rw [ofSignedBytes, length_signedBytes, signedBytes, ofBytes_bytesOf, Int.natCast_mod, hNat,
    Int.emod_bmod, Int.emod_bmod]
  exact Int.bmod_eq_of_le_mul_two hLower hUpper

/-- A number that needs no sign bit keeps its unsigned bytes and gets a zero
byte as its sign. -/
theorem signedBytes_succ_of_lt (width : Nat) {n : Nat} (hLt : n < 256 ^ width) :
    signedBytes (width + 1) n = bytesOf width n ++ [0] := by
  have hSmall : n < 256 ^ (width + 1) :=
    lt_of_lt_of_le hLt (Nat.pow_le_pow_right (by decide) (Nat.le_succ width))
  have hMod : ((n : Int) % (256 ^ (width + 1) : Nat)).toNat = n := by
    rw [← Int.natCast_mod, Int.toNat_natCast, Nat.mod_eq_of_lt hSmall]
  have hTop : n >>> (8 * width) = 0 := by
    rw [Nat.shiftRight_eq_div_pow, two_pow_eight_mul, Nat.div_eq_of_lt hLt]
  rw [signedBytes, hMod, bytesOf_succ, hTop]
  rfl

end Logic.LittleEndian
