import HegelCpp.Engine.Calls
import HegelCpp.Logic.LittleEndian
import Mathlib.Data.Int.ConditionallyCompleteOrder
import Mathlib.Order.Interval.Set.Defs

/-! `integers<T>()` for an integral type `T`: the bounds it asks the engine
for on the `int64_t` path and on the big-integer path, and the value it makes
of the answer. -/
namespace Hegel.Generators

open Logic LittleEndian

variable {S α β : Type}

/-- A C++ integral type by its value bits, `std::numeric_limits<T>::digits`. -/
inductive IntegralType where
  | bool
  | signed (digits : Nat)
  | unsigned (digits : Nat)
  deriving DecidableEq, Repr

namespace IntegralType

/-- The bits of a value with its sign bit. -/
def width : IntegralType → Nat
  | bool => 1
  | signed digits => digits + 1
  | unsigned digits => digits

/-- `std::is_signed_v<T>`. -/
def isSigned : IntegralType → Bool
  | signed _ => true
  | bool | unsigned _ => false

/-- `std::numeric_limits<T>::min()`. -/
def min : IntegralType → Int
  | bool => 0
  | signed digits => -(2 ^ digits : Nat)
  | unsigned _ => 0

/-- `std::numeric_limits<T>::max()`. -/
def max : IntegralType → Int
  | bool => 1
  | signed digits => (2 ^ digits : Nat) - 1
  | unsigned digits => (2 ^ digits : Nat) - 1

theorem min_le_max (t : IntegralType) : t.min ≤ t.max := by
  cases t with
  | bool => decide
  | signed digits =>
      have hPos : (0 : Int) < (2 ^ digits : Nat) := by positivity
      simp only [min, max]
      omega
  | unsigned digits =>
      have hPos : (0 : Int) < (2 ^ digits : Nat) := by positivity
      simp only [min, max]
      omega

end IntegralType

/-- A value of an integral type. -/
@[ext] structure Integral (t : IntegralType) where
  val : Int
  min_le : t.min ≤ val
  le_max : val ≤ t.max
  deriving DecidableEq, Repr

/-- `static_cast<T>` of an integer. -/
def IntegralType.cast (t : IntegralType) (x : Int) : Integral t :=
  match t with
  | bool => if x = 0 then ⟨0, by decide, by decide⟩ else ⟨1, by decide, by decide⟩
  | signed digits =>
      ⟨x.bmod (2 ^ (digits + 1)), by
        have hPos : 0 < 2 ^ (digits + 1) := by positivity
        have hLe := Int.le_bmod (x := x) hPos
        simp only [IntegralType.min, Nat.pow_succ] at *
        omega, by
        have hPos : 0 < 2 ^ (digits + 1) := by positivity
        have hLt := Int.bmod_lt (x := x) hPos
        simp only [IntegralType.max, Nat.pow_succ] at *
        omega⟩
  | unsigned digits =>
      ⟨x % (2 ^ digits : Nat), by
        have hPos : (2 ^ digits : Nat) ≠ (0 : Int) := by positivity
        exact Int.emod_nonneg x hPos, by
        have hPos : (0 : Int) < (2 ^ digits : Nat) := by positivity
        have hLt := Int.emod_lt_of_pos x hPos
        simp only [IntegralType.max]
        omega⟩

/-- A cast keeps every number that the type can represent. -/
theorem IntegralType.cast_val {t : IntegralType} {x : Int} (hMin : t.min ≤ x) (hMax : x ≤ t.max) :
    (t.cast x).val = x := by
  cases t with
  | bool =>
      simp only [IntegralType.min, IntegralType.max] at hMin hMax
      obtain rfl | rfl : x = 0 ∨ x = 1 := by omega
      · rfl
      · rfl
  | signed digits =>
      simp only [IntegralType.min, IntegralType.max] at hMin hMax
      apply Int.bmod_eq_of_le_mul_two
      · rw [Nat.pow_succ]
        omega
      · rw [Nat.pow_succ]
        omega
  | unsigned digits =>
      simp only [IntegralType.min, IntegralType.max] at hMin hMax
      apply Int.emod_eq_of_lt hMin
      omega

/-- `IntegersParams<T>`. -/
structure IntegersParams (t : IntegralType) where
  minValue : Option (Integral t) := none
  maxValue : Option (Integral t) := none

/-- An `IntegerGenerator<T>` that was constructed. -/
structure IntegerGenerator (t : IntegralType) where
  min : Integral t
  max : Integral t
  ordered : min.val ≤ max.val

/-- `IntegerGenerator::IntegerGenerator`. -/
def IntegerGenerator.make {t : IntegralType} (params : IntegersParams t) :
    Except Exn (IntegerGenerator t) :=
  let min := params.minValue.getD ⟨t.min, le_refl _, t.min_le_max⟩
  let max := params.maxValue.getD ⟨t.max, t.min_le_max, le_refl _⟩
  if hOrdered : min.val ≤ max.val then .ok ⟨min, max, hOrdered⟩
  else .error (invalidArgument "Cannot have max_value < min_value")

/-- `big_u64_len`, the bytes of every buffer of a big-integer call. -/
def bigU64Len : Nat := 9

/-- The two calls that draw an integer. -/
inductive IntegerRequest where
  | integer (minValue maxValue : Int64)
  | big (minBytes maxBytes : List UInt8)

namespace IntegerRequest

def what : IntegerRequest → String
  | integer _ _ => "hegel_generate_integer"
  | big _ _ => "hegel_generate_integer_big"

def lower : IntegerRequest → Int
  | integer minValue _ => minValue.toInt
  | big minBytes _ => ofSignedBytes minBytes

def upper : IntegerRequest → Int
  | integer _ maxValue => maxValue.toInt
  | big _ maxBytes => ofSignedBytes maxBytes

/-- The numbers the engine was asked to choose from. -/
def interval (request : IntegerRequest) : Set Int := Set.Icc request.lower request.upper

/-- The out-parameter of the call. -/
def Out : IntegerRequest → Type
  | integer _ _ => Int64
  | big _ _ => List UInt8

/-- What the engine writes for a number. A byte buffer is filled up with the
sign. -/
def write : (request : IntegerRequest) → Int → request.Out
  | integer _ _, answer => Int64.ofInt answer
  | big _ _, answer => signedBytes bigU64Len answer

/-- The content of the out-parameter stands for a number. -/
def Writes : (request : IntegerRequest) → Int → request.Out → Prop
  | integer _ _, answer, out => out.toInt = answer
  | big _ _, answer, out => out = signedBytes bigU64Len answer

theorem writes_write {request : IntegerRequest} {answer : Int}
    (hAnswer : answer ∈ request.interval) : request.Writes answer (request.write answer) := by
  cases request with
  | integer minValue maxValue =>
      have hUpper := maxValue.toInt_lt
      have hLower := minValue.le_toInt
      exact Int64.toInt_ofInt_of_le (le_trans hLower hAnswer.1) (lt_of_le_of_lt hAnswer.2 hUpper)
  | big minBytes maxBytes => rfl

end IntegerRequest

/-- Code that makes one call for an integer and goes on with its answer. -/
structure IntegerDraw (α : Type) where
  request : IntegerRequest
  result : request.Out → α

/-- The draw on a test-case handle. The engine answers within the requested
interval. -/
def IntegerDraw.run (draw : IntegerDraw α) : Client S α := do
  let answer ← engineCall draw.request.what
  pure (draw.result
    (draw.request.write (max draw.request.lower (min answer.int draw.request.upper))))

def IntegerDraw.map (f : α → β) (draw : IntegerDraw α) : IntegerDraw β :=
  ⟨draw.request, fun out => f (draw.result out)⟩

/-- `encode_u64_le`. -/
def encodeU64Le (value : UInt64) : List UInt8 :=
  (List.range 8).map (fun i => (value >>> UInt64.ofNat (8 * i)).toUInt8) ++ [0]

/-- `decode_u64_le`. -/
def decodeU64Le (bytes : List UInt8) : UInt64 :=
  (List.range 8).foldl
    (fun value i => value ||| (bytes.getD i 0).toUInt64 <<< UInt64.ofNat (8 * i)) 0

/-- `draw_integer`. -/
def drawInt64 (minValue maxValue : Int64) : IntegerDraw Int64 :=
  ⟨.integer minValue maxValue, fun out => out⟩

/-- The `int64_t` path of `draw_integer_unsigned`. -/
def drawUnsignedFast (minValue maxValue : UInt64) : IntegerDraw UInt64 :=
  (drawInt64 minValue.toInt64 maxValue.toInt64).map Int64.toUInt64

/-- The big-integer path of `draw_integer_unsigned`. -/
def drawUnsignedBig (minValue maxValue : UInt64) : IntegerDraw UInt64 :=
  ⟨.big (encodeU64Le minValue) (encodeU64Le maxValue), decodeU64Le⟩

/-- `draw_integer_unsigned`. -/
def drawIntegerUnsigned (minValue maxValue : UInt64) : IntegerDraw UInt64 :=
  if maxValue ≤ Int64.maxValue.toUInt64 then drawUnsignedFast minValue maxValue
  else drawUnsignedBig minValue maxValue

/-- `IntegerGenerator::do_draw`. -/
def IntegerGenerator.doDraw {t : IntegralType} (g : IntegerGenerator t) :
    IntegerDraw (Integral t) :=
  if t.isSigned then
    (drawInt64 (Int64.ofInt g.min.val) (Int64.ofInt g.max.val)).map fun value =>
      t.cast value.toInt
  else
    (drawIntegerUnsigned (UInt64.ofInt g.min.val) (UInt64.ofInt g.max.val)).map fun value =>
      t.cast value.toNat

theorem encodeU64Le_eq (value : UInt64) : encodeU64Le value = signedBytes 9 value.toNat := by
  rw [signedBytes_succ_of_lt 8 value.toNat_lt]
  apply congrArg (· ++ [0])
  apply List.map_congr_left
  intro i hi
  have hShift : (UInt64.ofNat (8 * i)).toNat % 64 = 8 * i := by
    have hLt := List.mem_range.mp hi
    rw [UInt64.toNat_ofNat']
    omega
  apply UInt8.toNat_inj.mp
  rw [UInt64.toNat_toUInt8, UInt64.toNat_shiftRight, hShift, UInt8.toNat_ofNat']

/-- One iteration of `decode_u64_le` reads one more byte. -/
theorem decodeU64Le_step {bytes : List UInt8} {i : Nat} (hWidth : i < 8)
    (hByte : i < bytes.length) {value : UInt64} (hValue : value.toNat = ofBytes (bytes.take i)) :
    (value ||| (bytes.getD i 0).toUInt64 <<< UInt64.ofNat (8 * i)).toNat =
      ofBytes (bytes.take (i + 1)) := by
  have hShift : (UInt64.ofNat (8 * i)).toNat % 64 = 8 * i := by
    rw [UInt64.toNat_ofNat']
    omega
  have hGet : bytes.getD i 0 = bytes[i] := by
    rw [List.getD_eq_getElem?_getD, List.getElem?_eq_getElem hByte, Option.getD_some]
  have hFits : bytes[i].toNat <<< (8 * i) < 2 ^ 64 := by
    have hLt : bytes[i].toNat < 2 ^ 8 := bytes[i].toNat_lt
    have hPow : 2 ^ 8 * 2 ^ (8 * i) ≤ 2 ^ 64 := by
      rw [← Nat.pow_add]
      exact Nat.pow_le_pow_right (by decide) (by omega)
    rw [Nat.shiftLeft_eq]
    exact lt_of_lt_of_le (Nat.mul_lt_mul_of_pos_right hLt (by positivity)) hPow
  have hLength : (bytes.take i).length = i := by
    rw [List.length_take, Nat.min_eq_left hByte.le]
  rw [UInt64.toNat_or, UInt64.toNat_shiftLeft, UInt8.toNat_toUInt64, hShift, hGet, hValue,
    Nat.mod_eq_of_lt hFits, List.take_succ_eq_append_getElem hByte,
    ofBytes_append_singleton_eq_or, hLength]

/-- `decode_u64_le` reads the lowest eight bytes. -/
theorem toNat_decodeU64Le {bytes : List UInt8} (hLength : 8 ≤ bytes.length) :
    (decodeU64Le bytes).toNat = ofBytes (bytes.take 8) := by
  have hLoop : ∀ count ≤ 8,
      ((List.range count).foldl
        (fun value i => value ||| (bytes.getD i 0).toUInt64 <<< UInt64.ofNat (8 * i)) 0).toNat =
        ofBytes (bytes.take count) := by
    intro count
    induction count with
    | zero =>
        intro _
        rfl
    | succ count ih =>
        intro hCount
        rw [List.range_succ, List.foldl_append]
        exact decodeU64Le_step (by omega) (by omega) (ih (by omega))
  exact hLoop 8 (Nat.le_refl 8)

theorem decodeU64Le_signedBytes {n : Nat} (hLt : n < 2 ^ 64) :
    (decodeU64Le (signedBytes 9 n)).toNat = n := by
  rw [toNat_decodeU64Le (by simp), signedBytes_succ_of_lt 8 hLt,
    List.take_left' (length_bytesOf 8 n), ofBytes_bytesOf]
  exact Nat.mod_eq_of_lt hLt

theorem ofSignedBytes_encodeU64Le (value : UInt64) :
    ofSignedBytes (encodeU64Le value) = value.toNat := by
  have hLt := value.toNat_lt
  rw [encodeU64Le_eq]
  apply ofSignedBytes_signedBytes
  · omega
  · omega

/-- The engine is asked for the numbers from `lo` to `hi`, and whichever of them
it writes is the number that the result stands for. -/
structure IntegerDraw.Exact (draw : IntegerDraw α) (number : α → Int) (lo hi : Int) : Prop where
  lower_eq : draw.request.lower = lo
  upper_eq : draw.request.upper = hi
  returns : ∀ answer ∈ Set.Icc lo hi, ∀ out, draw.request.Writes answer out →
    number (draw.result out) = answer

theorem IntegerDraw.Exact.asks {draw : IntegerDraw α} {number : α → Int} {lo hi : Int}
    (hExact : draw.Exact number lo hi) : draw.request.interval = Set.Icc lo hi := by
  rw [IntegerRequest.interval, hExact.lower_eq, hExact.upper_eq]

/-- A conversion that keeps the numbers in the interval keeps a draw exact. -/
theorem IntegerDraw.Exact.map {draw : IntegerDraw α} {number : α → Int} {lo hi : Int}
    (hExact : draw.Exact number lo hi) {f : α → β} {converted : β → Int}
    (hKeeps : ∀ value, number value ∈ Set.Icc lo hi → converted (f value) = number value) :
    (draw.map f).Exact converted lo hi where
  lower_eq := hExact.lower_eq
  upper_eq := hExact.upper_eq
  returns answer hAnswer out hWrites := by
    have hNumber : number (draw.result out) = answer := hExact.returns answer hAnswer out hWrites
    rw [← hNumber] at hAnswer ⊢
    exact hKeeps (draw.result out) hAnswer

theorem exact_drawInt64 (minValue maxValue : Int64) :
    (drawInt64 minValue maxValue).Exact Int64.toInt minValue.toInt maxValue.toInt where
  lower_eq := rfl
  upper_eq := rfl
  returns _ _ _ hWrites := hWrites

theorem toInt_toInt64_of_le {value : UInt64} (hLe : value ≤ Int64.maxValue.toUInt64) :
    value.toInt64.toInt = value.toNat := by
  have hSmall : 2 * value.toNat < 2 ^ 64 := by
    have hNat : value.toNat ≤ 2 ^ 63 - 1 := UInt64.le_iff_toNat_le.mp hLe
    omega
  exact BitVec.toInt_eq_toNat_of_lt hSmall

theorem toNat_toUInt64_of_nonneg {value : Int64} (hNonneg : 0 ≤ value.toInt) :
    (value.toUInt64.toNat : Int) = value.toInt := by
  have hSmall : 2 * value.toBitVec.toNat < 2 ^ 64 := by
    by_contra hLarge
    have hNegative : value.toBitVec.toInt < 0 := BitVec.toInt_neg_iff.mpr (by omega)
    exact absurd hNonneg (not_le.mpr hNegative)
  exact (BitVec.toInt_eq_toNat_of_lt hSmall).symm

/-- The `int64_t` path draws the interval exactly when its bounds fit. -/
theorem exact_drawUnsignedFast {minValue maxValue : UInt64} (hOrdered : minValue ≤ maxValue)
    (hFits : maxValue ≤ Int64.maxValue.toUInt64) :
    (drawUnsignedFast minValue maxValue).Exact (fun value => (value.toNat : Int))
      minValue.toNat maxValue.toNat := by
  rw [← toInt_toInt64_of_le hFits, ← toInt_toInt64_of_le (UInt64.le_trans hOrdered hFits)]
  apply (exact_drawInt64 _ _).map
  intro value hValue
  apply toNat_toUInt64_of_nonneg
  rw [toInt_toInt64_of_le (UInt64.le_trans hOrdered hFits)] at hValue
  exact le_trans (Int.natCast_nonneg _) hValue.1

/-- The big-integer path draws every interval exactly. -/
theorem exact_drawUnsignedBig (minValue maxValue : UInt64) :
    (drawUnsignedBig minValue maxValue).Exact (fun value => (value.toNat : Int))
      minValue.toNat maxValue.toNat where
  lower_eq := ofSignedBytes_encodeU64Le minValue
  upper_eq := ofSignedBytes_encodeU64Le maxValue
  returns answer hAnswer out hWrites := by
    have hNonneg : 0 ≤ answer := le_trans (Int.natCast_nonneg _) hAnswer.1
    have hLt : answer.toNat < 2 ^ 64 := by
      have hMax := hAnswer.2
      have hBound := maxValue.toNat_lt
      omega
    have hOut : out = signedBytes 9 (answer.toNat : Int) := by
      rw [Int.toNat_of_nonneg hNonneg]
      exact hWrites
    rw [hOut]
    calc ((decodeU64Le (signedBytes 9 answer.toNat)).toNat : Int)
        = answer.toNat := congrArg Nat.cast (decodeU64Le_signedBytes hLt)
      _ = answer := Int.toNat_of_nonneg hNonneg

theorem exact_drawIntegerUnsigned {minValue maxValue : UInt64} (hOrdered : minValue ≤ maxValue) :
    (drawIntegerUnsigned minValue maxValue).Exact (fun value => (value.toNat : Int))
      minValue.toNat maxValue.toNat := by
  unfold drawIntegerUnsigned
  split
  · next hFits => exact exact_drawUnsignedFast hOrdered hFits
  · exact exact_drawUnsignedBig minValue maxValue

theorem IntegralType.signed_bounds {t : IntegralType} (hSigned : t.isSigned = true)
    (hWidth : t.width ≤ 64) : -2 ^ 63 ≤ t.min ∧ t.max < 2 ^ 63 := by
  cases t with
  | bool => simp [isSigned] at hSigned
  | unsigned digits => simp [isSigned] at hSigned
  | signed digits =>
      have hPow : 2 ^ digits ≤ 2 ^ 63 :=
        Nat.pow_le_pow_right (by decide) (Nat.le_of_succ_le_succ hWidth)
      simp only [min, max]
      omega

theorem IntegralType.unsigned_bounds {t : IntegralType} (hUnsigned : t.isSigned = false)
    (hWidth : t.width ≤ 64) : 0 ≤ t.min ∧ t.max < 2 ^ 64 := by
  cases t with
  | bool => decide
  | signed digits => simp [isSigned] at hUnsigned
  | unsigned digits =>
      have hPow : 2 ^ digits ≤ 2 ^ 64 := Nat.pow_le_pow_right (by decide) hWidth
      simp only [min, max]
      omega

theorem toNat_ofInt_of_bounds {x : Int} (hNonneg : 0 ≤ x) (hLt : x < 2 ^ 64) :
    ((UInt64.ofInt x).toNat : Int) = x := by
  have hMod : x % 2 ^ 64 = x := Int.emod_eq_of_lt hNonneg hLt
  have hNat : x.toNat < 2 ^ 64 := by omega
  rw [UInt64.ofInt, hMod, UInt64.toNat_ofNat', Nat.mod_eq_of_lt hNat, Int.toNat_of_nonneg hNonneg]

theorem exact_doDraw {t : IntegralType} (hWidth : t.width ≤ 64) (g : IntegerGenerator t) :
    g.doDraw.Exact Integral.val g.min.val g.max.val := by
  have hMin := g.min.min_le
  have hMax := g.max.le_max
  have hCast : ∀ x : Int, x ∈ Set.Icc g.min.val g.max.val → (t.cast x).val = x := by
    intro x hx
    exact IntegralType.cast_val (le_trans hMin hx.1) (le_trans hx.2 hMax)
  unfold IntegerGenerator.doDraw
  split
  · next hSigned =>
      obtain ⟨hLower, hUpper⟩ := IntegralType.signed_bounds hSigned hWidth
      have hOrdered := g.ordered
      have hFrom : (Int64.ofInt g.min.val).toInt = g.min.val :=
        Int64.toInt_ofInt_of_le (by omega) (by omega)
      have hTo : (Int64.ofInt g.max.val).toInt = g.max.val :=
        Int64.toInt_ofInt_of_le (by omega) (by omega)
      have hDraw := exact_drawInt64 (Int64.ofInt g.min.val) (Int64.ofInt g.max.val)
      rw [hFrom, hTo] at hDraw
      exact hDraw.map fun value hValue => hCast _ hValue
  · next hUnsigned =>
      obtain ⟨hLower, hUpper⟩ := IntegralType.unsigned_bounds (by simpa using hUnsigned) hWidth
      have hOrdered := g.ordered
      have hFrom : ((UInt64.ofInt g.min.val).toNat : Int) = g.min.val :=
        toNat_ofInt_of_bounds (by omega) (by omega)
      have hTo : ((UInt64.ofInt g.max.val).toNat : Int) = g.max.val :=
        toNat_ofInt_of_bounds (by omega) (by omega)
      have hLe : UInt64.ofInt g.min.val ≤ UInt64.ofInt g.max.val := by
        rw [UInt64.le_iff_toNat_le]
        omega
      have hDraw := exact_drawIntegerUnsigned hLe
      rw [hFrom, hTo] at hDraw
      exact hDraw.map fun value hValue => hCast _ hValue

/-- The generator on a test-case handle: one engine call, whose answer is the
value. -/
theorem run_doDraw {t : IntegralType} (hWidth : t.width ≤ 64) (g : IntegerGenerator t) :
    (g.doDraw.run : Client S (Integral t)) = (do
      let answer ← engineCall g.doDraw.request.what
      pure (t.cast (max g.min.val (min answer.int g.max.val)))) := by
  have hExact := exact_doDraw hWidth g
  have hOrdered := g.ordered
  unfold IntegerDraw.run
  congr 1
  funext answer
  apply congrArg pure
  rw [hExact.lower_eq, hExact.upper_eq]
  have hAnswer : max g.min.val (min answer.int g.max.val) ∈ Set.Icc g.min.val g.max.val := by
    constructor
    · omega
    · omega
  apply Integral.ext
  rw [IntegralType.cast_val (le_trans g.min.min_le hAnswer.1) (le_trans hAnswer.2 g.max.le_max)]
  apply hExact.returns _ hAnswer
  apply IntegerRequest.writes_write
  rw [hExact.asks]
  exact hAnswer

/-- The constructor accepts exactly the bounds that are in order. -/
theorem make_eq_ok_iff {t : IntegralType} {params : IntegersParams t} {g : IntegerGenerator t} :
    IntegerGenerator.make params = .ok g ↔
      g.min = params.minValue.getD ⟨t.min, le_refl _, t.min_le_max⟩ ∧
      g.max = params.maxValue.getD ⟨t.max, t.min_le_max, le_refl _⟩ := by
  obtain ⟨lo, hi, hOrdered⟩ := g
  unfold IntegerGenerator.make
  constructor
  · intro hMake
    dsimp only at hMake
    split at hMake
    · simp only [Except.ok.injEq, IntegerGenerator.mk.injEq] at hMake
      exact ⟨hMake.1.symm, hMake.2.symm⟩
    · cases hMake
  · rintro ⟨rfl, rfl⟩
    exact dif_pos hOrdered

/-- `integers<T>` asks for its range and returns the answer, and the two paths
of an unsigned draw agree wherever the `int64_t` path could be taken. -/
theorem integers_asks_and_returns_range {t : IntegralType} (hWidth : t.width ≤ 64)
    (g : IntegerGenerator t) :
    g.doDraw.request.interval = Set.Icc g.min.val g.max.val ∧
    (∀ answer ∈ Set.Icc g.min.val g.max.val, ∀ out, g.doDraw.request.Writes answer out →
      (g.doDraw.result out).val = answer) ∧
    ∀ minValue maxValue : UInt64, minValue ≤ maxValue → maxValue ≤ Int64.maxValue.toUInt64 →
      (drawUnsignedFast minValue maxValue).request.interval =
        (drawUnsignedBig minValue maxValue).request.interval ∧
      ∀ answer ∈ (drawUnsignedFast minValue maxValue).request.interval, ∀ out out',
        (drawUnsignedFast minValue maxValue).request.Writes answer out →
        (drawUnsignedBig minValue maxValue).request.Writes answer out' →
        (drawUnsignedFast minValue maxValue).result out =
          (drawUnsignedBig minValue maxValue).result out' := by
  have hExact := exact_doDraw hWidth g
  refine ⟨hExact.asks, hExact.returns, ?_⟩
  intro minValue maxValue hOrdered hFits
  have hFast := exact_drawUnsignedFast hOrdered hFits
  have hBig := exact_drawUnsignedBig minValue maxValue
  constructor
  · rw [hFast.asks, hBig.asks]
  · intro answer hAnswer out out' hOut hOut'
    rw [hFast.asks] at hAnswer
    apply UInt64.toNat_inj.mp
    apply Int.natCast_inj.mp
    rw [hFast.returns answer hAnswer out hOut, hBig.returns answer hAnswer out' hOut']

/-- All of `uint64_t`, which takes the big-integer path. -/
def uint64Generator : IntegerGenerator (.unsigned 64) where
  min := ⟨0, by decide, by decide⟩
  max := ⟨18446744073709551615, by decide, by decide⟩
  ordered := by decide

theorem integers_asks_and_returns_range_uint64 :
    uint64Generator.doDraw.request.interval = Set.Icc 0 18446744073709551615 ∧
    (uint64Generator.doDraw.result (signedBytes 9 9223372036854775808)).val =
      9223372036854775808 := by
  have hRange := integers_asks_and_returns_range (t := .unsigned 64) (by decide) uint64Generator
  exact ⟨hRange.1, hRange.2.1 _ ⟨by decide, by decide⟩ _ rfl⟩

end Hegel.Generators
