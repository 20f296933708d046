import HegelCpp.Exception
import HegelCpp.Logic.Hexadecimal

/-! `uuids()`: the text of the sixteen bytes that the engine draws, in the
canonical form. -/
namespace Hegel.Generators

open Logic Hexadecimal

/-- `kHex`. -/
def kHex : List Char := "0123456789abcdef".toList

def hexChar (digit : UInt8) : Char := kHex.getD digit.toNat '\x00'

/-- The hyphens stand before bytes 4, 6, 8 and 10. -/
def hyphenBefore (i : Nat) : Bool := i == 4 || i == 6 || i == 8 || i == 10

/-- The loop of `draw_uuid`, from byte `i` on. -/
def uuidLoop : (i : Nat) → List UInt8 → List Char
  | _, [] => []
  | i, byte :: bytes =>
      (if hyphenBefore i then ['-'] else []) ++
        hexChar (byte >>> 4) :: hexChar (byte &&& 0x0F) :: uuidLoop (i + 1) bytes

/-- The value of `draw_uuid` for the bytes. -/
def formatUuid (bytes : Vector UInt8 16) : String := String.ofList (uuidLoop 0 bytes.toList)

/-- `uuids`: what it throws, or the version that is forced. -/
def uuids (version : Option Int) : Except Exn (Option UInt8) :=
  match version with
  | none => .ok none
  | some version =>
      if version < 1 ∨ 5 < version then
        .error (invalidArgument "uuids version must be between 1 and 5")
      else .ok (some (UInt8.ofNat version.toNat))

/-- What `hegel_generate_uuid` may write, as `libhegel` documents it: any bytes
but the nil ones, or the version and the variant of RFC 4122 in their places. -/
def UuidBytes (version : Option UInt8) (bytes : Vector UInt8 16) : Prop :=
  match version with
  | none => ∃ byte ∈ bytes.toList, byte ≠ 0
  | some version => bytes[6] >>> 4 = version ∧ bytes[8] >>> 6 = 2

/-! The canonical form. -/

/-- Five groups of digits. -/
structure Groups where
  timeLow : List Char
  timeMid : List Char
  timeHigh : List Char
  clock : List Char
  node : List Char

namespace Groups

def text (groups : Groups) : List Char :=
  groups.timeLow ++ '-' :: (groups.timeMid ++ '-' :: (groups.timeHigh ++ '-' ::
    (groups.clock ++ '-' :: groups.node)))

/-- The form 8-4-4-4-12. -/
structure Canonical (groups : Groups) : Prop where
  timeLow : groups.timeLow.length = 8 ∧ ∀ c ∈ groups.timeLow, IsDigit c
  timeMid : groups.timeMid.length = 4 ∧ ∀ c ∈ groups.timeMid, IsDigit c
  timeHigh : groups.timeHigh.length = 4 ∧ ∀ c ∈ groups.timeHigh, IsDigit c
  clock : groups.clock.length = 4 ∧ ∀ c ∈ groups.clock, IsDigit c
  node : groups.node.length = 12 ∧ ∀ c ∈ groups.node, IsDigit c

end Groups

/-! The loop. -/

theorem hexPair_eq (byte : UInt8) :
    [hexChar (byte >>> 4), hexChar (byte &&& 0x0F)] = byteText byte := by
  have hChar (n : Nat) (hn : n < 16) : kHex.getD n '\x00' = Nat.digitChar n := by
    have hAll : ∀ n : Fin 16, kHex.getD n '\x00' = Nat.digitChar n := by decide
    exact hAll ⟨n, hn⟩
  have hByte := byte.toNat_lt
  have hHigh : (byte >>> 4).toNat = byte.toNat / 16 := by
    rw [UInt8.toNat_shiftRight, Nat.shiftRight_eq_div_pow]
    rfl
  have hLow : (byte &&& 0x0F).toNat = byte.toNat % 16 := by
    rw [UInt8.toNat_and]
    exact Nat.and_two_pow_sub_one_eq_mod byte.toNat 4
  rw [hexChar, hexChar, hHigh, hLow, hChar _ (by omega), hChar _ (by omega), byteText]

theorem uuidLoop_cons (i : Nat) (byte : UInt8) (bytes : List UInt8) :
    uuidLoop i (byte :: bytes) =
      (if hyphenBefore i then ['-'] else []) ++ (byteText byte ++ uuidLoop (i + 1) bytes) := by
  rw [uuidLoop, ← hexPair_eq]
  rfl

/-- A group ends where the next hyphen comes. -/
theorem uuidLoop_group (i : Nat) (byte : UInt8) {bytes : List UInt8}
    (hInside : ∀ k < bytes.length, hyphenBefore (i + 1 + k) = false) (rest : List UInt8) :
    uuidLoop i (byte :: bytes ++ rest) = (if hyphenBefore i then ['-'] else []) ++
      (bytesText (byte :: bytes) ++ uuidLoop (i + 1 + bytes.length) rest) := by
  induction bytes generalizing i byte with
  | nil =>
      rw [List.cons_append, uuidLoop_cons]
      simp [bytesText]
  | cons next bytes ih =>
      have hNext : hyphenBefore (i + 1) = false := hInside 0 (Nat.zero_lt_succ _)
      have hRest := ih (i + 1) next fun k hk => by
        have hStep := hInside (k + 1) (Nat.succ_lt_succ hk)
        rwa [show i + 1 + (k + 1) = i + 1 + 1 + k by omega] at hStep
      have hLast : i + 1 + 1 + bytes.length = i + 1 + (next :: bytes).length := by
        rw [List.length_cons]
        omega
      rw [hNext, hLast] at hRest
      rw [List.cons_append, uuidLoop_cons, hRest]
      simp [bytesText]

/-- A group of bytes at its place. -/
theorem uuidLoop_segment {i count : Nat} {bytes : List UInt8} (hLength : bytes.length = count)
    (hCount : 0 < count) (hInside : ∀ k < count, 0 < k → hyphenBefore (i + k) = false)
    (rest : List UInt8) :
    uuidLoop i (bytes ++ rest) = (if hyphenBefore i then ['-'] else []) ++
      (bytesText bytes ++ uuidLoop (i + count) rest) := by
  cases bytes with
  | nil => exact absurd hCount (by simp [← hLength])
  | cons byte bytes =>
      rw [List.length_cons] at hLength
      rw [uuidLoop_group i byte (fun k hk => ?_) rest, Nat.add_assoc, Nat.add_comm 1, hLength]
      rw [Nat.add_assoc]
      exact hInside (1 + k) (by omega) (by omega)

/-- The groups of the bytes. -/
structure ByteGroups where
  timeLow : List UInt8
  timeMid : List UInt8
  timeHigh : List UInt8
  clock : List UInt8
  node : List UInt8

namespace ByteGroups

def bytes (groups : ByteGroups) : List UInt8 :=
  groups.timeLow ++ (groups.timeMid ++ (groups.timeHigh ++ (groups.clock ++ groups.node)))

structure Sized (groups : ByteGroups) : Prop where
  timeLow : groups.timeLow.length = 4
  timeMid : groups.timeMid.length = 2
  timeHigh : groups.timeHigh.length = 2
  clock : groups.clock.length = 2
  node : groups.node.length = 6

def digits (groups : ByteGroups) : Groups where
  timeLow := bytesText groups.timeLow
  timeMid := bytesText groups.timeMid
  timeHigh := bytesText groups.timeHigh
  clock := bytesText groups.clock
  node := bytesText groups.node

end ByteGroups

theorem uuidLoop_bytes {groups : ByteGroups} (h : groups.Sized) :
    uuidLoop 0 groups.bytes = groups.digits.text := by
  have hPlaces : ∀ k < 16, k ∉ [4, 6, 8, 10] → hyphenBefore k = false := by decide
  have hNode : uuidLoop 10 groups.node = '-' :: bytesText groups.node := by
    have hLast := uuidLoop_segment (i := 10) h.node (by decide)
      (fun k hk hPos => hPlaces _ (by omega) (by simp; omega)) []
    rw [List.append_nil] at hLast
    simpa [hyphenBefore, uuidLoop] using hLast
  rw [ByteGroups.bytes,
    uuidLoop_segment h.timeLow (by decide)
      (fun k hk hPos => hPlaces _ (by omega) (by simp; omega)),
    uuidLoop_segment h.timeMid (by decide)
      (fun k hk hPos => hPlaces _ (by omega) (by simp; omega)),
    uuidLoop_segment h.timeHigh (by decide)
      (fun k hk hPos => hPlaces _ (by omega) (by simp; omega)),
    uuidLoop_segment h.clock (by decide)
      (fun k hk hPos => hPlaces _ (by omega) (by simp; omega)), hNode]
  simp [hyphenBefore, ByteGroups.digits, Groups.text]

theorem ByteGroups.Sized.canonical {groups : ByteGroups} (h : groups.Sized) :
    groups.digits.Canonical where
  timeLow := ⟨by rw [ByteGroups.digits, length_bytesText, h.timeLow],
    fun _ => isDigit_of_mem_bytesText⟩
  timeMid := ⟨by rw [ByteGroups.digits, length_bytesText, h.timeMid],
    fun _ => isDigit_of_mem_bytesText⟩
  timeHigh := ⟨by rw [ByteGroups.digits, length_bytesText, h.timeHigh],
    fun _ => isDigit_of_mem_bytesText⟩
  clock := ⟨by rw [ByteGroups.digits, length_bytesText, h.clock],
    fun _ => isDigit_of_mem_bytesText⟩
  node := ⟨by rw [ByteGroups.digits, length_bytesText, h.node],
    fun _ => isDigit_of_mem_bytesText⟩

/-- Every canonical text is the text of some bytes. -/
theorem Groups.Canonical.exists_bytes {groups : Groups} (h : groups.Canonical) :
    ∃ bytes : ByteGroups, bytes.Sized ∧ bytes.digits = groups := by
  obtain ⟨low, hLow, hLowText⟩ := exists_bytesText 4 h.timeLow.1 h.timeLow.2
  obtain ⟨mid, hMid, hMidText⟩ := exists_bytesText 2 h.timeMid.1 h.timeMid.2
  obtain ⟨high, hHigh, hHighText⟩ := exists_bytesText 2 h.timeHigh.1 h.timeHigh.2
  obtain ⟨clock, hClock, hClockText⟩ := exists_bytesText 2 h.clock.1 h.clock.2
  obtain ⟨node, hNode, hNodeText⟩ := exists_bytesText 6 h.node.1 h.node.2
  refine ⟨⟨low, mid, high, clock, node⟩, ⟨hLow, hMid, hHigh, hClock, hNode⟩, ?_⟩
  rw [ByteGroups.digits, hLowText, hMidText, hHighText, hClockText, hNodeText]

/-- Sixteen bytes fall into the groups. -/
theorem exists_groups (bytes : Vector UInt8 16) :
    ∃ groups : ByteGroups, groups.Sized ∧ groups.bytes = bytes.toList := by
  have hLength : bytes.toList.length = 16 := bytes.length_toList
  refine ⟨⟨bytes.toList.take 4, (bytes.toList.drop 4).take 2, (bytes.toList.drop 6).take 2,
    (bytes.toList.drop 8).take 2, bytes.toList.drop 10⟩, ⟨?_, ?_, ?_, ?_, ?_⟩, ?_⟩
  · simp
  · simp
  · simp
  · simp
  · simp
  · have hStep (n : Nat) : (bytes.toList.drop n).take 2 ++ bytes.toList.drop (n + 2) =
        bytes.toList.drop n := by
      rw [← List.drop_drop, List.take_append_drop]
    rw [ByteGroups.bytes, hStep 8, hStep 6, hStep 4, List.take_append_drop]

/-! The order. -/

theorem uuidLoop_lt_iff (i : Nat) {bytes bytes' : List UInt8}
    (hLength : bytes.length = bytes'.length) :
    uuidLoop i bytes < uuidLoop i bytes' ↔ bytes < bytes' := by
  induction bytes generalizing i bytes' with
  | nil =>
      rw [List.eq_nil_of_length_eq_zero hLength.symm]
      simp
  | cons byte bytes ih =>
      cases bytes' with
      | nil => cases hLength
      | cons byte' bytes' =>
          have hFields : byteText byte ++ uuidLoop (i + 1) bytes <
              byteText byte' ++ uuidLoop (i + 1) bytes' ↔ byte :: bytes < byte' :: bytes' := by
            have hWidth : (byteText byte).length = (byteText byte').length := rfl
            rw [FixedWidth.append_lt_append_iff hWidth, byteText_lt_iff,
              byteText_injective.eq_iff, ih (i + 1) (Nat.succ.inj hLength),
              List.cons_lt_cons_iff]
          rw [uuidLoop_cons, uuidLoop_cons, ← hFields]
          cases hyphenBefore i with
          | true => exact List.cons_lt_cons_self
          | false => exact Iff.rfl

/-- UUIDs sort as their bytes. -/
theorem formatUuid_lt_iff (bytes bytes' : Vector UInt8 16) :
    formatUuid bytes < formatUuid bytes' ↔ bytes.toList < bytes'.toList := by
  rw [String.lt_iff, formatUuid, formatUuid, String.toList_ofList, String.toList_ofList]
  exact uuidLoop_lt_iff 0 (by simp)

theorem uuidLoop_injective (i : Nat) : Function.Injective (uuidLoop i) := by
  intro bytes bytes' hSame
  induction bytes generalizing i bytes' with
  | nil =>
      cases bytes' with
      | nil => rfl
      | cons byte' bytes' => cases hyphenBefore i <;> simp_all [uuidLoop]
  | cons byte bytes ih =>
      cases bytes' with
      | nil => simp [uuidLoop] at hSame
      | cons byte' bytes' =>
          rw [uuidLoop_cons, uuidLoop_cons, List.append_cancel_left_eq] at hSame
          obtain ⟨hByte, hRest⟩ := List.append_inj hSame rfl
          rw [byteText_injective hByte, ih (i + 1) hRest]

theorem formatUuid_injective : Function.Injective formatUuid := by
  intro bytes bytes' hSame
  have hLists := uuidLoop_injective 0 (String.ofList_injective hSame)
  exact Vector.toList_inj.mp hLists

/-! What is drawn. -/

/-- What a version says about the digits of a canonical text. -/
def Groups.Versioned (groups : Groups) : Option Int → Prop
  | none => groups.text ≠ "00000000-0000-0000-0000-000000000000".toList
  | some version => 1 ≤ version ∧ version ≤ 5 ∧
      groups.timeHigh.head? = some (Nat.digitChar version.toNat) ∧
      ∃ c ∈ ['8', '9', 'a', 'b'], groups.clock.head? = some c

theorem formatUuid_toList {bytes : Vector UInt8 16} {groups : ByteGroups} (h : groups.Sized)
    (hBytes : groups.bytes = bytes.toList) :
    (formatUuid bytes).toList = groups.digits.text := by
  rw [formatUuid, String.toList_ofList, ← hBytes, uuidLoop_bytes h]

theorem nil_iff {bytes : Vector UInt8 16} :
    (∃ byte ∈ bytes.toList, byte ≠ 0) ↔
      (formatUuid bytes).toList ≠ "00000000-0000-0000-0000-000000000000".toList := by
  have hNil : formatUuid (Vector.replicate 16 0) = "00000000-0000-0000-0000-000000000000" := by
    decide
  rw [ne_eq, String.toList_inj, ← hNil, formatUuid_injective.eq_iff, ← Vector.toList_inj,
    Vector.toList_replicate, List.eq_replicate_iff]
  simp

theorem highDigit_eq_iff (byte : UInt8) {n : Nat} (hn : n < 16) :
    byte >>> 4 = UInt8.ofNat n ↔ Nat.digitChar (byte.toNat / 16) = Nat.digitChar n := by
  have hByte := byte.toNat_lt
  have hHigh : (byte >>> 4).toNat = byte.toNat / 16 := by
    rw [UInt8.toNat_shiftRight, Nat.shiftRight_eq_div_pow]
    rfl
  rw [digitChar_eq_iff (by omega) hn, ← UInt8.toNat_inj, hHigh, UInt8.toNat_ofNat',
    Nat.mod_eq_of_lt (by omega)]

/-- The variant of RFC 4122 leaves two bits of its digit. -/
theorem variant_iff (byte : UInt8) :
    byte >>> 6 = 2 ↔ Nat.digitChar (byte.toNat / 16) ∈ ['8', '9', 'a', 'b'] := by
  have hByte := byte.toNat_lt
  have hTop : (byte >>> 6).toNat = byte.toNat / 64 := by
    rw [UInt8.toNat_shiftRight, Nat.shiftRight_eq_div_pow]
    rfl
  have hDigit (n : Nat) (hn : n < 16) :
      Nat.digitChar n ∈ ['8', '9', 'a', 'b'] ↔ 8 ≤ n ∧ n < 12 := by
    have hAll : ∀ n : Fin 16, Nat.digitChar n ∈ ['8', '9', 'a', 'b'] ↔ 8 ≤ n.val ∧ n.val < 12 := by
      decide
    exact hAll ⟨n, hn⟩
  rw [hDigit _ (by omega), ← UInt8.toNat_inj, hTop, show (2 : UInt8).toNat = 2 from rfl]
  omega

/-- The version and the variant are the first digits of their groups. -/
theorem versioned_iff {bytes : Vector UInt8 16} {groups : ByteGroups} (h : groups.Sized)
    (hBytes : groups.bytes = bytes.toList) {version : Nat} (hVersion : version < 16) :
    (bytes[6] >>> 4 = UInt8.ofNat version ∧ bytes[8] >>> 6 = 2) ↔
      groups.digits.timeHigh.head? = some (Nat.digitChar version) ∧
        ∃ c ∈ ['8', '9', 'a', 'b'], groups.digits.clock.head? = some c := by
  obtain ⟨low, mid, high, clock, node⟩ := groups
  obtain ⟨hLow, hMid, hHigh, hClock, hNode⟩ := h
  obtain ⟨x, x', rfl⟩ := List.length_eq_two.mp hHigh
  obtain ⟨z, z', rfl⟩ := List.length_eq_two.mp hClock
  simp only at hLow hMid
  have hSix : bytes[6] = x := by
    have hPlace : bytes.toList[6]? = some x := by
      rw [← hBytes]
      simp [ByteGroups.bytes, List.getElem?_append, hLow, hMid]
    simpa using hPlace
  have hEight : bytes[8] = z := by
    have hPlace : bytes.toList[8]? = some z := by
      rw [← hBytes]
      simp [ByteGroups.bytes, List.getElem?_append, hLow, hMid]
    simpa using hPlace
  rw [hSix, hEight, highDigit_eq_iff x hVersion, variant_iff z]
  simp [ByteGroups.digits, bytesText, byteText]

theorem uuids_eq_ok (version : Option Int) (forced : Option UInt8) :
    uuids version = .ok forced ↔
      (∀ v ∈ version, 1 ≤ v ∧ v ≤ 5) ∧ forced = version.map fun v => UInt8.ofNat v.toNat := by
  cases version with
  | none => simp [uuids, eq_comm]
  | some version =>
      by_cases hRange : version < 1 ∨ 5 < version
      · rw [uuids, if_pos hRange]
        simp
        omega
      · rw [uuids, if_neg hRange]
        simp [eq_comm]
        omega

theorem ByteGroups.Sized.exists_vector {groups : ByteGroups} (h : groups.Sized) :
    ∃ bytes : Vector UInt8 16, groups.bytes = bytes.toList := by
  have hLength : groups.bytes.toArray.size = 16 := by
    simp [ByteGroups.bytes, h.timeLow, h.timeMid, h.timeHigh, h.clock, h.node]
  exact ⟨⟨groups.bytes.toArray, hLength⟩, rfl⟩

/-- The bytes that may be drawn are those whose text carries the version. -/
theorem allowed_iff {bytes : Vector UInt8 16} {groups : ByteGroups} (h : groups.Sized)
    (hBytes : groups.bytes = bytes.toList) (version : Option Int) :
    (∃ forced, uuids version = .ok forced ∧ UuidBytes forced bytes) ↔
      groups.digits.Versioned version := by
  simp only [uuids_eq_ok, and_assoc, exists_and_left, exists_eq_left]
  cases version with
  | none =>
      rw [Groups.Versioned, ← formatUuid_toList h hBytes, ← nil_iff]
      simp [UuidBytes]
  | some version =>
      simp only [Option.mem_some_iff, forall_eq', Groups.Versioned, and_assoc]
      refine and_congr_right fun _ => and_congr_right fun hMost => ?_
      exact versioned_iff h hBytes (by omega)

/-- The texts that `uuids()` draws: all in the canonical form but the nil one,
or those that carry the version and the variant. -/
theorem uuids_draws (version : Option Int) (s : String) :
    (∃ forced bytes, uuids version = .ok forced ∧ UuidBytes forced bytes ∧
        s = formatUuid bytes) ↔
      ∃ groups : Groups, groups.Canonical ∧ groups.Versioned version ∧
        s.toList = groups.text := by
  constructor
  · rintro ⟨forced, bytes, hForced, hAllowed, rfl⟩
    obtain ⟨groups, hSized, hBytes⟩ := exists_groups bytes
    have hVersioned := (allowed_iff hSized hBytes version).mp ⟨forced, hForced, hAllowed⟩
    exact ⟨groups.digits, hSized.canonical, hVersioned, formatUuid_toList hSized hBytes⟩
  · rintro ⟨groups, hCanonical, hVersioned, hText⟩
    obtain ⟨byteGroups, hSized, rfl⟩ := hCanonical.exists_bytes
    obtain ⟨bytes, hBytes⟩ := hSized.exists_vector
    obtain ⟨forced, hForced, hAllowed⟩ := (allowed_iff hSized hBytes version).mpr hVersioned
    refine ⟨forced, bytes, hForced, hAllowed, String.toList_injective ?_⟩
    rw [hText, formatUuid_toList hSized hBytes]

end Hegel.Generators
