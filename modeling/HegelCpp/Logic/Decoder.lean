import Mathlib.Data.Fin.Tuple.Basic
import Mathlib.Data.List.Basic
import Mathlib.Data.List.OfFn
import Mathlib.Data.List.TakeWhile
import Mathlib.Logic.Function.Basic

/-! Decoders that read one value off the front of a text and leave the rest.
An encoding is uniquely decodable when some decoder inverts it in front of every
text that may follow; the combinators here carry that over to sequences. -/
namespace Logic

/-- A value and the text behind it, or nothing. -/
abbrev Decoder (χ α : Type) := List χ → Option (α × List χ)

namespace Decoder

variable {χ α β : Type}

/-- In front of a text that may follow, the decoder takes off exactly the
encoding of the value. -/
def Inverts (d : Decoder χ α) (encode : α → List χ) (follow : List χ → Prop) : Prop :=
  ∀ a rest, follow rest → d (encode a ++ rest) = some (a, rest)

variable {d : Decoder χ α} {encode : α → List χ} {follow : List χ → Prop}

theorem Inverts.mono {follow' : List χ → Prop} (h : d.Inverts encode follow)
    (hFollow : ∀ rest, follow' rest → follow rest) : d.Inverts encode follow' :=
  fun a rest hRest => h a rest (hFollow rest hRest)

/-- Two values with one encoding would be decoded to both. -/
theorem Inverts.injective (h : d.Inverts encode follow) {rest : List χ} (hRest : follow rest) :
    Function.Injective encode := by
  intro a b hSame
  have hFirst := h a rest hRest
  rw [hSame, h b rest hRest] at hFirst
  exact (congrArg Prod.fst (Option.some.inj hFirst)).symm

/-- Keep the values of a subtype, given as the range of a partial function. -/
def refine (d : Decoder χ α) (f : α → Option β) : Decoder χ β := fun text => do
  let item ← d text
  let value ← f item.1
  pure (value, item.2)

theorem Inverts.refine {f : α → Option β} {g : β → α} (h : d.Inverts encode follow)
    (hInverse : ∀ b, f (g b) = some b) : (d.refine f).Inverts (fun b => encode (g b)) follow := by
  intro b rest hRest
  simp [Decoder.refine, h (g b) rest hRest, hInverse b]

variable [DecidableEq χ]

/-- Take a fixed text off the front. -/
def expect (fixed : List χ) : Decoder χ Unit :=
  fun text => (fixed.isPrefixOf? text).map fun rest => ((), rest)

@[simp] theorem expect_append (fixed rest : List χ) :
    expect fixed (fixed ++ rest) = some ((), rest) := by
  rw [expect, List.isPrefixOf?_eq_some_iff_append_eq.mpr rfl]
  rfl

theorem expect_eq_none {fixed text : List χ} (h : ¬ fixed <+: text) : expect fixed text = none := by
  rw [expect, Option.map_eq_none_iff]
  cases hRest : fixed.isPrefixOf? text with
  | none => rfl
  | some rest => exact absurd ⟨rest, List.isPrefixOf?_eq_some_iff_append_eq.mp hRest⟩ h

/-- A value behind a fixed text. -/
def behind (opening : List χ) (d : Decoder χ α) : Decoder χ α := fun text => do
  let opened ← expect opening text
  d opened.2

theorem Inverts.behind (h : d.Inverts encode follow) (opening : List χ) :
    (d.behind opening).Inverts (fun a => opening ++ encode a) follow := by
  intro a rest hRest
  simp [Decoder.behind, h a rest hRest]

/-- A value between two fixed texts. -/
def framed (opening closing : List χ) (d : Decoder χ α) : Decoder χ α := fun text => do
  let opened ← expect opening text
  let item ← d opened.2
  let closed ← expect closing item.2
  pure (item.1, closed.2)

theorem Inverts.framed {opening closing : List χ} {after : List χ → Prop}
    (h : d.Inverts encode follow) (hClosing : ∀ rest, after rest → follow (closing ++ rest)) :
    (d.framed opening closing).Inverts (fun a => opening ++ (encode a ++ closing)) after := by
  intro a rest hRest
  simp [Decoder.framed, h a _ (hClosing rest hRest)]

/-- Two values with a separator between them. -/
def pairing (sep : List χ) (d : Decoder χ α) (d' : Decoder χ β) : Decoder χ (α × β) :=
  fun text => do
    let first ← d text
    let opened ← expect sep first.2
    let second ← d' opened.2
    pure ((first.1, second.1), second.2)

theorem Inverts.pairing {sep : List χ} {d' : Decoder χ β} {encode' : β → List χ}
    {after : List χ → Prop} (h : d.Inverts encode follow) (hSep : ∀ rest, follow (sep ++ rest))
    (h' : d'.Inverts encode' after) :
    (d.pairing sep d').Inverts (fun p => encode p.1 ++ (sep ++ encode' p.2)) after := by
  intro p rest hRest
  simp [Decoder.pairing, h p.1 _ (hSep _), h' p.2 rest hRest]

/-- A value or none, up to the closing text. -/
def maybe (closing : List χ) (d : Decoder χ α) : Decoder χ (Option α) := fun text =>
  match expect closing text with
  | some closed => some (none, closed.2)
  | none => do
      let item ← d text
      let closed ← expect closing item.2
      pure (some item.1, closed.2)

theorem Inverts.maybe {closing : List χ} (h : d.Inverts encode follow)
    (hClosing : ∀ rest, follow (closing ++ rest))
    (hStart : ∀ a rest, ¬ closing <+: encode a ++ rest) :
    (d.maybe closing).Inverts (fun value => (value.map encode).getD [] ++ closing)
      fun _ => True := by
  rintro (_ | a) rest -
  · simp [Decoder.maybe]
  · have hItem := h a _ (hClosing rest)
    show d.maybe closing (encode a ++ closing ++ rest) = _
    rw [List.append_assoc, Decoder.maybe, expect_eq_none (hStart a _)]
    simp [hItem]

/-! Sequences: the first item as it is, every further one behind a separator. -/

/-- The texts of the items with the separator between them. -/
def joined (sep : List χ) : List (List χ) → List χ
  | [] => []
  | first :: more => first ++ more.flatMap (sep ++ ·)

/-- The further items of a sequence of unknown length, up to the closing text. -/
def further (sep closing : List χ) (d : Decoder χ α) : Nat → Decoder χ (List α)
  | 0, _ => none
  | fuel + 1, text => match expect closing text with
    | some closed => some ([], closed.2)
    | none => do
        let opened ← expect sep text
        let item ← d opened.2
        let more ← further sep closing d fuel item.2
        pure (item.1 :: more.1, more.2)

omit [DecidableEq χ] in
theorem length_le_flatMap {sep : List χ} (hLong : ∀ a, sep ++ encode a ≠ []) (items : List α) :
    items.length ≤ ((items.map encode).flatMap (sep ++ ·)).length := by
  induction items with
  | nil => exact Nat.le_refl _
  | cons item items ih =>
      have hPos := List.length_pos_iff.mpr (hLong item)
      simp only [List.map_cons, List.flatMap_cons, List.length_append, List.length_cons] at hPos ⊢
      omega

/-- A sequence of unknown length, up to the closing text. -/
def sequence (sep closing : List χ) (d : Decoder χ α) : Decoder χ (List α) := fun text =>
  match expect closing text with
  | some closed => some ([], closed.2)
  | none => do
      let item ← d text
      let more ← further sep closing d text.length item.2
      pure (item.1 :: more.1, more.2)

section Sequence

variable {sep closing : List χ}

omit [DecidableEq χ] in
theorem follow_further (hSep : ∀ rest, follow (sep ++ rest))
    (hClosing : ∀ rest, follow (closing ++ rest)) (items : List (List χ)) (rest : List χ) :
    follow (items.flatMap (sep ++ ·) ++ (closing ++ rest)) := by
  cases items with
  | nil => exact hClosing rest
  | cons item items =>
      rw [List.flatMap_cons, List.append_assoc, List.append_assoc]
      exact hSep _

/-- The induction is on the items; each of them uses up one unit of fuel. -/
theorem further_eq (h : d.Inverts encode follow) (hSep : ∀ rest, follow (sep ++ rest))
    (hClosing : ∀ rest, follow (closing ++ rest))
    (hApart : ∀ a rest, ¬ closing <+: sep ++ (encode a ++ rest))
    (items : List α) (rest : List χ) {fuel : Nat} (hFuel : items.length < fuel) :
    further sep closing d fuel ((items.map encode).flatMap (sep ++ ·) ++ (closing ++ rest)) =
      some (items, rest) := by
  induction items generalizing fuel with
  | nil =>
      cases fuel with
      | zero => cases hFuel
      | succ fuel => simp [further]
  | cons item items ih =>
      cases fuel with
      | zero => cases hFuel
      | succ fuel =>
          have hItem := h item _ (follow_further hSep hClosing (items.map encode) rest)
          have hMore := ih (Nat.lt_of_succ_lt_succ hFuel)
          rw [List.map_cons, List.flatMap_cons, List.append_assoc, List.append_assoc, further,
            expect_eq_none (hApart item _)]
          simp [hItem, hMore]

theorem Inverts.sequence (h : d.Inverts encode follow) (hSep : ∀ rest, follow (sep ++ rest))
    (hClosing : ∀ rest, follow (closing ++ rest))
    (hApart : ∀ a rest, ¬ closing <+: sep ++ (encode a ++ rest))
    (hStart : ∀ a rest, ¬ closing <+: encode a ++ rest) :
    (d.sequence sep closing).Inverts (fun items => joined sep (items.map encode) ++ closing)
      fun _ => True := by
  rintro (_ | ⟨item, items⟩) rest -
  · simp [Decoder.sequence, joined]
  · have hItem := h item _ (follow_further hSep hClosing (items.map encode) rest)
    have hFuel : items.length < (encode item ++
        ((items.map encode).flatMap (sep ++ ·) ++ (closing ++ rest))).length := by
      have hLong (a : α) : sep ++ encode a ≠ [] := by
        intro hNone
        refine hApart a closing ?_
        rw [← List.append_assoc, hNone]
        exact List.prefix_rfl
      have hLength := length_le_flatMap hLong items
      have hSome : encode item ++ closing ≠ [] := by
        intro hNone
        obtain ⟨hItem, hNil⟩ := List.append_eq_nil_iff.mp hNone
        exact hStart item [] (hNil ▸ List.nil_prefix)
      have hPos := List.length_pos_iff.mpr hSome
      simp only [List.length_append] at hPos ⊢
      omega
    have hMore := further_eq h hSep hClosing hApart items rest hFuel
    show d.sequence sep closing (joined sep ((item :: items).map encode) ++ closing ++ rest) = _
    rw [List.map_cons, joined, List.append_assoc, List.append_assoc, Decoder.sequence,
      expect_eq_none (hStart _ _)]
    simp only [hItem, hMore, Option.bind_eq_bind, Option.bind_some]
    rfl

end Sequence

/-! Sequences of known length, with an item of its own type at each place. -/
section Items

/-- The further items of a sequence of known length. -/
def furtherItems (sep : List χ) : (n : Nat) → (τ : Fin n → Type) →
    ((i : Fin n) → Decoder χ (τ i)) → Decoder χ ((i : Fin n) → τ i)
  | 0, _, _ => fun text => some (fun i => i.elim0, text)
  | n + 1, τ, ds => fun text => do
      let opened ← expect sep text
      let item ← ds ⟨0, n.succ_pos⟩ opened.2
      let more ← furtherItems sep n (fun i => τ i.succ) (fun i => ds i.succ) item.2
      pure (Fin.cons item.1 more.1, more.2)

/-- A sequence of known length. -/
def items (sep : List χ) : {n : Nat} → {τ : Fin n → Type} →
    ((i : Fin n) → Decoder χ (τ i)) → Decoder χ ((i : Fin n) → τ i)
  | 0, _, _ => fun text => some (fun i => i.elim0, text)
  | n + 1, τ, ds => fun text => do
      let item ← ds ⟨0, n.succ_pos⟩ text
      let more ← furtherItems sep n (fun i => τ i.succ) (fun i => ds i.succ) item.2
      pure (Fin.cons item.1 more.1, more.2)

variable {sep : List χ} {n : Nat}

omit [DecidableEq χ] in
theorem follow_furtherItems (hSep : ∀ rest, follow (sep ++ rest)) {n : Nat}
    (texts : Fin n → List χ) {rest : List χ} (hRest : follow rest) :
    follow ((List.ofFn texts).flatMap (sep ++ ·) ++ rest) := by
  cases n with
  | zero => simpa using hRest
  | succ n =>
      rw [List.ofFn_succ, List.flatMap_cons, List.append_assoc, List.append_assoc]
      exact hSep _

theorem furtherItems_eq (hSep : ∀ rest, follow (sep ++ rest)) {τ : Fin n → Type}
    {ds : (i : Fin n) → Decoder χ (τ i)} {encode : (i : Fin n) → τ i → List χ}
    (h : ∀ i, (ds i).Inverts (encode i) follow) (values : (i : Fin n) → τ i) {rest : List χ}
    (hRest : follow rest) :
    furtherItems sep n τ ds ((List.ofFn fun i => encode i (values i)).flatMap (sep ++ ·) ++ rest) =
      some (values, rest) := by
  induction n with
  | zero =>
      have hNone : (fun i : Fin 0 => i.elim0) = values := funext fun i => i.elim0
      simp [furtherItems, hNone]
  | succ n ih =>
      have hItem := h 0 (values 0) _
        (follow_furtherItems hSep (fun i => encode i.succ (values i.succ)) hRest)
      have hMore := ih (fun i => h i.succ) fun i => values i.succ
      have hValues : Fin.cons (values 0) (fun i => values i.succ) = values := Fin.cons_self_tail _
      rw [List.ofFn_succ, List.flatMap_cons, List.append_assoc, List.append_assoc, furtherItems]
      simp [hItem, hMore, hValues]

theorem items_inverts (hSep : ∀ rest, follow (sep ++ rest)) {τ : Fin n → Type}
    {ds : (i : Fin n) → Decoder χ (τ i)} {encode : (i : Fin n) → τ i → List χ}
    (h : ∀ i, (ds i).Inverts (encode i) follow) :
    (items sep ds).Inverts (fun values => joined sep (List.ofFn fun i => encode i (values i)))
      follow := by
  intro values rest hRest
  cases n with
  | zero =>
      have hNone : (fun i : Fin 0 => i.elim0) = values := funext fun i => i.elim0
      simp [items, joined, hNone]
  | succ n =>
      have hItem := h 0 (values 0) _
        (follow_furtherItems hSep (fun i => encode i.succ (values i.succ)) hRest)
      have hMore := furtherItems_eq hSep (fun i => h i.succ) (fun i => values i.succ) hRest
      have hValues : Fin.cons (values 0) (fun i => values i.succ) = values := Fin.cons_self_tail _
      show items sep ds (joined sep (List.ofFn _) ++ rest) = _
      rw [List.ofFn_succ, joined, List.append_assoc, items]
      simp [hItem, hMore, hValues]

/-- The number of an alternative, a separator, and a value of that alternative. -/
def alternative (index : Decoder χ Nat) (sep : List χ) {τ : Fin n → Type}
    (ds : (i : Fin n) → Decoder χ (τ i)) : Decoder χ ((i : Fin n) × τ i) := fun text => do
  let chosen ← index text
  let opened ← expect sep chosen.2
  if h : chosen.1 < n then
    let item ← ds ⟨chosen.1, h⟩ opened.2
    pure (⟨_, item.1⟩, item.2)
  else none

theorem alternative_inverts {index : Decoder χ Nat} {number : Nat → List χ}
    {before : List χ → Prop} (hIndex : index.Inverts number before)
    (hSep : ∀ rest, before (sep ++ rest)) {τ : Fin n → Type}
    {ds : (i : Fin n) → Decoder χ (τ i)} {encode : (i : Fin n) → τ i → List χ}
    (h : ∀ i, (ds i).Inverts (encode i) follow) :
    (alternative index sep ds).Inverts
      (fun value => number value.1 ++ (sep ++ encode value.1 value.2)) follow := by
  rintro ⟨i, value⟩ rest hRest
  have hNumber := hIndex i _ (hSep (encode i value ++ rest))
  show alternative index sep ds (number i ++ (sep ++ encode i value) ++ rest) = _
  rw [List.append_assoc, List.append_assoc, alternative]
  simp [hNumber, h i value rest hRest]

end Items

/-! Decimal numerals. -/
section Numerals

/-- The decimal text of an integer. -/
def decimal : Int → List Char
  | .ofNat n => Nat.toDigits 10 n
  | .negSucc n => '-' :: Nat.toDigits 10 (n + 1)

/-- No digit continues a numeral. -/
def NoDigit (rest : List Char) : Prop := ∀ c ∈ rest.head?, c.isDigit = false

/-- The longest run of digits, at least one. -/
def natural : Decoder Char Nat := fun text =>
  if text.takeWhile Char.isDigit = [] then none
  else some (Nat.ofDigitChars 10 (text.takeWhile Char.isDigit) 0, text.dropWhile Char.isDigit)

def integer : Decoder Char Int := fun text =>
  match text with
  | '-' :: digits => do
      let magnitude ← natural digits
      pure (-magnitude.1, magnitude.2)
  | digits => do
      let magnitude ← natural digits
      pure (magnitude.1, magnitude.2)

theorem isDigit_of_mem_toDigits {n : Nat} {c : Char} (h : c ∈ Nat.toDigits 10 n) :
    c.isDigit = true := Nat.isDigit_of_mem_toDigits (by omega) (by omega) h

/-- A numeral starts with a digit. -/
theorem exists_toDigits_eq_cons (n : Nat) :
    ∃ c digits, Nat.toDigits 10 n = c :: digits ∧ c.isDigit = true := by
  cases hText : Nat.toDigits 10 n with
  | nil => exact absurd hText Nat.toDigits_ne_nil
  | cons c digits => exact ⟨c, digits, rfl, isDigit_of_mem_toDigits (by rw [hText]; simp)⟩

omit [DecidableEq χ] in
/-- A run ends where the text goes on with something else. -/
theorem takeWhile_run {p : χ → Bool} {run rest : List χ} (hRun : ∀ c ∈ run, p c = true)
    (hRest : ∀ c ∈ rest.head?, p c = false) :
    (run ++ rest).takeWhile p = run ∧ (run ++ rest).dropWhile p = rest := by
  rw [List.takeWhile_append_of_pos hRun, List.dropWhile_append_of_pos hRun]
  cases rest with
  | nil => exact ⟨List.append_nil run, rfl⟩
  | cons c rest => simp [hRest c rfl]

theorem natural_inverts : natural.Inverts (Nat.toDigits 10) NoDigit := by
  intro n rest hRest
  obtain ⟨hTake, hDrop⟩ := takeWhile_run (fun c => isDigit_of_mem_toDigits (n := n)) hRest
  rw [natural, hTake, hDrop, if_neg Nat.toDigits_ne_nil, Nat.ofDigitChars_ten_toDigits]

theorem integer_inverts : integer.Inverts decimal NoDigit := by
  intro v rest hRest
  cases v with
  | ofNat n =>
      have hNatural := natural_inverts n rest hRest
      obtain ⟨c, digits, hText, hDigit⟩ := exists_toDigits_eq_cons n
      have hSign : c ≠ '-' := by
        rintro rfl
        cases hDigit
      rw [hText] at hNatural
      simp [integer, decimal, hText, hSign] at hNatural ⊢
      simp [hNatural]
  | negSucc n =>
      have hNatural := natural_inverts (n + 1) rest hRest
      simp [integer, decimal, hNatural, Int.negSucc_eq]

end Numerals

/-! Runs of letters of one kind. -/
section Runs

variable {p : χ → Bool}

/-- A text of such letters only. -/
abbrev Run (p : χ → Bool) : Type := { letters : List χ // ∀ c ∈ letters, p c = true }

/-- The longest run of such letters. -/
def run (p : χ → Bool) : Decoder χ (Run p) := fun text =>
  some (⟨text.takeWhile p, fun _ hMem => List.mem_takeWhile_imp hMem⟩, text.dropWhile p)

omit [DecidableEq χ] in
theorem run_inverts : (run p).Inverts (·.val) fun rest => ∀ c ∈ rest.head?, p c = false := by
  intro letters rest hRest
  obtain ⟨hTake, hDrop⟩ := takeWhile_run letters.property hRest
  simp [run, hTake, hDrop]

end Runs
end Decoder
end Logic
