import HegelCpp.Engine.World
import HegelCpp.Run.DatabaseKey

/-! `text()`, `characters()` and `binary()`: what they ask the engine for, and
which texts come of it, where the engine keeps to what `libhegel` documents. -/
namespace Hegel.Texts

open DatabaseKey

/-- The character filtering options. -/
structure CharacterFilter where
  codec : Option String := none
  minCodepoint : Option UInt32 := none
  maxCodepoint : Option UInt32 := none
  categories : Option (List String) := none
  excludeCategories : Option (List String) := none
  includeCharacters : Option String := none
  excludeCharacters : Option String := none
  deriving DecidableEq, Repr

structure TextParams extends CharacterFilter where
  minSize : UInt64 := 0
  maxSize : Option UInt64 := none
  alphabet : Option String := none
  deriving DecidableEq, Repr

/-- `has_char_params`. -/
def CharacterFilter.hasCharParams (filter : CharacterFilter) : Bool :=
  filter.codec.isSome || filter.minCodepoint.isSome || filter.maxCodepoint.isSome ||
    filter.categories.isSome || filter.excludeCategories.isSome ||
    filter.includeCharacters.isSome || filter.excludeCharacters.isSome

/-- `default_max_size`. -/
def defaultMaxSize (minSize : UInt64) (maxSize : Option UInt64) : UInt64 :=
  maxSize.getD (if minSize < 100 then 100 else minSize)

/-- `impl::TextGeneratorParams`. A pointer that is null is absent. -/
structure TextGeneratorParams where
  minSize : UInt64 := 0
  maxSize : UInt64 := 0
  codec : Option CString := none
  minCodepoint : UInt32 := 0
  maxCodepoint : UInt32 := 0xFFFFFFFF
  categories : Option (List String) := none
  excludeCategories : Option (List String) := none
  includeCharacters : Option String := none
  excludeCharacters : Option String := none

/-- The arguments of `hegel_string_generator_text`. -/
structure TextRequest where
  minSize : UInt64
  maxSize : UInt64
  codec : Option CString
  minCodepoint : UInt32
  maxCodepoint : UInt32
  categories : Option (List CString)
  excludeCategories : Option (List CString)
  includeCharacters : Option String
  excludeCharacters : Option String
  deriving DecidableEq

/-- `std::vector::data`. Whether it is null for an empty vector is left to the
library. -/
def vectorData {α : Type} (nullWhenEmpty : Bool) (items : List α) : Option (List α) :=
  if nullWhenEmpty && items.isEmpty then none else some items

/-- The arguments that `string_generator_text` passes on. -/
def TextGeneratorParams.request (nullWhenEmpty : Bool) (params : TextGeneratorParams) :
    TextRequest where
  minSize := params.minSize
  maxSize := params.maxSize
  codec := params.codec
  minCodepoint := params.minCodepoint
  maxCodepoint := params.maxCodepoint
  categories := params.categories.bind fun names => vectorData nullWhenEmpty (names.map cStr)
  excludeCategories :=
    params.excludeCategories.bind fun names => vectorData nullWhenEmpty (names.map cStr)
  includeCharacters := params.includeCharacters
  excludeCharacters := params.excludeCharacters

/-- The `cparams` of `build_text_handle`. -/
def TextParams.generatorParams (params : TextParams) : TextGeneratorParams :=
  match params.alphabet with
  | some alphabet =>
      { minSize := params.minSize
        maxSize := defaultMaxSize params.minSize params.maxSize
        categories := some []
        includeCharacters := some alphabet }
  | none =>
      { minSize := params.minSize
        maxSize := defaultMaxSize params.minSize params.maxSize
        codec := params.codec.map cStr
        minCodepoint := params.minCodepoint.getD 0
        maxCodepoint := params.maxCodepoint.getD 0xFFFFFFFF
        categories := params.categories
        excludeCategories := params.excludeCategories
        includeCharacters := params.includeCharacters
        excludeCharacters := params.excludeCharacters }

/-- The engine's side: its answer to a request with the last error it left, and
the texts it can draw from the handle. -/
structure Engine where
  answer : TextRequest → ResultCode × String
  draws : TextRequest → String → Prop

section Source

variable (nullWhenEmpty : Bool) (engine : Engine)

/-- `make_string_generator`. -/
def makeStringGenerator (what : String) (request : TextRequest) : Except Exn TextRequest :=
  if (engine.answer request).1 = .ok then .ok request
  else .error (invalidArgument (what ++
    if (engine.answer request).2.isEmpty then ": invalid arguments"
    else ": " ++ (engine.answer request).2))

/-- `string_generator_text`. -/
def stringGeneratorText (params : TextGeneratorParams) : Except Exn TextRequest :=
  makeStringGenerator engine "text" (params.request nullWhenEmpty)

/-- `build_text_handle`. -/
def buildTextHandle (params : TextParams) : Except Exn TextRequest :=
  stringGeneratorText nullWhenEmpty engine params.generatorParams

/-- `TextGenerator::validate_and_build`. -/
def text (params : TextParams) : Except Exn TextRequest :=
  if params.maxSize.any (· < params.minSize) then
    .error (invalidArgument "Cannot have max_size < min_size")
  else if params.alphabet.isSome && params.hasCharParams then
    .error (invalidArgument
      "Cannot combine alphabet with individual character filtering options")
  else buildTextHandle nullWhenEmpty engine params

/-- `CharactersGenerator::build`. -/
def characters (filter : CharacterFilter) : Except Exn TextRequest :=
  buildTextHandle nullWhenEmpty engine { filter with minSize := 1, maxSize := some 1 }

end Source

/-! What a request is for, as `libhegel` documents it. -/

/-- The codecs and the general categories of Unicode. -/
structure Unicode where
  codec : CString → Char → Prop
  category : CString → Char → Prop

/-- The characters of a request. Categories restrict them unless they are null. -/
def TextRequest.Character (unicode : Unicode) (request : TextRequest) (c : Char) : Prop :=
  (((∀ codec ∈ request.codec, unicode.codec codec c) ∧
      request.minCodepoint ≤ c.val ∧ c.val ≤ request.maxCodepoint ∧
      (∀ names ∈ request.categories, ∃ name ∈ names, unicode.category name c) ∧
      ∀ names ∈ request.excludeCategories, ∀ name ∈ names, ¬unicode.category name c) ∨
    ∃ included ∈ request.includeCharacters, c ∈ included.toList) ∧
  ∀ excluded ∈ request.excludeCharacters, c ∉ excluded.toList

/-- The request names no codec and no category. -/
structure TextRequest.Nameless (request : TextRequest) : Prop where
  codec : request.codec = none
  categories : ∀ names ∈ request.categories, names = []
  excludeCategories : ∀ names ∈ request.excludeCategories, names = []

/-- The request leaves a character, or needs none. -/
def TextRequest.Leaves (unicode : Unicode) (request : TextRequest) : Prop :=
  request.maxSize = 0 ∨ ∃ c, request.Character unicode c

/-- What `libhegel` documents: the texts of an accepted request, and that one
without names is accepted if it leaves a character. -/
structure Engine.Documented (engine : Engine) (unicode : Unicode) : Prop where
  draws : ∀ request s, (engine.answer request).1 = .ok → (engine.draws request s ↔
    request.minSize.toNat ≤ s.length ∧ s.length ≤ request.maxSize.toNat ∧
      ∀ c ∈ s.toList, request.Character unicode c)
  accepts : ∀ request : TextRequest, request.Nameless → request.minSize ≤ request.maxSize →
    request.Leaves unicode → (engine.answer request).1 = .ok

/-! What the parameters describe. -/

section Described

variable (unicode : Unicode) (engine : Engine)

/-- The characters that a filter lets through. -/
def CharacterFilter.Allows (filter : CharacterFilter) (c : Char) : Prop :=
  (((∀ codec ∈ filter.codec, unicode.codec (cStr codec) c) ∧
      (∀ least ∈ filter.minCodepoint, least ≤ c.val) ∧
      (∀ most ∈ filter.maxCodepoint, c.val ≤ most) ∧
      (∀ names ∈ filter.categories, ∃ name ∈ names, unicode.category (cStr name) c) ∧
      ∀ names ∈ filter.excludeCategories, ∀ name ∈ names, ¬unicode.category (cStr name) c) ∨
    ∃ included ∈ filter.includeCharacters, c ∈ included.toList) ∧
  ∀ excluded ∈ filter.excludeCharacters, c ∉ excluded.toList

def TextParams.Allows (params : TextParams) (c : Char) : Prop :=
  match params.alphabet with
  | some alphabet => c ∈ alphabet.toList
  | none => params.toCharacterFilter.Allows unicode c

/-- The request that passes every given list on as a list. -/
def TextParams.asked (params : TextParams) : TextRequest := params.generatorParams.request false

/-- The parameters are in order, and the engine takes what they ask for. -/
structure TextParams.Accepted (params : TextParams) : Prop where
  sizes : ∀ maxSize ∈ params.maxSize, params.minSize ≤ maxSize
  alone : params.alphabet = none ∨ params.hasCharParams = false
  engine : (engine.answer params.asked).1 = .ok

/-- The parameters describe the text. -/
def TextParams.Describes (params : TextParams) (s : String) : Prop :=
  params.Accepted engine ∧ params.minSize.toNat ≤ s.length ∧
    s.length ≤ (params.maxSize.map UInt64.toNat).getD (max params.minSize.toNat 100) ∧
    ∀ c ∈ s.toList, params.Allows unicode c

end Described

/-- No list is empty that the code passes on. An alphabet makes one. -/
structure TextParams.NoEmptyList (params : TextParams) : Prop where
  alphabet : params.alphabet = none
  categories : params.categories ≠ some []
  excludeCategories : params.excludeCategories ≠ some []

section Requests

variable {unicode : Unicode} {nullWhenEmpty : Bool}

theorem val_le (c : Char) : c.val ≤ 0xFFFFFFFF := Nat.le_of_lt_succ c.val.toNat_lt

/-- A lower bound that is not given is the least one, and so with the upper one. -/
theorem getD_zero_le (bound : Option UInt32) (c : Char) :
    bound.getD 0 ≤ c.val ↔ ∀ least ∈ bound, least ≤ c.val := by
  cases bound with
  | none => simp
  | some least => simp

theorem le_getD_max (bound : Option UInt32) (c : Char) :
    c.val ≤ bound.getD 0xFFFFFFFF ↔ ∀ most ∈ bound, c.val ≤ most := by
  cases bound with
  | none => simp [val_le]
  | some most => simp

theorem bind_vectorData {names : Option (List String)} (h : names ≠ some []) :
    (names.bind fun names => vectorData nullWhenEmpty (names.map cStr)) =
      names.bind fun names => vectorData false (names.map cStr) := by
  cases names with
  | none => rfl
  | some names =>
      cases names with
      | nil => exact absurd rfl h
      | cons name names => simp [vectorData]

/-- The code asks for what the parameters ask for. -/
theorem request_eq_asked {params : TextParams} (h : params.NoEmptyList) :
    params.generatorParams.request nullWhenEmpty = params.asked := by
  simp only [TextParams.asked, TextGeneratorParams.request, TextParams.generatorParams, h.alphabet,
    bind_vectorData h.categories, bind_vectorData h.excludeCategories]

/-- The characters that are asked for. -/
theorem asked_character (params : TextParams) (c : Char) :
    params.asked.Character unicode c ↔ params.Allows unicode c := by
  simp only [TextRequest.Character, TextParams.asked, TextGeneratorParams.request, vectorData]
  cases hAlphabet : params.alphabet with
  | some alphabet =>
      simp [TextParams.generatorParams, TextParams.Allows, hAlphabet, val_le]
  | none =>
      simp only [TextParams.generatorParams, TextParams.Allows, hAlphabet,
        CharacterFilter.Allows, getD_zero_le, le_getD_max]
      cases params.codec <;> cases params.categories <;> cases params.excludeCategories <;> simp

theorem defaultMaxSize_toNat (minSize : UInt64) (maxSize : Option UInt64) :
    (defaultMaxSize minSize maxSize).toNat =
      (maxSize.map UInt64.toNat).getD (max minSize.toNat 100) := by
  cases maxSize with
  | some maxSize => rfl
  | none =>
      have hLess : minSize < 100 ↔ minSize.toNat < 100 := UInt64.lt_iff_toNat_lt
      by_cases hSmall : minSize.toNat < 100
      · rw [defaultMaxSize, Option.getD_none, if_pos (hLess.mpr hSmall)]
        exact (Nat.max_eq_right (Nat.le_of_lt hSmall)).symm
      · rw [defaultMaxSize, Option.getD_none, if_neg (mt hLess.mp hSmall)]
        exact (Nat.max_eq_left (Nat.le_of_not_lt hSmall)).symm

theorem asked_sizes (params : TextParams) : params.asked.minSize = params.minSize ∧
    params.asked.maxSize = defaultMaxSize params.minSize params.maxSize := by
  rw [TextParams.asked, TextParams.generatorParams]
  cases params.alphabet with
  | some alphabet => exact ⟨rfl, rfl⟩
  | none => exact ⟨rfl, rfl⟩

end Requests

section Draws

variable {nullWhenEmpty : Bool} {engine : Engine} {request : TextRequest}

theorem makeStringGenerator_eq_ok {what : String} {asked : TextRequest} :
    makeStringGenerator engine what asked = .ok request ↔
      request = asked ∧ (engine.answer asked).1 = .ok := by
  unfold makeStringGenerator
  by_cases hOk : (engine.answer asked).1 = .ok
  · simp [hOk, eq_comm]
  · simp [hOk]

/-- The check of the sizes. -/
theorem disordered_iff {minSize : UInt64} {maxSize : Option UInt64} :
    maxSize.any (· < minSize) = true ↔ ¬∀ most ∈ maxSize, minSize ≤ most := by
  cases maxSize <;> simp

theorem text_eq_ok {params : TextParams} :
    text nullWhenEmpty engine params = .ok request ↔
      (∀ maxSize ∈ params.maxSize, params.minSize ≤ maxSize) ∧
      (params.alphabet = none ∨ params.hasCharParams = false) ∧
      request = params.generatorParams.request nullWhenEmpty ∧
      (engine.answer (params.generatorParams.request nullWhenEmpty)).1 = .ok := by
  have hSizes : params.maxSize.any (· < params.minSize) = true ↔
      ¬∀ maxSize ∈ params.maxSize, params.minSize ≤ maxSize := disordered_iff
  have hAlone : (params.alphabet.isSome && params.hasCharParams) = true ↔
      ¬(params.alphabet = none ∨ params.hasCharParams = false) := by
    cases params.alphabet <;> simp
  unfold text
  constructor
  · intro h
    split at h
    · cases h
    · next hOrdered =>
        split at h
        · cases h
        · next hSingle =>
            exact ⟨not_not.mp (mt hSizes.mpr hOrdered), not_not.mp (mt hAlone.mpr hSingle),
              makeStringGenerator_eq_ok.mp h⟩
  · rintro ⟨hOrdered, hSingle, hBuilt⟩
    rw [if_neg (mt hSizes.mp (not_not.mpr hOrdered)), if_neg (mt hAlone.mp (not_not.mpr hSingle))]
    exact makeStringGenerator_eq_ok.mpr hBuilt

/-- The text can be drawn from `text(params)`. -/
def Drawn (nullWhenEmpty : Bool) (engine : Engine) (params : TextParams) (s : String) : Prop :=
  ∃ request, text nullWhenEmpty engine params = .ok request ∧ engine.draws request s

variable {unicode : Unicode}

/-- What is drawn where the code asks for what the parameters ask for. -/
theorem drawn_iff (hEngine : engine.Documented unicode) {params : TextParams}
    (hAsked : params.generatorParams.request nullWhenEmpty = params.asked) (s : String) :
    Drawn nullWhenEmpty engine params s ↔ params.Describes unicode engine s := by
  have hDraws (hOk : (engine.answer params.asked).1 = .ok) := hEngine.draws params.asked s hOk
  simp only [(asked_sizes params).1, (asked_sizes params).2, defaultMaxSize_toNat,
    asked_character] at hDraws
  constructor
  · rintro ⟨request, hText, hDrawn⟩
    obtain ⟨hSizes, hAlone, rfl, hOk⟩ := text_eq_ok.mp hText
    rw [hAsked] at hOk hDrawn
    exact ⟨⟨hSizes, hAlone, hOk⟩, (hDraws hOk).mp hDrawn⟩
  · rintro ⟨⟨hSizes, hAlone, hOk⟩, hDescribed⟩
    refine ⟨params.asked, text_eq_ok.mpr ⟨hSizes, hAlone, hAsked.symm, hAsked ▸ hOk⟩, ?_⟩
    exact (hDraws hOk).mpr hDescribed

/-- Where an empty vector has no data, an alphabet restricts nothing. -/
theorem drawn_outside_alphabet (hEngine : engine.Documented unicode) :
    Drawn true engine { alphabet := some "a" } "b" := by
  have hCharacter (c : Char) : (TextGeneratorParams.request true (TextParams.generatorParams
      { alphabet := some "a" })).Character unicode c := by
    simp [TextRequest.Character, TextParams.generatorParams, TextGeneratorParams.request,
      vectorData, val_le]
  have hNameless : (TextGeneratorParams.request true (TextParams.generatorParams
      { alphabet := some "a" })).Nameless :=
    ⟨rfl, fun _ h => absurd h (Option.not_mem_none _), fun _ h => absurd h (Option.not_mem_none _)⟩
  have hOk := hEngine.accepts _ hNameless (by decide) (.inr ⟨'a', hCharacter 'a'⟩)
  refine ⟨_, text_eq_ok.mpr ⟨nofun, .inr rfl, rfl, hOk⟩, (hEngine.draws _ _ hOk).mpr ?_⟩
  exact ⟨by decide, by decide, fun c _ => hCharacter c⟩

/-- `text()` draws the texts that its parameters describe when they give no empty
list. For all parameters it does so exactly if an empty vector has data. -/
theorem text_draws (hEngine : engine.Documented unicode) (nullWhenEmpty : Bool) :
    (∀ params : TextParams, params.NoEmptyList → ∀ s,
      Drawn nullWhenEmpty engine params s ↔ params.Describes unicode engine s) ∧
    ((∀ params s, Drawn nullWhenEmpty engine params s ↔ params.Describes unicode engine s) ↔
      nullWhenEmpty = false) := by
  refine ⟨fun params hLists s => drawn_iff hEngine (request_eq_asked hLists) s, ?_⟩
  constructor
  · intro hAll
    cases nullWhenEmpty with
    | false => rfl
    | true =>
        have hDescribed := (hAll _ _).mp (drawn_outside_alphabet hEngine)
        have hLetter : 'b' ∈ "a".toList := hDescribed.2.2.2 'b' (by decide)
        exact absurd hLetter (by decide)
  · rintro rfl params s
    exact drawn_iff hEngine rfl s

/-- Codecs and categories, as far as ASCII goes. -/
def ascii : Unicode where
  codec _ c := c.val < 128
  category name c := (name.text = "Lu" ∧ c.isUpper) ∨ (name.text = "Ll" ∧ c.isLower) ∨
    (name.text = "Nd" ∧ c.isDigit)

open Classical in
/-- An engine that does what is documented and no more. -/
noncomputable def plainEngine (unicode : Unicode) : Engine where
  answer request :=
    if request.Leaves unicode then (.ok, "") else (.invalidArg, "no characters left")
  draws request s := request.minSize.toNat ≤ s.length ∧ s.length ≤ request.maxSize.toNat ∧
    ∀ c ∈ s.toList, request.Character unicode c

theorem plainEngine_answer {request : TextRequest} (hLeft : request.Leaves unicode) :
    ((plainEngine unicode).answer request).1 = .ok := by
  simp only [plainEngine]
  rw [if_pos hLeft]

theorem plainEngine_documented (unicode : Unicode) : (plainEngine unicode).Documented unicode where
  draws _ _ _ := Iff.rfl
  accepts _ _ _ hLeft := plainEngine_answer hLeft

/-- Letters and digits are drawn from their alphabet if an empty vector has data. -/
theorem text_draws_alphabet :
    Drawn false (plainEngine ascii) { alphabet := some "a1" } "1a1" ∧
      ¬ ∀ params s, Drawn true (plainEngine ascii) params s ↔
        params.Describes ascii (plainEngine ascii) s := by
  have hEngine := plainEngine_documented ascii
  have hLetter : 'a' ∈ "a1".toList := by decide
  have hOk : ((plainEngine ascii).answer (TextParams.asked { alphabet := some "a1" })).1 = .ok :=
    plainEngine_answer (.inr ⟨'a', (asked_character _ _).mpr hLetter⟩)
  have hLetters : ∀ c ∈ "1a1".toList, c ∈ "a1".toList := by simp
  constructor
  · refine ((text_draws hEngine false).2.mpr rfl _ _).mpr ⟨⟨nofun, .inr rfl, hOk⟩, ?_⟩
    exact ⟨by decide, by decide, hLetters⟩
  · intro hAll
    cases (text_draws hEngine true).2.mp hAll

theorem one_letter_iff {allows : Char → Prop} (s : String) :
    1 ≤ s.length ∧ s.length ≤ 1 ∧ (∀ c ∈ s.toList, allows c) ↔
      ∃ c, s = String.singleton c ∧ allows c := by
  constructor
  · rintro ⟨hLeast, hMost, hAllows⟩
    obtain ⟨c, hList⟩ := List.length_eq_one_iff.mp
      ((String.length_toList).trans (Nat.le_antisymm hMost hLeast))
    refine ⟨c, String.toList_injective (by simpa using hList), hAllows c ?_⟩
    rw [hList]
    exact List.mem_singleton_self c
  · rintro ⟨c, rfl, hAllows⟩
    simpa using hAllows

/-- `characters()` draws each letter that its filter allows, as a text, when the
filter gives no empty list. -/
theorem characters_draws (hEngine : engine.Documented unicode) (filter : CharacterFilter)
    (hCategories : filter.categories ≠ some []) (hExclude : filter.excludeCategories ≠ some [])
    (s : String) :
    (∃ request, characters nullWhenEmpty engine filter = .ok request ∧ engine.draws request s) ↔
      (engine.answer (TextParams.asked { filter with minSize := 1, maxSize := some 1 })).1 = .ok ∧
      ∃ c, s = String.singleton c ∧ filter.Allows unicode c := by
  have hAsked : TextGeneratorParams.request nullWhenEmpty (TextParams.generatorParams
      { filter with minSize := 1, maxSize := some 1 }) =
        TextParams.asked { filter with minSize := 1, maxSize := some 1 } :=
    request_eq_asked ⟨rfl, hCategories, hExclude⟩
  have hText : ∀ request, characters nullWhenEmpty engine filter = .ok request ↔
      text nullWhenEmpty engine { filter with minSize := 1, maxSize := some 1 } = .ok request := by
    intro request
    rw [text_eq_ok, characters, buildTextHandle, stringGeneratorText, makeStringGenerator_eq_ok]
    simp
  have hDrawn := drawn_iff hEngine hAsked s
  simp only [Drawn, ← hText] at hDrawn
  rw [hDrawn, ← one_letter_iff]
  constructor
  · rintro ⟨hAccepted, hRest⟩
    exact ⟨hAccepted.engine, hRest⟩
  · rintro ⟨hOk, hRest⟩
    exact ⟨⟨by simp, .inl rfl, hOk⟩, hRest⟩

end Draws

/-! Bytes. -/

structure BinaryParams where
  minSize : UInt64 := 0
  maxSize : Option UInt64 := none
  deriving DecidableEq, Repr

/-- The sizes that `hegel_generate_bytes` is asked for. -/
structure BytesRequest where
  minSize : UInt64
  maxSize : UInt64
  deriving DecidableEq

/-- `BinaryGenerator::BinaryGenerator`. -/
def binary (params : BinaryParams) : Except Exn BytesRequest :=
  if params.maxSize.any (· < params.minSize) then
    .error (invalidArgument "Cannot have max_size < min_size")
  else .ok { minSize := params.minSize, maxSize := defaultMaxSize params.minSize params.maxSize }

/-- `binary()` draws the bytes of the given sizes, when these are in order. The
engine draws within the sizes that it is asked for. -/
theorem binary_draws {draws : BytesRequest → List UInt8 → Prop}
    (hDraws : ∀ request bytes, draws request bytes ↔
      request.minSize.toNat ≤ bytes.length ∧ bytes.length ≤ request.maxSize.toNat)
    (params : BinaryParams) (bytes : List UInt8) :
    (∃ request, binary params = .ok request ∧ draws request bytes) ↔
      (∀ maxSize ∈ params.maxSize, params.minSize ≤ maxSize) ∧
      params.minSize.toNat ≤ bytes.length ∧
      bytes.length ≤ (params.maxSize.map UInt64.toNat).getD (max params.minSize.toNat 100) := by
  by_cases hOrdered : ∀ maxSize ∈ params.maxSize, params.minSize ≤ maxSize
  · rw [binary, if_neg (mt disordered_iff.mp (not_not.mpr hOrdered))]
    rw [and_iff_right hOrdered]
    simp [hDraws, defaultMaxSize_toNat]
  · rw [binary, if_pos (disordered_iff.mpr hOrdered)]
    exact ⟨nofun, fun h => absurd h.1 hOrdered⟩

end Hegel.Texts
