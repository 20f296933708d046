import HegelCpp.Logic.Decoder
import HegelCpp.Logic.NumberedNames
import Mathlib.Algebra.Group.Nat.Defs
import Mathlib.Data.Finset.Insert
import Mathlib.Logic.Function.Basic

/-! The name a drawn value is printed under. Only the outermost draws of a test
case get one; the table of a test case and of its clones is their own. -/
namespace Hegel.Report

open Logic NumberedNames

/-- `std::numeric_limits<int>::max()`. -/
def intMax : Nat := 2147483647

/-- A call of `TestCase::draw`, as far as the name goes. -/
structure DrawCall where
  name : String := ""
  repeatable : Bool := false
  deriving DecidableEq, Repr

def DrawCall.base (call : DrawCall) : String := if call.name.isEmpty then "draw" else call.name

def DrawCall.baseRepeatable (call : DrawCall) : Bool := call.name.isEmpty || call.repeatable

/-- `draw_name_counts` and `taken_display_names`. -/
structure NameTable where
  drawNameCounts : String → Nat := fun _ => 0
  takenDisplayNames : Finset String := ∅

/-- The table with a count written back and a display name taken. -/
def NameTable.take (table : NameTable) (base : String) (count : Nat) (display : String) :
    NameTable where
  drawNameCounts := Function.update table.drawNameCounts base count
  takenDisplayNames := insert display table.takenDisplayNames

def suffixed (base : String) (candidate : Nat) : String := base ++ "_" ++ toString candidate

/-- The loop that picks a suffix, with the numbers that are left before the
candidate exceeds an `int`. -/
def pickSuffix (taken : Finset String) (base : String) : (left candidate : Nat) → Option Nat
  | 0, _ => none
  | left + 1, candidate =>
      if suffixed base candidate ∈ taken then pickSuffix taken base left (candidate + 1)
      else some candidate

/-- `DrawLogScope::DrawLogScope` of an outermost draw: the display name, and
nothing when an `int` overflows. -/
def NameTable.draw (table : NameTable) (call : DrawCall) : Option (String × NameTable) :=
  let count := table.drawNameCounts call.base + 1
  if intMax < count then none
  else if !call.baseRepeatable then some (call.base, table.take call.base count call.base)
  else do
    let candidate ← pickSuffix table.takenDisplayNames call.base (intMax + 1 - count) count
    let attempt := suffixed call.base candidate
    pure (attempt, table.take call.base count attempt)

/-- The display names of a sequence of outermost draws. -/
def displayNames : NameTable → List DrawCall → Option (List String)
  | _, [] => some []
  | table, call :: calls => do
      let (display, table) ← table.draw call
      let rest ← displayNames table calls
      pure (display :: rest)

theorem suffixed_injective (base : String) : Function.Injective (suffixed base) := by
  intro k k' hSame
  have hText : k.repr = k'.repr := (String.append_right_inj _).mp hSame
  have hEnd : Decoder.NoDigit [] := fun c hHead => by cases hHead
  apply Decoder.natural_inverts.injective hEnd
  rw [← Nat.toList_repr, ← Nat.toList_repr, hText]

theorem base_ne_suffixed (base : String) (k : Nat) : base ≠ suffixed base k := by
  intro hSame
  have hLength := congrArg String.length hSame
  rw [suffixed, String.length_append, String.length_append] at hLength
  have hOne : "_".length = 1 := by decide
  omega

/-- A bare name, or the base with its suffix. -/
def drawNaming : Naming String String where
  plain base := base
  numbered := suffixed
  numbered_injective := suffixed_injective
  plain_ne_numbered := base_ne_suffixed

/-- The table holds what the draws so far left in it. -/
structure NameTable.Holds (table : NameTable) (uses : List (Use String)) : Prop where
  counts : ∀ base, table.drawNameCounts base = count uses base
  taken : ∀ name, name ∈ table.takenDisplayNames ↔ name ∈ drawNaming.given uses

theorem pickSuffix_eq_some {taken : Finset String} {base : String} {left candidate k : Nat}
    (hLeast : IsLeast {k | candidate ≤ k ∧ suffixed base k ∉ taken} k)
    (hLeft : k < candidate + left) : pickSuffix taken base left candidate = some k := by
  have hLower : candidate ≤ k := hLeast.1.1
  induction left generalizing candidate with
  | zero => omega
  | succ left ih =>
      rw [pickSuffix]
      split
      · next hTaken =>
          have hNe : candidate ≠ k := by
            rintro rfl
            exact hLeast.1.2 hTaken
          apply ih
          · refine ⟨⟨by omega, hLeast.1.2⟩, ?_⟩
            intro j hj
            exact hLeast.2 ⟨by have := hj.1; omega, hj.2⟩
          · omega
          · omega
      · next hFree =>
          have hLe : k ≤ candidate := hLeast.2 ⟨le_refl _, hFree⟩
          rw [Nat.le_antisymm hLe hLower]

theorem NameTable.Holds.take {table : NameTable} {uses : List (Use String)}
    (h : table.Holds uses) (use : Use String) :
    (table.take use.base (count uses use.base + 1) (drawNaming.name use)).Holds
      (uses ++ [use]) where
  counts base := by
    simp only [NameTable.take, Function.update_apply, count_append, h.counts base]
    by_cases hBase : base = use.base
    · subst hBase
      simp [count]
    · have hOther : count [use] base = 0 := by simp [count, Ne.symm hBase]
      rw [if_neg hBase, hOther, Nat.add_zero]
  taken name := by
    have hLast : drawNaming.given [use] = [drawNaming.name use] := rfl
    rw [NameTable.take, Finset.mem_insert, h.taken name, given_append, List.mem_append, or_comm,
      hLast, List.mem_singleton]

/-- A draw is a step of the numbering. No `int` overflows while there are fewer
draws than `int` values. -/
theorem NameTable.Holds.draw_eq_some {table : NameTable} {uses : List (Use String)}
    (hHolds : table.Holds uses) (hGives : Gives drawNaming uses) (hFew : uses.length < intMax)
    (call : DrawCall) :
    ∃ use table', use.base = call.base ∧ use.number.isSome = call.baseRepeatable ∧
      table.draw call = some (drawNaming.name use, table') ∧
      table'.Holds (uses ++ [use]) ∧ Gives drawNaming (uses ++ [use]) := by
  have hCount : count uses call.base ≤ uses.length := List.countP_le_length
  have hSmall : ¬ intMax < count uses call.base + 1 := by omega
  unfold NameTable.draw
  rw [hHolds.counts call.base]
  simp only [if_neg hSmall]
  cases hRepeatable : call.baseRepeatable with
  | false =>
      exact ⟨⟨call.base, none⟩, _, rfl, rfl, rfl, hHolds.take ⟨call.base, none⟩,
        hGives.plain call.base⟩
  | true =>
      obtain ⟨k, hNext⟩ := drawNaming.exists_next uses call.base
      have hBound : k ≤ uses.length + 1 := hNext.le_length hGives
      have hLeast : IsLeast {k | count uses call.base + 1 ≤ k ∧
          suffixed call.base k ∉ table.takenDisplayNames} k := by
        simp only [hHolds.taken]
        exact hNext
      have hPick : pickSuffix table.takenDisplayNames call.base
          (intMax + 1 - (count uses call.base + 1)) (count uses call.base + 1) = some k :=
        pickSuffix_eq_some hLeast (by omega)
      refine ⟨⟨call.base, some k⟩, _, rfl, rfl, ?_, hHolds.take ⟨call.base, some k⟩,
        hGives.numbered hNext⟩
      simp only [hPick]
      rfl

/-- A run of draws is a history of the numbering. -/
theorem displayNames_gives {table : NameTable} {uses : List (Use String)}
    (hHolds : table.Holds uses) (hGives : Gives drawNaming uses) (calls : List DrawCall)
    (hFew : uses.length + calls.length ≤ intMax) :
    ∃ more, displayNames table calls = some (drawNaming.given more) ∧
      Gives drawNaming (uses ++ more) ∧
      more.map Use.base = calls.map DrawCall.base ∧
      more.map (·.number.isSome) = calls.map DrawCall.baseRepeatable := by
  induction calls generalizing table uses with
  | nil => exact ⟨[], rfl, by simpa using hGives, rfl, rfl⟩
  | cons call calls ih =>
      rw [List.length_cons] at hFew
      obtain ⟨use, table', hBase, hNumber, hDraw, hHolds', hGives'⟩ :=
        hHolds.draw_eq_some hGives (by omega) call
      obtain ⟨more, hNames, hMore, hBases, hNumbers⟩ := ih hHolds' hGives'
        (by rw [List.length_append, List.length_singleton]; omega)
      refine ⟨use :: more, ?_, ?_, ?_, ?_⟩
      · simp [displayNames, hDraw, hNames, Naming.given]
      · simpa using hMore
      · simp [hBase, hBases]
      · simp [hNumber, hNumbers]

theorem base_of_bare {call : DrawCall} (hBare : call.baseRepeatable = false) :
    call.base = call.name := by
  rw [DrawCall.baseRepeatable, Bool.or_eq_false_iff] at hBare
  rw [DrawCall.base, hBare.1]
  rfl

section Places

variable {calls : List DrawCall} {uses : List (Use String)}

/-- The use of a call in the history. -/
theorem exists_use (hBases : uses.map Use.base = calls.map DrawCall.base)
    (hNumbers : uses.map (·.number.isSome) = calls.map DrawCall.baseRepeatable) {i : Nat}
    {call : DrawCall} (hCall : calls[i]? = some call) :
    ∃ number, uses[i]? = some ⟨call.base, number⟩ ∧ number.isSome = call.baseRepeatable := by
  have hBase := congrArg (·[i]?) hBases
  have hNumber := congrArg (·[i]?) hNumbers
  simp only [List.getElem?_map, hCall, Option.map_some, Option.map_eq_some_iff] at hBase hNumber
  obtain ⟨use, hUse, hBase⟩ := hBase
  obtain ⟨use', hUse', hNumber⟩ := hNumber
  obtain rfl : use = use' := Option.some.inj (hUse.symm.trans hUse')
  refine ⟨use.number, ?_, hNumber⟩
  rw [hUse, ← hBase]

theorem count_take_succ (hBases : uses.map Use.base = calls.map DrawCall.base) {i : Nat}
    {call : DrawCall} (hCall : calls[i]? = some call) :
    (calls.take (i + 1)).countP (·.base = call.base) = count (uses.take i) call.base + 1 := by
  have hMap (l : List DrawCall) :
      l.countP (·.base = call.base) = (l.map DrawCall.base).countP (· = call.base) := by
    rw [List.countP_map]
    rfl
  have hTake : (calls.take i).map DrawCall.base = (uses.take i).map Use.base := by
    rw [List.map_take, List.map_take, hBases]
  have hCount : (calls.take i).countP (·.base = call.base) = count (uses.take i) call.base := by
    rw [hMap, hTake, List.countP_map]
    rfl
  rw [List.take_add_one, hCall, List.countP_append, hCount]
  simp

/-- The number a call got was the next one. -/
theorem next_take (hGives : Gives drawNaming uses) {i : Nat} {base : String} {k : Nat}
    (hUse : uses[i]? = some ⟨base, some k⟩) : drawNaming.Next (uses.take i) base k := by
  obtain ⟨hLt, hGet⟩ := List.getElem?_eq_some_iff.mp hUse
  have hSplit : uses = uses.take i ++ ⟨base, some k⟩ :: uses.drop (i + 1) := by
    rw [← hGet, List.getElem_cons_drop, List.take_append_drop]
  rw [hSplit] at hGives
  exact hGives.next

end Places

/-- The names of outermost draws. A bare name prints bare. Any other draw gets the
least number that is not below the draws of its base so far and makes a name not
printed before, and the numbers of a base increase. -/
theorem draw_names_fresh (calls : List DrawCall) (hFew : calls.length < 2 ^ 31) :
    ∃ shown, displayNames {} calls = some shown ∧ shown.length = calls.length ∧
      ∀ i call, calls[i]? = some call →
        (call.baseRepeatable = false → shown[i]? = some call.name) ∧
        (call.baseRepeatable = true → ∃ k, shown[i]? = some (suffixed call.base k) ∧
          IsLeast {k | (calls.take (i + 1)).countP (·.base = call.base) ≤ k ∧
            suffixed call.base k ∉ shown.take i} k ∧
          ∀ j < i, ∀ earlier, calls[j]? = some earlier → earlier.baseRepeatable = true →
            earlier.base = call.base → ∀ k', shown[j]? = some (suffixed call.base k') → k' < k) := by
  have hStart : NameTable.Holds {} [] := ⟨fun base => rfl, fun name => by simp [Naming.given]⟩
  obtain ⟨uses, hNames, hGives, hBases, hNumbers⟩ :=
    displayNames_gives hStart .nil calls (by rw [List.length_nil, intMax]; omega)
  rw [List.nil_append] at hGives
  have hLength : uses.length = calls.length := by simpa using congrArg List.length hBases
  have hShown (i : Nat) : (drawNaming.given uses)[i]? = uses[i]?.map drawNaming.name :=
    List.getElem?_map
  refine ⟨drawNaming.given uses, hNames, by simp [Naming.given, hLength], ?_⟩
  intro i call hCall
  obtain ⟨number, hUse, hNumber⟩ := exists_use hBases hNumbers hCall
  constructor
  · intro hBare
    rw [hBare, Option.isSome_eq_false_iff, Option.isNone_iff_eq_none] at hNumber
    rw [hShown, hUse, hNumber, ← base_of_bare hBare]
    rfl
  · intro hRepeatable
    rw [hRepeatable, Option.isSome_iff_exists] at hNumber
    obtain ⟨k, rfl⟩ := hNumber
    have hNext := next_take hGives hUse
    have hTake : (drawNaming.given uses).take i = drawNaming.given (uses.take i) :=
      List.map_take.symm
    refine ⟨k, by rw [hShown, hUse]; rfl, ?_, ?_⟩
    · rw [count_take_succ hBases hCall, hTake]
      exact hNext
    · intro j hj earlier hEarlier hEarlierRepeatable hSame k' hPrinted
      obtain ⟨number, hUse', hNumber'⟩ := exists_use hBases hNumbers hEarlier
      rw [hEarlierRepeatable, Option.isSome_iff_exists] at hNumber'
      obtain ⟨k'', rfl⟩ := hNumber'
      rw [hSame] at hUse'
      rw [hShown, hUse'] at hPrinted
      have hNumbers' : k'' = k' := suffixed_injective call.base (Option.some.inj hPrinted)
      have hMem : ⟨call.base, some k''⟩ ∈ uses.take i := by
        apply List.mem_of_getElem? (i := j)
        rw [List.getElem?_take_of_lt hj, hUse']
      have hPrior : Gives drawNaming (uses.take i) := by
        rw [← List.take_append_drop i uses] at hGives
        exact hGives.of_append
      rw [← hNumbers']
      exact hNext.lt_of_mem hPrior hMem

/-- A user name takes the first suffix. -/
theorem draw_names_fresh_taken :
    ∃ shown, displayNames {} [⟨"x_1", false⟩, ⟨"x", true⟩, ⟨"x", true⟩] = some shown ∧
      shown[0]? = some "x_1" := by
  obtain ⟨shown, hNames, -, hPlaces⟩ :=
    draw_names_fresh [⟨"x_1", false⟩, ⟨"x", true⟩, ⟨"x", true⟩] (by decide)
  exact ⟨shown, hNames, (hPlaces 0 ⟨"x_1", false⟩ rfl).1 (by decide)⟩

example : displayNames {} [⟨"x_1", false⟩, ⟨"x", true⟩, ⟨"", false⟩, ⟨"x", true⟩] =
    some ["x_1", "x_2", "draw_1", "x_3"] := by decide

end Hegel.Report
