import Mathlib.Data.List.Induction
import Mathlib.Data.List.Nodup
import Mathlib.Data.List.Perm.Subperm
import Mathlib.Order.Bounds.Defs
import Mathlib.Order.Nat

/-! Names given one after the other: a use of a base takes the plain name or
the base with a number, the least one that is not below the uses of the base so
far and gives a name not given before. -/
namespace Logic.NumberedNames

/-- How names are formed. Numbered names of one base differ from each other and
from the plain name. -/
structure Naming (β ν : Type) where
  plain : β → ν
  numbered : β → Nat → ν
  numbered_injective : ∀ base, Function.Injective (numbered base)
  plain_ne_numbered : ∀ base k, plain base ≠ numbered base k

/-- A use of a base, with the number it got. -/
structure Use (β : Type) where
  base : β
  number : Option Nat
  deriving DecidableEq

variable {β ν : Type} [DecidableEq β] (naming : Naming β ν)

def Naming.name (use : Use β) : ν :=
  match use.number with
  | none => naming.plain use.base
  | some k => naming.numbered use.base k

/-- The names given so far. -/
def Naming.given (uses : List (Use β)) : List ν := uses.map naming.name

/-- How often a base was used. -/
def count (uses : List (Use β)) (base : β) : Nat := uses.countP (·.base = base)

variable {naming}

@[simp] theorem count_append (uses more : List (Use β)) (base : β) :
    count (uses ++ more) base = count uses base + count more base := List.countP_append

omit [DecidableEq β] in
@[simp] theorem given_append (uses more : List (Use β)) :
    naming.given (uses ++ more) = naming.given uses ++ naming.given more := List.map_append

/-- The number that a use of the base may get next. -/
def Naming.Next (naming : Naming β ν) (uses : List (Use β)) (base : β) (k : Nat) : Prop :=
  IsLeast {k | count uses base + 1 ≤ k ∧ naming.numbered base k ∉ naming.given uses} k

omit [DecidableEq β] in
/-- As many numbered names as were given belong to as many uses. -/
theorem le_length_of_given {uses : List (Use β)} {base : β} {first n : Nat}
    (hTaken : ∀ j, first ≤ j → j < first + n → naming.numbered base j ∈ naming.given uses) :
    n ≤ uses.length := by
  have hNodup : ((List.range' first n).map (naming.numbered base)).Nodup :=
    List.Nodup.map (naming.numbered_injective base) List.nodup_range'
  have hSubset : (List.range' first n).map (naming.numbered base) ⊆ naming.given uses := by
    intro name hName
    obtain ⟨j, hRange, rfl⟩ := List.mem_map.mp hName
    rw [List.mem_range'_1] at hRange
    exact hTaken j hRange.1 hRange.2
  simpa [Naming.given] using hNodup.length_le_of_subset hSubset

/-- Some number is free: only as many names are given as there were uses. -/
theorem Naming.exists_next (naming : Naming β ν) (uses : List (Use β)) (base : β) :
    ∃ k, naming.Next uses base k := by
  classical
  have hFree : ∃ k, count uses base + 1 ≤ k ∧ naming.numbered base k ∉ naming.given uses := by
    by_contra hTaken
    simp only [not_exists, not_and, not_not] at hTaken
    exact Nat.not_succ_le_self uses.length (le_length_of_given fun j hLower _ => hTaken j hLower)
  exact ⟨Nat.find hFree, Nat.isLeast_find hFree⟩

/-- The numbers from some use of the base on up to `k` are given. -/
def Naming.TakenUpTo (naming : Naming β ν) (uses : List (Use β)) (base : β) (k : Nat) : Prop :=
  ∃ first ≤ count uses base, ∀ j, first ≤ j → j ≤ k → naming.numbered base j ∈ naming.given uses

theorem Naming.Next.mem_given {uses : List (Use β)} {base : β} {k j : Nat}
    (hNext : naming.Next uses base k) (hLower : count uses base + 1 ≤ j) (hLt : j < k) :
    naming.numbered base j ∈ naming.given uses := by
  by_contra hFree
  exact Nat.not_le_of_lt hLt (hNext.2 ⟨hLower, hFree⟩)

theorem Naming.TakenUpTo.append {uses : List (Use β)} {base : β} {k : Nat}
    (h : naming.TakenUpTo uses base k) (more : List (Use β)) :
    naming.TakenUpTo (uses ++ more) base k := by
  obtain ⟨first, hFirst, hTaken⟩ := h
  refine ⟨first, ?_, ?_⟩
  · rw [count_append]
    exact Nat.le_add_right_of_le hFirst
  · intro j hLower hUpper
    rw [given_append]
    exact List.mem_append_left _ (hTaken j hLower hUpper)

theorem Naming.Next.takenUpTo {uses : List (Use β)} {base : β} {k : Nat}
    (hNext : naming.Next uses base k) : naming.TakenUpTo (uses ++ [⟨base, some k⟩]) base k := by
  refine ⟨count uses base + 1, by simp [count], ?_⟩
  intro j hLower hUpper
  rw [given_append, List.mem_append]
  rcases Nat.lt_or_eq_of_le hUpper with hLt | rfl
  · exact .inl (hNext.mem_given hLower hLt)
  · exact .inr (List.mem_singleton.mpr rfl)

/-- The next number is behind every number up to which all are taken. -/
theorem Naming.Next.lt {uses : List (Use β)} {base : β} {k j : Nat}
    (hNext : naming.Next uses base k) (hTaken : naming.TakenUpTo uses base j) : j < k := by
  by_contra hBehind
  obtain ⟨first, hFirst, hGiven⟩ := hTaken
  have hLower : count uses base + 1 ≤ k := hNext.1.1
  exact hNext.1.2 (hGiven k (by omega) (by omega))

/-- The histories of the rule. -/
inductive Gives (naming : Naming β ν) : List (Use β) → Prop where
  | nil : Gives naming []
  | plain {uses : List (Use β)} (prior : Gives naming uses) (base : β) :
      Gives naming (uses ++ [⟨base, none⟩])
  | numbered {uses : List (Use β)} (prior : Gives naming uses) {base : β} {k : Nat}
      (hNext : naming.Next uses base k) : Gives naming (uses ++ [⟨base, some k⟩])

/-- Behind a number that was given, every number from the count at that use on
is taken. -/
theorem Gives.taken {uses : List (Use β)} (h : Gives naming uses) {base : β} {k : Nat}
    (hUse : ⟨base, some k⟩ ∈ uses) : naming.TakenUpTo uses base k := by
  induction h with
  | nil => cases hUse
  | plain prior other ih =>
      rw [List.mem_append, List.mem_singleton] at hUse
      rcases hUse with hUse | hUse
      · exact (ih hUse).append _
      · cases hUse
  | numbered prior hNext ih =>
      rw [List.mem_append, List.mem_singleton] at hUse
      rcases hUse with hUse | hUse
      · exact (ih hUse).append _
      · cases hUse
        exact hNext.takenUpTo

/-- The next number of a base exceeds all that were given before. -/
theorem Naming.Next.lt_of_mem {uses : List (Use β)} (h : Gives naming uses) {base : β} {k j : Nat}
    (hNext : naming.Next uses base k) (hUse : ⟨base, some j⟩ ∈ uses) : j < k :=
  hNext.lt (h.taken hUse)

theorem Gives.last {uses : List (Use β)} {use : Use β} (h : Gives naming (uses ++ [use])) :
    Gives naming uses ∧ ∀ k, use.number = some k → naming.Next uses use.base k := by
  generalize hAll : uses ++ [use] = all at h
  cases h with
  | nil => simp at hAll
  | plain prior base =>
      obtain ⟨rfl, rfl⟩ := List.append_singleton_inj.mp hAll
      refine ⟨prior, ?_⟩
      intro k hNumber
      cases hNumber
  | numbered prior hNext =>
      obtain ⟨rfl, rfl⟩ := List.append_singleton_inj.mp hAll
      refine ⟨prior, ?_⟩
      intro k hNumber
      cases hNumber
      exact hNext

/-- A history up to any of its uses is one. -/
theorem Gives.of_append {uses more : List (Use β)} (h : Gives naming (uses ++ more)) :
    Gives naming uses := by
  induction more using List.reverseRecOn with
  | nil => simpa using h
  | append_singleton more use ih =>
      rw [← List.append_assoc] at h
      exact ih h.last.1

/-- The number given in the middle of a history was the next one there. -/
theorem Gives.next {uses more : List (Use β)} {base : β} {k : Nat}
    (h : Gives naming (uses ++ ⟨base, some k⟩ :: more)) : naming.Next uses base k := by
  rw [List.append_cons] at h
  exact h.of_append.last.2 k rfl

/-! No number exceeds the uses so far: the numbers below it belong to other
uses. -/

/-- A use of the base that did not get a number above the gap. -/
def Below (base : β) (gap : Nat) (use : Use β) : Prop :=
  use.base = base ∧ ∀ k ∈ use.number, k ≤ gap

instance (base : β) (gap : Nat) (use : Use β) : Decidable (Below base gap use) :=
  inferInstanceAs (Decidable (_ ∧ _))

theorem le_countP_below_append {uses : List (Use β)} {use : Use β} {base : β} {gap : Nat}
    (hPrior : min gap (count uses base) ≤ uses.countP (Below base gap))
    (hUse : use.base = base → count uses base < gap → Below base gap use) :
    min gap (count (uses ++ [use]) base) ≤ (uses ++ [use]).countP (Below base gap) := by
  rw [count_append, List.countP_append]
  by_cases hBase : use.base = base
  · have hOne : count [use] base = 1 := by simp [count, hBase]
    by_cases hRoom : count uses base < gap
    · have hBelow : [use].countP (Below base gap) = 1 := by simp [hUse hBase hRoom]
      omega
    · omega
  · have hNone : count [use] base = 0 := by simp [count, hBase]
    omega

/-- While a number is free, the first uses of the base do not get beyond it. -/
theorem Gives.le_countP_below {uses : List (Use β)} (h : Gives naming uses) {base : β} {gap : Nat}
    (hFree : naming.numbered base gap ∉ naming.given uses) :
    min gap (count uses base) ≤ uses.countP (Below base gap) := by
  induction h with
  | nil => simp [count]
  | plain prior other ih =>
      rw [given_append, List.mem_append, not_or] at hFree
      apply le_countP_below_append (ih hFree.1)
      intro hBase _
      exact ⟨hBase, fun k hNumber => by cases hNumber⟩
  | @numbered uses prior other k hNext ih =>
      rw [given_append, List.mem_append, not_or] at hFree
      apply le_countP_below_append (ih hFree.1)
      intro hBase hRoom
      cases hBase
      refine ⟨rfl, ?_⟩
      intro k' hNumber
      cases hNumber
      exact hNext.2 ⟨hRoom, hFree.1⟩

omit [DecidableEq β] in
theorem name_ne_of_below {base : β} {gap j : Nat} {use : Use β} (hBelow : Below base gap use)
    (hLt : gap < j) : naming.name use ≠ naming.numbered base j := by
  obtain ⟨other, number⟩ := use
  obtain ⟨rfl, hNumber⟩ := hBelow
  cases number with
  | none => exact naming.plain_ne_numbered other j
  | some k =>
      intro hSame
      have hNumbers : k = j := naming.numbered_injective other hSame
      have hGap : k ≤ gap := hNumber k rfl
      omega

/-- The names with the numbers between the gap and `k` belong to as many other
uses. -/
theorem le_countP_not_below {uses : List (Use β)} {base : β} {gap k : Nat}
    (hTaken : ∀ j, gap < j → j < k → naming.numbered base j ∈ naming.given uses) :
    k - (gap + 1) ≤ uses.countP fun use => ¬ Below base gap use := by
  rw [List.countP_eq_length_filter]
  have hOthers : ∀ j, gap + 1 ≤ j → j < gap + 1 + (k - (gap + 1)) → naming.numbered base j ∈
      naming.given (uses.filter fun use => ¬ Below base gap use) := by
    intro j hLower hUpper
    obtain ⟨use, hUse, hSame⟩ := List.mem_map.mp (hTaken j (by omega) (by omega))
    have hOther : ¬ Below base gap use := fun hBelow => name_ne_of_below hBelow (by omega) hSame
    exact List.mem_map.mpr ⟨use, List.mem_filter.mpr ⟨hUse, by simpa using hOther⟩, hSame⟩
  exact le_length_of_given hOthers

/-- Below a number there is a last one that is zero or has no property. -/
theorem exists_last_gap (taken : Nat → Prop) {k : Nat} (hPos : 0 < k) :
    ∃ gap < k, (gap = 0 ∨ ¬ taken gap) ∧ ∀ j, gap < j → j < k → taken j := by
  induction k with
  | zero => cases hPos
  | succ k ih =>
      by_cases hGap : k = 0 ∨ ¬ taken k
      · exact ⟨k, Nat.lt_succ_self k, hGap, fun j hLower hUpper => by omega⟩
      · rw [not_or, not_not] at hGap
        obtain ⟨gap, hLt, hFree, hTaken⟩ := ih (Nat.pos_of_ne_zero hGap.1)
        refine ⟨gap, Nat.lt_succ_of_lt hLt, hFree, ?_⟩
        intro j hLower hUpper
        rcases Nat.lt_or_eq_of_le (Nat.le_of_lt_succ hUpper) with hBelow | rfl
        · exact hTaken j hLower hBelow
        · exact hGap.2

/-- A number does not exceed the uses so far. -/
theorem Naming.Next.le_length {uses : List (Use β)} (h : Gives naming uses) {base : β} {k : Nat}
    (hNext : naming.Next uses base k) : k ≤ uses.length + 1 := by
  have hLower : count uses base + 1 ≤ k := hNext.1.1
  obtain ⟨gap, hLt, hGap, hTaken⟩ :=
    exists_last_gap (fun j => naming.numbered base j ∈ naming.given uses) (k := k) (by omega)
  have hBelow : gap ≤ uses.countP (Below base gap) := by
    rcases hGap with rfl | hFree
    · exact Nat.zero_le _
    · have hCount : gap ≤ count uses base := by
        by_contra hBeyond
        exact hFree (hNext.mem_given (by omega) hLt)
      have hFirst := h.le_countP_below hFree
      rwa [Nat.min_eq_left hCount] at hFirst
  have hBetween := le_countP_not_below hTaken
  have hSplit := List.length_eq_countP_add_countP (Below base gap ·) (l := uses)
  simp only [decide_eq_true_eq] at hSplit
  omega

end Logic.NumberedNames
