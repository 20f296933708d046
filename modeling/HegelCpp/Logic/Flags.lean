import Mathlib.Logic.Function.Basic

/-! Sets of flags in a machine word, one bit for each flag. A word keeps which
flags were set, and neither their order nor how often. -/
namespace Logic.Flags

variable {α : Type} {w : Nat} {index : α → Nat}

/-- The word in which the flags are set. -/
def union (w : Nat) (index : α → Nat) (flags : List α) : BitVec w :=
  flags.foldl (fun word flag => word ||| BitVec.twoPow w (index flag)) 0#w

/-- Every flag has a bit of the word, and no two have the same. -/
structure Distinct (w : Nat) (index : α → Nat) : Prop where
  lt : ∀ flag, index flag < w
  injective : Function.Injective index

private theorem getLsbD_foldl (hDistinct : Distinct w index) (flags : List α) (word : BitVec w)
    (i : Nat) :
    (flags.foldl (fun word flag => word ||| BitVec.twoPow w (index flag)) word).getLsbD i = true ↔
      word.getLsbD i = true ∨ ∃ flag ∈ flags, index flag = i := by
  induction flags generalizing word with
  | nil => simp
  | cons flag flags ih =>
      rw [List.foldl_cons, ih, BitVec.getLsbD_or, BitVec.getLsbD_twoPow]
      simp [hDistinct.lt flag, or_assoc]

theorem getLsbD_union (hDistinct : Distinct w index) (flags : List α) (i : Nat) :
    (union w index flags).getLsbD i = true ↔ ∃ flag ∈ flags, index flag = i := by
  rw [union, getLsbD_foldl hDistinct]
  simp

/-- The bit of a flag tells whether it was set. -/
theorem getLsbD_index (hDistinct : Distinct w index) (flags : List α) (flag : α) :
    (union w index flags).getLsbD (index flag) = true ↔ flag ∈ flags := by
  rw [getLsbD_union hDistinct]
  constructor
  · rintro ⟨other, hOther, hIndex⟩
    exact hDistinct.injective hIndex ▸ hOther
  · intro hFlag
    exact ⟨flag, hFlag, rfl⟩

theorem union_eq_iff (hDistinct : Distinct w index) (flags flags' : List α) :
    union w index flags = union w index flags' ↔ ∀ flag, flag ∈ flags ↔ flag ∈ flags' := by
  constructor
  · intro hSame flag
    rw [← getLsbD_index hDistinct, hSame, getLsbD_index hDistinct]
  · intro hSame
    apply BitVec.eq_of_getLsbD_eq
    intro i _
    rw [Bool.eq_iff_iff, getLsbD_union hDistinct, getLsbD_union hDistinct]
    simp only [hSame]

theorem union_eq_zero_iff (hDistinct : Distinct w index) (flags : List α) :
    union w index flags = 0#w ↔ flags = [] := by
  have hEmpty := union_eq_iff hDistinct flags []
  rw [show union w index [] = 0#w from rfl] at hEmpty
  rw [hEmpty, List.eq_nil_iff_forall_not_mem]
  simp

end Logic.Flags
