import Mathlib.Data.List.DropRight

/-! A variable that steps overwrite. After a run it holds the last value that
was written, or, where some steps clear it, the last one written since. -/
namespace Logic.LastWrite

variable {σ ι α : Type*} {step : σ → ι → σ}

theorem read_foldl (read : σ → α) (write : ι → Option α)
    (hStep : ∀ s item, read (step s item) = (write item).getD (read s)) (items : List ι) (s : σ) :
    read (items.foldl step s) = (items.filterMap write).getLast?.getD (read s) := by
  induction items using List.reverseRecOn with
  | nil => rfl
  | append_singleton items item ih =>
      rw [List.foldl_append, List.foldl_cons, List.foldl_nil, hStep, ih, List.filterMap_append,
        List.getLast?_append]
      cases hWrite : write item with
      | none => simp [hWrite]
      | some value => simp [hWrite]

/-- The values written after the last item that clears the variable. -/
def sinceCleared (writes : ι → List α) (clears : ι → Bool) (items : List ι) : List α :=
  (items.rtakeWhile fun item => !clears item).flatMap writes

@[simp] theorem sinceCleared_nil (writes : ι → List α) (clears : ι → Bool) :
    sinceCleared writes clears [] = [] := by simp [sinceCleared]

theorem sinceCleared_concat (writes : ι → List α) (clears : ι → Bool) (items : List ι) (item : ι) :
    sinceCleared writes clears (items ++ [item]) =
      if clears item then [] else sinceCleared writes clears items ++ writes item := by
  unfold sinceCleared
  rw [List.rtakeWhile_concat]
  cases clears item with
  | true => rfl
  | false => simp

theorem value_foldl (value : σ → Option α) (writes : ι → List α) (clears : ι → Bool)
    (hStep : ∀ s item, value (step s item) =
      if clears item then none else (writes item).getLast?.or (value s))
    {s : σ} (hStart : value s = none) (items : List ι) :
    value (items.foldl step s) = (sinceCleared writes clears items).getLast? := by
  induction items using List.reverseRecOn with
  | nil => simp [hStart]
  | append_singleton items item ih =>
      rw [List.foldl_append, List.foldl_cons, List.foldl_nil, hStep, ih, sinceCleared_concat]
      split
      · rfl
      · exact List.getLast?_append.symm

end Logic.LastWrite
