import Mathlib.Data.List.Basic

/-! A list without its later duplicates, as one more element arrives. Two
elements are duplicates when a transitive relation says so. -/
namespace Logic

variable {α : Type*} {r : α → α → Bool}

/-- What is related to `x` is not related to an element that `x` is not related to. -/
theorem any_filter_unrelated (hTrans : ∀ a b c, r a b = true → r b c = true → r a c = true)
    {x first : α} (hFirst : r x first = false) (rest : List α) :
    (rest.filter fun later => r later first = false).any (r x) = rest.any (r x) := by
  have hKept (later : α) : (decide (r later first = false) && r x later) = r x later := by
    cases hLater : r x later with
    | false => exact Bool.and_false _
    | true =>
        have hUnrelated : r later first = false := by
          by_contra hRelated
          have := hTrans x later first hLater (by simpa using hRelated)
          simp [hFirst] at this
        simp [hUnrelated]
  rw [List.any_filter]
  exact congrArg rest.any (funext hKept)

/-- Nothing is lost up to duplicates. -/
theorem any_eraseDupsBy (hTrans : ∀ a b c, r a b = true → r b c = true → r a c = true)
    (xs : List α) (x : α) : (xs.eraseDupsBy r).any (r x) = xs.any (r x) := by
  match xs with
  | [] => rfl
  | first :: rest =>
      rw [List.eraseDupsBy_cons, List.any_cons, List.any_cons, any_eraseDupsBy hTrans _ x]
      cases hFirst : r x first with
      | true => rfl
      | false => rw [any_filter_unrelated hTrans hFirst]
termination_by xs.length
decreasing_by exact Nat.lt_succ_of_le (List.length_filter_le _ _)

theorem eraseDupsBy_concat (hTrans : ∀ a b c, r a b = true → r b c = true → r a c = true)
    (xs : List α) (x : α) :
    (xs ++ [x]).eraseDupsBy r =
      if xs.any (r x) then xs.eraseDupsBy r else xs.eraseDupsBy r ++ [x] := by
  match xs with
  | [] => rfl
  | first :: rest =>
      rw [List.cons_append, List.eraseDupsBy_cons, List.filter_append, List.eraseDupsBy_cons,
        List.any_cons]
      cases hFirst : r x first with
      | true => simp [hFirst]
      | false =>
          have hLast : [x].filter (fun later => r later first = false) = [x] := by simp [hFirst]
          rw [hLast, eraseDupsBy_concat hTrans _ x, any_filter_unrelated hTrans hFirst,
            Bool.false_or]
          split <;> rfl
termination_by xs.length
decreasing_by exact Nat.lt_succ_of_le (List.length_filter_le _ _)

end Logic
