import Mathlib.Data.Finset.Card
import Mathlib.Data.List.AList
import Mathlib.Data.List.Induction

/-! Names numbered as they first occur. A map that gives a new name its own size
numbers the names densely, in the order of their first occurrences. -/
namespace Logic.DenseNumbering

variable {α : Type} [DecidableEq α] {xs names : List α} {ids : AList fun _ : α => Int}
  {x a b : α} {id : Int}

theorem eraseDups_concat (xs : List α) (x : α) :
    (xs ++ [x]).eraseDups = if x ∈ xs then xs.eraseDups else xs.eraseDups ++ [x] := by
  rw [List.eraseDups_append]
  split
  · simp [List.removeAll, *]
  · simp [List.removeAll, List.eraseDups_cons, *]

theorem nodup_eraseDups (xs : List α) : xs.eraseDups.Nodup := by
  induction xs using List.reverseRecOn with
  | nil => exact List.nodup_nil
  | append_singleton xs x ih =>
      rw [eraseDups_concat]
      split
      · exact ih
      · exact List.nodup_append'.mpr ⟨ih, List.nodup_singleton x, by simpa⟩

theorem length_eraseDups (xs : List α) : xs.eraseDups.length = xs.toFinset.card := by
  rw [← List.toFinset_card_of_nodup (nodup_eraseDups xs)]
  apply congrArg
  ext x
  simp

theorem idxOf_eraseDups_lt (h : x ∈ xs) : xs.eraseDups.idxOf x < xs.eraseDups.length :=
  List.idxOf_lt_length_of_mem (List.mem_eraseDups.mpr h)

/-- A name that is new has the last place. -/
theorem idxOf_concat_self (h : x ∉ xs) : (xs ++ [x]).idxOf x = xs.length := by
  rw [List.idxOf_append_of_notMem h, List.idxOf_cons_self, Nat.add_zero]

/-- The numbers come in the order of the first occurrences. -/
theorem idxOf_eraseDups_lt_iff (ha : a ∈ xs) (hb : b ∈ xs) :
    xs.eraseDups.idxOf a < xs.eraseDups.idxOf b ↔ xs.idxOf a < xs.idxOf b := by
  induction xs using List.reverseRecOn with
  | nil => cases ha
  | append_singleton xs x ih =>
      rw [eraseDups_concat]
      by_cases hKnown : x ∈ xs
      · have hOld : ∀ y ∈ xs ++ [x], y ∈ xs := by
          intro y hy
          rcases List.mem_append.mp hy with hy | hy
          · exact hy
          · rwa [List.mem_singleton.mp hy]
        have ha := hOld a ha
        have hb := hOld b hb
        rw [if_pos hKnown, List.idxOf_append_of_mem ha, List.idxOf_append_of_mem hb, ih ha hb]
      · have hNew : x ∉ xs.eraseDups := mt List.mem_eraseDups.mp hKnown
        have hLast := idxOf_concat_self hKnown
        have hLast' := idxOf_concat_self hNew
        have hOld : ∀ y ∈ xs, (xs ++ [x]).idxOf y = xs.idxOf y ∧
            (xs.eraseDups ++ [x]).idxOf y = xs.eraseDups.idxOf y := fun y hy =>
          ⟨List.idxOf_append_of_mem hy, List.idxOf_append_of_mem (List.mem_eraseDups.mpr hy)⟩
        rw [if_neg hKnown]
        rw [List.mem_append, List.mem_singleton] at ha hb
        rcases ha with ha | rfl
        · rcases hb with hb | rfl
          · rw [(hOld a ha).1, (hOld a ha).2, (hOld b hb).1, (hOld b hb).2, ih ha hb]
          · rw [(hOld a ha).1, (hOld a ha).2, hLast, hLast']
            exact iff_of_true (idxOf_eraseDups_lt ha) (List.idxOf_lt_length_of_mem ha)
        · rcases hb with hb | rfl
          · rw [(hOld b hb).1, (hOld b hb).2, hLast, hLast']
            exact iff_of_false (idxOf_eraseDups_lt hb).asymm (List.idxOf_lt_length_of_mem hb).asymm
          · exact iff_of_false (lt_irrefl _) (lt_irrefl _)

theorem exists_idxOf_eraseDups (xs : List α) (k : Nat) :
    (∃ x ∈ xs, xs.eraseDups.idxOf x = k) ↔ k < xs.eraseDups.length := by
  constructor
  · rintro ⟨x, hMem, rfl⟩
    exact idxOf_eraseDups_lt hMem
  · intro hLt
    exact ⟨xs.eraseDups[k], List.mem_eraseDups.mp (List.getElem_mem hLt),
      (nodup_eraseDups xs).idxOf_getElem k hLt⟩

/-- The names in the order of their first occurrence in `xs`, and the map from
each of them to its place. -/
structure Numbers (xs names : List α) (ids : AList fun _ : α => Int) : Prop where
  names_eq : names = xs.eraseDups
  size : ids.entries.length = names.length
  lookup : ∀ x, ids.lookup x = if x ∈ names then some (names.idxOf x : Int) else none

theorem numbers_nil : Numbers ([] : List α) [] ∅ where
  names_eq := rfl
  size := rfl
  lookup _ := rfl

namespace Numbers

theorem known (h : Numbers xs names ids) (hKnown : ids.lookup x = some id) :
    id = names.idxOf x ∧ Numbers (xs ++ [x]) names ids := by
  rw [h.lookup] at hKnown
  split at hKnown
  · rename_i hMem
    refine ⟨(Option.some.inj hKnown).symm, ?_, h.size, h.lookup⟩
    rw [eraseDups_concat, if_pos, h.names_eq]
    rw [h.names_eq] at hMem
    exact List.mem_eraseDups.mp hMem
  · cases hKnown

theorem fresh (h : Numbers xs names ids) (hFresh : ids.lookup x = none) :
    (ids.entries.length : Int) = (names ++ [x]).idxOf x ∧
      Numbers (xs ++ [x]) (names ++ [x]) (ids.insert x ids.entries.length) := by
  have hNew : x ∉ names := by
    intro hMem
    rw [h.lookup, if_pos hMem] at hFresh
    cases hFresh
  have hNumber := idxOf_concat_self hNew
  refine ⟨by rw [hNumber, h.size], ?_, ?_, fun y => ?_⟩
  · rw [eraseDups_concat, if_neg, h.names_eq]
    rw [h.names_eq] at hNew
    exact fun hMem => hNew (List.mem_eraseDups.mpr hMem)
  · rw [AList.entries_insert_of_notMem (AList.lookup_eq_none.mp hFresh), List.length_cons,
      List.length_append, h.size, List.length_singleton]
  · by_cases hSame : y = x
    · rw [hSame, AList.lookup_insert, hNumber, h.size]
      simp
    · rw [AList.lookup_insert_ne hSame, h.lookup]
      by_cases hMem : y ∈ names
      · rw [if_pos hMem, if_pos (List.mem_append_left _ hMem), List.idxOf_append_of_mem hMem]
      · rw [if_neg hMem, if_neg (by simp [hMem, hSame])]

end Numbers

end Logic.DenseNumbering
