import Mathlib.Data.List.Pairwise
import Mathlib.Order.Lattice

/-! Sorting by a key keeps what has one key together, in the order it had. -/
namespace Logic.StableSort

variable {α κ : Type*} [LinearOrder κ] (key : α → κ)

/-- The stable sort by `key`. -/
def sortBy (l : List α) : List α := l.mergeSort fun a b => decide (key a ≤ key b)

theorem pairwise_sortBy (l : List α) : (sortBy key l).Pairwise fun a b => key a ≤ key b := by
  have hSorted : (sortBy key l).Pairwise fun a b => decide (key a ≤ key b) = true :=
    List.pairwise_mergeSort
      (fun a b c hab hbc => by
        simp only [decide_eq_true_eq] at *
        exact le_trans hab hbc)
      (fun a b => by simpa using le_total (key a) (key b)) l
  exact hSorted.imp of_decide_eq_true

theorem sortBy_perm (l : List α) : (sortBy key l).Perm l := List.mergeSort_perm l _

/-- Stability: the elements of one key keep their order. -/
theorem filter_sortBy (k : κ) (l : List α) :
    (sortBy key l).filter (fun a => key a = k) = l.filter (fun a => key a = k) := by
  have hBlock : (l.filter fun a => key a = k).Pairwise fun a b => decide (key a ≤ key b) := by
    apply List.pairwise_of_forall_mem_list
    intro a ha b hb
    simp only [List.mem_filter, decide_eq_true_eq] at *
    rw [ha.2, hb.2]
  have hSub : (l.filter fun a => key a = k).Sublist (sortBy key l) := by
    refine List.sublist_mergeSort (fun a b c hab hbc => ?_) (fun a b => ?_) hBlock
      List.filter_sublist
    · simp only [decide_eq_true_eq] at *
      exact le_trans hab hbc
    · simpa using le_total (key a) (key b)
  have hInside := hSub.filter fun a => key a = k
  rw [List.filter_filter] at hInside
  simp only [Bool.and_self] at hInside
  exact (hInside.eq_of_length ((sortBy_perm key l).filter _).length_eq.symm).symm

/-- A sorted list is what lies below a key, the key's block, and what lies above. -/
theorem split_of_pairwise {l : List α} (h : l.Pairwise fun a b => key a ≤ key b) (k : κ) :
    l = l.filter (fun a => key a < k) ++ l.filter (fun a => key a = k) ++
      l.filter (fun a => k < key a) := by
  induction l with
  | nil => rfl
  | cons a rest ih =>
      obtain ⟨hFirst, hRest⟩ := List.pairwise_cons.mp h
      rcases lt_trichotomy (key a) k with hLt | hEq | hGt
      · simpa [hLt, hLt.ne, hLt.not_gt] using ih hRest
      · have hBelow : rest.filter (fun b => key b < k) = [] := by
          apply List.filter_eq_nil_iff.mpr
          intro b hb
          simpa [← hEq] using hFirst b hb
        have hSplit := ih hRest
        rw [hBelow] at hSplit
        simpa [hEq, hBelow] using hSplit
      · have hBelow : rest.filter (fun b => key b < k) = [] := by
          apply List.filter_eq_nil_iff.mpr
          intro b hb
          simpa using (lt_of_lt_of_le hGt (hFirst b hb)).le
        have hBlock : rest.filter (fun b => key b = k) = [] := by
          apply List.filter_eq_nil_iff.mpr
          intro b hb
          simpa using (lt_of_lt_of_le hGt (hFirst b hb)).ne'
        have hSplit := ih hRest
        rw [hBelow, hBlock] at hSplit
        simpa [hGt, hGt.ne', hGt.not_gt, hBelow, hBlock] using hSplit

/-- After sorting, a key's elements form one block, in their first order. -/
theorem sortBy_split (k : κ) (l : List α) :
    sortBy key l = (sortBy key l).filter (fun a => key a < k) ++ l.filter (fun a => key a = k) ++
      (sortBy key l).filter (fun a => k < key a) := by
  have hSplit := split_of_pairwise key (pairwise_sortBy key l) k
  rw [filter_sortBy] at hSplit
  exact hSplit

theorem mem_of_filter_eq {l l' : List α} {a : α}
    (hFilter : l.filter (fun b => key b = key a) = l'.filter (fun b => key b = key a))
    (hMem : a ∈ l) : a ∈ l' := by
  have hBlock : a ∈ l'.filter (fun b => key b = key a) := by
    rw [← hFilter]
    exact List.mem_filter.mpr ⟨hMem, decide_eq_true rfl⟩
  exact (List.mem_filter.mp hBlock).1

/-- A sorted list is determined by its blocks. -/
theorem eq_of_filter_eq {l l' : List α} (h : l.Pairwise fun a b => key a ≤ key b)
    (h' : l'.Pairwise fun a b => key a ≤ key b)
    (hFilter : ∀ k, l.filter (fun a => key a = k) = l'.filter (fun a => key a = k)) : l = l' := by
  induction l generalizing l' with
  | nil =>
      cases l' with
      | nil => rfl
      | cons a rest' => cases mem_of_filter_eq key (hFilter (key a)).symm List.mem_cons_self
  | cons a rest ih =>
      cases l' with
      | nil => cases mem_of_filter_eq key (hFilter (key a)) List.mem_cons_self
      | cons a' rest' =>
          obtain ⟨hFirst, hRest⟩ := List.pairwise_cons.mp h
          obtain ⟨hFirst', hRest'⟩ := List.pairwise_cons.mp h'
          have hLe : key a ≤ key a' := by
            rcases List.mem_cons.mp (mem_of_filter_eq key (hFilter (key a')).symm
              List.mem_cons_self) with rfl | hMem
            · exact le_refl _
            · exact hFirst a' hMem
          have hGe : key a' ≤ key a := by
            rcases List.mem_cons.mp (mem_of_filter_eq key (hFilter (key a))
              List.mem_cons_self) with rfl | hMem
            · exact le_refl _
            · exact hFirst' a hMem
          have hKey : key a' = key a := le_antisymm hGe hLe
          have hBlock := hFilter (key a)
          simp only [List.filter_cons, hKey, decide_true, if_true, List.cons.injEq] at hBlock
          have hRests : ∀ k, rest.filter (fun b => key b = k) = rest'.filter (fun b => key b = k) := by
            intro k
            by_cases hSame : key a = k
            · rw [← hSame]
              exact hBlock.2
            · simpa [List.filter_cons, hKey, hSame] using hFilter k
          rw [hBlock.1, ih hRest hRest' hRests]

end Logic.StableSort
