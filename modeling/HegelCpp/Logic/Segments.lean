import Mathlib.Data.List.Basic

/-! A loop that finds a separator, takes what stands before it and goes on
behind it. Its segments are those of `List.splitOn`. -/
namespace Logic

variable {α : Type*} [DecidableEq α] {separator : α} {text segment rest : List α}

/-- What stands before the first separator, and what stands behind it. -/
def nextSegment (separator : α) (text : List α) : List α × Option (List α) :=
  match text.idxOf? separator with
  | some index => (text.take index, some (text.drop (index + 1)))
  | none => (text, none)

theorem nextSegment_some (h : nextSegment separator text = (segment, some rest)) :
    text = segment ++ separator :: rest ∧ separator ∉ segment := by
  unfold nextSegment at h
  cases hIndex : text.idxOf? separator with
  | none => simp [hIndex] at h
  | some index =>
      obtain ⟨hLength, hFound, hBefore⟩ := List.idxOf?_eq_some_iff.mp hIndex
      simp only [hIndex, Prod.mk.injEq, Option.some.injEq] at h
      obtain ⟨rfl, rfl⟩ := h
      refine ⟨?_, fun hMem => ?_⟩
      · rw [← hFound, List.getElem_cons_drop, List.take_append_drop]
      · obtain ⟨other, hOther, hEq⟩ := List.getElem_of_mem hMem
        rw [List.getElem_take] at hEq
        exact hBefore other (by simp at hOther; omega) hEq

theorem nextSegment_none (h : nextSegment separator text = (segment, none)) :
    segment = text ∧ separator ∉ text := by
  unfold nextSegment at h
  cases hIndex : text.idxOf? separator with
  | none => exact ⟨by simpa [hIndex, eq_comm] using h, List.idxOf?_eq_none_iff.mp hIndex⟩
  | some index => simp [hIndex] at h

theorem length_of_nextSegment (h : nextSegment separator text = (segment, some rest)) :
    rest.length < text.length := by
  rw [(nextSegment_some h).1, List.length_append, List.length_cons]
  omega

theorem splitOn_of_nextSegment_some (h : nextSegment separator text = (segment, some rest)) :
    text.splitOn separator = segment :: rest.splitOn separator := by
  obtain ⟨rfl, hSegment⟩ := nextSegment_some h
  exact List.splitOn_append_cons_self_of_not_mem hSegment rest

theorem splitOn_of_nextSegment_none (h : nextSegment separator text = (segment, none)) :
    text.splitOn separator = [segment] := by
  obtain ⟨rfl, hText⟩ := nextSegment_none h
  exact List.splitOn_eq_singleton hText

/-- The induction of the loop. -/
theorem nextSegment_induction (separator : α) {motive : List α → Prop}
    (last : ∀ text segment, nextSegment separator text = (segment, none) → motive text)
    (more : ∀ text segment rest, nextSegment separator text = (segment, some rest) →
      motive rest → motive text) (text : List α) : motive text := by
  cases h : nextSegment separator text with
  | mk segment after =>
      cases after with
      | none => exact last text segment h
      | some rest => exact more text segment rest h (nextSegment_induction separator last more rest)
termination_by text.length
decreasing_by exact length_of_nextSegment h

/-- One segment more than there are separators. -/
theorem length_splitOn (separator : α) (text : List α) :
    (text.splitOn separator).length = text.count separator + 1 := by
  induction text using nextSegment_induction separator with
  | last text segment h =>
      rw [splitOn_of_nextSegment_none h, List.count_eq_zero_of_not_mem (nextSegment_none h).2,
        List.length_singleton]
  | more text segment rest h ih =>
      obtain ⟨rfl, hSegment⟩ := nextSegment_some h
      rw [splitOn_of_nextSegment_some h, List.length_cons, ih, List.count_append,
        List.count_cons_self, List.count_eq_zero_of_not_mem hSegment, Nat.zero_add]

theorem notMem_of_mem_splitOn (hMem : segment ∈ text.splitOn separator) :
    separator ∉ segment := by
  induction text using nextSegment_induction separator with
  | last text last h =>
      obtain ⟨rfl, hLast⟩ := nextSegment_none h
      rw [splitOn_of_nextSegment_none h, List.mem_singleton] at hMem
      exact hMem ▸ hLast
  | more text first rest h ih =>
      rw [splitOn_of_nextSegment_some h] at hMem
      cases List.mem_cons.mp hMem with
      | inl hFirst => exact hFirst ▸ (nextSegment_some h).2
      | inr hRest => exact ih hRest

/-- Every segment ended by a separator: one separator more than there was. -/
theorem flatMap_splitOn (separator : α) (text : List α) :
    (text.splitOn separator).flatMap (· ++ [separator]) = text ++ [separator] := by
  induction text using nextSegment_induction separator with
  | last text segment h => simp [splitOn_of_nextSegment_none h, (nextSegment_none h).1]
  | more text segment rest h ih =>
      rw [splitOn_of_nextSegment_some h, List.flatMap_cons, ih, (nextSegment_some h).1]
      simp

/-- The text without the first `n` letters of each segment. -/
def undented (separator : α) (n : Nat) (text : List α) : List α :=
  [separator].intercalate ((text.splitOn separator).map (·.drop n))

theorem undented_line {lead : List α} (hLead : separator ∉ lead) (hSegment : separator ∉ segment)
    (rest : List α) :
    undented separator lead.length (lead ++ segment ++ separator :: rest) =
      segment ++ separator :: undented separator lead.length rest := by
  have hLine : separator ∉ lead ++ segment :=
    fun hMem => (List.mem_append.mp hMem).elim hLead hSegment
  have hSome : (rest.splitOn separator).map (·.drop lead.length) ≠ [] := by
    simp
  rw [undented, List.splitOn_append_cons_self_of_not_mem hLine, List.map_cons, List.drop_left,
    List.intercalate_cons_of_ne_nil hSome, undented]
  simp

/-- Lines that were written with the same text in front come back. -/
theorem undented_lines {lead : List α} (hLead : separator ∉ lead) {segments : List (List α)}
    (hSegments : ∀ segment ∈ segments, separator ∉ segment) (rest : List α) :
    undented separator lead.length
        (segments.flatMap (fun segment => lead ++ segment ++ [separator]) ++ rest) =
      segments.flatMap (· ++ [separator]) ++ undented separator lead.length rest := by
  induction segments with
  | nil => rfl
  | cons segment segments ih =>
      obtain ⟨hSegment, hSegments⟩ := List.forall_mem_cons.mp hSegments
      have hLine := undented_line hLead hSegment
        (segments.flatMap (fun segment => lead ++ segment ++ [separator]) ++ rest)
      rw [ih hSegments] at hLine
      simpa using hLine

end Logic
