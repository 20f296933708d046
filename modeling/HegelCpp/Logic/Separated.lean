import HegelCpp.Logic.Decoder

/-! What a text made by joining entries with a separator says about the entries.
A separator that does not overlap itself cuts the text at the places where it
was put and wherever an entry contains it. -/
namespace Logic.Separated

open Decoder

variable {χ : Type} [DecidableEq χ] {sep : List χ}

/-- The text between the separators, after `skip` letters that belong to the
separator before it. -/
def cutAfter (sep : List χ) : Nat → List χ → List (List χ)
  | _, [] => [[]]
  | skip + 1, _ :: text => cutAfter sep skip text
  | 0, c :: text =>
      if sep <+: c :: text then [] :: cutAfter sep (sep.length - 1) text
      else (cutAfter sep 0 text).modifyHead (c :: ·)

def cut (sep text : List χ) : List (List χ) := cutAfter sep 0 text

/-- No end of the separator begins it. -/
def Unbordered (sep : List χ) : Prop :=
  ∀ front back, sep = front ++ back → back <+: sep → front = [] ∨ back = []

theorem cutAfter_ne_nil (sep : List χ) (skip : Nat) (text : List χ) :
    cutAfter sep skip text ≠ [] := by
  induction text generalizing skip with
  | nil => simp [cutAfter]
  | cons c text ih =>
      cases skip with
      | zero =>
          unfold cutAfter
          split
          · exact List.cons_ne_nil _ _
          · intro hNil
            exact ih 0 (List.modifyHead_eq_nil_iff.mp hNil)
      | succ skip => exact ih skip

omit [DecidableEq χ] in
theorem joined_cons (entry : List χ) {entries : List (List χ)} (h : entries ≠ []) :
    joined sep (entry :: entries) = entry ++ (sep ++ joined sep entries) := by
  cases entries with
  | nil => exact absurd rfl h
  | cons next entries => simp [joined]

/-- Nothing is lost in a cut. -/
theorem joined_cutAfter (hSep : sep ≠ []) (text : List χ) (skip : Nat) :
    joined sep (cutAfter sep skip text) = text.drop skip := by
  induction text generalizing skip with
  | nil => simp [cutAfter, joined]
  | cons c text ih =>
      cases skip with
      | succ skip => exact ih skip
      | zero =>
          rw [List.drop_zero, cutAfter]
          split
          · next hHere =>
              obtain ⟨rest, hRest⟩ := hHere
              have hDrop : text.drop (sep.length - 1) = rest := by
                obtain ⟨d, tail, rfl⟩ := List.exists_cons_of_ne_nil hSep
                rw [List.cons_append, List.cons.injEq] at hRest
                rw [← hRest.2, List.length_cons, Nat.add_sub_cancel, List.drop_left]
              rw [joined_cons _ (cutAfter_ne_nil _ _ _), ih, hDrop, List.nil_append, hRest]
          · have hText := ih 0
            obtain ⟨piece, pieces, hCut⟩ :=
              List.exists_cons_of_ne_nil (cutAfter_ne_nil sep 0 text)
            rw [hCut] at hText ⊢
            rw [List.modifyHead_cons, joined, List.cons_append, ← joined, hText, List.drop_zero]

theorem cut_injective (hSep : sep ≠ []) : Function.Injective (cut sep) := by
  intro text text' hCut
  have hText := joined_cutAfter hSep text 0
  rw [← cut, hCut, cut, joined_cutAfter hSep] at hText
  exact hText.symm

theorem cutAfter_length (text rest : List χ) :
    cutAfter sep text.length (text ++ rest) = cutAfter sep 0 rest := by
  induction text with
  | nil => rfl
  | cons c text ih => exact ih

theorem cut_sep (hSep : sep ≠ []) (rest : List χ) : cut sep (sep ++ rest) = [] :: cut sep rest := by
  obtain ⟨c, tail, rfl⟩ := List.exists_cons_of_ne_nil hSep
  rw [List.cons_append, cut, cutAfter, if_pos ⟨rest, rfl⟩, List.length_cons, Nat.add_sub_cancel,
    cutAfter_length]
  rfl

omit [DecidableEq χ] in
/-- A separator that starts inside a text also ends inside it. -/
theorem starts_within (hSep : Unbordered sep) {text rest : List χ} (hText : text ≠ [])
    (hHere : sep <+: text ++ (sep ++ rest)) : sep <+: text := by
  rcases List.prefix_or_prefix_of_prefix hHere (List.prefix_append text _) with h | ⟨back, rfl⟩
  · exact h
  · have hBack : back <+: text ++ back ++ rest := (List.prefix_append_right_inj text).mp hHere
    have hShort : back <+: text ++ back :=
      List.prefix_of_prefix_length_le hBack (List.prefix_append _ rest) (by simp)
    rcases hSep text back rfl hShort with hNil | hNil
    · exact absurd hNil hText
    · exact hNil ▸ (List.append_nil text).symm ▸ List.prefix_rfl

/-- The cut goes on behind a separator as it does behind the start. -/
theorem cutAfter_append (hSep : sep ≠ []) (hUnbordered : Unbordered sep) (text rest : List χ)
    {skip : Nat} (hSkip : skip ≤ text.length) :
    cutAfter sep skip (text ++ (sep ++ rest)) = cutAfter sep skip text ++ cut sep rest := by
  induction text generalizing skip with
  | nil =>
      obtain rfl : skip = 0 := Nat.le_zero.mp hSkip
      exact cut_sep hSep rest
  | cons c text ih =>
      cases skip with
      | succ skip => exact ih (Nat.le_of_succ_le_succ hSkip)
      | zero =>
          have hStarts : sep <+: c :: (text ++ (sep ++ rest)) ↔ sep <+: c :: text :=
            ⟨starts_within hUnbordered (List.cons_ne_nil c text),
              fun h => h.trans (List.prefix_append (c :: text) _)⟩
          rw [List.cons_append, cutAfter, cutAfter]
          by_cases hHere : sep <+: c :: text
          · have hEnd : sep.length - 1 ≤ text.length := by
              have hLength := hHere.length_le
              rw [List.length_cons] at hLength
              omega
            rw [if_pos hHere, if_pos (hStarts.mpr hHere), ih hEnd, List.cons_append]
          · obtain ⟨piece, pieces, hCut⟩ :=
              List.exists_cons_of_ne_nil (cutAfter_ne_nil sep 0 text)
            rw [if_neg hHere, if_neg fun h => hHere (hStarts.mp h), ih (Nat.zero_le _), hCut]
            rfl

/-- Joined entries are cut into the pieces of the entries. -/
theorem cut_joined (hSep : sep ≠ []) (hUnbordered : Unbordered sep) {entries : List (List χ)}
    (h : entries ≠ []) : cut sep (joined sep entries) = entries.flatMap (cut sep) := by
  induction entries with
  | nil => exact absurd rfl h
  | cons entry entries ih =>
      by_cases hMore : entries = []
      · rw [hMore]
        simp [joined]
      · rw [joined_cons entry hMore, cut, cutAfter_append hSep hUnbordered _ _ (Nat.zero_le _),
          ih hMore, List.flatMap_cons, cut]

theorem joined_eq_iff (hSep : sep ≠ []) (hUnbordered : Unbordered sep)
    {entries entries' : List (List χ)} (h : entries ≠ []) (h' : entries' ≠ []) :
    joined sep entries = joined sep entries' ↔
      entries.flatMap (cut sep) = entries'.flatMap (cut sep) := by
  rw [← cut_joined hSep hUnbordered h, ← cut_joined hSep hUnbordered h']
  exact (cut_injective hSep).eq_iff.symm

theorem cut_eq_singleton {text : List χ} (hText : ¬sep <:+: text) : cut sep text = [text] := by
  induction text with
  | nil => rfl
  | cons c text ih =>
      have hRest : ¬sep <:+: text := fun h => hText (h.trans (List.suffix_cons c text).isInfix)
      rw [cut, cutAfter, if_neg fun h => hText h.isInfix, ← cut, ih hRest]
      rfl

omit [DecidableEq χ] in
/-- A separator lies within the front when the rest lacks its last letter. -/
theorem infix_front {c : χ} {init front back : List χ} (hBack : c ∉ back)
    (h : init ++ [c] <:+: front ++ back) : init ++ [c] <:+: front := by
  obtain ⟨before, after, hText⟩ := h
  rcases List.append_eq_append_iff.mp hText with ⟨more, hFront, -⟩ | ⟨more, hSep, hMore⟩
  · exact ⟨before, more, hFront.symm⟩
  · rcases List.eq_nil_or_concat more with rfl | ⟨early, last, rfl⟩
    · exact ⟨before, [], by rw [hSep, List.append_nil, List.append_nil]⟩
    · rw [List.concat_eq_append, ← List.append_assoc, ← List.append_assoc] at hSep
      have hLast : c = last := List.singleton_inj.mp (List.append_inj_right' hSep rfl)
      exact absurd (by rw [hMore, hLast]; simp) hBack

omit [DecidableEq χ] in
private theorem no_later {c : χ} {back back' between : List χ} (hBack : c ∉ back)
    (h : c :: back = between ++ c :: back') : between = [] := by
  cases between with
  | nil => rfl
  | cons d between =>
      rw [List.cons_append, List.cons.injEq] at h
      exact absurd (h.2 ▸ List.mem_append_right between List.mem_cons_self) hBack

omit [DecidableEq χ] in
/-- The last occurrence of a letter tells what stands before and after it. -/
theorem last_separator {c : χ} {front front' back back' : List χ} (hBack : c ∉ back)
    (hBack' : c ∉ back') (h : front ++ c :: back = front' ++ c :: back') :
    front = front' ∧ back = back' := by
  have hFront : front = front' := by
    rcases List.append_eq_append_iff.mp h with ⟨between, hMore, hRest⟩ | ⟨between, hMore, hRest⟩
    · rw [hMore, no_later hBack hRest, List.append_nil]
    · rw [hMore, no_later hBack' hRest, List.append_nil]
  rw [hFront] at h
  exact ⟨hFront, (List.cons.inj (List.append_cancel_left h)).2⟩

end Logic.Separated
