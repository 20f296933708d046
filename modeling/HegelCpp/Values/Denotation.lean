import HegelCpp.Generators.Collections
import HegelCpp.Values.Readers
import Mathlib.Order.Interval.Set.Defs

/-! The values of a generator as a set: unions for alternatives, products for
tuples, restrictions for filters. They are the values that the words of the
generator lead to. -/
namespace Hegel

open Logic Program

variable {S α β : Type}

namespace Code

/-- The values of the draws of deferred generators. -/
abbrev DelegateValues : Type 1 := (α : Type) → Nat → Set α

/-- What client code can return under an engine with these promises. -/
def values (contract : Contract) (delegate : DelegateValues) : {α : Type} → Code S α → Set α
  | _, ret a => {a}
  | _, bind p k => {b | ∃ a ∈ values contract delegate p, b ∈ values contract delegate (k a)}
  | _, loop body k => {a | ∃ k', Relation.ReflTransGen
      (fun k k' => .inl k' ∈ values contract delegate (body k)) k k' ∧
        .inr a ∈ values contract delegate (body k')}
  | _, note _ => {()}
  | _, integers minValue maxValue => Set.Icc minValue maxValue
  | _, booleans => {_b | True}
  | _, text => {s | contract.text s}
  | _, sampledFrom elements => {a | ∃ i, a = elements i}
  | _, map source f =>
      {b | ∃ a ∈ values contract delegate source, b ∈ values contract delegate (f a)}
  | _, flatMap inner f =>
      {b | ∃ a ∈ values contract delegate inner, b ∈ values contract delegate (f a)}
  | _, filter inner pred =>
      {a | a ∈ values contract delegate inner ∧ true ∈ values contract delegate (pred a)}
  | _, vectors elements params unique =>
      {xs | (∀ x ∈ xs, x ∈ values contract delegate elements) ∧
        (∀ eq ∈ unique, xs.Pairwise fun a b => ¬ eq a b = true) ∧ contract.size params xs.length}
  | _, sets elements params lt =>
      {xs | (∀ x ∈ xs, x ∈ values contract delegate elements) ∧
        (xs.Pairwise fun a b => lt a b = true) ∧ contract.size params xs.length}
  | _, maps keys mapped params lt =>
      {entries | (∀ entry ∈ entries, entry.1 ∈ values contract delegate keys ∧
          entry.2 ∈ values contract delegate mapped) ∧
        (entries.Pairwise fun a b => lt a.1 b.1 = true) ∧ contract.size params entries.length}
  | _, tuples _ gens => {v | ∀ i, v i ∈ values contract delegate (gens i)}
  | _, arrays _ element => {v | ∀ i, v i ∈ values contract delegate element}
  | _, oneOf gens => {a | ∃ i, a ∈ values contract delegate (gens i)}
  | _, variant gens => {v | v.2 ∈ values contract delegate (gens v.1)}
  | _, optional gen => {v | ∀ a ∈ v, a ∈ values contract delegate gen}
  | _, deferred α slot => delegate α slot
  | _, _ => {_v | False}

end Code

namespace Words

open Language

variable {L : Words α} {a : α} {b : β}

theorem mem_call {f : Answer → α} : a ∈ image (call f) ↔ ∃ answer : Answer, answer.rc = .ok ∧
    a = f answer := mem_image_token

@[simp] theorem image_span : image (span L) = image L := by
  funext value
  apply propext
  rw [span]
  refine mem_image_bind.trans ⟨fun ⟨_, _, hL⟩ => hL, fun hL => ⟨(), ?_, hL⟩⟩
  exact mem_call.mpr ⟨{}, rfl, rfl⟩

theorem mem_span : a ∈ image (span L) ↔ a ∈ image L := by rw [image_span]

theorem mem_bool (b : Bool) : b ∈ image (call Answer.bool) :=
  mem_call.mpr ⟨{ bool := b }, rfl, rfl⟩

theorem mem_unit : () ∈ image (call fun _ => ()) := mem_call.mpr ⟨{}, rfl, rfl⟩

theorem mem_integer {minValue maxValue x : Int} (hOrdered : minValue ≤ maxValue) :
    x ∈ image (integer minValue maxValue) ↔ minValue ≤ x ∧ x ≤ maxValue := by
  constructor
  · intro h
    obtain ⟨answer, -, rfl⟩ := mem_call.mp h
    omega
  · rintro ⟨hMin, hMax⟩
    refine mem_call.mpr ⟨{ int := x }, rfl, ?_⟩
    show x = max minValue (min x maxValue)
    omega

/-- An index drawn from `0..n` selects any of the elements. -/
theorem exists_index {n : Nat} (P : Fin (n + 1) → Prop) :
    (∃ x ∈ image (integer 0 n), P (Fin.ofNat (n + 1) x.toNat)) ↔ ∃ i, P i := by
  constructor
  · rintro ⟨x, -, h⟩
    exact ⟨_, h⟩
  · rintro ⟨i, h⟩
    refine ⟨i.val, (mem_integer (Int.natCast_nonneg n)).mpr ⟨Int.natCast_nonneg _, by omega⟩, ?_⟩
    have hIndex : Fin.ofNat (n + 1) ((i.val : Int)).toNat = i :=
      Fin.ext (Nat.mod_eq_of_lt i.isLt)
    rwa [hIndex]

theorem mem_ite {c : Prop} [Decidable c] {M : Words α} :
    a ∈ image (if c then L else M) ↔ if c then a ∈ image L else a ∈ image M := by
  split <;> rfl

theorem mem_filterAttempts {inner : Words α} {pred : α → Words Bool} (attempts : Nat) :
    a ∈ image (filterAttempts inner pred attempts) ↔
      attempts ≠ 0 ∧ a ∈ image inner ∧ true ∈ image (pred a) := by
  have hAttempt (attempt : α × Bool) : attempt ∈ image (span do
      let value ← inner
      let keep ← pred value
      pure (value, keep)) ↔ attempt.1 ∈ image inner ∧ attempt.2 ∈ image (pred attempt.1) := by
    simp only [image_span, mem_image_bind, image_pure]
    constructor
    · rintro ⟨value, hValue, keep, hKeep, rfl⟩
      exact ⟨hValue, hKeep⟩
    · rintro ⟨hValue, hKeep⟩
      exact ⟨attempt.1, hValue, attempt.2, hKeep, rfl⟩
  induction attempts with
  | zero => exact ⟨fun ⟨_, hFail⟩ => hFail.elim, fun h => absurd rfl h.1⟩
  | succ attempts ih =>
      rw [filterAttempts, mem_image_bind]
      constructor
      · rintro ⟨⟨value, keep⟩, hHeld, hRest⟩
        obtain ⟨hInner, hPred⟩ := (hAttempt _).mp hHeld
        refine ⟨Nat.succ_ne_zero _, ?_⟩
        cases keep with
        | false => exact (ih.mp hRest).2
        | true =>
            obtain rfl : a = value := by simpa using hRest
            exact ⟨hInner, hPred⟩
      · rintro ⟨-, hInner, hPred⟩
        refine ⟨(a, true), (hAttempt _).mpr ⟨hInner, hPred⟩, ?_⟩
        show a ∈ image (pure a : Words α)
        rw [image_pure]
        rfl

/-- What every turn keeps, and a turn that adds the next element. -/
structure Grows (turn : List α → Words (List α ⊕ List α)) (good : List α → Prop) : Prop where
  nil : good []
  keep : ∀ result next, good result → next ∈ image (turn result) → ∃ result', next = .inl result' ∧
    good result'
  grow : ∀ front x back, good (front ++ x :: back) → .inl (front ++ [x]) ∈ image (turn front)

/-- A collection returns every list of a size that it may have. -/
theorem Grows.mem_collection {turn : List α → Words (List α ⊕ List α)} {good : List α → Prop}
    (h : Grows turn good) {contract : Contract} {params : Generators.CollectionParams}
    {xs : List α} : xs ∈ image (collection contract params turn) ↔
      good xs ∧ contract.size params xs.length := by
  have hBody (result : List α) (next : List α ⊕ List α) : next ∈ image (do
      if ← call Answer.bool then turn result
      else do
        Language.require (contract.size params result.length)
        pure (.inr result)) ↔ next ∈ image (turn result) ∨
          next = .inr result ∧ contract.size params result.length := by
    simp only [mem_image_bind, mem_ite, image_pure]
    constructor
    · rintro ⟨more, -, hNext⟩
      cases more with
      | true => exact .inl hNext
      | false =>
          obtain ⟨_, hRequired, hDone⟩ := hNext
          exact .inr ⟨hDone, mem_image_require.mp hRequired⟩
    · rintro (hNext | ⟨rfl, hSize⟩)
      · exact ⟨true, mem_bool true, hNext⟩
      · exact ⟨false, mem_bool false, (), mem_image_require.mpr hSize, rfl⟩
  rw [collection, image_span]
  refine mem_image_bind.trans ⟨?_, ?_⟩
  · rintro ⟨_, -, hLoop⟩
    refine loop_invariant good (fun xs => good xs ∧ contract.size params xs.length)
      (fun k k' hGood hNext => ?_) (fun k xs hGood hNext => ?_) h.nil hLoop
    · rcases (hBody _ _).mp hNext with hTurn | ⟨hDone, -⟩
      · obtain ⟨result, hSame, hKept⟩ := h.keep k _ hGood hTurn
        cases hSame
        exact hKept
      · cases hDone
    · rcases (hBody _ _).mp hNext with hTurn | ⟨hDone, hSize⟩
      · obtain ⟨result, hSame, -⟩ := h.keep k _ hGood hTurn
        cases hSame
      · cases hDone
        exact ⟨hGood, hSize⟩
  · rintro ⟨hGood, hSize⟩
    refine ⟨(), mem_unit, ?_⟩
    -- The elements after `front` are still to be drawn.
    have hFrom (back front : List α) (hSplit : xs = front ++ back) : xs ∈ image (loop (fun result =>
        call Answer.bool >>= fun more => if more then turn result
          else Language.require (contract.size params result.length) >>= fun _ =>
            pure (.inr result)) front) := by
      induction back generalizing front with
      | nil =>
          rw [List.append_nil] at hSplit
          subst hSplit
          exact image_loop_leave ((hBody _ _).mpr (.inr ⟨rfl, hSize⟩))
      | cons x back ih =>
          have hTurn := h.grow front x back (hSplit ▸ hGood)
          refine image_loop_again ((hBody _ _).mpr (.inl hTurn)) (ih _ ?_)
          rw [hSplit, List.append_assoc, List.singleton_append]
    exact hFrom xs [] rfl

theorem grows_vectors (L : Words α) (unique : Option (α → α → Bool)) :
    Grows (vectorsTurn L unique) fun xs => (∀ x ∈ xs, x ∈ image L) ∧
      ∀ eq ∈ unique, xs.Pairwise fun a b => ¬ eq a b = true where
  nil := ⟨List.forall_mem_nil _, fun _ _ => .nil⟩
  keep := by
    rintro result next ⟨hElements, hUnique⟩ hNext
    obtain ⟨element, hElement, hRest⟩ := mem_image_bind.mp hNext
    rw [mem_ite] at hRest
    split at hRest
    · obtain ⟨_, -, hDone⟩ := mem_image_bind.mp hRest
      rw [image_pure] at hDone
      exact ⟨result, hDone, hElements, hUnique⟩
    · next hFresh =>
        rw [image_pure] at hRest
        refine ⟨result ++ [element], hRest, ?_, fun eq hEq => ?_⟩
        · simpa [or_imp, forall_and] using ⟨hElements, hElement⟩
        · cases hEq
          refine List.pairwise_append.mpr ⟨hUnique eq rfl, List.pairwise_singleton _ _, ?_⟩
          intro seen hSeen last hLast hSame
          rw [List.mem_singleton.mp hLast] at hSame
          exact hFresh (List.any_eq_true.mpr ⟨seen, hSeen, hSame⟩)
  grow := by
    rintro front x back ⟨hElements, hUnique⟩
    refine mem_image_bind.mpr ⟨x, hElements x (by simp), ?_⟩
    have hFresh : unique.any (fun eq => front.any fun seen => eq seen x) = false := by
      cases unique with
      | none => rfl
      | some eq =>
          refine List.any_eq_false.mpr fun seen hSeen => ?_
          exact (List.pairwise_append.mp (hUnique eq rfl)).2.2 seen hSeen x List.mem_cons_self
    rw [hFresh, if_neg Bool.false_ne_true, image_pure]
    rfl

/-- An element after all others is inserted at the end. -/
theorem setInsert_last {lt : α → α → Bool} [IsStrictWeakOrder α fun a b => lt a b = true] {x : α}
    {front : List α} (h : ∀ y ∈ front, lt y x = true) :
    Generators.setInsert lt x front = some (front ++ [x]) := by
  induction front with
  | nil => rfl
  | cons y ys ih =>
      have hAfter := h y List.mem_cons_self
      have hBefore : ¬ lt x y = true := asymm_of (fun a b => lt a b = true) hAfter
      rw [Generators.setInsert, if_neg hBefore, if_pos hAfter,
        ih fun z hz => h z (List.mem_cons_of_mem y hz)]
      rfl

theorem grows_sets (L : Words α) (lt : α → α → Bool)
    [IsStrictWeakOrder α fun a b => lt a b = true] :
    Grows (setsTurn L lt) fun xs => (∀ x ∈ xs, x ∈ image L) ∧
      xs.Pairwise fun a b => lt a b = true where
  nil := ⟨List.forall_mem_nil _, .nil⟩
  keep := by
    rintro result next ⟨hElements, hOrdered⟩ hNext
    obtain ⟨element, hElement, hRest⟩ := mem_image_bind.mp hNext
    split at hRest
    · next inserted hInsert =>
        rw [image_pure] at hRest
        refine ⟨inserted, hRest, fun x hx => ?_, setInsert_ordered hInsert hOrdered⟩
        rcases List.mem_cons.mp ((setInsert_perm hInsert).mem_iff.mp hx) with rfl | hOld
        · exact hElement
        · exact hElements x hOld
    · obtain ⟨_, -, hDone⟩ := mem_image_bind.mp hRest
      rw [image_pure] at hDone
      exact ⟨result, hDone, hElements, hOrdered⟩
  grow := by
    rintro front x back ⟨hElements, hOrdered⟩
    refine mem_image_bind.mpr ⟨x, hElements x (by simp), ?_⟩
    have hLast := (List.pairwise_append.mp hOrdered).2.2
    rw [setInsert_last fun y hy => hLast y hy x List.mem_cons_self, image_pure]
    rfl

theorem grows_maps (L : Words α) (M : Words β) (lt : α → α → Bool)
    [IsStrictWeakOrder α fun a b => lt a b = true] :
    Grows (mapsTurn L M lt) fun entries =>
      (∀ entry ∈ entries, entry.1 ∈ image L ∧ entry.2 ∈ image M) ∧
        entries.Pairwise fun a b => lt a.1 b.1 = true where
  nil := ⟨List.forall_mem_nil _, .nil⟩
  keep := by
    rintro result next ⟨hEntries, hOrdered⟩ hNext
    obtain ⟨key, hKey, hRest⟩ := mem_image_bind.mp hNext
    rw [mem_ite] at hRest
    split at hRest
    · obtain ⟨_, -, hDone⟩ := mem_image_bind.mp hRest
      rw [image_pure] at hDone
      exact ⟨result, hDone, hEntries, hOrdered⟩
    · obtain ⟨value, hValue, hDone⟩ := mem_image_bind.mp hRest
      rw [image_pure] at hDone
      refine ⟨_, hDone, ?_⟩
      cases hInsert : Generators.setInsert (fun a b : α × β => lt a.1 b.1) (key, value) result with
      | none => exact ⟨hEntries, hOrdered⟩
      | some inserted =>
          refine ⟨fun entry hEntry => ?_, setInsert_ordered hInsert hOrdered⟩
          rcases List.mem_cons.mp ((setInsert_perm hInsert).mem_iff.mp hEntry) with rfl | hOld
          · exact ⟨hKey, hValue⟩
          · exact hEntries entry hOld
  grow := by
    rintro front ⟨key, value⟩ back ⟨hEntries, hOrdered⟩
    obtain ⟨hKey, hValue⟩ := hEntries (key, value) (by simp)
    have hLast (entry : α × β) (hEntry : entry ∈ front) : lt entry.1 key = true :=
      (List.pairwise_append.mp hOrdered).2.2 entry hEntry (key, value) List.mem_cons_self
    refine mem_image_bind.mpr ⟨key, hKey, ?_⟩
    have hFresh : (front.any fun entry => !lt entry.1 key && !lt key entry.1) = false := by
      refine List.any_eq_false.mpr fun entry hEntry => ?_
      simp [hLast entry hEntry]
    rw [hFresh, if_neg Bool.false_ne_true]
    refine mem_image_bind.mpr ⟨value, hValue, ?_⟩
    rw [setInsert_last hLast, image_pure]
    rfl

theorem mem_drawTupleImpl (n : Nat) (τ : Fin n → Type) (gens : (i : Fin n) → Words (τ i))
    (v : (i : Fin n) → τ i) :
    v ∈ image (drawTupleImpl n τ gens) ↔ ∀ i, v i ∈ image (gens i) := by
  induction n with
  | zero =>
      rw [drawTupleImpl, image_pure]
      exact ⟨fun _ i => i.elim0, fun _ => funext fun i => i.elim0⟩
  | succ n ih =>
      rw [drawTupleImpl, mem_image_bind, Fin.forall_fin_succ]
      constructor
      · rintro ⟨first, hFirst, hRest⟩
        obtain ⟨rest, hRest', hDone⟩ := mem_image_bind.mp hRest
        rw [image_pure] at hDone
        cases hDone
        exact ⟨hFirst, (ih _ _ _).mp hRest'⟩
      · rintro ⟨hFirst, hRest⟩
        refine ⟨v 0, hFirst, mem_image_bind.mpr ⟨fun i => v i.succ, (ih _ _ _).mpr hRest, ?_⟩⟩
        rw [image_pure]
        exact (Fin.cons_self_tail v).symm

theorem mem_vectors {L : Words α} {contract : Contract} {params : Generators.CollectionParams}
    {unique : Option (α → α → Bool)} {xs : List α} :
    xs ∈ image (collection contract params (vectorsTurn L unique)) ↔ (∀ x ∈ xs, x ∈ image L) ∧
      (∀ eq ∈ unique, xs.Pairwise fun a b => ¬ eq a b = true) ∧
        contract.size params xs.length := by
  rw [(grows_vectors L unique).mem_collection, and_assoc]

theorem mem_sets {L : Words α} {lt : α → α → Bool} [IsStrictWeakOrder α fun a b => lt a b = true]
    {contract : Contract} {params : Generators.CollectionParams} {xs : List α} :
    xs ∈ image (collection contract params (setsTurn L lt)) ↔ (∀ x ∈ xs, x ∈ image L) ∧
      (xs.Pairwise fun a b => lt a b = true) ∧ contract.size params xs.length := by
  rw [(grows_sets L lt).mem_collection, and_assoc]

theorem mem_maps {L : Words α} {M : Words β} {lt : α → α → Bool}
    [IsStrictWeakOrder α fun a b => lt a b = true] {contract : Contract}
    {params : Generators.CollectionParams} {entries : List (α × β)} :
    entries ∈ image (collection contract params (mapsTurn L M lt)) ↔
      (∀ entry ∈ entries, entry.1 ∈ image L ∧ entry.2 ∈ image M) ∧
        (entries.Pairwise fun a b => lt a.1 b.1 = true) ∧
          contract.size params entries.length := by
  rw [(grows_maps L M lt).mem_collection, and_assoc]

theorem mem_tuples {n : Nat} {τ : Fin n → Type} {gens : (i : Fin n) → Words (τ i)}
    {v : (i : Fin n) → τ i} :
    v ∈ image (span (drawTupleImpl n τ gens)) ↔ ∀ i, v i ∈ image (gens i) := by
  rw [image_span, mem_drawTupleImpl]

theorem mem_oneOf {n : Nat} {gens : Fin (n + 1) → Words α} :
    a ∈ image (oneOf gens) ↔ ∃ i, a ∈ image (gens i) := by
  rw [oneOf, image_span, mem_image_bind]
  exact exists_index fun i => a ∈ image (gens i)

theorem mem_variant {n : Nat} {τ : Fin (n + 1) → Type} {gens : (i : Fin (n + 1)) → Words (τ i)}
    {v : (i : Fin (n + 1)) × τ i} : v ∈ image (variant gens) ↔ v.2 ∈ image (gens v.1) := by
  refine mem_oneOf.trans ⟨?_, fun hValue => ⟨v.1, ?_⟩⟩
  · rintro ⟨i, hAlternative⟩
    obtain ⟨value, hValue, hDone⟩ := mem_image_bind.mp hAlternative
    rw [image_pure] at hDone
    cases hDone
    exact hValue
  · refine mem_image_bind.mpr ⟨v.2, hValue, ?_⟩
    rw [image_pure]
    rfl

theorem mem_optional {v : Option α} : v ∈ image (optional L) ↔ ∀ a ∈ v, a ∈ image L := by
  rw [optional, image_span, mem_image_bind]
  simp only [mem_ite, mem_image_bind, image_pure]
  constructor
  · rintro ⟨present, -, hRest⟩ value hValue
    cases present with
    | false =>
        cases hRest
        cases hValue
    | true =>
        obtain ⟨drawn, hDrawn, rfl⟩ := hRest
        cases hValue
        exact hDrawn
  · intro hValues
    cases v with
    | none => exact ⟨false, mem_bool false, rfl⟩
    | some value => exact ⟨true, mem_bool true, value, hValues value rfl, rfl⟩

theorem mem_text {contract : Contract} {s : String} : s ∈ image (do
    let s ← call Answer.text
    require (contract.text s)
    pure s) ↔ contract.text s := by
  simp only [mem_image_bind, mem_image_require, image_pure]
  constructor
  · rintro ⟨drawn, -, _, hText, rfl⟩
    exact hText
  · intro hText
    exact ⟨s, mem_call.mpr ⟨{ text := s }, rfl, rfl⟩, (), hText, rfl⟩

end Words

/-- Client code returns the values that its words lead to. -/
theorem Code.mem_image_words {contract : Contract} {delegateWords : DelegateWords}
    {delegateValues : DelegateValues} (hDelegate : ∀ α slot (a : α),
      a ∈ Language.image (delegateWords α slot) ↔ a ∈ delegateValues α slot) (code : Code S α)
    (hPure : code.IsPure) (a : α) : a ∈ Language.image (code.words contract delegateWords) ↔
      a ∈ code.values contract delegateValues := by
  induction code with
  | ret b =>
      show a ∈ Language.image (pure b : Words _) ↔ a = b
      rw [Language.image_pure]
      rfl
  | bind p k ihp ihk =>
      refine Language.mem_image_bind.trans (exists_congr fun b => and_congr (ihp hPure.1 b) ?_)
      exact ihk b (hPure.2 b) a
  | throw e => exact ⟨fun ⟨_, hFail⟩ => hFail, fun hFail => hFail.elim⟩
  | loop body k ih =>
      refine Language.mem_image_loop.trans ?_
      simp only [ih _ (hPure _)]
      rfl
  | note message =>
      show a ∈ Language.image (pure () : Words _) ↔ a = ()
      rw [Language.image_pure]
      rfl
  | integers minValue maxValue => exact Words.mem_integer hPure
  | booleans => exact ⟨fun _ => trivial, fun _ => Words.mem_bool a⟩
  | text => exact Words.mem_text
  | sampledFrom elements =>
      refine Language.mem_image_bind.trans ?_
      simp only [Language.image_pure]
      exact Words.exists_index fun i => a = elements i
  | map source f ihSource ihf =>
      refine Words.mem_span.trans (Language.mem_image_bind.trans ?_)
      refine exists_congr fun b => and_congr (ihSource hPure.1 b) ?_
      exact ihf b (hPure.2 b) a
  | flatMap inner f ihInner ihf =>
      refine Words.mem_span.trans (Language.mem_image_bind.trans ?_)
      refine exists_congr fun b => and_congr (ihInner hPure.1 b) ?_
      exact ihf b (hPure.2 b) a
  | filter inner pred ihInner ihPred =>
      refine (Words.mem_filterAttempts 3).trans ?_
      exact (and_iff_right (by decide)).trans
        (and_congr (ihInner hPure.1 a) (ihPred a (hPure.2 a) true))
  | vectors elements params unique ih =>
      refine Words.mem_vectors.trans ?_
      simp only [ih hPure]
      rfl
  | sets elements params lt ih =>
      have := hPure.2
      refine Words.mem_sets.trans ?_
      simp only [ih hPure.1]
      rfl
  | maps keys mapped params lt ihKeys ihMapped =>
      have := hPure.2.2
      refine Words.mem_maps.trans ?_
      simp only [ihKeys hPure.1, ihMapped hPure.2.1]
      rfl
  | tuples n gens ih => exact Words.mem_tuples.trans (forall_congr' fun i => ih i (hPure i) (a i))
  | arrays n element ih => exact Words.mem_tuples.trans (forall_congr' fun i => ih hPure (a i))
  | oneOf gens ih => exact Words.mem_oneOf.trans (exists_congr fun i => ih i (hPure i) a)
  | variant gens ih => exact Words.mem_variant.trans (ih a.1 (hPure a.1) a.2)
  | optional gen ih =>
      exact Words.mem_optional.trans (forall_congr' fun b => imp_congr_right fun _ => ih hPure b)
  | deferred α slot => exact hDelegate α slot a
  | tryCatch | read | write | poolAdd | poolDraw | «repeat» | run => exact hPure.elim

end Hegel
