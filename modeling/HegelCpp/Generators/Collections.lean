import HegelCpp.Generators.Observed
import HegelCpp.Logic.FirstOccurrences
import Mathlib.Order.RelClasses

/-! What vectors, sets and maps return against the elements they drew. The
observer sees every answer of `more`, every `reject`, and every key and value
in the order of the draws. -/
namespace Hegel

open Logic Program

variable {S α β γ : Type}

inductive CollectionEvent (α β : Type) where
  | more (answer : Bool)
  | drew (key : α)
  | drewValue (value : β)
  | rejected
  deriving DecidableEq, Repr

abbrev CollectionLog (α β : Type) : Type := List (CollectionEvent α β)

def collectionObserver : Observer (CollectionLog α β) where
  more answer log := log ++ [.more answer]
  rejected log := log ++ [.rejected]

/-- A turn of the loop: what `more` answering true led to. -/
structure Turn (α β : Type) where
  key : α
  value : Option β := none
  rejected : Bool := false
  deriving DecidableEq, Repr

def Turn.events (turn : Turn α β) : CollectionLog α β :=
  [.more true, .drew turn.key] ++ turn.value.toList.map .drewValue ++
    if turn.rejected then [.rejected] else []

def turnsLog (turns : List (Turn α β)) : CollectionLog α β := turns.flatMap Turn.events

@[simp] theorem turnsLog_concat (turns : List (Turn α β)) (turn : Turn α β) :
    turnsLog (turns ++ [turn]) = turnsLog turns ++ turn.events := by
  simp [turnsLog]

/-- The program can end with the exception. -/
def Raises (p : Client S α) (e : Exn) : Prop :=
  ∃ fuel before after, p fuel before = some (.error e, after)

namespace Observed

/-- A generator of elements or keys whose draws are observed. -/
def keys (gen : Client S α) : Observed S (CollectionLog α β) α :=
  observe gen fun key log => log ++ [.drew key]

def values (gen : Client S β) : Observed S (CollectionLog α β) β :=
  observe gen fun value log => log ++ [.drewValue value]

/-- How many answers the engine has left. -/
abbrev budget (state : World S × CollectionLog α β) : Nat := state.1.budget

theorem ensures_inSpan {body : Observed S (CollectionLog α β) γ} {label : SpanLabel}
    {world : World S} {log : CollectionLog α β} {raises : Exn → Prop}
    (next : γ → CollectionLog α β → Prop) (hRaises : ∀ e, CallRaises e → raises e)
    (hBody : ∀ world', body.Ensures (world', log)
      (andThen (fun result after => next result after.2) fun e _ => raises e)) :
    (inSpan collectionObserver label body).Ensures (world, log)
      (andThen (fun result after => next result after.2) fun e _ => raises e) := by
  refine ensures_bind (ensures_lift (ensures_bind (ensures_engineCall_of ?_ ?_)))
  · intro answer rest _
    refine ensures_bind (ensures_get (ensures_bind (ensures_modify _ (ensures_pure _ ?_))))
    refine ensures_bind (ensures_tryCatch ((hBody _).mono ?_))
    rintro (e | result) ⟨middle, log'⟩ hEnd
    · exact ensures_bind (ensures_lift (ensures_modify _ (ensures_throw _ hEnd)))
    · exact ensures_bind (ensures_observe (ensures_stopSpan (ensures_pure _ hEnd)))
  · exact fun e rest _ hRaised => hRaises e hRaised

theorem ensures_collectionMore {world : World S} {log : CollectionLog α β}
    {post : Except Exn Bool → World S × CollectionLog α β → Prop}
    (hOk : ∀ answer world', world'.budget < world.budget →
      post (.ok answer) (world', log ++ [.more answer]))
    (hRaise : ∀ e world', CallRaises e → post (.error e) (world', log)) :
    (collectionMore collectionObserver).Ensures (world, log) post := by
  refine ensures_observe (ensures_bind (ensures_engineCall_of ?_ ?_))
  · intro answer rest hAnswer
    exact ensures_pure _ (hOk _ _ (by simp [World.budget, hAnswer]))
  · exact fun e rest _ hRaised => hRaise e _ hRaised

theorem ensures_collectionReject {world : World S} {log : CollectionLog α β} {why : String}
    {post : Except Exn Unit → World S × CollectionLog α β → Prop}
    (hOk : ∀ world', post (.ok ()) (world', log ++ [.rejected]))
    (hRaise : ∀ e world', CallRaises e → post (.error e) (world', log)) :
    (collectionReject collectionObserver why).Ensures (world, log) post := by
  refine ensures_observe (ensures_bind (ensures_engineCall_of ?_ ?_))
  · exact fun answer rest _ => ensures_pure _ (hOk _)
  · exact fun e rest _ hRaised => hRaise e _ hRaised

theorem ensures_keys {gen : Client S α} {world : World S} {log : CollectionLog α β}
    {post : Except Exn α → World S × CollectionLog α β → Prop}
    (hOk : ∀ key world', post (.ok key) (world', log ++ [.drew key]))
    (hRaise : ∀ e world', Raises gen e → post (.error e) (world', log)) :
    (keys gen : Observed S (CollectionLog α β) α).Ensures (world, log) post := by
  refine ensures_observe fun fuel result world' hEnd => ?_
  cases result with
  | ok key => exact hOk key world'
  | error e => exact hRaise e world' ⟨fuel, world, world', hEnd⟩

theorem ensures_values {gen : Client S β} {world : World S} {log : CollectionLog α β}
    {post : Except Exn β → World S × CollectionLog α β → Prop}
    (hOk : ∀ value world', post (.ok value) (world', log ++ [.drewValue value]))
    (hRaise : ∀ e world', Raises gen e → post (.error e) (world', log)) :
    (values gen : Observed S (CollectionLog α β) β).Ensures (world, log) post := by
  refine ensures_observe fun fuel result world' hEnd => ?_
  cases result with
  | ok value => exact hOk value world'
  | error e => exact hRaise e world' ⟨fuel, world, world', hEnd⟩

/-- One turn adds its events and keeps the invariant. -/
def TurnKeeps (turn : List γ → Observed S (CollectionLog α β) (List γ ⊕ List γ))
    (inv : List (Turn α β) → List γ → Prop) (raises : Exn → Prop) : Prop :=
  ∀ turns result (world : World S), inv turns result →
    (turn result).Ensures (world, turnsLog turns ++ [.more true]) (andThen
      (fun next after => ∃ step result', next = .inl result' ∧
        after.2 = turnsLog (turns ++ [step]) ∧ inv (turns ++ [step]) result')
      fun e _ => raises e)

/-- The run lemma of the collection loop. -/
theorem ensures_collection {turn : List γ → Observed S (CollectionLog α β) (List γ ⊕ List γ)}
    {inv : List (Turn α β) → List γ → Prop} {raises : Exn → Prop}
    (hRaises : ∀ e, CallRaises e → raises e) (hInit : inv [] []) (hTurn : TurnKeeps turn inv raises)
    (label : SpanLabel) (params : Generators.CollectionParams) (world : World S) :
    (collection collectionObserver label params turn).Ensures (world, []) (andThen
      (fun result after => ∃ turns, after.2 = turnsLog turns ++ [.more false] ∧ inv turns result)
      fun e _ => raises e) := by
  refine ensures_inSpan
    (fun result log => ∃ turns, log = turnsLog turns ++ [.more false] ∧ inv turns result)
    hRaises fun world' => ?_
  refine ensures_bind (ensures_lift (ensures_bind (ensures_engineCall_of ?_ ?_)))
  · intro answer rest _
    refine ensures_pure _ (ensures_loop
      (fun result after => ∃ turns, after.2 = turnsLog turns ∧ inv turns result)
      ⟨[], rfl, hInit⟩ ?_)
    rintro result ⟨middle, _⟩ ⟨turns, rfl, hInv⟩
    refine ensures_bind (ensures_collectionMore ?_ fun e _ hRaised => hRaises e hRaised)
    rintro (_ | _) middle' _
    · exact ensures_pure _ ⟨turns, rfl, hInv⟩
    · refine (hTurn turns result middle' hInv).mono ?_
      rintro (e | next) after hEnd
      · exact hEnd
      · obtain ⟨step, result', rfl, hLog, hInv'⟩ := hEnd
        exact ⟨turns ++ [step], hLog, hInv'⟩
  · exact fun e rest _ hRaised => hRaises e hRaised

/-! The loop ends: every turn took the answer of a `more`. -/

theorem bounded_reject (why : String) : Bounded budget
    (collectionReject collectionObserver why : Observed S (CollectionLog α β) Unit) :=
  (bounded_bind (bounded_engineCall _) fun _ => bounded_pure ()).observe _

theorem bounded_inSpan {body : Observed S (CollectionLog α β) γ} (hBody : Bounded budget body)
    (label : SpanLabel) : Bounded budget (inSpan collectionObserver label body) := by
  have hUnguarded : Bounded budget (unguarded body) := by
    refine bounded_tryCatch hBody fun e => bounded_bind ?_ fun _ => bounded_throw e
    exact Bounded.lift (bounded_modify fun _ => Nat.le_refl _)
  refine bounded_bind (bounded_startSpan label).lift fun opened => ?_
  refine bounded_bind hUnguarded fun result => ?_
  exact bounded_bind ((bounded_stopSpan _).observe _) fun _ => bounded_pure result

theorem bounded_answer (what : String) (f : Answer → γ) : Bounded World.budget
    (engineCall what >>= fun answer => pure (f answer) : Client S γ) :=
  bounded_bind (bounded_engineCall what) fun answer => bounded_pure (f answer)

theorem bounded_collection {turn : List γ → Observed S (CollectionLog α β) (List γ ⊕ List γ)}
    (hTurn : ∀ result, Bounded budget (turn result)) (label : SpanLabel)
    (params : Generators.CollectionParams) :
    Bounded budget (collection collectionObserver label params turn) := by
  refine bounded_inSpan (bounded_bind (bounded_answer _ _).lift fun _ => ?_) label
  refine bounded_loop (fun result => ?_) (fun result state => ?_) []
  · refine bounded_bind ((bounded_answer _ _).observe _) fun more => ?_
    exact bounded_ite (hTurn result) (bounded_pure _)
  · refine ensures_bind (ensures_collectionMore (fun more middle hLess => ?_) fun e _ _ => nofun)
    refine ensures_ite (fun _ => ((hTurn result).shrinks _).mono ?_) fun _ => ?_
    · exact fun _ after hLe _ _ => Nat.lt_of_le_of_lt hLe hLess
    · exact ensures_pure _ nofun

end Observed

/-! The reference: which turns are rejected, and what is returned. -/

/-- Exactly the turns whose key repeats an earlier one are rejected. -/
def Marked (dup : α → α → Bool) (turns : List (Turn α β)) : Prop :=
  ∀ front turn back, turns = front ++ turn :: back →
    turn.rejected = front.any fun earlier => dup earlier.key turn.key

theorem marked_nil (dup : α → α → Bool) : Marked dup ([] : List (Turn α β)) := by
  intro front turn back hSplit
  simp at hSplit

theorem Marked.concat {dup : α → α → Bool} {turns : List (Turn α β)} (h : Marked dup turns)
    {turn : Turn α β}
    (hTurn : turn.rejected = turns.any fun earlier => dup earlier.key turn.key) :
    Marked dup (turns ++ [turn]) := by
  intro front other back hSplit
  rcases List.eq_nil_or_concat back with rfl | ⟨back', last, rfl⟩
  · obtain ⟨rfl, hOther⟩ := List.append_inj' hSplit rfl
    obtain rfl : turn = other := by simpa using hOther
    exact hTurn
  · rw [List.concat_eq_append, ← List.cons_append, ← List.append_assoc] at hSplit
    exact h front other back' (List.append_inj' hSplit rfl).1

/-- Neither element comes before the other. -/
def equivalent (lt : α → α → Bool) (a b : α) : Bool := !lt a b && !lt b a

def Turn.entry (turn : Turn α β) : Option (α × β) := turn.value.map fun value => (turn.key, value)

/-- Every element drawn, in draw order. -/
def VectorReference (turns : List (Turn α Empty)) (result : List α) : Prop :=
  (∀ turn ∈ turns, turn.rejected = false) ∧ result = turns.map Turn.key

/-- The elements drawn without later duplicates, in draw order. -/
def UniqueReference (eq : α → α → Bool) (turns : List (Turn α Empty)) (result : List α) : Prop :=
  Marked eq turns ∧ result = (turns.map Turn.key).eraseDupsBy eq

/-- The elements drawn, one of each class, in the order of the set. -/
structure SetReference (lt : α → α → Bool) (turns : List (Turn α Empty)) (result : List α) :
    Prop where
  marked : Marked (equivalent lt) turns
  ordered : result.Pairwise fun a b => lt a b = true
  perm : result.Perm ((turns.map Turn.key).eraseDupsBy (equivalent lt))

/-- A value was drawn right after the first occurrence of its key and nowhere
else; these are the entries, in the order of the map. -/
structure MapReference (lt : α → α → Bool) (turns : List (Turn α β)) (result : List (α × β)) :
    Prop where
  marked : Marked (equivalent lt) turns
  valued : ∀ turn ∈ turns, turn.value.isSome = !turn.rejected
  ordered : result.Pairwise fun a b => lt a.1 b.1 = true
  perm : result.Perm (turns.filterMap Turn.entry)
  keys : (turns.filterMap Turn.entry).map Prod.fst =
    (turns.map Turn.key).eraseDupsBy (equivalent lt)

/-- A class that was seen before is in the result. -/
theorem any_firstOccurrences {dup : α → α → Bool} (hDup : Equivalence fun a b => dup a b = true)
    (turns : List (Turn α β)) (key : α) :
    ((turns.map Turn.key).eraseDupsBy dup).any (dup key) =
      turns.any fun earlier => dup earlier.key key := by
  have hSymm (a b : α) : dup a b = dup b a := Bool.eq_iff_iff.mpr ⟨hDup.symm, hDup.symm⟩
  have hTrans (a b c : α) : dup a b = true → dup b c = true → dup a c = true := hDup.trans
  rw [any_eraseDupsBy hTrans, List.any_map]
  exact congrArg turns.any (funext fun earlier => hSymm key earlier.key)

theorem firstOccurrences_concat {dup : α → α → Bool}
    (hDup : Equivalence fun a b => dup a b = true) (turns : List (Turn α β)) (turn : Turn α β) :
    ((turns ++ [turn]).map Turn.key).eraseDupsBy dup =
      if turns.any fun earlier => dup earlier.key turn.key then
        (turns.map Turn.key).eraseDupsBy dup
      else (turns.map Turn.key).eraseDupsBy dup ++ [turn.key] := by
  have hTrans (a b c : α) : dup a b = true → dup b c = true → dup a c = true := hDup.trans
  rw [List.map_append, List.map_singleton, eraseDupsBy_concat hTrans, ← any_eraseDupsBy hTrans,
    any_firstOccurrences hDup]

section Order

variable {lt : α → α → Bool} [IsStrictWeakOrder α fun a b => lt a b = true]

omit [IsStrictWeakOrder α fun a b => lt a b = true] in
theorem equivalent_iff {a b : α} :
    equivalent lt a b = true ↔ ¬ lt a b = true ∧ ¬ lt b a = true := by
  simp [equivalent]

theorem equivalence_equivalent (lt : α → α → Bool)
    [hOrder : IsStrictWeakOrder α fun a b => lt a b = true] :
    Equivalence fun a b => equivalent lt a b = true where
  refl := fun a => by
    have hIrrefl := irrefl_of (fun a b => lt a b = true) a
    exact equivalent_iff.mpr ⟨hIrrefl, hIrrefl⟩
  symm := fun h => equivalent_iff.mpr (equivalent_iff.mp h).symm
  trans := fun hab hbc => by
    rw [equivalent_iff] at hab hbc ⊢
    exact hOrder.incomp_trans _ _ _ hab hbc

instance entries_isStrictWeakOrder (lt : α → α → Bool)
    [IsStrictWeakOrder α fun a b => lt a b = true] :
    IsStrictWeakOrder (α × β) fun a b => lt a.1 b.1 = true :=
  inferInstanceAs (IsStrictWeakOrder (α × β) (Function.onFun (fun a b => lt a b = true) Prod.fst))

/-- The search for a place stops at an equivalent element and nowhere else. -/
theorem setInsert_isNone (lt : α → α → Bool) [IsStrictWeakOrder α fun a b => lt a b = true]
    (x : α) (elements : List α)
    (hOrdered : elements.Pairwise fun a b => lt a b = true) :
    (Generators.setInsert lt x elements).isNone = elements.any (equivalent lt x) := by
  induction elements with
  | nil => rfl
  | cons y ys ih =>
      obtain ⟨hFirst, hRest⟩ := List.pairwise_cons.mp hOrdered
      rw [Generators.setInsert, List.any_cons]
      by_cases hBefore : lt x y = true
      · have hAll : ys.any (equivalent lt x) = false := by
          rw [List.any_eq_false]
          intro z hz hEquivalent
          have hLess : lt x z = true := trans_of (fun a b => lt a b = true) hBefore (hFirst z hz)
          exact (equivalent_iff.mp hEquivalent).1 hLess
        simp [hBefore, hAll, equivalent]
      · by_cases hAfter : lt y x = true
        · simp [hBefore, hAfter, equivalent, ← ih hRest]
        · simp [hBefore, hAfter, equivalent]

omit [IsStrictWeakOrder α fun a b => lt a b = true] in
theorem setInsert_perm {x : α} {elements inserted : List α}
    (h : Generators.setInsert lt x elements = some inserted) :
    inserted.Perm (x :: elements) := by
  induction elements generalizing inserted with
  | nil =>
      obtain rfl := Option.some.inj h
      exact .refl _
  | cons y ys ih =>
      rw [Generators.setInsert] at h
      split_ifs at h with hBefore hAfter
      · obtain rfl := Option.some.inj h
        exact .refl _
      · obtain ⟨rest, hRest, rfl⟩ := Option.map_eq_some_iff.mp h
        exact ((ih hRest).cons y).trans (.swap _ _ _)

theorem setInsert_ordered {x : α} {elements inserted : List α}
    (h : Generators.setInsert lt x elements = some inserted)
    (hOrdered : elements.Pairwise fun a b => lt a b = true) :
    inserted.Pairwise fun a b => lt a b = true := by
  induction elements generalizing inserted with
  | nil =>
      obtain rfl := Option.some.inj h
      exact List.pairwise_singleton _ _
  | cons y ys ih =>
      obtain ⟨hFirst, hRest⟩ := List.pairwise_cons.mp hOrdered
      rw [Generators.setInsert] at h
      split_ifs at h with hBefore hAfter
      · obtain rfl := Option.some.inj h
        refine hOrdered.cons fun z hz => ?_
        rcases List.mem_cons.mp hz with rfl | hz
        · exact hBefore
        · exact trans_of (fun a b => lt a b = true) hBefore (hFirst z hz)
      · obtain ⟨rest, hInsert, rfl⟩ := Option.map_eq_some_iff.mp h
        refine (ih hInsert hRest).cons fun z hz => ?_
        rcases List.mem_cons.mp ((setInsert_perm hInsert).mem_iff.mp hz) with rfl | hz
        · exact hAfter
        · exact hFirst z hz

end Order

/-! The account of the engine. -/

def CollectionEvent.isMore : CollectionEvent α β → Bool
  | .more answer => answer
  | _ => false

def CollectionEvent.isRejected : CollectionEvent α β → Bool
  | .rejected => true
  | _ => false

/-- The number of true answers minus the number of `reject` calls. -/
def accepted (log : CollectionLog α β) : Int :=
  log.countP CollectionEvent.isMore - log.countP CollectionEvent.isRejected

/-- The engine answers false only when what was accepted fits the bounds. -/
def Obeys (params : Generators.CollectionParams) (log : CollectionLog α β) : Prop :=
  ∀ front back, log = front ++ .more false :: back →
    (params.minSize : Int) ≤ accepted front ∧
      accepted front ≤ (Generators.collectionMaxSize params.maxSize : Int)

theorem accepted_turn (turn : Turn α β) :
    accepted turn.events = if turn.rejected then 0 else 1 := by
  obtain ⟨key, value, rejected⟩ := turn
  cases value <;> cases rejected <;> rfl

theorem accepted_concat (turns : List (Turn α β)) (turn : Turn α β) :
    accepted (turnsLog (turns ++ [turn])) =
      accepted (turnsLog turns) + if turn.rejected then 0 else 1 := by
  rw [← accepted_turn, turnsLog_concat]
  simp only [accepted, List.countP_append]
  omega

/-- What the turns so far and the result have to do with each other. -/
def Accounted (reference : List (Turn α β) → List γ → Prop) (turns : List (Turn α β))
    (result : List γ) : Prop :=
  reference turns result ∧ accepted (turnsLog turns) = result.length

theorem Accounted.concat {reference : List (Turn α β) → List γ → Prop} {turns : List (Turn α β)}
    {result result' : List γ} (h : Accounted reference turns result) {turn : Turn α β}
    (hReference : reference (turns ++ [turn]) result')
    (hLength : result'.length = result.length + if turn.rejected then 0 else 1) :
    Accounted reference (turns ++ [turn]) result' := by
  refine ⟨hReference, ?_⟩
  rw [accepted_concat, h.2, hLength]
  split <;> rfl

namespace Observed

variable {gen : Client S α} {raises : Exn → Prop}

theorem vectorsTurn_keeps (hDraws : ∀ e, Raises gen e → raises e) :
    TurnKeeps (vectorsTurn collectionObserver (keys gen) none) (Accounted VectorReference)
      raises := by
  rintro turns result world hAccounted
  refine ensures_bind (ensures_keys (fun key world' => ?_) fun e _ hRaised => hDraws e hRaised)
  refine ensures_ite nofun fun _ => ensures_pure _ ?_
  refine ⟨{ key }, _, rfl, ?_, hAccounted.concat ⟨?_, ?_⟩ ?_⟩
  · simp [Turn.events]
  · simpa [or_imp, forall_and] using hAccounted.1.1
  · simp [hAccounted.1.2]
  · simp

theorem uniqueTurn_keeps {eq : α → α → Bool} (hEq : Equivalence fun a b => eq a b = true)
    (hCalls : ∀ e, CallRaises e → raises e) (hDraws : ∀ e, Raises gen e → raises e) :
    TurnKeeps (vectorsTurn collectionObserver (keys gen) (some eq))
      (Accounted (UniqueReference eq)) raises := by
  rintro turns result world hAccounted
  obtain ⟨hMarked, rfl⟩ := hAccounted.1
  have hSeen (key : α) : ((turns.map Turn.key).eraseDupsBy eq).any (fun seen => eq seen key) =
      turns.any fun earlier => eq earlier.key key := by
    rw [← any_firstOccurrences hEq]
    exact congrArg _ (funext fun seen => Bool.eq_iff_iff.mpr ⟨hEq.symm, hEq.symm⟩)
  refine ensures_bind (ensures_keys (fun key world' => ?_) fun e _ hRaised => hDraws e hRaised)
  have hConcat := firstOccurrences_concat hEq turns
  refine ensures_ite (fun hFound => ?_) fun hMissed => ensures_pure _ ?_
  · refine ensures_bind (ensures_collectionReject (fun _ => ensures_pure _ ?_)
      fun e _ hRaised => hCalls e hRaised)
    have hOld := (hSeen key).symm.trans hFound
    refine ⟨{ key, rejected := true }, _, rfl, by simp [Turn.events], hAccounted.concat ⟨?_, ?_⟩ ?_⟩
    · exact hMarked.concat hOld.symm
    · rw [hConcat, if_pos hOld]
    · simp
  · have hFresh := (hSeen key).symm.trans (Bool.eq_false_iff.mpr hMissed)
    refine ⟨{ key }, _, rfl, by simp [Turn.events], hAccounted.concat ⟨?_, ?_⟩ ?_⟩
    · exact hMarked.concat hFresh.symm
    · rw [hConcat, if_neg (Bool.eq_false_iff.mp hFresh)]
    · simp

theorem setsTurn_keeps {lt : α → α → Bool} [IsStrictWeakOrder α fun a b => lt a b = true]
    (hCalls : ∀ e, CallRaises e → raises e) (hDraws : ∀ e, Raises gen e → raises e) :
    TurnKeeps (setsTurn collectionObserver (keys gen) lt) (Accounted (SetReference lt)) raises := by
  rintro turns result world hAccounted
  have hReference := hAccounted.1
  have hEq := equivalence_equivalent lt
  have hSeen (key : α) : (Generators.setInsert lt key result).isNone =
      turns.any fun earlier => equivalent lt earlier.key key := by
    rw [setInsert_isNone lt key result hReference.ordered, ← any_firstOccurrences hEq]
    exact hReference.perm.any_eq
  refine ensures_bind (ensures_keys (fun key world' => ?_) fun e _ hRaised => hDraws e hRaised)
  have hConcat := firstOccurrences_concat hEq turns
  rw [andThen_ok]
  cases hInsert : Generators.setInsert lt key result with
  | some inserted =>
      have hFresh := (hSeen key).symm.trans (congrArg Option.isNone hInsert)
      have hPerm := setInsert_perm hInsert
      refine ensures_pure _ ⟨{ key }, _, rfl, by simp [Turn.events],
        hAccounted.concat ⟨?_, ?_, ?_⟩ ?_⟩
      · exact hReference.marked.concat hFresh.symm
      · exact setInsert_ordered hInsert hReference.ordered
      · rw [hConcat, if_neg (Bool.eq_false_iff.mp hFresh)]
        exact hPerm.trans ((hReference.perm.cons key).trans (List.perm_append_singleton _ _).symm)
      · simp [hPerm.length_eq]
  | none =>
      have hOld : (turns.any fun earlier => equivalent lt earlier.key key) = true :=
        (hSeen key).symm.trans (congrArg Option.isNone hInsert)
      refine ensures_bind (ensures_collectionReject (fun _ => ensures_pure _ ?_)
        fun e _ hRaised => hCalls e hRaised)
      refine ⟨{ key, rejected := true }, _, rfl, by simp [Turn.events],
        hAccounted.concat ⟨?_, hReference.ordered, ?_⟩ ?_⟩
      · exact hReference.marked.concat hOld.symm
      · rw [hConcat, if_pos hOld]
        exact hReference.perm
      · simp

variable {values' : Client S β}

theorem mapsTurn_keeps {lt : α → α → Bool} [IsStrictWeakOrder α fun a b => lt a b = true]
    (hCalls : ∀ e, CallRaises e → raises e) (hKeys : ∀ e, Raises gen e → raises e)
    (hValues : ∀ e, Raises values' e → raises e) :
    TurnKeeps (mapsTurn collectionObserver (keys gen) (values values') lt)
      (Accounted (MapReference lt)) raises := by
  rintro turns result world hAccounted
  have hReference := hAccounted.1
  have hEq := equivalence_equivalent lt
  have hSymm (a b : α) : equivalent lt a b = equivalent lt b a :=
    Bool.eq_iff_iff.mpr ⟨hEq.symm, hEq.symm⟩
  have hSeen (key : α) : (result.any fun entry => equivalent lt entry.1 key) =
      turns.any fun earlier => equivalent lt earlier.key key := by
    rw [← any_firstOccurrences hEq, ← hReference.keys, List.any_map, hReference.perm.any_eq]
    exact congrArg _ (funext fun entry => hSymm entry.1 key)
  refine ensures_bind (ensures_keys (fun key world' => ?_) fun e _ hRaised => hKeys e hRaised)
  have hConcat := firstOccurrences_concat hEq turns
  refine ensures_ite (fun hFound => ?_) fun hMissed => ?_
  · have hOld : (turns.any fun earlier => equivalent lt earlier.key key) = true :=
      (hSeen key).symm.trans hFound
    refine ensures_bind (ensures_collectionReject (fun _ => ensures_pure _ ?_)
      fun e _ hRaised => hCalls e hRaised)
    have hSame : (turns ++ [({ key, rejected := true } : Turn α β)]).filterMap Turn.entry =
        turns.filterMap Turn.entry := by
      rw [List.filterMap_append]
      exact List.append_nil _
    refine ⟨{ key, rejected := true }, _, rfl, by simp [Turn.events],
      hAccounted.concat ⟨?_, ?_, hReference.ordered, ?_, ?_⟩ ?_⟩
    · exact hReference.marked.concat hOld.symm
    · simpa [or_imp, forall_and] using hReference.valued
    · exact hSame ▸ hReference.perm
    · rw [hConcat, if_pos hOld, hSame, hReference.keys]
    · simp
  · have hFresh : (turns.any fun earlier => equivalent lt earlier.key key) = false :=
      (hSeen key).symm.trans (Bool.eq_false_iff.mpr hMissed)
    refine ensures_bind (ensures_values (fun value world' => ensures_pure _ ?_)
      fun e _ hRaised => hValues e hRaised)
    have hLess : equivalent (fun a b : α × β => lt a.1 b.1) (key, value) =
        fun entry => equivalent lt entry.1 key := funext fun entry => hSymm key entry.1
    have hNone := setInsert_isNone (fun a b : α × β => lt a.1 b.1) (key, value) result
      hReference.ordered
    rw [hLess, hSeen, hFresh] at hNone
    obtain ⟨inserted, hInsert⟩ := Option.isSome_iff_exists.mp (Option.isNone_eq_false_iff.mp hNone)
    have hPerm := setInsert_perm hInsert
    have hMore : (turns ++ [({ key, value := some value } : Turn α β)]).filterMap Turn.entry =
        turns.filterMap Turn.entry ++ [(key, value)] := List.filterMap_append ..
    rw [hInsert]
    refine ⟨{ key, value := some value }, inserted, rfl, by simp [Turn.events],
      hAccounted.concat ⟨?_, ?_, ?_, ?_, ?_⟩ ?_⟩
    · exact hReference.marked.concat hFresh.symm
    · simpa [or_imp, forall_and] using hReference.valued
    · exact setInsert_ordered hInsert hReference.ordered
    · rw [hMore]
      exact hPerm.trans ((hReference.perm.cons _).trans (List.perm_append_singleton _ _).symm)
    · rw [hConcat, if_neg (Bool.eq_false_iff.mp hFresh), hMore, List.map_append, hReference.keys]
      rfl
    · simp [hPerm.length_eq]

end Observed

/-- The collection generator is the library's. It returns what the reference
says about its turns, and a result within the bounds if the engine kept to
them. An exception is one of the engine's calls or of a draw. -/
structure Collects (observed : Observed S (CollectionLog α β) (List γ))
    (library : Client S (List γ)) (params : Generators.CollectionParams) (raises : Exn → Prop)
    (reference : List (Turn α β) → List γ → Prop) : Prop where
  erases : Erases observed library
  ends : ∀ world, observed.Ensures (world, []) (andThen
    (fun result after => ∃ turns, after.2 = turnsLog turns ++ [.more false] ∧
      reference turns result ∧ (Obeys params after.2 →
        params.minSize ≤ result.length ∧
          result.length ≤ Generators.collectionMaxSize params.maxSize))
    fun e _ => CallRaises e ∨ raises e)

namespace Observed

theorem collects {turn : List γ → Observed S (CollectionLog α β) (List γ ⊕ List γ)}
    {library : Client S (List γ)} {params : Generators.CollectionParams} {raises : Exn → Prop}
    {reference : List (Turn α β) → List γ → Prop} {label : SpanLabel}
    (hErases : Erases (collection collectionObserver label params turn) library)
    (hInit : reference [] [])
    (hTurn : TurnKeeps turn (Accounted reference) fun e => CallRaises e ∨ raises e) :
    Collects (collection collectionObserver label params turn) library params raises reference where
  erases := hErases
  ends := by
    intro world
    refine (ensures_collection (fun _ => .inl) ⟨hInit, rfl⟩ hTurn label params world).mono ?_
    rintro (e | result) after hEnd
    · exact hEnd
    · obtain ⟨turns, hLog, hReference, hAccepted⟩ := hEnd
      refine ⟨turns, hLog, hReference, fun hObeys => ?_⟩
      have hBounds := hObeys (turnsLog turns) [] hLog
      omega

section Bounds

variable {elements : Client S α} {mapped : Client S β}

theorem bounded_vectors (hElements : Bounded World.budget elements)
    (params : Generators.CollectionParams) (unique : Option (α → α → Bool)) :
    Bounded World.budget (Generators.vectors elements params unique) := by
  have hErases := erases_vectors (collectionObserver (β := Empty))
    (Erases.observe elements fun key log => log ++ [.drew key]) params unique
  refine hErases.bounded (bounded_collection (fun result => ?_) _ params) []
  refine bounded_bind (hElements.observe _) fun element => bounded_ite ?_ (bounded_pure _)
  exact bounded_bind (bounded_reject _) fun _ => bounded_pure _

theorem bounded_sets (hElements : Bounded World.budget elements)
    (params : Generators.CollectionParams) (lt : α → α → Bool) :
    Bounded World.budget (Generators.sets elements params lt) := by
  have hErases := erases_sets (collectionObserver (β := Empty))
    (Erases.observe elements fun key log => log ++ [.drew key]) params lt
  refine hErases.bounded (bounded_collection (fun result => ?_) _ params) []
  refine bounded_bind (hElements.observe _) fun element => ?_
  cases Generators.setInsert lt element result with
  | some inserted => exact bounded_pure _
  | none => exact bounded_bind (bounded_reject _) fun _ => bounded_pure _

theorem bounded_maps (hElements : Bounded World.budget elements)
    (hMapped : Bounded World.budget mapped) (params : Generators.CollectionParams)
    (lt : α → α → Bool) : Bounded World.budget (Generators.maps elements mapped params lt) := by
  have hErases := erases_maps collectionObserver
    (Erases.observe elements fun key log => log ++ [.drew key])
    (Erases.observe mapped fun value log => log ++ [.drewValue value]) params lt
  refine hErases.bounded (bounded_collection (fun result => ?_) _ params) []
  refine bounded_bind (hElements.observe _) fun key => bounded_ite ?_ ?_
  · exact bounded_bind (bounded_reject _) fun _ => bounded_pure _
  · exact bounded_bind (hMapped.observe _) fun value => bounded_pure _

end Bounds

end Observed

open Observed in
/-- Whatever the engine answers and whatever the draws return, the collections
are their references; and they end when the draws do. -/
theorem collections_equal_reference (elements : Client S α) (mapped : Client S β)
    (params : Generators.CollectionParams) :
    Collects (vectors collectionObserver (keys elements) params none)
      (Generators.vectors elements params none) params (Raises elements) VectorReference ∧
    (∀ eq : α → α → Bool, Equivalence (fun a b => eq a b = true) →
      Collects (vectors collectionObserver (keys elements) params (some eq))
        (Generators.vectors elements params (some eq)) params (Raises elements)
        (UniqueReference eq)) ∧
    (∀ lt : α → α → Bool, IsStrictWeakOrder α (fun a b => lt a b = true) →
      Collects (sets collectionObserver (keys elements) params lt)
        (Generators.sets elements params lt) params (Raises elements) (SetReference lt) ∧
      Collects (maps collectionObserver (keys elements) (values mapped) params lt)
        (Generators.maps elements mapped params lt) params
        (fun e => Raises elements e ∨ Raises mapped e) (MapReference lt)) ∧
    (Bounded World.budget elements → Bounded World.budget mapped →
      (∀ unique, Bounded World.budget (Generators.vectors elements params unique)) ∧
      ∀ lt, Bounded World.budget (Generators.sets elements params lt) ∧
        Bounded World.budget (Generators.maps elements mapped params lt)) := by
  refine ⟨?_, fun eq hEq => ?_, fun lt hOrder => ⟨?_, ?_⟩, fun hElements hMapped => ⟨?_, ?_⟩⟩
  · exact collects (erases_vectors _ (.observe _ _) params none) ⟨nofun, rfl⟩
      (vectorsTurn_keeps fun _ => .inr)
  · exact collects (erases_vectors _ (.observe _ _) params (some eq)) ⟨marked_nil eq, rfl⟩
      (uniqueTurn_keeps hEq (fun _ => .inl) fun _ => .inr)
  · exact collects (erases_sets _ (.observe _ _) params lt) ⟨marked_nil _, .nil, .nil⟩
      (setsTurn_keeps (fun _ => .inl) fun _ => .inr)
  · exact collects (erases_maps _ (.observe _ _) (.observe _ _) params lt)
      ⟨marked_nil _, nofun, .nil, .nil, rfl⟩
      (mapsTurn_keeps (fun _ => .inl) (fun _ h => .inr (.inl h)) fun _ h => .inr (.inr h))
  · exact fun unique => bounded_vectors hElements params unique
  · exact fun lt => ⟨bounded_sets hElements params lt, bounded_maps hElements hMapped params lt⟩

section Runs

def boolLess (a b : Bool) : Bool := !a && b

theorem boolLess_order : IsStrictWeakOrder Bool fun a b => boolLess a b = true where
  irrefl := by decide
  trans := by decide
  incomp_trans := by decide

/-- `true` comes twice as a key; its value is drawn once. -/
def repeatedKey : World Unit where
  answers := [{}, {}, { bool := true }, { bool := true }, { bool := false },
    { bool := true }, { bool := true }, {}, { bool := true }, { bool := false }, { bool := true },
    { bool := false }]
  memory := ()

open Observed in
theorem collections_equal_reference_repeatedKey :
    (∃ after, maps collectionObserver (keys drawBoolean) (values drawBoolean) {} boolLess 5
        (repeatedKey, []) = some (.ok [(false, true), (true, false)], after) ∧
      ∃ turns, after.2 = turnsLog turns ++ [.more false] ∧
        MapReference boolLess turns [(false, true), (true, false)]) ∧
    Collects (vectors collectionObserver (keys drawBoolean) {} (some (· == ·)))
      (Generators.vectors drawBoolean {} (some (· == ·)) : Client Unit (List Bool)) {}
      (Raises (drawBoolean : Client Unit Bool)) (UniqueReference (· == ·)) ∧
    Bounded World.budget (Generators.vectors drawBoolean {} none : Client Unit (List Bool)) := by
  obtain ⟨-, hUnique, hOrdered, hEnds⟩ :=
    collections_equal_reference (drawBoolean : Client Unit Bool) drawBoolean {}
  have hBoolean : Bounded World.budget (drawBoolean : Client Unit Bool) := bounded_answer _ _
  have hEq : Equivalence fun a b : Bool => (a == b) = true := by
    simpa using eq_equivalence
  obtain ⟨turns, hLog, hReference, -⟩ :=
    (hOrdered boolLess boolLess_order).2.ends repeatedKey 5 _ _ rfl
  exact ⟨⟨_, rfl, turns, hLog, hReference⟩, hUnique _ hEq, (hEnds hBoolean hBoolean).1 none⟩

end Runs

end Hegel
