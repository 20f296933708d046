import HegelCpp.Values.Words

/-! The library's combinators are readers of their words, when the engine is held
to no promise: one rule for each of them, then the induction over client code. -/
namespace Hegel

open Logic Program

variable {S α β : Type}

/-- The program takes answers off the engine as the words say. -/
abbrev ReadsWords (p : Client S α) (L : Words α) : Prop := Exact World.answers p L

namespace ReadsWords

theorem engineCall (what : String) : ReadsWords (Hegel.engineCall what : Client S Answer)
    (Words.call fun answer => answer) where
  reads := by
    intro world
    refine ensures_bind (ensures_nextAnswer_of ?_ fun answer rest hAnswer => ?_)
    · exact ensures_bind (ensures_raiseForRc nofun fun _ _ _ => trivial)
    · refine ensures_bind (ensures_raiseForRc (fun hOk => ensures_pure _ ?_) fun _ _ _ => trivial)
      exact ⟨[answer], hAnswer, answer, rfl, hOk, rfl⟩
  yields := by
    rintro taken answer ⟨_, rfl, hOk, rfl⟩
    refine ⟨0, fun fuel _ world rest hLeft => ⟨{ world with answers := rest }, ?_, rfl⟩⟩
    have hNext : nextAnswer fuel world = some (.ok answer, { world with answers := rest }) := by
      rw [nextAnswer, bind_of_ok rfl, hLeft]
      rfl
    rw [Hegel.engineCall, bind_of_ok hNext, raiseForRc, hOk]
    rfl

/-- A call and what its primitive makes of the answer. -/
theorem call (what : String) (f : Answer → α) : ReadsWords
    (Hegel.engineCall what >>= fun answer => pure (f answer) : Client S α) (Words.call f) := by
  rw [Words.call, ← Language.token_map]
  exact exact_bind (engineCall what) fun answer => exact_pure _

theorem unguarded {p : Client S α} {L : Words α} (hp : ReadsWords p L) :
    ReadsWords (Hegel.unguarded p) L where
  reads := by
    intro world
    refine ensures_unguarded ((hp.reads world).mono ?_)
    rintro (e | a) world' hEnd
    · trivial
    · exact hEnd
  yields := by
    intro taken a hL
    obtain ⟨enough, hYields⟩ := hp.yields taken a hL
    refine ⟨enough, fun fuel hFuel world rest hLeft => ?_⟩
    obtain ⟨world', hEnd, hRest⟩ := hYields fuel hFuel world rest hLeft
    exact ⟨world', tryCatch_of_ok hEnd, hRest⟩

theorem startSpan (label : SpanLabel) {q : Client S α} {L : Words α} (hq : ReadsWords q L) :
    ReadsWords (Hegel.startSpan label >>= fun _ => q)
      (Words.call (fun _ => ()) >>= fun _ => L) := by
  have hOpened : ReadsWords ((do
      let world ← Program.get
      let opened := { label, id := world.spansOpened }
      Program.modify fun world =>
        { world with spans := opened :: world.spans, spansOpened := world.spansOpened + 1 }
      pure opened : Client S OpenSpan) >>= fun _ => q) L :=
    exact_silent (fun fuel world => ⟨_, _, rfl, rfl⟩) hq
  have hCall := exact_bind (call (S := S) "hegel_start_span" fun _ => ()) fun _ => hOpened
  rw [bind_assoc] at hCall
  simp only [pure_bind] at hCall
  rw [Hegel.startSpan, bind_assoc]
  exact hCall

theorem inSpan {p : Client S α} {L : Words α} (hp : ReadsWords p L) (label : SpanLabel)
    (discard : α → Bool) : ReadsWords (Hegel.inSpan label p discard) (Words.span L) := by
  have hStop (a : α) : ReadsWords (stopSpan (discard a) >>= fun _ => pure a : Client S α)
      (pure a) :=
    exact_silent (fun fuel world => ⟨_, _, rfl, rfl⟩) (exact_pure a)
  have hBody := exact_bind hp.unguarded hStop
  rw [bind_pure] at hBody
  exact startSpan label hBody

theorem drawInteger (minValue maxValue : Int) : ReadsWords
    (Hegel.drawInteger minValue maxValue : Client S Int) (Words.integer minValue maxValue) :=
  call _ _

/-- Nothing is required of the text. -/
theorem drawString : ReadsWords (Hegel.drawString : Client S String) (do
    let s ← Words.call Answer.text
    Language.require (Contract.none.text s)
    pure s) := by
  have hAny (s : String) : Contract.none.text s := trivial
  simp only [Language.require_bind (hAny _), bind_pure]
  exact call _ _

theorem map {source : Client S α} {L : Words α} {f : α → Client S β} {K : α → Words β}
    (hSource : ReadsWords source L) (hf : ∀ a, ReadsWords (f a) (K a)) (label : SpanLabel) :
    ReadsWords (Hegel.inSpan label (source >>= f)) (Words.span (L >>= K)) :=
  inSpan (exact_bind hSource hf) label _

theorem filterAttempts {inner : Client S α} {L : Words α} {pred : α → Client S Bool}
    {K : α → Words Bool} (hInner : ReadsWords inner L) (hPred : ∀ a, ReadsWords (pred a) (K a))
    (attempts : Nat) : ReadsWords (Generators.filterAttempts inner pred attempts)
      (Words.filterAttempts L K attempts) := by
  induction attempts with
  | zero => exact exact_throw _
  | succ attempts ih =>
      have hAttempt := exact_bind hInner fun value => exact_bind (hPred value) fun keep =>
        (exact_pure (value, keep) : ReadsWords (pure (value, keep) : Client S (α × Bool)) _)
      exact exact_bind (inSpan hAttempt .filter _) fun attempt =>
        exact_ite (fun _ => exact_pure _) fun _ => ih

theorem collection {label : SpanLabel} (params : Generators.CollectionParams)
    {turn : List α → Client S (List α ⊕ List α)} {turnWords : List α → Words (List α ⊕ List α)}
    (hTurn : ∀ result, ReadsWords (turn result) (turnWords result)) :
    ReadsWords (Hegel.inSpan label do
      newCollection params.minSize (Generators.collectionMaxSize params.maxSize)
      Program.loop (fun result => do
        if ← collectionMore then turn result else pure (.inr result)) [])
      (Words.collection .none params turnWords) := by
  refine inSpan (exact_bind (call _ _) fun _ => exact_loop (fun result => ?_) []) label _
  refine exact_bind (call _ _) fun more => exact_ite (fun _ => hTurn result) fun _ => ?_
  have hSize : (Contract.none.size params result.length) := trivial
  rw [Language.require_bind hSize]
  exact exact_pure _

theorem vectors {elements : Client S α} {L : Words α} (h : ReadsWords elements L)
    (params : Generators.CollectionParams) (unique : Option (α → α → Bool)) :
    ReadsWords (Generators.vectors elements params unique)
      (Words.collection .none params (Words.vectorsTurn L unique)) := by
  refine collection params fun result => exact_bind h fun element => ?_
  refine exact_ite (fun _ => ?_) fun _ => exact_pure _
  exact exact_bind (call _ _) fun _ => exact_pure _

theorem sets {elements : Client S α} {L : Words α} (h : ReadsWords elements L)
    (params : Generators.CollectionParams) (lt : α → α → Bool) :
    ReadsWords (Generators.sets elements params lt)
      (Words.collection .none params (Words.setsTurn L lt)) := by
  refine collection params fun result => exact_bind h fun element => ?_
  cases Generators.setInsert lt element result with
  | some inserted => exact exact_pure _
  | none => exact exact_bind (call _ _) fun _ => exact_pure _

theorem maps {keys : Client S α} {values : Client S β} {L : Words α} {M : Words β}
    (hKeys : ReadsWords keys L) (hValues : ReadsWords values M)
    (params : Generators.CollectionParams) (lt : α → α → Bool) :
    ReadsWords (Generators.maps keys values params lt)
      (Words.collection .none params (Words.mapsTurn L M lt)) := by
  refine collection params fun result => exact_bind hKeys fun key => ?_
  refine exact_ite (fun _ => ?_) fun _ => exact_bind hValues fun value => exact_pure _
  exact exact_bind (call _ _) fun _ => exact_pure _

theorem drawTupleImpl (n : Nat) (τ : Fin n → Type) {gens : (i : Fin n) → Client S (τ i)}
    {words : (i : Fin n) → Words (τ i)} (h : ∀ i, ReadsWords (gens i) (words i)) :
    ReadsWords (Generators.drawTupleImpl n τ gens) (Words.drawTupleImpl n τ words) := by
  induction n with
  | zero => exact exact_pure _
  | succ n ih =>
      exact exact_bind (h 0) fun first =>
        exact_bind (ih _ fun i => h i.succ) fun rest => exact_pure _

theorem oneOf {n : Nat} {gens : Fin (n + 1) → Client S α} {words : Fin (n + 1) → Words α}
    (h : ∀ i, ReadsWords (gens i) (words i)) :
    ReadsWords (Generators.oneOf gens) (Words.oneOf words) :=
  inSpan (exact_bind (drawInteger 0 n) fun index => h (Fin.ofNat (n + 1) index.toNat)) .oneOf _

theorem variant {n : Nat} {τ : Fin (n + 1) → Type} {gens : (i : Fin (n + 1)) → Client S (τ i)}
    {words : (i : Fin (n + 1)) → Words (τ i)} (h : ∀ i, ReadsWords (gens i) (words i)) :
    ReadsWords (Generators.variant gens) (Words.variant words) := by
  refine inSpan (exact_bind (drawInteger 0 n) fun index => ?_) .oneOf _
  exact exact_bind (h (Fin.ofNat (n + 1) index.toNat)) fun value => exact_pure _

theorem optional {gen : Client S α} {L : Words α} (h : ReadsWords gen L) :
    ReadsWords (Generators.optional gen) (Words.optional L) := by
  refine inSpan (exact_bind (call _ _) fun present => ?_) .optional _
  exact exact_ite (fun _ => exact_bind h fun value => exact_pure _) fun _ => exact_pure _

end ReadsWords

namespace Code

/-- Client code reads its words as long as the draws of deferred generators do. -/
theorem readsWords {delegate : Delegate S} {delegateWords : DelegateWords}
    (hDelegate : ∀ α slot, ReadsWords (delegate α slot) (delegateWords α slot)) (code : Code S α)
    (hPure : code.IsPure) :
    ReadsWords (code.interpret delegate) (code.words .none delegateWords) := by
  induction code with
  | ret a => exact exact_pure a
  | bind p k ihp ihk => exact exact_bind (ihp hPure.1) fun a => ihk a (hPure.2 a)
  | throw e => exact exact_throw e
  | loop body k ih => exact exact_loop (fun k => ih k (hPure k)) k
  | note message => exact exact_modify fun _ => rfl
  | integers minValue maxValue => exact .drawInteger minValue maxValue
  | booleans => exact .call _ _
  | text => exact .drawString
  | sampledFrom elements => exact exact_bind (ReadsWords.drawInteger _ _) fun index => exact_pure _
  | map source f ihSource ihf => exact .map (ihSource hPure.1) (fun a => ihf a (hPure.2 a)) .mapped
  | flatMap inner f ihInner ihf =>
      exact .map (ihInner hPure.1) (fun a => ihf a (hPure.2 a)) .flatMap
  | filter inner pred ihInner ihPred =>
      exact .filterAttempts (ihInner hPure.1) (fun a => ihPred a (hPure.2 a)) 3
  | vectors elements params unique ih => exact .vectors (ih hPure) params unique
  | sets elements params lt ih => exact .sets (ih hPure.1) params lt
  | maps keys values params lt ihKeys ihValues =>
      exact .maps (ihKeys hPure.1) (ihValues hPure.2.1) params lt
  | tuples n gens ih =>
      exact ReadsWords.inSpan (.drawTupleImpl n _ fun i => ih i (hPure i)) .tuple _
  | arrays n element ih =>
      exact ReadsWords.inSpan (.drawTupleImpl n _ fun _ => ih hPure) .tuple _
  | oneOf gens ih => exact .oneOf fun i => ih i (hPure i)
  | variant gens ih => exact .variant fun i => ih i (hPure i)
  | optional gen ih => exact .optional (ih hPure)
  | deferred α slot => exact hDelegate α slot
  | tryCatch | read | write | poolAdd | poolDraw | «repeat» | run => exact hPure.elim

end Code
end Hegel
