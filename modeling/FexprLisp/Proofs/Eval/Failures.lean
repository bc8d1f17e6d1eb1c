import FexprLisp.Proofs.Eval.Frames
import FexprLisp.Proofs.Eval.Provenance

/-!
# How evaluations fail

An evaluation that begins with at least one frame never runs out of frames, so that leaving a scope
never takes the place of an error. What is left are the errors of the operations themselves, names that
are not bound, and the limit on nesting.

## Main definitions

- `Vocabulary.Allows` — the errors that a program of a vocabulary may fail with
- `EvalM.Safe` — computations that keep the frames, stay in a vocabulary and fail in no other way
- `FailureKind.ofEvaluation` — the kinds of failure of an evaluation

## Main statements

- `EvalM.safe_inScope` — an error inside a scope is the error behind it
- `evaluate_safe` — every evaluation is safe
- `Vocabulary.Allows.failure` — without holes, an evaluation fails in one of four ways
-/

namespace FexprLisp

/-- The errors that a program may fail with. A missing name is one that it may mention. -/
def Vocabulary.Allows (V : Vocabulary) : EvalError → Prop
  | .scope .underflow => False
  | .scope (.unbound name) => V.name name
  | .noTruth value => V.value value ∧ value.truth? = none
  | _ => True

theorem Vocabulary.allows_of_isOwn (V : Vocabulary) {error : EvalError}
    (h : error.isOwn = true) : V.Allows error := by
  cases error with
  | scope _ => cases h
  | noTruth _ => cases h
  | _ => trivial

namespace EvalM

variable {α β : Type} {good : Value → Prop} {known : EvalError → Prop} {sort : α → Prop}

/-- How a run ends that began in a state: the frames are kept and hold good values, a result is of a
sort, and an error is one of those that are known. -/
inductive Ends (good : Value → Prop) (known : EvalError → Prop) (sort : α → Prop) (s : State) :
    EStateM.Result EvalError State α → Prop
  | ok {a : α} {t : State} (kept : Kept s t) (holds : t.scopes.Holds good) (ha : sort a) :
    Ends good known sort s (.ok a t)
  | error {e : EvalError} {t : State} (kept : Kept s t) (holds : t.scopes.Holds good)
      (he : known e) : Ends good known sort s (.error e t)

theorem Ends.after {s t : State} {result : EStateM.Result EvalError State α}
    (h : Ends good known sort t result) (hkept : Kept s t) : Ends good known sort s result := by
  cases h with
  | ok kept holds ha => exact .ok (hkept.trans kept) holds ha
  | error kept holds he => exact .error (hkept.trans kept) holds he

/-- Ends that way wherever there is a frame and all frames hold good values. -/
def Safe (good : Value → Prop) (known : EvalError → Prop) (sort : α → Prop) (x : EvalM α) : Prop :=
  ∀ s : State, s.scopes.frames ≠ [] → s.scopes.Holds good → Ends good known sort s (x s)

theorem safe_pure {a : α} (h : sort a) : (pure a : EvalM α).Safe good known sort :=
  fun _ hframes hs => .ok (.refl hframes) hs h

theorem safe_throw {e : EvalError} (h : known e) : (throw e : EvalM α).Safe good known sort :=
  fun _ hframes hs => .error (.refl hframes) hs h

theorem safe_bind {sort' : β → Prop} {x : EvalM α} {f : α → EvalM β} (hx : x.Safe good known sort)
    (hf : ∀ a, sort a → (f a).Safe good known sort') : (x >>= f).Safe good known sort' := by
  intro s hframes hs
  have hfirst := hx s hframes hs
  cases hrun : x s with
  | error e t =>
    rw [hrun] at hfirst
    rw [bind_of_error hrun]
    cases hfirst with
    | error kept holds he => exact .error kept holds he
  | ok a t =>
    rw [hrun] at hfirst
    rw [bind_of_ok hrun]
    cases hfirst with
    | ok kept holds ha => exact (hf a ha t kept.frames_ne_nil holds).after kept

theorem safe_lookup {name : String} (h : known (.scope (.unbound name))) :
    (lookup name).Safe good known good := by
  intro s hframes hs
  cases hlookup : s.scopes.lookup? name with
  | none =>
    rw [lookup_of_none hlookup]
    exact .error (.refl hframes) hs h
  | some value =>
    rw [lookup_of_some hlookup]
    exact .ok (.refl hframes) hs (hs.lookup hlookup)

theorem safe_bindName (name : String) {value : Value} (hvalue : good value) :
    (EvalM.bind name value).Safe good known (fun _ => True) := by
  intro s hframes hs
  have hkept := Kept.bind hframes name value
  have hstays := (staysIn_bindName name hvalue s hs).1
  cases hbase : s.scopes.frames with
  | nil => exact absurd hbase hframes
  | cons top outer =>
    have hrun := bind_of_frames hbase name value
    rw [final_of_ok hrun] at hkept hstays
    rw [hrun]
    exact .ok hkept hstays trivial

/-- The frames are kept inside a scope, so that it can be left, and an error inside is the error
behind it. -/
theorem safe_inScope {x : EvalM α} (hx : x.Safe good known sort) :
    (inScope x).Safe good known sort := by
  intro s hframes hs
  have hinside := hx s.entered (List.cons_ne_nil _ _) hs.enter
  cases hrun : x s.entered with
  | ok a t =>
    rw [hrun] at hinside
    cases hinside with
    | ok kept holds ha =>
      rw [inScope_of_ok hrun (kept.leave hframes)]
      exact .ok (kept.left hframes) hs ha
  | error e t =>
    rw [hrun] at hinside
    cases hinside with
    | error kept holds he =>
      rw [inScope_of_error hrun (kept.leave hframes)]
      exact .error (kept.left hframes) hs he

theorem safe_counted {x : EvalM α} (hx : x.Safe good known sort)
    (hdeep : ∀ limit, known (.tooDeep limit)) : (counted x).Safe good known sort := by
  intro s hframes hs
  by_cases hroom : s.room = 0
  · rw [counted_of_room_zero hroom]
    exact .error (.refl hframes) hs (hdeep s.limit)
  · have hinside := hx s.opened hframes hs
    cases hrun : x s.opened with
    | ok a t =>
      rw [hrun] at hinside
      cases hinside with
      | ok kept holds ha =>
        rw [counted_of_ok hroom hrun]
        exact .ok kept.closed holds ha
    | error e t =>
      rw [hrun] at hinside
      cases hinside with
      | error kept holds he =>
        rw [counted_of_error hroom hrun]
        exact .error kept.closed holds he

end EvalM

/-- Computations that are safe; the second of the two does not matter. -/
def Vocabulary.failing (V : Vocabulary) : EvalLogic where
  toVocabulary := V
  rel sort x _ := x.Safe V.value V.Allows sort
  rel_pure _ h := EvalM.safe_pure h
  rel_bind hx hf := EvalM.safe_bind hx hf
  rel_throw _ h := EvalM.safe_throw (V.allows_of_isOwn h)
  rel_noTruth _ hv hnone := EvalM.safe_throw ⟨hv, hnone⟩
  rel_lookup _ hn := EvalM.safe_lookup hn
  rel_bindName n _ _ hv := EvalM.safe_bindName n hv
  rel_print v s hframes hs := .ok (EvalM.keeps_print v.inspect s hframes) hs trivial
  rel_applied params values s hframes hs :=
    .ok (EvalM.keeps_note (.applied params values) s hframes) hs trivial
  rel_inScope h := EvalM.safe_inScope h

theorem evaluateWithin_safe (V : Vocabulary) (rounds : Nat) {node : Node} (h : V.parts node) :
    (evaluateWithin rounds node).Safe V.value V.Allows V.value := by
  induction rounds generalizing node with
  | zero => exact fun s hframes hs => .error (.refl hframes) hs trivial
  | succ rounds ih =>
    have hnested : V.failing.Compares (evaluateWithin rounds) (evaluateWithin rounds) :=
      fun other hother => ih (V.parts_of_code hother)
    exact EvalM.safe_counted (EvalLogic.rel_evalNode hnested h) fun _ => trivial

/-- Every evaluation keeps the frames, stays in its vocabulary and fails only as the vocabulary
allows. -/
theorem evaluate_safe (V : Vocabulary) {node : Node} (h : V.parts node) :
    (evaluate node).Safe V.value V.Allows V.value :=
  fun s hframes hs => evaluateWithin_safe V s.room h s hframes hs

/-- The kinds of failure of an evaluation. -/
def FailureKind.ofEvaluation : List FailureKind :=
  [.mistyped, .malformed, .unbound, .runtime]

/-- Where no value is a hole, an evaluation fails in one of four ways. -/
theorem Vocabulary.Allows.failure {V : Vocabulary} (hhole : ¬ V.value .hole) {error : EvalError}
    (h : V.Allows error) :
    ∃ failure, error.failure? = some failure ∧ failure.kind ∈ FailureKind.ofEvaluation := by
  cases error with
  | noTruth value =>
    obtain ⟨hvalue, hnone⟩ := h
    cases value with
    | hole => exact absurd hvalue hhole
    | _ => cases hnone
  | scope cause =>
    cases cause with
    | underflow => exact h.elim
    | unbound name => exact ⟨.missing name, rfl, by simp [Failure.missing, FailureKind.ofEvaluation]⟩
  | _ => exact ⟨_, rfl, by simp [FailureKind.ofEvaluation]⟩

end FexprLisp
