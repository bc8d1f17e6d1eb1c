import FexprLisp.Proofs.Eval.Logic

/-!
# Evaluation by unlimited recursion

`evaluate` recurs on a number of rounds, which it takes from the room that the state has. The number
never shows: evaluation obeys the equation of an evaluator that recurs without any bound and only
counts open evaluations. Unrolling that equation often enough gives the same result whatever stands
where the unrolling stops, so the recursion never gets there: the count alone makes evaluation end.

## Main definitions

- `SameCount` — as many evaluations are open, under the same limit
- `agreeWithin` — computations that agree wherever there is only so much room
- `unrolled` — the equation of evaluation, unrolled a number of times

## Main statements

- `agreeWithin_rounds` — more rounds than there is room change nothing
- `evaluate_eq` — the equation of evaluation
- `unrolled_eq_evaluate` — it need not be unrolled more often than there is room
-/

namespace FexprLisp

/-- As many evaluations are open, under the same limit. -/
structure SameCount (s t : State) : Prop where
  depth : t.depth = s.depth
  limit : t.limit = s.limit

namespace SameCount

theorem refl (s : State) : SameCount s s := ⟨rfl, rfl⟩

theorem trans {s t u : State} (h : SameCount s t) (h' : SameCount t u) : SameCount s u :=
  ⟨h'.depth.trans h.depth, h'.limit.trans h.limit⟩

theorem room_eq {s t : State} (h : SameCount s t) : t.room = s.room := by
  rw [State.room, State.room, h.depth, h.limit]

theorem bind (name : String) (value : Value) (s : State) :
    SameCount s (EvalM.final (EvalM.bind name value) s) := by
  cases hs : s.scopes.frames with
  | nil =>
    rw [EvalM.final_of_error (EvalM.bind_of_no_frames hs name value)]
    exact refl s
  | cons top outer =>
    rw [EvalM.final_of_ok (EvalM.bind_of_frames hs name value)]
    exact ⟨rfl, rfl⟩

theorem inScope {α : Type} {x : EvalM α} {s : State} (h : SameCount s (EvalM.final x s.entered)) :
    SameCount s (EvalM.final (EvalM.inScope x) s) := by
  rw [EvalM.final_inScope]
  cases (EvalM.final x s.entered).scopes.leave with
  | ok scopes => exact ⟨h.depth, h.limit⟩
  | error e => exact h

theorem closed {s t : State} (h : SameCount s.opened t) : SameCount s t.closed := by
  refine ⟨?_, h.limit⟩
  have hdepth := h.depth
  simp only [State.closed, State.opened] at hdepth ⊢
  omega

theorem counted {α : Type} {x : EvalM α} {s : State}
    (h : SameCount s.opened (EvalM.final x s.opened)) :
    SameCount s (EvalM.final (EvalM.counted x) s) := by
  rw [EvalM.final_counted]
  split
  · exact refl s
  · exact h.closed

end SameCount

/-- Computations that agree, and leave the count alone, wherever there is only so much room. -/
def agreeWithin (bound : Nat) : PlainLogic where
  rel x y := ∀ s : State, s.room ≤ bound → x s = y s ∧ SameCount s (EvalM.final y s)
  rel_pure _ _ _ := ⟨rfl, .refl _⟩
  rel_bind := by
    intro α β x y f g hx hf s hs
    obtain ⟨heq, hcount⟩ := hx s hs
    cases hy : y s with
    | ok a t =>
      rw [EvalM.final_of_ok hy] at hcount
      rw [hy] at heq
      rw [EvalM.bind_of_ok heq, EvalM.bind_of_ok hy, EvalM.final_seq, hy]
      obtain ⟨heq', hcount'⟩ := hf a s t (.inl heq) t (by rwa [hcount.room_eq])
      exact ⟨heq', hcount.trans hcount'⟩
    | error e t =>
      rw [EvalM.final_of_error hy] at hcount
      rw [hy] at heq
      rw [EvalM.bind_of_error heq, EvalM.bind_of_error hy, EvalM.final_seq, hy]
      exact ⟨rfl, hcount⟩
  rel_throw _ _ _ _ := ⟨rfl, .refl _⟩
  rel_lookup n s _ := ⟨rfl, by rw [EvalM.final_lookup]; exact .refl s⟩
  rel_bindName n v s _ := ⟨rfl, .bind n v s⟩
  rel_print _ _ _ := ⟨rfl, ⟨rfl, rfl⟩⟩
  rel_applied _ _ _ _ := ⟨rfl, ⟨rfl, rfl⟩⟩
  rel_inScope := by
    intro α x y h s hs
    obtain ⟨heq, hcount⟩ := h s.entered hs
    refine ⟨?_, SameCount.inScope ⟨hcount.depth, hcount.limit⟩⟩
    rw [EvalM.inScope_apply, EvalM.inScope_apply, heq]

/-- One more evaluation may be open around computations that agree with less room. -/
theorem agreeWithin_counted {bound : Nat} {x y : EvalM Value} (h : (agreeWithin bound).rel x y) :
    (agreeWithin (bound + 1)).rel (EvalM.counted x) (EvalM.counted y) := by
  intro s hs
  have hroom : s.opened.room ≤ bound := by
    rw [State.room_opened]
    omega
  obtain ⟨heq, hcount⟩ := h s.opened hroom
  refine ⟨?_, .counted hcount⟩
  rw [EvalM.counted_apply, EvalM.counted_apply, heq]

theorem agreeWithin_zero {x y : EvalM Value}
    (hx : ∀ s : State, s.room = 0 → x s = .error (.tooDeep s.limit) s)
    (hy : ∀ s : State, s.room = 0 → y s = .error (.tooDeep s.limit) s) :
    (agreeWithin 0).rel x y := by
  intro s hs
  have hroom : s.room = 0 := Nat.le_zero.1 hs
  rw [EvalM.final_of_error (hy s hroom), hx s hroom, hy s hroom]
  exact ⟨rfl, .refl s⟩

theorem evaluateWithin_of_room_zero {s : State} (h : s.room = 0) (rounds : Nat) (node : Node) :
    evaluateWithin rounds node s = .error (.tooDeep s.limit) s := by
  cases rounds with
  | zero => rfl
  | succ rounds => exact EvalM.counted_of_room_zero h _

/-- More rounds than there is room change nothing. -/
theorem agreeWithin_rounds (bound : Nat) : ∀ {rounds rounds' : Nat}, bound ≤ rounds →
    bound ≤ rounds' → ∀ node,
    (agreeWithin bound).rel (evaluateWithin rounds node) (evaluateWithin rounds' node) := by
  induction bound with
  | zero =>
    intro rounds rounds' _ _ node
    exact agreeWithin_zero (fun s hs => evaluateWithin_of_room_zero hs rounds node)
      fun s hs => evaluateWithin_of_room_zero hs rounds' node
  | succ bound ih =>
    intro rounds rounds' hr hr' node
    obtain ⟨n, rfl⟩ := Nat.exists_eq_add_of_le' hr
    obtain ⟨n', rfl⟩ := Nat.exists_eq_add_of_le' hr'
    rw [← Nat.add_assoc, ← Nat.add_assoc, evaluateWithin_succ, evaluateWithin_succ]
    exact agreeWithin_counted (PlainLogic.rel_evalNode (ih (by omega) (by omega)) node)

/-- Evaluation obeys the equation of an evaluator that recurs without any bound. -/
theorem evaluate_eq (node : Node) : evaluate node = EvalM.counted (evalNode evaluate node) := by
  funext s
  cases hroom : s.room with
  | zero =>
    rw [EvalM.counted_of_room_zero hroom, evaluate, evaluateWithin_of_room_zero hroom]
  | succ room =>
    -- inside, there is room for as many evaluations as there are rounds left
    have hinside : ∀ other, (agreeWithin room).rel (evaluateWithin room other) (evaluate other) :=
      fun other t ht => agreeWithin_rounds t.room ht (Nat.le_refl _) other t (Nat.le_refl _)
    have hround := agreeWithin_counted (PlainLogic.rel_evalNode hinside node)
    rw [evaluate, hroom, evaluateWithin_succ]
    exact (hround s (by omega)).1

/-- An evaluation without any effect is one also as it is counted. -/
theorem evaluate_of_evalNode {node : Node} {s : State} {value : Value} (hroom : s.room ≠ 0)
    (h : evalNode evaluate node s.opened = .ok value s.opened) : evaluate node s = .ok value s := by
  rw [evaluate_eq, EvalM.counted_of_ok hroom h, State.closed_opened]

/-- The equation of evaluation, unrolled so many times; below that, anything. -/
def unrolled (below : Evaluator) : (times : Nat) → Evaluator
  | 0 => below
  | times + 1 => fun node => EvalM.counted (evalNode (unrolled below times) node)

theorem agreeWithin_unrolled (below : Evaluator) (bound : Nat) : ∀ {times : Nat}, bound < times →
    ∀ node, (agreeWithin bound).rel (unrolled below times node) (evaluate node) := by
  induction bound with
  | zero =>
    intro times h node
    obtain ⟨n, rfl⟩ := Nat.exists_eq_add_of_lt h
    rw [evaluate_eq]
    exact agreeWithin_zero (fun s hs => EvalM.counted_of_room_zero hs _)
      fun s hs => EvalM.counted_of_room_zero hs _
  | succ bound ih =>
    intro times h node
    obtain ⟨n, rfl⟩ := Nat.exists_eq_add_of_lt h
    rw [evaluate_eq]
    exact agreeWithin_counted (PlainLogic.rel_evalNode (ih (by omega)) node)

/-- Unrolled once more than there is room, the equation never gets to what is below. -/
theorem unrolled_eq_evaluate (below : Evaluator) {s : State} {times : Nat} (h : s.room < times)
    (node : Node) : unrolled below times node s = evaluate node s :=
  (agreeWithin_unrolled below s.room h node s (Nat.le_refl _)).1

end FexprLisp
