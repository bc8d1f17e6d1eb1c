import FexprLisp.Machine.Basic

/-!
# Runs of computations

What a computation does to the state that it is run on. Scopes and open evaluations are brackets
around a computation: something is done before it, it runs, and then the same is undone on every
path.

## Main definitions

- `Machine.Outcome.value?`, `Machine.Outcome.error?` — the result and the error of an operation
- `EvalM.final` — the state in which a computation ends, with or without a result
- `State.entered`, `State.left` — around a scope
- `State.opened`, `State.closed` — around an evaluation

## Main statements

- `EvalM.inScope_apply`, `EvalM.counted_apply` — the brackets, spelled out
- `EvalM.final_inScope`, `EvalM.final_counted` — the states behind them
- `evaluateWithin_succ` — one round of an evaluation
-/

namespace FexprLisp

namespace Machine.Outcome

variable {ε α : Type}

/-- The result that an operation led to. -/
def value? : Outcome ε α → Option α
  | .ok a _ => some a
  | .error _ _ => none

/-- The error that an operation led to. -/
def error? : Outcome ε α → Option ε
  | .ok _ _ => none
  | .error error _ => some error

theorem eq_ok_of_value? {r : Outcome ε α} {a : α} (h : r.value? = some a) :
    r = .ok a r.machine := by
  cases r with
  | ok b m =>
    cases h
    rfl
  | error error m => cases h

theorem eq_error_of_error? {r : Outcome ε α} {error : ε} (h : r.error? = some error) :
    r = .error error r.machine := by
  cases r with
  | ok a m => cases h
  | error found m =>
    cases h
    rfl

end Machine.Outcome

namespace EvalM

variable {α β : Type}

/-- The state in which a computation ends, with or without a result. -/
def final (x : EvalM α) (s : State) : State :=
  (Machine.perform s x).machine

theorem final_of_ok {x : EvalM α} {s t : State} {a : α} (h : x s = .ok a t) : final x s = t := by
  rw [final, Machine.perform, h, Machine.Outcome.machine_ok]

theorem final_of_error {x : EvalM α} {s t : State} {e : EvalError} (h : x s = .error e t) :
    final x s = t := by
  rw [final, Machine.perform, h, Machine.Outcome.machine_error]

theorem bind_of_ok {x : EvalM α} {s t : State} {a : α} (h : x s = .ok a t) (f : α → EvalM β) :
    (x >>= f) s = f a t := by
  simp only [Bind.bind, EStateM.bind, h]

theorem bind_of_error {x : EvalM α} {s t : State} {e : EvalError} (h : x s = .error e t)
    (f : α → EvalM β) : (x >>= f) s = .error e t := by
  simp only [Bind.bind, EStateM.bind, h]

end EvalM

namespace State

/-- The state inside a scope that has just been entered. -/
def entered (s : State) : State :=
  { s with scopes := s.scopes.enter, journal := s.journal.push (.entered s.scopes.enter.depth) }

/-- The state behind a scope that has just been left, with the scopes that are still there. -/
def left (s : State) (scopes : Scopes Value) : State :=
  { s with scopes, journal := s.journal.push (.left scopes.depth) }

/-- The state with one more evaluation open. -/
def opened (s : State) : State :=
  { s with depth := s.depth + 1 }

/-- The state with one evaluation less open. -/
def closed (s : State) : State :=
  { s with depth := s.depth - 1 }

theorem closed_opened (s : State) : s.opened.closed = s := by
  simp [opened, closed]

theorem room_opened (s : State) : s.opened.room = s.room - 1 := by
  simp only [room, opened]
  omega

theorem room_eq_zero_iff (s : State) : s.room = 0 ↔ s.limit < s.depth + 1 := by
  simp only [room]
  omega

end State

namespace EvalM

variable {α : Type}

theorem lookup_of_some {name : String} {s : State} {value : Value}
    (h : s.scopes.lookup? name = some value) : lookup name s = .ok value s := by
  simp only [lookup, h]

theorem lookup_of_none {name : String} {s : State} (h : s.scopes.lookup? name = none) :
    lookup name s = .error (.scope (.unbound name)) s := by
  simp only [lookup, h]

theorem bind_of_frames {s : State} {top : Frame Value} {outer : List (Frame Value)}
    (h : s.scopes.frames = top :: outer) (name : String) (value : Value) :
    EvalM.bind name value s = .ok () { s with scopes := ⟨top.bind name value :: outer⟩ } := by
  have hbind : s.scopes.bind name value = .ok ⟨top.bind name value :: outer⟩ := by
    simp only [Scopes.bind, h]
  simp only [bind, onScopes, hbind]

theorem bind_of_no_frames {s : State} (h : s.scopes.frames = []) (name : String) (value : Value) :
    EvalM.bind name value s = .error (.scope .underflow) s := by
  have hbind : s.scopes.bind name value = .error .underflow := by
    simp only [Scopes.bind, h]
  simp only [bind, onScopes, hbind]

/-- A scope is entered, the computation runs, and the scope is left on every path. -/
theorem inScope_apply (x : EvalM α) (s : State) :
    inScope x s =
      match x s.entered with
      | .ok a t =>
        match t.scopes.leave with
        | .ok scopes => .ok a (t.left scopes)
        | .error e => .error (.scope e) t
      | .error error t =>
        match t.scopes.leave with
        | .ok scopes => .error error (t.left scopes)
        | .error e => .error (.scope e) t := by
  have hrun : inScope x s =
      match x s.entered with
      | .ok a t => (do leave; pure a : EvalM α) t
      | .error error t => (do leave; throw error : EvalM α) t := rfl
  rw [hrun]
  cases x s.entered with
  | ok a t =>
    simp only [Bind.bind, EStateM.bind, leave]
    cases t.scopes.leave <;> rfl
  | error error t =>
    simp only [Bind.bind, EStateM.bind, leave]
    cases t.scopes.leave <;> rfl

theorem inScope_of_ok {x : EvalM α} {s t : State} {a : α} {scopes : Scopes Value}
    (h : x s.entered = .ok a t) (hleave : t.scopes.leave = .ok scopes) :
    inScope x s = .ok a (t.left scopes) := by
  simp only [inScope_apply, h, hleave]

theorem inScope_of_error {x : EvalM α} {s t : State} {e : EvalError} {scopes : Scopes Value}
    (h : x s.entered = .error e t) (hleave : t.scopes.leave = .ok scopes) :
    inScope x s = .error e (t.left scopes) := by
  simp only [inScope_apply, h, hleave]

theorem ok_of_inScope {x : EvalM α} {s t : State} {a : α} (h : inScope x s = .ok a t) :
    ∃ u, x s.entered = .ok a u := by
  rw [inScope_apply] at h
  cases hx : x s.entered with
  | ok b u =>
    cases hleave : u.scopes.leave with
    | ok scopes =>
      simp only [hx, hleave, EStateM.Result.ok.injEq] at h
      exact ⟨u, by rw [h.1]⟩
    | error e => simp [hx, hleave] at h
  | error e u => cases hleave : u.scopes.leave <;> simp [hx, hleave] at h

/-- An evaluation is opened, or refused if there is no room, and it is closed on every path. -/
theorem counted_apply (x : EvalM α) (s : State) :
    counted x s =
      if s.room = 0 then .error (.tooDeep s.limit) s
      else
        match x s.opened with
        | .ok a t => .ok a t.closed
        | .error error t => .error error t.closed := by
  have hrun : counted x s =
      match (if s.limit < s.depth + 1 then refuse else x) s.opened with
      | .ok a t => .ok a t.closed
      | .error error t => .error error t.closed := rfl
  rw [hrun]
  by_cases hroom : s.room = 0
  · rw [if_pos hroom, if_pos ((State.room_eq_zero_iff s).1 hroom)]
    simp only [refuse, State.closed_opened]
    rfl
  · rw [if_neg hroom, if_neg (mt (State.room_eq_zero_iff s).2 hroom)]

theorem counted_of_room_zero {s : State} (h : s.room = 0) (x : EvalM α) :
    counted x s = .error (.tooDeep s.limit) s := by
  rw [counted_apply, if_pos h]

theorem counted_of_ok {x : EvalM α} {s t : State} {a : α} (hroom : s.room ≠ 0)
    (h : x s.opened = .ok a t) : counted x s = .ok a t.closed := by
  rw [counted_apply, if_neg hroom, h]

theorem counted_of_error {x : EvalM α} {s t : State} {e : EvalError} (hroom : s.room ≠ 0)
    (h : x s.opened = .error e t) : counted x s = .error e t.closed := by
  rw [counted_apply, if_neg hroom, h]

-- ════════════════════════════════════════════════════════════════════════
-- Final states
-- ════════════════════════════════════════════════════════════════════════

theorem final_throw (e : EvalError) (s : State) : final (throw e : EvalM α) s = s := rfl

theorem final_print (line : String) (s : State) :
    final (print line) s = { s with output := s.output.push line } := rfl

theorem final_note (entry : Entry) (s : State) :
    final (note entry) s = { s with journal := s.journal.push entry } := rfl

theorem final_lookup (name : String) (s : State) : final (lookup name) s = s := by
  cases h : s.scopes.lookup? name with
  | some value => exact final_of_ok (lookup_of_some h)
  | none => exact final_of_error (lookup_of_none h)

theorem final_seq {β : Type} (x : EvalM α) (f : α → EvalM β) (s : State) :
    final (x >>= f) s = match x s with
      | .ok a t => final (f a) t
      | .error _ t => t := by
  cases h : x s with
  | ok a t =>
    unfold final Machine.perform
    rw [bind_of_ok h]
  | error e t => rw [final_of_error (bind_of_error h f)]

theorem final_inScope (x : EvalM α) (s : State) :
    final (inScope x) s = match (final x s.entered).scopes.leave with
      | .ok scopes => (final x s.entered).left scopes
      | .error _ => final x s.entered := by
  cases hx : x s.entered with
  | ok a t =>
    rw [final_of_ok hx]
    cases hleave : t.scopes.leave with
    | ok scopes => exact final_of_ok (inScope_of_ok hx hleave)
    | error e =>
      have hrun : inScope x s = .error (.scope e) t := by simp only [inScope_apply, hx, hleave]
      exact final_of_error hrun
  | error e t =>
    rw [final_of_error hx]
    cases hleave : t.scopes.leave with
    | ok scopes => exact final_of_error (inScope_of_error hx hleave)
    | error e' =>
      have hrun : inScope x s = .error (.scope e') t := by simp only [inScope_apply, hx, hleave]
      exact final_of_error hrun

theorem final_counted (x : EvalM α) (s : State) :
    final (counted x) s = if s.room = 0 then s else (final x s.opened).closed := by
  by_cases hroom : s.room = 0
  · rw [if_pos hroom, final_of_error (counted_of_room_zero hroom x)]
  · rw [if_neg hroom]
    cases hx : x s.opened with
    | ok a t => rw [final_of_ok hx, final_of_ok (counted_of_ok hroom hx)]
    | error e t => rw [final_of_error hx, final_of_error (counted_of_error hroom hx)]

end EvalM

theorem evaluateWithin_succ (rounds : Nat) (node : Node) :
    evaluateWithin (rounds + 1) node = EvalM.counted (evalNode (evaluateWithin rounds) node) := rfl

end FexprLisp
