import FexprLisp.Proofs.Eval.Depth

/-!
# Forms around code

Some forms only hand an evaluation on to code that stands in them: captured code that is evaluated at
once, a branch on a literal, a sequence. Such a form is one more evaluation that is open around the
code, and nothing else. Under a limit that is one higher it leads to what the code alone leads to.

## Main definitions

- `EvalError.shift`, `Machine.Outcome.shift` — the same error and the same outcome with more
  evaluations open and under a higher limit

## Main statements

- `evaluate_shift` — evaluation depends on count and limit through their difference only
- `evalLast_shift` — so do evaluations one after the other
- `evaluate_form` — a native operation, called by its name under a limit that is one higher
- `wrapping_adds_one_level` — the forms that only hand an evaluation on
-/

namespace FexprLisp

/-- The error under a limit that is so much higher. Only a refusal tells of the limit. -/
def EvalError.shift (l : Int) : EvalError → EvalError
  | .tooDeep limit => .tooDeep (limit + l)
  | error => error

theorem EvalError.shift_eq_self {error : EvalError} (h : ∀ limit, error ≠ .tooDeep limit)
    (l : Int) : error.shift l = error := by
  cases error with
  | tooDeep limit => exact absurd rfl (h limit)
  | _ => rfl

/-- The outcome with so many more evaluations open, and under a limit so much higher. -/
def Machine.Outcome.shift (d l : Int) {α : Type} : Outcome EvalError α → Outcome EvalError α
  | .ok a m => .ok a (m.shift d l)
  | .error error m => .error (error.shift l) (m.shift d l)

-- ════════════════════════════════════════════════════════════════════════
-- As many more evaluations open as the limit is higher
-- ════════════════════════════════════════════════════════════════════════

/-- Evaluation depends on the count of open evaluations and the limit through their difference. -/
theorem evaluate_shift (node : Node) {s : State} (h : s.scopes.frames ≠ []) (k : Int) :
    evaluate node (s.shift k k) = Machine.Outcome.shift k k (evaluate node s) := by
  have hfollows := evaluate_follows (Int.le_refl k) node h
  generalize evaluate node s = r at hfollows ⊢
  generalize evaluate node (s.shift k k) = r' at hfollows ⊢
  cases hfollows with
  | ok a t => rfl
  | error e t he => rw [Machine.Outcome.shift, EvalError.shift_eq_self he]
  | refused t => rfl
  | cut t _ hlt => exact absurd hlt (Int.lt_irrefl k)

/-- So do evaluations one after the other, up to the first that fails. -/
theorem evalLast_shift (nodes : List Node) {s : State} (h : s.scopes.frames ≠ []) (last : Value)
    (k : Int) :
    evalLast evaluate last nodes (s.shift k k) =
      Machine.Outcome.shift k k (Machine.evaluateEach s last nodes) := by
  induction nodes generalizing s last with
  | nil => rfl
  | cons node nodes ih =>
    have hnode := evaluate_shift node h k
    have hkept := evaluate_keeps node s h
    rw [evalLast, Machine.evaluateEach, Machine.evaluate, Machine.perform]
    cases hrun : evaluate node s with
    | ok value t =>
      rw [hrun] at hnode
      rw [EvalM.final_of_ok hrun] at hkept
      rw [EvalM.bind_of_ok hnode]
      exact ih hkept.frames_ne_nil value
    | error e t =>
      rw [hrun] at hnode
      rw [EvalM.bind_of_error hnode]
      rfl

-- ════════════════════════════════════════════════════════════════════════
-- Native operations under a limit that is one higher
-- ════════════════════════════════════════════════════════════════════════

namespace State

theorem opened_shift_one (s : State) : (s.shift 0 1).opened = s.shift 1 1 := by
  simp only [opened, shift, Int.add_zero]

theorem closed_shift_one (s : State) : (s.shift 1 1).closed = s.shift 0 1 := by
  have hdepth : s.depth + 1 - 1 = s.depth + 0 := by omega
  simp only [closed, shift, hdepth]

end State

theorem Scopes.frames_ne_nil_of_lookup? {α : Type} {scopes : Scopes α} {name : String} {value : α}
    (h : scopes.lookup? name = some value) : scopes.frames ≠ [] := by
  obtain ⟨frames⟩ := scopes
  rintro rfl
  cases h

/-- Where not even its head can be evaluated, a form is refused. -/
theorem evaluate_form_refused {s : State} (h : s.room = 0) (head : Node) (args : List Node) :
    evaluate (.list (head :: args)) (s.shift 0 1) =
      .error (.tooDeep (s.limit + 1)) (s.shift 0 1) := by
  rw [evaluate_eq]
  by_cases hform : (s.shift 0 1).room = 0
  · exact EvalM.counted_of_room_zero hform _
  · have hinside : (s.shift 0 1).opened.room = 0 := by
      rw [s.opened_shift_one, s.room_shift_self, h]
    have hhead : evaluate head (s.shift 0 1).opened =
        .error (.tooDeep (s.limit + 1)) (s.shift 0 1).opened :=
      evaluateWithin_of_room_zero hinside _ head
    have hnode : evalNode evaluate (.list (head :: args)) (s.shift 0 1).opened =
        .error (.tooDeep (s.limit + 1)) (s.shift 0 1).opened := by
      rw [evalNode, EvalM.bind_of_error hhead]
    rw [EvalM.counted_of_error hform hnode, State.closed_opened]

/-- A native operation that is called by its name under a limit that is one higher. The name is looked
up once, before any argument is evaluated. What the call leads to is told by what the operation does
where one more evaluation is open. -/
theorem evaluate_form {s : State} {name bound : String} {operation : Primitive}
    (hname : s.scopes.lookup? name = some (.intrinsic bound operation)) {args : List Node}
    {result : Machine.Outcome EvalError Value}
    (hrefused : s.room = 0 → result = .error (.tooDeep s.limit) s)
    (hcall : s.room ≠ 0 → operation.call evaluate args (s.shift 1 1) = result.shift 1 1) :
    evaluate (.list (.ident name :: args)) (s.shift 0 1) = result.shift 0 1 := by
  by_cases hroom : s.room = 0
  · rw [hrefused hroom]
    exact evaluate_form_refused hroom (.ident name) args
  have hform : (s.shift 0 1).room ≠ 0 := by
    have hmore := s.room_le_shift (show (0 : Int) ≤ 1 by decide)
    omega
  have hinside : (s.shift 1 1).room ≠ 0 := by rwa [s.room_shift_self]
  have hhead : evaluate (.ident name) (s.shift 1 1) =
      .ok (.intrinsic bound operation) (s.shift 1 1) :=
    evaluate_of_evalNode hinside (EvalM.lookup_of_some hname)
  have hnode : evalNode evaluate (.list (.ident name :: args)) (s.shift 0 1).opened =
      result.shift 1 1 := by
    rw [s.opened_shift_one, evalNode, EvalM.bind_of_ok hhead]
    exact hcall hroom
  rw [evaluate_eq]
  cases result with
  | ok value t =>
    rw [EvalM.counted_of_ok hform hnode, t.closed_shift_one]
    rfl
  | error e t =>
    rw [EvalM.counted_of_error hform hnode, t.closed_shift_one]
    rfl

-- ════════════════════════════════════════════════════════════════════════
-- Forms that only hand an evaluation on
-- ════════════════════════════════════════════════════════════════════════

section HandOn

variable {s : State} {name bound : String}

theorem evaluate_unquote (hname : s.scopes.lookup? name = some (.intrinsic bound .unquote))
    (code : Node) :
    evaluate (.list [.ident name, .quote code]) (s.shift 0 1) =
      Machine.Outcome.shift 0 1 (evaluate code s) := by
  refine evaluate_form hname (fun hroom => evaluateWithin_of_room_zero hroom _ code) ?_
  intro hroom
  have hinside : (s.shift 1 1).room ≠ 0 := by rwa [s.room_shift_self]
  have hquote : evaluate (.quote code) (s.shift 1 1) = .ok (.quote code) (s.shift 1 1) :=
    evaluate_of_evalNode hinside rfl
  rw [Primitive.call, Form.unquote, EvalM.bind_of_ok hquote]
  exact evaluate_shift code (Scopes.frames_ne_nil_of_lookup? hname) 1

/-- A branch on a literal evaluates the arm that the literal chooses, and not the other. -/
theorem evaluate_branch (hname : s.scopes.lookup? name = some (.intrinsic bound .branch))
    (k : Int) (whenTrue whenFalse : Node) :
    evaluate (.list [.ident name, .int k, whenTrue, whenFalse]) (s.shift 0 1) =
      Machine.Outcome.shift 0 1 (evaluate (if k ≠ 0 then whenTrue else whenFalse) s) := by
  refine evaluate_form hname (fun hroom => evaluateWithin_of_room_zero hroom _ _) ?_
  intro hroom
  have hinside : (s.shift 1 1).room ≠ 0 := by rwa [s.room_shift_self]
  have hliteral : evaluate (.int k) (s.shift 1 1) = .ok (.int k) (s.shift 1 1) :=
    evaluate_of_evalNode hinside rfl
  have hframes := Scopes.frames_ne_nil_of_lookup? hname
  rw [Primitive.call, Form.branch, EvalM.bind_of_ok hliteral]
  by_cases hk : k = 0
  · subst hk
    exact evaluate_shift whenFalse hframes 1
  · have htruth : (Value.int k).truth? = some true := by simp [Value.truth?, hk]
    rw [htruth, if_pos hk]
    exact evaluate_shift whenTrue hframes 1

theorem evaluate_sequence (hname : s.scopes.lookup? name = some (.intrinsic bound .sequence))
    (first : Node) (later : List Node) :
    evaluate (.list (.ident name :: first :: later)) (s.shift 0 1) =
      Machine.Outcome.shift 0 1 (Machine.evaluateEach s .empty (first :: later)) := by
  refine evaluate_form hname (fun hroom => ?_) fun _ => ?_
  · have hfirst : Machine.evaluate s first = .error (.tooDeep s.limit) s :=
      evaluateWithin_of_room_zero hroom _ first
    rw [Machine.evaluateEach, hfirst]
  · exact evalLast_shift (first :: later) (Scopes.frames_ne_nil_of_lookup? hname) .empty 1

end HandOn

/-- Forms that only hand an evaluation on add one level of depth and nothing else. Under a limit that
is one higher, captured code that is evaluated at once, and a branch on a literal, lead to what the
code or the chosen arm leads to, and a sequence to what its steps lead to one after the other, up to
the first that fails. Frames and printed lines are the same, and so are values and errors, but that a
refusal tells of the higher limit. What the code binds anew does not matter, not even the name of the
form. -/
theorem wrapping_adds_one_level (m : Machine) (name bound : String) :
    (m.scopes.lookup? name = some (.intrinsic bound .unquote) → ∀ code,
      Machine.evaluate (m.shift 0 1) (.list [.ident name, .quote code]) =
        (m.evaluate code).shift 0 1) ∧
    (m.scopes.lookup? name = some (.intrinsic bound .branch) → ∀ code other,
      (∀ k : Int, k ≠ 0 →
        Machine.evaluate (m.shift 0 1) (.list [.ident name, .int k, code, other]) =
          (m.evaluate code).shift 0 1) ∧
      Machine.evaluate (m.shift 0 1) (.list [.ident name, .int 0, other, code]) =
        (m.evaluate code).shift 0 1) ∧
    (m.scopes.lookup? name = some (.intrinsic bound .sequence) → ∀ first later,
      Machine.evaluate (m.shift 0 1) (.list (.ident name :: first :: later)) =
        (m.evaluateEach .empty (first :: later)).shift 0 1) := by
  refine ⟨fun hname code => evaluate_unquote hname code, fun hname code other => ⟨?_, ?_⟩,
    fun hname first later => evaluate_sequence hname first later⟩
  · intro k hk
    have hbranch := evaluate_branch hname k code other
    rwa [if_pos hk] at hbranch
  · exact evaluate_branch hname 0 other code

/-- A sequence binds its own name anew and then evaluates it. Under a limit that is one lower, there is
no room for the binding, neither alone nor behind a branch or a quotation. -/
theorem wrapping_adds_one_level_rebound :
    let base : Frame Value := ⟨[("let", .intrinsic "let" .define), ("do", .intrinsic "do" .sequence),
      ("if", .intrinsic "if" .branch), ("unquote", .intrinsic "unquote" .unquote)]⟩
    let m : Machine := { scopes := ⟨[base]⟩, limit := 2 }
    let lower : Machine := { m with limit := 1 }
    let rebind : Node := .list [.ident "let", .ident "do", .int 5]
    (∃ after, m.evaluateEach .empty [rebind, .ident "do"] = .ok (.int 5) after ∧
      Machine.evaluate (m.shift 0 1) (.list [.ident "do", rebind, .ident "do"]) =
        .ok (.int 5) (after.shift 0 1)) ∧
    lower.evaluate rebind = .error (.tooDeep 1) lower ∧
    Machine.evaluate (lower.shift 0 1) (.list [.ident "unquote", .quote rebind]) =
      .error (.tooDeep 2) (lower.shift 0 1) ∧
    Machine.evaluate (lower.shift 0 1) (.list [.ident "if", .int (-3), rebind, .hole]) =
      .error (.tooDeep 2) (lower.shift 0 1) ∧
    Machine.evaluate (lower.shift 0 1) (.list [.ident "if", .int 0, .hole, rebind]) =
      .error (.tooDeep 2) (lower.shift 0 1) := by
  intro base m lower rebind
  have hrun : ∃ after, m.evaluateEach .empty [rebind, .ident "do"] = .ok (.int 5) after :=
    ⟨_, rfl⟩
  have hrefused : lower.evaluate rebind = .error (.tooDeep 1) lower := rfl
  obtain ⟨after, hafter⟩ := hrun
  have hsequence := (wrapping_adds_one_level m "do" "do").2.2 rfl rebind [.ident "do"]
  have hunquote := (wrapping_adds_one_level lower "unquote" "unquote").1 rfl rebind
  have hbranch := (wrapping_adds_one_level lower "if" "if").2.1 rfl rebind .hole
  rw [hafter] at hsequence
  rw [hrefused] at hunquote hbranch
  exact ⟨⟨after, hafter, hsequence⟩, hrefused, hunquote, hbranch.1 (-3) (by decide), hbranch.2⟩

end FexprLisp
