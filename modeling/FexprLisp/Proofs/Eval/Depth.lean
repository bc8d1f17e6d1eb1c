import FexprLisp.Proofs.Eval.Frames

/-!
# Transparency of the depth guard

Two runs of the same program that differ only in how many evaluations are open and in how many may
be. With at least as much room, the second run does what the first one does until the first one is
refused an evaluation; with exactly as much room, it is refused the same one.

## Main definitions

- `State.shift` — more evaluations open, and a higher limit
- `Follows` — how the outcome of the second run follows that of the first
- `EvalM.Deepens`, `deepens` — computations whose outcomes follow each other

## Main statements

- `EvalM.deepens_seq`, `EvalM.deepens_inScope` — such computations one after the other and in a scope
- `deepens_rounds` — evaluation with more rounds follows evaluation with fewer
- `evaluate_follows` — so does evaluation with more room
- `depth_guard_transparent` — the limit shows in refusals only
-/

namespace FexprLisp

/-- The state with so many more evaluations open, and a limit so much higher. -/
def State.shift (s : State) (d l : Int) : State :=
  { s with depth := s.depth + d, limit := s.limit + l }

namespace State

variable (s : State) {d l : Int}

theorem opened_shift : (s.shift d l).opened = s.opened.shift d l := by
  simp only [opened, shift, Int.add_right_comm]

theorem closed_shift : (s.shift d l).closed = s.closed.shift d l := by
  have hdepth : s.depth + d - 1 = s.depth - 1 + d := by omega
  simp only [closed, shift, hdepth]

theorem room_le_shift (h : d ≤ l) : s.room ≤ (s.shift d l).room := by
  simp only [room, shift]
  omega

theorem room_shift_self : (s.shift d d).room = s.room := by
  simp only [room, shift]
  omega

end State

/-- How the outcome of a run follows that of the same run with less room. Either the runs are the
same, or the first one was refused an evaluation for which the second one may have had room; up to
then both have printed the same. -/
inductive Follows (d l limit : Int) {α : Type} :
    Machine.Outcome EvalError α → Machine.Outcome EvalError α → Prop where
  | ok (a : α) (t : State) : Follows d l limit (.ok a t) (.ok a (t.shift d l))
  | error (e : EvalError) (t : State) (h : ∀ n, e ≠ .tooDeep n) :
    Follows d l limit (.error e t) (.error e (t.shift d l))
  | refused (t : State) :
    Follows d l limit (.error (.tooDeep limit) t) (.error (.tooDeep (limit + l)) (t.shift d l))
  | cut (t : State) (r : Machine.Outcome EvalError α) (h : d < l)
    (houtput : t.output.toList <+: r.machine.output.toList) :
    Follows d l limit (.error (.tooDeep limit) t) r

-- ════════════════════════════════════════════════════════════════════════
-- Computations that follow each other
-- ════════════════════════════════════════════════════════════════════════

namespace EvalM

/-- Both keep the frames, and the second follows the first, wherever there are frames. -/
structure Deepens (d l : Int) {α : Type} (x y : EvalM α) : Prop where
  follows : ∀ s : State, s.scopes.frames ≠ [] → Follows d l s.limit (x s) (y (s.shift d l))
  keeps : keepsFrames.rel x y

variable {d l : Int} {α β : Type}

/-- A second step follows where the first one does. If the first run was refused in the first step,
the second run may go on alone, and only adds to what it has printed. -/
theorem deepens_seq {x y : EvalM α} {f g : α → EvalM β} (hx : Deepens d l x y)
    (hf : ∀ a s t, x s = .ok a t ∨ y s = .ok a t → Deepens d l (f a) (g a)) :
    Deepens d l (x >>= f) (y >>= g) := by
  refine ⟨fun s h => ?_, keepsFrames.rel_bind hx.keeps fun a s t hrun => (hf a s t hrun).keeps⟩
  have hfirst := hx.follows s h
  have hkept := hx.keeps.1 s h
  have hkept' := hx.keeps.2 (s.shift d l) h
  generalize hrun : x s = r at hfirst
  generalize hrun' : y (s.shift d l) = r' at hfirst
  cases hfirst with
  | ok a t =>
    rw [final_of_ok hrun] at hkept
    rw [bind_of_ok hrun, bind_of_ok hrun', ← hkept.limit]
    exact (hf a s t (.inl hrun)).follows t hkept.frames_ne_nil
  | error e t he =>
    rw [bind_of_error hrun, bind_of_error hrun']
    exact .error e t he
  | refused t =>
    rw [bind_of_error hrun, bind_of_error hrun']
    exact .refused t
  | cut t _ hlt houtput =>
    rw [bind_of_error hrun]
    cases r' with
    | error e u =>
      rw [bind_of_error hrun']
      exact .cut t _ hlt houtput
    | ok b u =>
      rw [final_of_ok hrun'] at hkept'
      rw [bind_of_ok hrun']
      have hrest := (hf b _ u (.inr hrun')).keeps.2 u hkept'.frames_ne_nil
      exact .cut t _ hlt (houtput.trans hrest.output)

theorem deepens_lookup (name : String) : Deepens d l (lookup name) (lookup name) := by
  refine ⟨fun s _ => ?_, keepsFrames.rel_lookup name⟩
  have hshift : (s.shift d l).scopes.lookup? name = s.scopes.lookup? name := rfl
  cases h : s.scopes.lookup? name with
  | some v =>
    rw [lookup_of_some h, lookup_of_some (hshift.trans h)]
    exact .ok v s
  | none =>
    rw [lookup_of_none h, lookup_of_none (hshift.trans h)]
    exact .error _ s (by simp)

theorem deepens_bindName (name : String) (value : Value) :
    Deepens d l (EvalM.bind name value) (EvalM.bind name value) := by
  refine ⟨fun s h => ?_, keepsFrames.rel_bindName name value⟩
  have hshift : (s.shift d l).scopes.frames = s.scopes.frames := rfl
  cases hs : s.scopes.frames with
  | nil => exact absurd hs h
  | cons top outer =>
    rw [bind_of_frames hs, bind_of_frames (hshift.trans hs)]
    exact .ok () _

/-- Both runs leave the scope as they entered it, on every path. -/
theorem deepens_inScope {x y : EvalM α} (hx : Deepens d l x y) :
    Deepens d l (inScope x) (inScope y) := by
  refine ⟨fun s h => ?_, keepsFrames.rel_inScope hx.keeps⟩
  have h' : (s.shift d l).scopes.frames ≠ [] := h
  have hinside := hx.follows s.entered (List.cons_ne_nil _ _)
  have hkept := hx.keeps.1 s.entered (List.cons_ne_nil _ _)
  have hkept' := hx.keeps.2 (s.shift d l).entered (List.cons_ne_nil _ _)
  generalize hrun : x s.entered = r at hinside
  generalize hrun' : y (s.entered.shift d l) = r' at hinside
  cases hinside with
  | ok a t =>
    rw [inScope_ok_of_kept h hkept hrun, inScope_ok_of_kept h' hkept' hrun']
    exact .ok a _
  | error e t he =>
    rw [inScope_error_of_kept h hkept hrun, inScope_error_of_kept h' hkept' hrun']
    exact .error e _ he
  | refused t =>
    rw [inScope_error_of_kept h hkept hrun, inScope_error_of_kept h' hkept' hrun']
    exact .refused _
  | cut t _ hlt houtput =>
    rw [inScope_error_of_kept h hkept hrun]
    cases r' with
    | ok b u =>
      rw [inScope_ok_of_kept h' hkept' hrun']
      exact .cut _ _ hlt houtput
    | error e u =>
      rw [inScope_error_of_kept h' hkept' hrun']
      exact .cut _ _ hlt houtput

end EvalM

/-- Computations that keep the frames and follow each other. -/
def deepens (d l : Int) : PlainLogic where
  rel x y := EvalM.Deepens d l x y
  rel_pure a := ⟨fun s _ => .ok a s, keepsFrames.rel_pure a⟩
  rel_bind hx hf := EvalM.deepens_seq hx hf
  rel_throw e h := ⟨fun s _ => .error e s h, keepsFrames.rel_throw e h⟩
  rel_lookup n := EvalM.deepens_lookup n
  rel_bindName n v := EvalM.deepens_bindName n v
  rel_print v := ⟨fun _ _ => .ok () _, keepsFrames.rel_print v⟩
  rel_applied params values := ⟨fun _ _ => .ok () _, keepsFrames.rel_applied params values⟩
  rel_inScope h := EvalM.deepens_inScope h

/-- One more evaluation may be open around both. -/
theorem EvalM.deepens_counted {d l : Int} (hle : d ≤ l) {x y : EvalM Value}
    (h : Deepens d l x y) : Deepens d l (counted x) (counted y) := by
  have hkeeps : keepsFrames.rel (counted x) (counted y) :=
    ⟨keeps_counted h.keeps.1, keeps_counted h.keeps.2⟩
  refine ⟨fun s hs => ?_, hkeeps⟩
  by_cases hroom : s.room = 0
  · rw [counted_of_room_zero hroom]
    rcases Int.lt_or_eq_of_le hle with hlt | rfl
    · exact .cut s _ hlt (hkeeps.2 (s.shift d l) hs).output
    · rw [counted_of_room_zero (s.room_shift_self.trans hroom)]
      exact .refused s
  · have hroom' : (s.shift d l).room ≠ 0 := by
      have := s.room_le_shift hle
      omega
    have hinside := h.follows s.opened hs
    rw [← s.opened_shift] at hinside
    generalize hrun : x s.opened = r at hinside
    generalize hrun' : y (s.shift d l).opened = r' at hinside
    cases hinside with
    | ok a t =>
      rw [counted_of_ok hroom hrun, counted_of_ok hroom' hrun', t.closed_shift]
      exact .ok a _
    | error e t he =>
      rw [counted_of_error hroom hrun, counted_of_error hroom' hrun', t.closed_shift]
      exact .error e _ he
    | refused t =>
      rw [counted_of_error hroom hrun, counted_of_error hroom' hrun', t.closed_shift]
      exact .refused _
    | cut t _ hlt houtput =>
      rw [counted_of_error hroom hrun]
      cases r' with
      | ok b u =>
        rw [counted_of_ok hroom' hrun']
        exact .cut _ _ hlt houtput
      | error e u =>
        rw [counted_of_error hroom' hrun']
        exact .cut _ _ hlt houtput

/-- Evaluation in as many rounds, or in more of them under a higher limit, follows. -/
theorem deepens_rounds {d l : Int} (hle : d ≤ l) {n n' : Nat} (hn : n = n' ∨ d < l ∧ n ≤ n')
    (node : Node) : EvalM.Deepens d l (evaluateWithin n node) (evaluateWithin n' node) := by
  induction n generalizing n' node with
  | zero =>
    refine ⟨fun s hs => ?_, evaluateWithin_keeps 0 node, evaluateWithin_keeps n' node⟩
    rcases hn with rfl | ⟨hlt, _⟩
    · exact .refused s
    · exact .cut s _ hlt (evaluateWithin_keeps n' node (s.shift d l) hs).output
  | succ n ih =>
    obtain ⟨m, rfl⟩ : ∃ m, n' = m + 1 := ⟨n' - 1, by omega⟩
    have hm : n = m ∨ d < l ∧ n ≤ m := by omega
    have hnested : ∀ other : Node,
        (deepens d l).rel (evaluateWithin n other) (evaluateWithin m other) := ih hm
    exact EvalM.deepens_counted hle (PlainLogic.rel_evalNode hnested node)

/-- Evaluation with at least as much room follows. -/
theorem evaluate_follows {d l : Int} (hle : d ≤ l) (node : Node) {s : State}
    (h : s.scopes.frames ≠ []) :
    Follows d l s.limit (evaluate node s) (evaluate node (s.shift d l)) := by
  have hrounds : s.room = (s.shift d l).room ∨ d < l ∧ s.room ≤ (s.shift d l).room := by
    rcases Int.lt_or_eq_of_le hle with hlt | rfl
    · exact .inr ⟨hlt, s.room_le_shift hle⟩
    · exact .inl s.room_shift_self.symm
  exact (deepens_rounds hle hrounds node).follows s h

namespace Follows

variable {d l limit : Int} {α : Type} {t : State} {r : Machine.Outcome EvalError α}

theorem eq_of_ok {a : α} (h : Follows d l limit (.ok a t) r) : r = .ok a (t.shift d l) := by
  cases h
  rfl

theorem eq_of_error {e : EvalError} (he : e ≠ .tooDeep limit)
    (h : Follows d l limit (.error e t) r) : r = .error e (t.shift d l) := by
  cases h with
  | error => rfl
  | refused => exact absurd rfl he
  | cut => exact absurd rfl he

theorem eq_of_refused (heq : d = l) (h : Follows d l limit (.error (.tooDeep limit) t) r) :
    r = .error (.tooDeep (limit + l)) (t.shift d l) := by
  cases h with
  | error _ _ he => exact absurd rfl (he limit)
  | refused => rfl
  | cut _ _ hlt => omega

theorem output_of_refused (h : Follows d l limit (.error (.tooDeep limit) t) r) :
    t.output.toList <+: r.machine.output.toList := by
  cases h with
  | error _ _ he => exact absurd rfl (he limit)
  | refused => exact List.prefix_rfl
  | cut _ _ _ houtput => exact houtput

end Follows

theorem State.shift_limit {s : State} {limit : Int} (h : s.limit = limit) (limit' : Int) :
    s.shift 0 (limit' - limit) = { s with limit := limit' } := by
  have hlimit : s.limit + (limit' - limit) = limit' := by omega
  simp only [State.shift, Int.add_zero, hlimit]

/-- Evaluation recurs without any bound but the count of open evaluations, and ends. An outcome
other than a refusal does not change under a higher limit, and what was printed before a refusal is
printed first. Only the difference between count and limit matters, but for what a refusal says. -/
theorem depth_guard_transparent (m : Machine) (hm : m.scopes.frames ≠ []) (node : Node) :
    (evaluate node = EvalM.counted (evalNode evaluate node) ∧
      ∀ below times, m.room < times → unrolled below times node m = m.evaluate node) ∧
    (∀ limit', m.limit ≤ limit' →
      (∀ value after, m.evaluate node = .ok value after →
        Machine.evaluate { m with limit := limit' } node =
          .ok value { after with limit := limit' }) ∧
      (∀ error after, m.evaluate node = .error error after → error ≠ .tooDeep m.limit →
        Machine.evaluate { m with limit := limit' } node =
          .error error { after with limit := limit' }) ∧
      ∀ after, m.evaluate node = .error (.tooDeep m.limit) after →
        after.output.toList <+:
          (Machine.evaluate { m with limit := limit' } node).machine.output.toList) ∧
    ∀ k,
      (∀ value after, m.evaluate node = .ok value after →
        Machine.evaluate (m.shift k k) node = .ok value (after.shift k k)) ∧
      (∀ error after, m.evaluate node = .error error after → error ≠ .tooDeep m.limit →
        Machine.evaluate (m.shift k k) node = .error error (after.shift k k)) ∧
      ∀ after, m.evaluate node = .error (.tooDeep m.limit) after →
        Machine.evaluate (m.shift k k) node = .error (.tooDeep (m.limit + k)) (after.shift k k) := by
  simp only [Machine.evaluate, Machine.perform]
  have hkept := evaluate_keeps node m hm
  refine ⟨⟨evaluate_eq node, fun below times h => unrolled_eq_evaluate below h node⟩,
    fun limit' hle => ?_, fun k => ?_⟩
  · have hfollows := evaluate_follows (Int.sub_nonneg_of_le hle) node hm
    rw [State.shift_limit rfl] at hfollows
    refine ⟨fun value after hrun => ?_, fun error after hrun he => ?_, fun after hrun => ?_⟩
    · rw [EvalM.final_of_ok hrun] at hkept
      rw [hrun] at hfollows
      rw [← State.shift_limit hkept.limit]
      exact hfollows.eq_of_ok
    · rw [EvalM.final_of_error hrun] at hkept
      rw [hrun] at hfollows
      rw [← State.shift_limit hkept.limit]
      exact hfollows.eq_of_error he
    · rw [hrun] at hfollows
      exact hfollows.output_of_refused
  · have hfollows := evaluate_follows (Int.le_refl k) node hm
    refine ⟨fun value after hrun => ?_, fun error after hrun he => ?_, fun after hrun => ?_⟩
    · rw [hrun] at hfollows
      exact hfollows.eq_of_ok
    · rw [hrun] at hfollows
      exact hfollows.eq_of_error he
    · rw [hrun] at hfollows
      exact hfollows.eq_of_refused rfl

/-- A function prints its argument and calls another one, which prints it too. With room for five
evaluations it does both, and with room for four it is refused behind the first line. -/
theorem depth_guard_transparent_nested_call :
    let print (name : String) : Node := .list [.ident "debug", .ident name]
    let g : Value := .function ["y"] (print "y")
    let f : Value := .function ["x"] (.list [.ident "do", print "x", .list [.ident "g", .ident "x"]])
    let base : Frame Value :=
      ⟨[("debug", .intrinsic "debug" .trace), ("do", .intrinsic "do" .sequence), ("f", f), ("g", g)]⟩
    let m : Machine := { scopes := ⟨[base]⟩, limit := 5 }
    let low : Machine := { m with limit := 4 }
    let node : Node := .list [.ident "f", .int 1]
    let after := (m.evaluate node).machine
    let stopped := (low.evaluate node).machine
    m.scopes.frames ≠ [] ∧ low.scopes.frames ≠ [] ∧
    m.evaluate node = .ok .empty after ∧ after.output = #["Int(1)", "Int(1)"] ∧
    low.evaluate node = .error (.tooDeep 4) stopped ∧ stopped.output = #["Int(1)"] ∧
    unrolled evaluate 6 node m = .ok .empty after ∧
    Machine.evaluate { m with limit := 9 } node = .ok .empty { after with limit := 9 } ∧
    stopped.output.toList <+: (Machine.evaluate { low with limit := 9 } node).machine.output.toList ∧
    Machine.evaluate (m.shift 3 3) node = .ok .empty (after.shift 3 3) ∧
    Machine.evaluate (low.shift 3 3) node = .error (.tooDeep 7) (stopped.shift 3 3) := by
  intro print g f base m low node after stopped
  have hm : m.scopes.frames ≠ [] := by decide
  have hlow : low.scopes.frames ≠ [] := by decide
  have hrun : m.evaluate node = .ok .empty after :=
    Machine.Outcome.eq_ok_of_value? (by decide +kernel)
  have hrefused : low.evaluate node = .error (.tooDeep 4) stopped :=
    Machine.Outcome.eq_error_of_error? (by decide +kernel)
  obtain ⟨⟨-, hunrolled⟩, hraise, hshift⟩ := depth_guard_transparent m hm node
  obtain ⟨-, hraise', hshift'⟩ := depth_guard_transparent low hlow node
  refine ⟨hm, hlow, hrun, by decide +kernel, hrefused, by decide +kernel, ?_,
    (hraise 9 (by decide)).1 _ _ hrun, (hraise' 9 (by decide)).2.2 _ hrefused,
    (hshift 3).1 _ _ hrun, (hshift' 3).2.2 _ hrefused⟩
  exact (hunrolled _ 6 (by decide)).trans hrun

end FexprLisp
