import FexprLisp.Proofs.Eval.Recursion

/-!
# Frame discipline

Whatever an evaluation does, and wherever it fails, it ends with the frames that it began with. Only
the innermost frame may have changed, and there new names stand behind the old ones.

## Main definitions

- `Kept` — what every evaluation leaves as it was
- `EvalM.Keeps` — computations that do so

## Main statements

- `Kept.leave` — a scope whose frame was kept is left to where it was entered
- `evaluateWithin_keeps`, `evaluate_keeps` — every evaluation keeps the frames
- `machine_keeps_frames` — evaluations and calls on a machine do, and a call of a function leaves
  the frames as the evaluation of its arguments does
-/

namespace FexprLisp

/-- The same frames, but for the innermost one, where new names stand behind the old ones; as many
open evaluations, under the same limit; and all that was printed. -/
structure Kept (s t : State) : Prop extends SameCount s t where
  frames : ∃ top top' outer, s.scopes.frames = top :: outer ∧ t.scopes.frames = top' :: outer ∧
    top.names <+: top'.names
  output : s.output.toList <+: t.output.toList

namespace Kept

variable {s t u : State}

theorem refl (h : s.scopes.frames ≠ []) : Kept s s := by
  refine ⟨.refl s, ?_, List.prefix_rfl⟩
  cases hs : s.scopes.frames with
  | nil => exact absurd hs h
  | cons top outer => exact ⟨top, top, outer, rfl, rfl, List.prefix_rfl⟩

theorem trans (h : Kept s t) (h' : Kept t u) : Kept s u := by
  refine ⟨h.toSameCount.trans h'.toSameCount, ?_, h.output.trans h'.output⟩
  obtain ⟨top, mid, outer, hs, ht, hnames⟩ := h.frames
  obtain ⟨mid', top', outer', ht', hu, hnames'⟩ := h'.frames
  rw [ht, List.cons.injEq] at ht'
  obtain ⟨rfl, rfl⟩ := ht'
  exact ⟨top, top', outer, hs, hu, hnames.trans hnames'⟩

theorem frames_ne_nil (h : Kept s t) : t.scopes.frames ≠ [] := by
  obtain ⟨_, top', outer, _, ht, _⟩ := h.frames
  rw [ht]
  exact List.cons_ne_nil top' outer

theorem of_scopes_eq (h : s.scopes.frames ≠ []) (hcount : SameCount s t)
    (hscopes : t.scopes = s.scopes) (houtput : s.output.toList <+: t.output.toList) :
    Kept s t := by
  refine ⟨hcount, ?_, houtput⟩
  rw [hscopes]
  exact (refl h).frames

theorem bind (h : s.scopes.frames ≠ []) (name : String) (value : Value) :
    Kept s (EvalM.final (EvalM.bind name value) s) := by
  cases hs : s.scopes.frames with
  | nil => exact absurd hs h
  | cons top outer =>
    rw [EvalM.final_of_ok (EvalM.bind_of_frames hs name value)]
    refine ⟨⟨rfl, rfl⟩, ⟨top, top.bind name value, outer, hs, rfl, ?_⟩, List.prefix_rfl⟩
    by_cases hmem : name ∈ top.names
    · exact ⟨[], by rw [List.append_nil, Frame.names_bind_of_mem hmem]⟩
    · rw [Frame.names_bind_of_not_mem hmem]
      exact List.prefix_append _ _

/-- A scope whose frame was kept is left to where it was entered. -/
theorem leave (h : s.scopes.frames ≠ []) (hkept : Kept s.entered t) :
    t.scopes.leave = .ok s.scopes := by
  obtain ⟨top, top', outer, hs, ht, _⟩ := hkept.frames
  have houter : outer = s.scopes.frames := by
    simp only [State.entered, Scopes.enter, List.cons.injEq] at hs
    exact hs.2.symm
  subst houter
  cases hframes : s.scopes.frames with
  | nil => exact absurd hframes h
  | cons frame frames =>
    simp only [Scopes.leave, ht, hframes]
    rw [← hframes]

theorem left (hkept : Kept s.entered t) (h : s.scopes.frames ≠ []) :
    Kept s (t.left s.scopes) :=
  .of_scopes_eq h ⟨hkept.depth, hkept.limit⟩ rfl hkept.output

theorem closed (h : Kept s.opened t) : Kept s t.closed :=
  ⟨h.toSameCount.closed, h.frames, h.output⟩

end Kept

namespace EvalM

theorem final_inScope_of_kept {α : Type} {x : EvalM α} {s : State} (h : s.scopes.frames ≠ [])
    (hx : Kept s.entered (final x s.entered)) :
    final (inScope x) s = (final x s.entered).left s.scopes := by
  rw [final_inScope, hx.leave h]

theorem inScope_ok_of_kept {α : Type} {x : EvalM α} {s t : State} {a : α}
    (h : s.scopes.frames ≠ []) (hx : Kept s.entered (final x s.entered))
    (hrun : x s.entered = .ok a t) : inScope x s = .ok a (t.left s.scopes) := by
  rw [final_of_ok hrun] at hx
  exact inScope_of_ok hrun (hx.leave h)

theorem inScope_error_of_kept {α : Type} {x : EvalM α} {s t : State} {e : EvalError}
    (h : s.scopes.frames ≠ []) (hx : Kept s.entered (final x s.entered))
    (hrun : x s.entered = .error e t) : inScope x s = .error e (t.left s.scopes) := by
  rw [final_of_error hrun] at hx
  exact inScope_of_error hrun (hx.leave h)

/-- Keeps the frames, wherever there are any. -/
def Keeps {α : Type} (x : EvalM α) : Prop :=
  ∀ s : State, s.scopes.frames ≠ [] → Kept s (final x s)

theorem keeps_bind {α β : Type} {x : EvalM α} {f : α → EvalM β} (hx : x.Keeps)
    (hf : ∀ a s t, x s = .ok a t → (f a).Keeps) : (x >>= f).Keeps := by
  intro s h
  have hfirst := hx s h
  rw [final_seq]
  cases hrun : x s with
  | ok a t =>
    rw [final_of_ok hrun] at hfirst
    exact hfirst.trans (hf a s t hrun t hfirst.frames_ne_nil)
  | error e t =>
    rw [final_of_error hrun] at hfirst
    exact hfirst

theorem keeps_lookup (name : String) : (lookup name).Keeps := by
  intro s h
  rw [final_lookup]
  exact .refl h

theorem keeps_print (line : String) : (print line).Keeps := by
  intro s h
  refine .of_scopes_eq h ⟨rfl, rfl⟩ rfl ?_
  rw [final_print, Array.toList_push]
  exact List.prefix_append _ _

theorem keeps_note (entry : Entry) : (note entry).Keeps :=
  fun _ h => .of_scopes_eq h ⟨rfl, rfl⟩ rfl List.prefix_rfl

theorem keeps_inScope {α : Type} {x : EvalM α} (hx : x.Keeps) : (inScope x).Keeps := by
  intro s h
  have hkept := hx s.entered (List.cons_ne_nil _ _)
  rw [final_inScope_of_kept h hkept]
  exact hkept.left h

theorem keeps_counted {α : Type} {x : EvalM α} (hx : x.Keeps) : (counted x).Keeps := by
  intro s h
  rw [final_counted]
  split
  · exact .refl h
  · exact (hx s.opened h).closed

end EvalM

/-- Computations that both keep the frames. -/
def keepsFrames : PlainLogic where
  rel x y := x.Keeps ∧ y.Keeps
  rel_pure _ := ⟨fun _ => .refl, fun _ => .refl⟩
  rel_bind hx hf :=
    ⟨EvalM.keeps_bind hx.1 fun a s t h => (hf a s t (.inl h)).1,
      EvalM.keeps_bind hx.2 fun a s t h => (hf a s t (.inr h)).2⟩
  rel_throw _ _ := ⟨fun _ => .refl, fun _ => .refl⟩
  rel_lookup n := ⟨EvalM.keeps_lookup n, EvalM.keeps_lookup n⟩
  rel_bindName n v := ⟨fun _ h => .bind h n v, fun _ h => .bind h n v⟩
  rel_print v := ⟨EvalM.keeps_print v.inspect, EvalM.keeps_print v.inspect⟩
  rel_applied _ _ := ⟨EvalM.keeps_note _, EvalM.keeps_note _⟩
  rel_inScope h := ⟨EvalM.keeps_inScope h.1, EvalM.keeps_inScope h.2⟩

/-- Evaluation in any number of rounds keeps the frames. -/
theorem evaluateWithin_keeps (rounds : Nat) (node : Node) : (evaluateWithin rounds node).Keeps := by
  induction rounds generalizing node with
  | zero => exact fun s h => .refl h
  | succ rounds ih =>
    have hinside := keepsFrames.rel_evalNode (fun other => ⟨ih other, ih other⟩) node
    exact EvalM.keeps_counted hinside.1

theorem evaluate_keeps (node : Node) : (evaluate node).Keeps :=
  fun s h => evaluateWithin_keeps s.room node s h

theorem keepsFrames_evaluate (node : Node) : keepsFrames.rel (evaluate node) (evaluate node) :=
  ⟨evaluate_keeps node, evaluate_keeps node⟩

/-- Behind a call of a function, the caller's frames are as the arguments left them. -/
theorem scopes_callFunction {params : List String} {args : List Node}
    (hlength : args.length = params.length) (body : Node) {s : State} (h : s.scopes.frames ≠ []) :
    (EvalM.final (callFunction evaluate params body args) s).scopes =
      (EvalM.final (evalEach evaluate args) s).scopes := by
  have hargs : Kept s (EvalM.final (evalEach evaluate args) s) :=
    (keepsFrames.rel_evalEach keepsFrames_evaluate args).1 s h
  unfold callFunction
  rw [if_pos hlength, EvalM.final_seq]
  cases hrun : evalEach evaluate args s with
  | error e t => rw [EvalM.final_of_error hrun]
  | ok values t =>
    rw [EvalM.final_of_ok hrun] at hargs ⊢
    have ht : t.scopes.frames ≠ [] := hargs.frames_ne_nil
    -- the body runs in a frame of its own, which is dropped behind it
    have hinside : (EvalM.bindEach params values >>= fun _ => evaluate body).Keeps :=
      EvalM.keeps_bind (keepsFrames.rel_bindEach params values).1 fun _ _ _ _ => evaluate_keeps body
    let noted : State := EvalM.final (EvalM.note (.applied params values)) t
    have hnoted : noted.scopes.frames ≠ [] := ht
    have hbody := hinside noted.entered (List.cons_ne_nil _ _)
    show (EvalM.final (EvalM.inScope _) noted).scopes = t.scopes
    rw [EvalM.final_inScope_of_kept hnoted hbody]
    rfl

/-- Evaluations and calls keep the frames of a machine, whatever they lead to. A call of a function
leaves the frames as the evaluation of its arguments leaves them; if there are too many arguments or
too few, it leaves them alone. -/
theorem machine_keeps_frames (m : Machine) (hm : m.scopes.frames ≠ []) :
    (∀ node, Kept m (m.evaluate node).machine) ∧
    (∀ value args, Kept m (m.call value args).machine) ∧
    (∀ params body args, args.length = params.length →
      (m.call (.function params body) args).machine.scopes =
        (m.perform (evalEach evaluate args)).machine.scopes) ∧
    ∀ params body args, args.length ≠ params.length →
      (m.call (.function params body) args).machine.scopes = m.scopes := by
  refine ⟨fun node => evaluate_keeps node m hm, fun value args => ?_, fun params body args h => ?_,
    fun params body args h => ?_⟩
  · exact (keepsFrames.rel_callValue keepsFrames_evaluate value args).1 m hm
  · exact scopes_callFunction h body hm
  · show (EvalM.final (callFunction evaluate params body args) m).scopes = m.scopes
    rw [callFunction, if_neg h, EvalM.final_throw]

/-- A function with a parameter of the caller's name leaves the caller's frames alone. -/
theorem machine_keeps_frames_two_frames :
    let inner : Frame Value := ⟨[("x", .int 1)]⟩
    let base : Frame Value := ⟨[("f", .function ["x"] (.ident "x"))]⟩
    let m : Machine := { scopes := ⟨[inner, base]⟩, depth := 2, limit := 10 }
    m.scopes.frames ≠ [] ∧ Kept m (m.evaluate (.list [.ident "f", .int 5])).machine ∧
      (m.call (.function ["x"] (.ident "x")) [.int 5]).machine.scopes = m.scopes := by
  intro inner base m
  have hm : m.scopes.frames ≠ [] := by decide
  obtain ⟨heval, _, hcall, _⟩ := machine_keeps_frames m hm
  refine ⟨hm, heval _, ?_⟩
  rw [hcall ["x"] (.ident "x") [.int 5] rfl]
  rfl

end FexprLisp
