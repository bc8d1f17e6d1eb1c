import FexprLisp.Proofs.Eval.Agreement
import FexprLisp.Proofs.Eval.Failures

/-!
# What evaluations lead to

Complete code, evaluated where all values are valid, gives a valid value or fails in one of the four
ways that an evaluation has to fail. A name that is missing was mentioned: it stands in the code that
was evaluated or in code that some frame held when the evaluation began.

## Main definitions

- `Value.Valid` — a value of the language
- `Value.code?` — the code that a value holds
- `Scopes.Mentioned` — the names that stand in code held by the frames
- `Vocabulary.valid` — programs without holes that mention only some names

## Main statements

- `Arith.compute_div`, `Arith.compute_mod` — quotients are taken only where there are any
- `evaluation_fails_four_ways` — what evaluations lead to
-/

namespace FexprLisp

/-- A value of the language. No hole stands in it, and a native operation is one of the standard
ones, under whatever name. -/
def Value.Valid : Value → Prop
  | .intrinsic _ operation => operation ∈ Primitive.standard
  | value => value.isComplete = true

instance : ∀ value : Value, Decidable value.Valid
  | .intrinsic _ operation => inferInstanceAs (Decidable (operation ∈ Primitive.standard))
  | .int _ | .str _ | .quote _ | .function _ _ | .empty | .hole =>
    inferInstanceAs (Decidable (_ = true))

/-- The code that a value holds. -/
def Value.code? : Value → Option Node
  | .quote node => some node
  | .function _ body => some body
  | _ => none

/-- The names that stand in code held by the frames. -/
def Scopes.Mentioned (scopes : Scopes Value) (name : String) : Prop :=
  ∃ frame ∈ scopes.frames, ∃ value ∈ frame.values, ∃ code, value.code? = some code ∧
    name ∈ code.names

/-- Programs without holes whose code mentions some names only. Parameters that a function was given
elsewhere may have any names. -/
def Vocabulary.valid (N : String → Prop) : Vocabulary where
  name := N
  binder _ := True
  code node := node.isComplete = true ∧ node.MentionsOnly N
  value value := value.Valid ∧ ∀ code, value.code? = some code → code.MentionsOnly N
  value_str _ := ⟨rfl, by simp [Value.code?]⟩
  value_empty := ⟨rfl, by simp [Value.code?]⟩
  value_int _ _ := ⟨rfl, by simp [Value.code?]⟩
  value_quote node h := ⟨h.1, by simpa [Value.code?] using h.2⟩
  value_lambda _ _ body _ _ h := ⟨h.1, by simpa [Value.code?] using h.2⟩
  value_capture _ _ h _ := by
    have hcapture : Primitive.capture ∉ Primitive.standard := by decide
    exact absurd h.1 hcapture
  code_of_quote node h := ⟨h.1, h.2 node rfl⟩
  of_function _ body h := ⟨fun _ _ => trivial, h.1, h.2 body rfl⟩
  binder_of_name _ _ := trivial
  name_of_code n h := h.2 n (List.mem_singleton.2 rfl)
  value_of_code _ _ := ⟨rfl, by simp [Value.code?]⟩
  code_of_code _ h := h
  code_of_list items h item hitem := by
    obtain ⟨hcomplete, hnames⟩ := h
    rw [Node.isComplete, Node.allComplete_eq_all, List.all_eq_true] at hcomplete
    exact ⟨hcomplete item hitem, Node.mentionsOnly_list.1 hnames item hitem⟩

/-- Where all values are valid, so they are among programs that mention what the frames do. -/
theorem Scopes.Holds.valid {scopes : Scopes Value} (h : scopes.Holds Value.Valid)
    {N : String → Prop} (hN : ∀ name, scopes.Mentioned name → N name) :
    scopes.Holds (Vocabulary.valid N).value := by
  intro frame hframe value hvalue
  refine ⟨h frame hframe value hvalue, ?_⟩
  intro code hcode name hname
  exact hN name ⟨frame, hframe, value, hvalue, code, hcode, hname⟩

/-- A division is refused exactly where there is no quotient. -/
theorem Arith.compute_div (a b : Int) :
    Arith.compute a b .div = (truncDiv? a b).elim (.error .divisionByZero) .ok := by
  by_cases hb : b = 0
  · rw [Arith.compute, truncDiv?, if_pos hb, if_pos hb, Option.elim_none]
  · rw [Arith.compute, truncDiv?, if_neg hb, if_neg hb, Option.elim_some]

/-- So is a remainder, which is taken from the quotient. -/
theorem Arith.compute_mod (a b : Int) :
    Arith.compute a b .mod =
      (truncDiv? a b).elim (.error .moduloByZero) fun q => .ok (a - b * q) := by
  by_cases hb : b = 0
  · rw [Arith.compute, truncDiv?, if_pos hb, if_pos hb, Option.elim_none]
  · rw [Arith.compute, truncDiv?, if_neg hb, if_neg hb, Option.elim_some]

/-- A missing variable is what an error tells of only if a name is not bound. -/
theorem EvalError.eq_unbound_of_kind {error : EvalError} {failure : Failure}
    (h : error.failure? = some failure) (hkind : failure.kind = .unbound) :
    ∃ name, error = .scope (.unbound name) ∧ failure = .missing name := by
  cases error with
  | scope cause =>
    cases cause with
    | underflow =>
      cases h
      cases hkind
    | unbound name =>
      cases h
      exact ⟨name, rfl, rfl⟩
  | noTruth value => cases h
  | _ =>
    cases h
    cases hkind

/-- Where there is a frame and all values are valid, complete code evaluates to a valid value or fails
in one of four ways: a value of the wrong sort, a form of the wrong shape, a name that is not bound, or
a failure of the computation itself. A name that is not bound stands in the code or in code that the
frames hold. No quotient is ever taken where there is none. -/
theorem evaluation_fails_four_ways (m : Machine) (hm : m.scopes.frames ≠ [])
    (hvalid : m.scopes.Holds Value.Valid) (node : Node) (hnode : node.isComplete = true) :
    ((∃ value after, m.evaluate node = .ok value after ∧ value.Valid) ∨
      ∃ error failure after, m.evaluate node = .error error after ∧
        error.failure? = some failure ∧
        failure.kind ∈ [.mistyped, .malformed, .unbound, .runtime] ∧
        (failure.kind = .unbound → ∃ name, failure = .missing name ∧
          (name ∈ node.names ∨ m.scopes.Mentioned name))) ∧
    ∀ a b, Arith.compute a b .div = (truncDiv? a b).elim (.error .divisionByZero) .ok ∧
      Arith.compute a b .mod =
        (truncDiv? a b).elim (.error .moduloByZero) fun q => .ok (a - b * q) := by
  refine ⟨?_, fun a b => ⟨Arith.compute_div a b, Arith.compute_mod a b⟩⟩
  let N : String → Prop := fun name => name ∈ node.names ∨ m.scopes.Mentioned name
  have hparts : (Vocabulary.valid N).parts node :=
    Vocabulary.parts_of_code _ ⟨hnode, fun _ hname => .inl hname⟩
  have hends := evaluate_safe (Vocabulary.valid N) hparts m hm (hvalid.valid fun _ => .inr)
  cases hrun : m.evaluate node with
  | ok value after =>
    rw [show FexprLisp.evaluate node m = .ok value after from hrun] at hends
    cases hends with
    | ok _ _ hvalue => exact .inl ⟨value, after, rfl, hvalue.1⟩
  | error error after =>
    rw [show FexprLisp.evaluate node m = .error error after from hrun] at hends
    cases hends with
    | error _ _ hallowed =>
      have hhole : ¬ (Vocabulary.valid N).value .hole := fun h => absurd h.1 (by decide)
      obtain ⟨failure, hfailure, hkind⟩ := hallowed.failure hhole
      refine .inr ⟨error, failure, after, rfl, hfailure, hkind, fun hunbound => ?_⟩
      obtain ⟨name, rfl, hmissing⟩ := EvalError.eq_unbound_of_kind hfailure hunbound
      exact ⟨name, hmissing, hallowed⟩

/-- A function divides by a name that stands nowhere but in its own body, so the frames must have held
that name. -/
theorem evaluation_fails_four_ways_in_body :
    let divide : Value := .intrinsic "per" (.arith .div)
    let f : Value := .function ["x"] (.list [.ident "per", .ident "x", .ident "y"])
    let m : Machine := { scopes := ⟨[⟨[("x", .int 7)]⟩, ⟨[("per", divide), ("f", f)]⟩]⟩, limit := 9 }
    let node : Node := .list [.ident "f", .int 1]
    m.scopes.frames ≠ [] ∧ m.scopes.Holds Value.Valid ∧ node.isComplete = true ∧
      (∃ after, m.evaluate node = .error (.scope (.unbound "y")) after) ∧
      m.scopes.Mentioned "y" := by
  intro divide f m node
  have hm : m.scopes.frames ≠ [] := by decide
  have hvalid : m.scopes.Holds Value.Valid := by
    unfold Scopes.Holds
    decide
  have hnode : node.isComplete = true := by decide
  have hfails : (m.evaluate node).error? = some (.scope (.unbound "y")) := by decide +kernel
  refine ⟨hm, hvalid, hnode, ?_⟩
  obtain ⟨⟨value, after, hrun, -⟩ | ⟨error, failure, after, hrun, htold, -, hname⟩, -⟩ :=
    evaluation_fails_four_ways m hm hvalid node hnode
  · rw [hrun] at hfails
    cases hfails
  · rw [hrun] at hfails
    cases hfails
    cases htold
    obtain ⟨name, hmissing, hmentioned⟩ := hname rfl
    have hy : some "y" = some name := congrArg Failure.name hmissing
    cases hy
    exact ⟨⟨after, hrun⟩, hmentioned.resolve_left (by decide)⟩

end FexprLisp
