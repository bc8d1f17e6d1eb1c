import FexprLisp.Proofs.Eval.Run

/-!
# Comparing evaluations

Every statement about all evaluations has one shape: two computations are compared step by step,
and a computation is put together from few kinds of steps. A `StepLogic` says how single steps
compare and that comparisons compose. From that alone the native operations are compared, given that
the evaluations nested in them compare: none of them opens a scope. An `EvalLogic` says how scopes
compare, too, and so the evaluation of a node is compared. A property of one computation is the
special case where it is compared with itself.

## Main definitions

- `Vocabulary` — the names, the code and the values that a program may work with
- `StepLogic` — how computations of such programs are compared that open no scope
- `StepLogic.Compares` — two evaluators compare on all code
- `EvalLogic` — how all computations of such programs are compared
- `PlainLogic` — a comparison that does not depend on what the results are

## Main statements

- `StepLogic.rel_call` — native operations compare if the evaluators that they are given do
- `EvalLogic.rel_callValue` — so do calls of any value
- `EvalLogic.rel_evalNode` — so does the evaluation of one node
-/

namespace FexprLisp

/-- An error that an operation raises by itself, whatever values it is given. The other errors come
from scopes, from the limit on nesting, or from a value that is neither true nor false. -/
def EvalError.isOwn : EvalError → Bool
  | .scope _ | .tooDeep _ | .noTruth _ => false
  | _ => true

/-- The names, the code and the values that a program may work with. -/
structure Vocabulary where
  /-- The names that a program may look up. -/
  name : String → Prop
  /-- The names that it may bind. -/
  binder : String → Prop
  code : Node → Prop
  value : Value → Prop
  value_str : ∀ text, value (.str text)
  value_empty : value .empty
  value_int : ∀ n, inBounds n = true → value (.int n)
  value_quote : ∀ node, code node → value (.quote node)
  value_lambda : ∀ params names body, code (.list params) → Form.paramNames params = .ok names →
    code body → value (.function names body)
  /-- The operation that captures all its arguments, where a program may use it. -/
  value_capture : ∀ bound args, value (.intrinsic bound .capture) → (∀ arg ∈ args, code arg) →
    value (.quote (.list args))
  code_of_quote : ∀ node, value (.quote node) → code node
  of_function : ∀ params body, value (.function params body) →
    (∀ p ∈ params, binder p) ∧ code body
  binder_of_name : ∀ n, name n → binder n
  name_of_code : ∀ n, code (.ident n) → name n
  value_of_code : ∀ n, code (.int n) → value (.int n)
  code_of_code : ∀ node, code (.quote node) → code node
  code_of_list : ∀ items, code (.list items) → ∀ item ∈ items, code item

/-- What stands directly in a node belongs to the vocabulary, if not the node itself. -/
def Vocabulary.parts (V : Vocabulary) : Node → Prop
  | .ident n => V.name n
  | .int n => V.value (.int n)
  | .quote node => V.code node
  | .list items => ∀ item ∈ items, V.code item
  | .str _ | .hole => True

theorem Vocabulary.parts_of_code (V : Vocabulary) {node : Node} (h : V.code node) :
    V.parts node := by
  cases node with
  | ident n => exact V.name_of_code n h
  | int n => exact V.value_of_code n h
  | quote inner => exact V.code_of_code inner h
  | list items => exact V.code_of_list items h
  | str text => trivial
  | hole => trivial

/-- A way to compare two computations that open no scope, and whose results, if any, are the same
and of a sort. -/
structure StepLogic extends Vocabulary where
  rel : {α : Type} → (α → Prop) → EvalM α → EvalM α → Prop
  rel_pure : ∀ {α : Type} {good : α → Prop} (a : α), good a → rel good (pure a) (pure a)
  rel_bind : ∀ {α β : Type} {good : α → Prop} {good' : β → Prop} {x y : EvalM α}
    {f g : α → EvalM β}, rel good x y → (∀ a, good a → rel good' (f a) (g a)) →
    rel good' (x >>= f) (y >>= g)
  rel_throw : ∀ {α : Type} {good : α → Prop} (error : EvalError), error.isOwn = true →
    rel good (throw error) (throw error)
  rel_noTruth : ∀ {α : Type} {good : α → Prop} (v : Value), value v → v.truth? = none →
    rel good (throw (.noTruth v)) (throw (.noTruth v))
  rel_lookup : ∀ n, name n → rel value (EvalM.lookup n) (EvalM.lookup n)
  rel_bindName : ∀ n v, binder n → value v →
    rel (fun _ => True) (EvalM.bind n v) (EvalM.bind n v)
  rel_print : ∀ v : Value,
    rel (fun _ => True) (EvalM.print v.inspect) (EvalM.print v.inspect)
  rel_applied : ∀ params values,
    rel (fun _ => True) (EvalM.note (.applied params values)) (EvalM.note (.applied params values))

/-- A way to compare two computations whose results, if any, are the same and of a sort. -/
structure EvalLogic extends StepLogic where
  rel_inScope : ∀ {α : Type} {good : α → Prop} {x y : EvalM α}, rel good x y →
    rel good (EvalM.inScope x) (EvalM.inScope y)

namespace StepLogic

variable (L : StepLogic) {ev ev' : Evaluator}

/-- Two evaluators compare on all code of the vocabulary. -/
def Compares (ev ev' : Evaluator) : Prop :=
  ∀ node, L.code node → L.rel L.value (ev node) (ev' node)

variable {L}

theorem rel_ofExcept {α : Type} {good : α → Prop} {result : Except EvalError α}
    (hok : ∀ a, result = .ok a → good a) (herror : ∀ e, result = .error e → e.isOwn = true) :
    L.rel good (EvalM.ofExcept result) (EvalM.ofExcept result) := by
  cases result with
  | ok a => exact L.rel_pure a (hok a rfl)
  | error e => exact L.rel_throw e (herror e rfl)

theorem rel_evalEach (h : L.Compares ev ev') {nodes : List Node} (hn : ∀ n ∈ nodes, L.code n) :
    L.rel (fun values => ∀ v ∈ values, L.value v) (evalEach ev nodes) (evalEach ev' nodes) := by
  induction nodes with
  | nil => exact L.rel_pure [] (by simp)
  | cons node nodes ih =>
    refine L.rel_bind (h node (hn node (by simp))) fun v hv => ?_
    refine L.rel_bind (ih fun n hm => hn n (by simp [hm])) fun vs hvs => ?_
    exact L.rel_pure _ (by simpa using ⟨hv, hvs⟩)

theorem rel_evalLast (h : L.Compares ev ev') {nodes : List Node} (hn : ∀ n ∈ nodes, L.code n)
    {last : Value} (hlast : L.value last) :
    L.rel L.value (evalLast ev last nodes) (evalLast ev' last nodes) := by
  induction nodes generalizing last with
  | nil => exact L.rel_pure last hlast
  | cons node nodes ih =>
    refine L.rel_bind (h node (hn node (by simp))) fun v hv => ?_
    exact ih (fun n hm => hn n (by simp [hm])) hv

theorem rel_bindEach {names : List String} {values : List Value} (hn : ∀ n ∈ names, L.binder n)
    (hv : ∀ v ∈ values, L.value v) :
    L.rel (fun _ => True) (EvalM.bindEach names values) (EvalM.bindEach names values) := by
  induction names generalizing values with
  | nil => exact L.rel_pure () trivial
  | cons name names ih =>
    cases values with
    | nil => exact L.rel_pure () trivial
    | cons value values =>
      refine L.rel_bind (L.rel_bindName name value (hn name (by simp)) (hv value (by simp))) ?_
      intro _ _
      exact ih (fun n hm => hn n (by simp [hm])) (fun v hm => hv v (by simp [hm]))

-- ════════════════════════════════════════════════════════════════════════
-- Native operations
-- ════════════════════════════════════════════════════════════════════════

theorem rel_defineEach (h : L.Compares ev ev') {args : List Node} (ha : ∀ a ∈ args, L.code a) :
    L.rel L.value (Form.defineEach ev args) (Form.defineEach ev' args) := by
  -- pairs are bound one by one, so the recursion drops two arguments at a time
  induction args using Form.defineEach.induct with
  | case1 name node rest ih =>
    simp only [Form.defineEach]
    have hname : L.binder name := L.binder_of_name name (L.name_of_code name (ha _ (by simp)))
    refine L.rel_bind (h node (ha node (by simp))) fun v hv => ?_
    refine L.rel_bind (L.rel_bindName name v hname hv) fun _ _ => ?_
    exact ih fun a hm => ha a (by simp [hm])
  | case2 key node rest hkey =>
    have hthrow : ∀ e, Form.defineEach e (key :: node :: rest) = throw (.notIdentifier key) := by
      intro e
      cases key with
      | ident name => exact absurd rfl (hkey name)
      | _ => rfl
    rw [hthrow, hthrow]
    exact L.rel_throw _ rfl
  | case3 args hpair hkey =>
    have hpure : ∀ e, Form.defineEach e args = pure .empty := by
      intro e
      match args with
      | [] => rfl
      | [key] => cases key <;> rfl
      | key :: node :: rest => exact absurd rfl (hkey key node rest)
    rw [hpure, hpure]
    exact L.rel_pure _ L.value_empty

theorem rel_define (h : L.Compares ev ev') {args : List Node} (ha : ∀ a ∈ args, L.code a) :
    L.rel L.value (Form.define ev args) (Form.define ev' args) := by
  unfold Form.define
  split
  · exact rel_defineEach h ha
  · exact L.rel_throw _ rfl

theorem rel_quote {args : List Node} (ha : ∀ a ∈ args, L.code a) :
    L.rel L.value (Form.quote args) (Form.quote args) := by
  cases args with
  | nil => exact L.rel_throw _ rfl
  | cons node args => exact L.rel_pure _ (L.value_quote node (ha node (by simp)))

theorem rel_unquote (h : L.Compares ev ev') {args : List Node} (ha : ∀ a ∈ args, L.code a) :
    L.rel L.value (Form.unquote ev args) (Form.unquote ev' args) := by
  cases args with
  | nil => exact L.rel_throw _ rfl
  | cons node args =>
    refine L.rel_bind (h node (ha node (by simp))) fun v hv => ?_
    cases v with
    | quote code => exact h code (L.code_of_quote code hv)
    | _ => exact L.rel_throw _ rfl

theorem rel_sequence (h : L.Compares ev ev') {args : List Node} (ha : ∀ a ∈ args, L.code a) :
    L.rel L.value (Form.sequence ev args) (Form.sequence ev' args) := by
  cases args with
  | nil => exact L.rel_throw _ rfl
  | cons node args => exact rel_evalLast h ha L.value_empty

theorem rel_branch (h : L.Compares ev ev') {args : List Node} (ha : ∀ a ∈ args, L.code a) :
    L.rel L.value (Form.branch ev args) (Form.branch ev' args) := by
  match args with
  | [condition, whenTrue, whenFalse] =>
    refine L.rel_bind (h condition (ha condition (by simp))) fun v hv => ?_
    cases ht : v.truth? with
    | none => exact L.rel_noTruth v hv ht
    | some b =>
      cases b with
      | true => exact h whenTrue (ha whenTrue (by simp))
      | false => exact h whenFalse (ha whenFalse (by simp))
  | [] => exact L.rel_throw _ rfl
  | [_] => exact L.rel_throw _ rfl
  | [_, _] => exact L.rel_throw _ rfl
  | _ :: _ :: _ :: _ :: _ => exact L.rel_throw _ rfl

theorem isOwn_of_paramNames {params : List Node} {e : EvalError}
    (h : Form.paramNames params = .error e) : e.isOwn = true := by
  induction params with
  | nil => simp [Form.paramNames] at h
  | cons param params ih =>
    cases param with
    | ident name =>
      simp only [Form.paramNames] at h
      cases hp : Form.paramNames params with
      | ok names => simp [hp, Except.map] at h
      | error e' =>
        simp only [hp, Except.map, Except.error.injEq] at h
        exact ih (by rw [hp, h])
    | _ =>
      simp only [Form.paramNames, Except.error.injEq] at h
      rw [← h]
      rfl

theorem rel_lambda {args : List Node} (ha : ∀ a ∈ args, L.code a) :
    L.rel L.value (EvalM.ofExcept (Form.lambda args)) (EvalM.ofExcept (Form.lambda args)) := by
  match args with
  | [] => exact L.rel_throw _ rfl
  | .list params :: rest =>
    have hparams : L.code (.list params) := ha _ (by simp)
    simp only [Form.lambda]
    cases hp : Form.paramNames params with
    | error e => exact L.rel_throw e (isOwn_of_paramNames hp)
    | ok names =>
      cases rest with
      | nil => exact L.rel_throw _ rfl
      | cons body rest =>
        exact L.rel_pure _ (L.value_lambda params names body hparams hp (ha body (by simp)))
  | .ident _ :: _ => exact L.rel_throw _ rfl
  | .int _ :: _ => exact L.rel_throw _ rfl
  | .str _ :: _ => exact L.rel_throw _ rfl
  | .quote _ :: _ => exact L.rel_throw _ rfl
  | .hole :: _ => exact L.rel_throw _ rfl

theorem rel_trace (h : L.Compares ev ev') {args : List Node} (ha : ∀ a ∈ args, L.code a) :
    L.rel L.value (Form.trace ev args) (Form.trace ev' args) := by
  induction args with
  | nil => exact L.rel_pure _ L.value_empty
  | cons node args ih =>
    refine L.rel_bind (h node (ha node (by simp))) fun v _ => ?_
    refine L.rel_bind (L.rel_print v) fun _ _ => ?_
    exact ih fun a hm => ha a (by simp [hm])

theorem rel_operands (h : L.Compares ev ev') (operation : String) {args : List Node}
    (ha : ∀ a ∈ args, L.code a) :
    L.rel (fun pair => L.value pair.1 ∧ L.value pair.2) (Form.operands ev operation args)
      (Form.operands ev' operation args) := by
  match args with
  | [left, right] =>
    refine L.rel_bind (h left (ha left (by simp))) fun a hleft => ?_
    refine L.rel_bind (h right (ha right (by simp))) fun b hright => ?_
    exact L.rel_pure _ ⟨hleft, hright⟩
  | [] => exact L.rel_throw _ rfl
  | [_] => exact L.rel_throw _ rfl
  | _ :: _ :: _ :: _ => exact L.rel_throw _ rfl

theorem inBounds_of_apply {op : Arith} {a b : Int} {v : Value} (h : op.apply a b = .ok v) :
    ∃ n, inBounds n = true ∧ v = .int n := by
  unfold Arith.apply at h
  split at h
  · next n _ =>
    unfold checked at h
    split at h
    · next hn =>
      cases h
      exact ⟨n, hn, rfl⟩
    · cases h
  · cases h

theorem isOwn_of_apply {op : Arith} {a b : Int} {e : EvalError} (h : op.apply a b = .error e) :
    e.isOwn = true := by
  unfold Arith.apply at h
  split at h
  · unfold checked at h
    split at h
    · cases h
    · cases h
      rfl
  · next e' hc =>
    cases h
    cases op with
    | div =>
      simp only [Arith.compute] at hc
      split at hc <;> cases hc
      rfl
    | mod =>
      simp only [Arith.compute] at hc
      split at hc <;> cases hc
      rfl
    | _ => cases hc

theorem rel_arith (h : L.Compares ev ev') (op : Arith) {args : List Node}
    (ha : ∀ a ∈ args, L.code a) :
    L.rel L.value (Form.arith ev op args) (Form.arith ev' op args) := by
  refine L.rel_bind (rel_operands h op.name ha) ?_
  rintro ⟨left, right⟩ -
  cases left with
  | int a =>
    cases right with
    | int b =>
      refine rel_ofExcept (fun v hv => ?_) fun e he => isOwn_of_apply he
      obtain ⟨n, hn, rfl⟩ := inBounds_of_apply hv
      exact L.value_int n hn
    | _ => exact L.rel_throw _ rfl
  | _ => exact L.rel_throw _ rfl

theorem value_truth (b : Bool) : L.value (Form.truth b) := by
  cases b with
  | true => exact L.value_int 1 (by decide)
  | false => exact L.value_int 0 (by decide)

theorem rel_call (h : L.Compares ev ev') {bound : String} {operation : Primitive}
    (ho : L.value (.intrinsic bound operation)) {args : List Node} (ha : ∀ a ∈ args, L.code a) :
    L.rel L.value (operation.call ev args) (operation.call ev' args) := by
  cases operation with
  | define => exact rel_define h ha
  | quote => exact rel_quote ha
  | unquote => exact rel_unquote h ha
  | sequence => exact rel_sequence h ha
  | branch => exact rel_branch h ha
  | lambda => exact rel_lambda ha
  | trace => exact rel_trace h ha
  | arith op => exact rel_arith h op ha
  | equal => exact L.rel_bind (rel_operands h _ ha) fun _ _ => L.rel_pure _ (value_truth _)
  | differ => exact L.rel_bind (rel_operands h _ ha) fun _ _ => L.rel_pure _ (value_truth _)
  | capture => exact L.rel_pure _ (L.value_capture bound args ho ha)

end StepLogic

-- ════════════════════════════════════════════════════════════════════════
-- Functions, calls and nodes
-- ════════════════════════════════════════════════════════════════════════

namespace EvalLogic

variable {L : EvalLogic} {ev ev' : Evaluator}

theorem rel_callFunction (h : L.Compares ev ev') {params : List String} {body : Node}
    (hf : L.value (.function params body)) {args : List Node} (ha : ∀ a ∈ args, L.code a) :
    L.rel L.value (callFunction ev params body args) (callFunction ev' params body args) := by
  obtain ⟨hparams, hbody⟩ := L.of_function params body hf
  unfold callFunction
  split
  · refine L.rel_bind (StepLogic.rel_evalEach h ha) fun values hv => ?_
    refine L.rel_bind (L.rel_applied params values) fun _ _ => ?_
    exact L.rel_inScope (L.rel_bind (StepLogic.rel_bindEach hparams hv) fun _ _ => h body hbody)
  · exact L.rel_throw _ rfl

theorem rel_callValue (h : L.Compares ev ev') {callee : Value} (hc : L.value callee)
    {args : List Node} (ha : ∀ a ∈ args, L.code a) :
    L.rel L.value (callValue ev callee args) (callValue ev' callee args) := by
  cases callee with
  | intrinsic bound operation => exact StepLogic.rel_call h hc ha
  | function params body => exact rel_callFunction h hc ha
  | _ => exact L.rel_throw _ rfl

/-- The evaluations of one node compare if those nested in them do. -/
theorem rel_evalNode (h : L.Compares ev ev') {node : Node} (hn : L.parts node) :
    L.rel L.value (evalNode ev node) (evalNode ev' node) := by
  match node with
  | .ident name => exact L.rel_lookup name hn
  | .int value => exact L.rel_pure _ hn
  | .str text => exact L.rel_pure _ (L.value_str text)
  | .quote inner => exact L.rel_pure _ (L.value_quote inner hn)
  | .list [] => exact L.rel_throw _ rfl
  | .list (head :: args) =>
    refine L.rel_bind (h head (hn head (by simp))) fun callee hc => ?_
    exact rel_callValue h hc fun a hm => hn a (by simp [hm])
  | .hole => exact L.rel_throw _ rfl

end EvalLogic

-- ════════════════════════════════════════════════════════════════════════
-- Comparisons of all programs
-- ════════════════════════════════════════════════════════════════════════

/-- Programs may mention and hold anything. -/
def Vocabulary.all : Vocabulary where
  name _ := True
  binder _ := True
  code _ := True
  value _ := True
  value_str _ := trivial
  value_empty := trivial
  value_int _ _ := trivial
  value_quote _ _ := trivial
  value_lambda _ _ _ _ _ _ := trivial
  value_capture _ _ _ _ := trivial
  code_of_quote _ _ := trivial
  of_function _ _ _ := ⟨fun _ _ => trivial, trivial⟩
  binder_of_name _ _ := trivial
  name_of_code _ _ := trivial
  value_of_code _ _ := trivial
  code_of_code _ _ := trivial
  code_of_list _ _ _ _ := trivial

/-- A way to compare two computations with the same results, whatever these are. -/
structure PlainLogic where
  rel : {α : Type} → EvalM α → EvalM α → Prop
  rel_pure : ∀ {α : Type} (a : α), rel (pure a) (pure a)
  rel_bind : ∀ {α β : Type} {x y : EvalM α} {f g : α → EvalM β}, rel x y →
    (∀ a s t, x s = .ok a t ∨ y s = .ok a t → rel (f a) (g a)) → rel (x >>= f) (y >>= g)
  rel_throw : ∀ {α : Type} (error : EvalError), (∀ limit, error ≠ .tooDeep limit) →
    rel (throw error : EvalM α) (throw error)
  rel_lookup : ∀ n, rel (EvalM.lookup n) (EvalM.lookup n)
  rel_bindName : ∀ n v, rel (EvalM.bind n v) (EvalM.bind n v)
  rel_print : ∀ v : Value, rel (EvalM.print v.inspect) (EvalM.print v.inspect)
  rel_applied : ∀ params values,
    rel (EvalM.note (.applied params values)) (EvalM.note (.applied params values))
  rel_inScope : ∀ {α : Type} {x y : EvalM α}, rel x y → rel (EvalM.inScope x) (EvalM.inScope y)

namespace PlainLogic

variable (P : PlainLogic)

/-- Every result that a computation can have is of a sort. -/
def Yields {α : Type} (good : α → Prop) (x : EvalM α) : Prop :=
  ∀ s a t, x s = .ok a t → good a

theorem yields_throw {α : Type} (good : α → Prop) (e : EvalError) : Yields good (throw e) := by
  intro s a t h
  cases h

theorem yields_all {α : Type} (x : EvalM α) : Yields (fun _ => True) x :=
  fun _ _ _ _ => trivial

theorem yields_pure {α : Type} {good : α → Prop} {a : α} (h : good a) : Yields good (pure a) := by
  intro s b t hs
  cases hs
  exact h

theorem yields_bind {α β : Type} {good : α → Prop} {good' : β → Prop} {x : EvalM α}
    {f : α → EvalM β} (hx : Yields good x) (hf : ∀ a, good a → Yields good' (f a)) :
    Yields good' (x >>= f) := by
  intro s b t h
  cases hrun : x s with
  | error e u =>
    rw [EvalM.bind_of_error hrun] at h
    cases h
  | ok a u =>
    rw [EvalM.bind_of_ok hrun] at h
    exact hf a (hx s a u hrun) u b t h

theorem yields_inScope {α : Type} {good : α → Prop} {x : EvalM α} (h : Yields good x) :
    Yields good (EvalM.inScope x) := by
  intro s a t hs
  obtain ⟨u, hu⟩ := EvalM.ok_of_inScope hs
  exact h s.entered a u hu

/-- The comparison, with what is known about the results beside it. -/
def toEvalLogic : EvalLogic where
  toVocabulary := .all
  rel good x y := P.rel x y ∧ Yields good x ∧ Yields good y
  rel_pure a h := ⟨P.rel_pure a, yields_pure h, yields_pure h⟩
  rel_bind := by
    intro α β good good' x y f g hx hf
    obtain ⟨hrel, hx, hy⟩ := hx
    refine ⟨P.rel_bind hrel fun a s t h => (hf a ?_).1,
      yields_bind hx fun a ha => (hf a ha).2.1, yields_bind hy fun a ha => (hf a ha).2.2⟩
    exact h.elim (hx s a t) (hy s a t)
  rel_throw error h := by
    refine ⟨P.rel_throw error ?_, yields_throw _ error, yields_throw _ error⟩
    rintro limit rfl
    cases h
  rel_noTruth v _ _ := ⟨P.rel_throw _ (by simp), yields_throw _ _, yields_throw _ _⟩
  rel_lookup n _ := ⟨P.rel_lookup n, yields_all _, yields_all _⟩
  rel_bindName n v _ _ := ⟨P.rel_bindName n v, yields_all _, yields_all _⟩
  rel_print v := ⟨P.rel_print v, yields_all _, yields_all _⟩
  rel_applied params values := ⟨P.rel_applied params values, yields_all _, yields_all _⟩
  rel_inScope h := ⟨P.rel_inScope h.1, yields_inScope h.2.1, yields_inScope h.2.2⟩

variable {P} {ev ev' : Evaluator}

theorem compares (h : ∀ node, P.rel (ev node) (ev' node)) : P.toEvalLogic.Compares ev ev' :=
  fun node _ => ⟨h node, yields_all _, yields_all _⟩

theorem rel_evalEach (h : ∀ node, P.rel (ev node) (ev' node)) (nodes : List Node) :
    P.rel (evalEach ev nodes) (evalEach ev' nodes) :=
  (StepLogic.rel_evalEach (compares h) fun _ _ => trivial).1

theorem rel_bindEach (names : List String) (values : List Value) :
    P.rel (EvalM.bindEach names values) (EvalM.bindEach names values) :=
  (P.toEvalLogic.rel_bindEach (fun _ _ => trivial) fun _ _ => trivial).1

theorem rel_callValue (h : ∀ node, P.rel (ev node) (ev' node)) (callee : Value)
    (args : List Node) : P.rel (callValue ev callee args) (callValue ev' callee args) :=
  have hcallee : P.toEvalLogic.value callee := trivial
  (EvalLogic.rel_callValue (compares h) hcallee fun _ _ => trivial).1

theorem rel_evalNode (h : ∀ node, P.rel (ev node) (ev' node)) (node : Node) :
    P.rel (evalNode ev node) (evalNode ev' node) :=
  (EvalLogic.rel_evalNode (compares h) (Vocabulary.parts_of_code _ trivial)).1

end PlainLogic

end FexprLisp
