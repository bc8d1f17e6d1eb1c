import FexprLisp.Proofs.Machine.Interleaving
import FexprLisp.Proofs.Machine.Session
import FexprLisp.Proofs.Source.RoundTrip

/-!
# Typing values in again

The source form of a value is the source form of a node. Code that a session captures stands inside
a node that was read, so that there is a level to spare for a quotation or a function around it: the
node can be read back, and a new machine evaluates it to the value.

## Main definitions

- `Value.isTypable` — the values that have a form to type in
- `Value.Typed` — the node that is typed in for a value

## Main statements

- `Node.nesting_lt_of_inside` — what stands inside a node is nested less deeply
- `Value.Typed.readable` — what is typed in for a value of a session can be read
- `Value.Typed.evaluate` — and it is evaluated to the value
- `session_values_typed_back` — the values of a session can be typed in again
-/

namespace FexprLisp

-- ════════════════════════════════════════════════════════════════════════
-- Code inside nodes
-- ════════════════════════════════════════════════════════════════════════

namespace Node

theorem nesting_lt_of_inside {root node : Node} (h : node ∈ root.inside) :
    node.nesting < root.nesting := by
  -- a bound on the parts of the root is handed down to all that stands inside them
  have hquote (bound : Nat) : ∀ node : Node, (Node.quote node).nesting ≤ bound →
      node.nesting ≤ bound := by
    intro node hnode
    simp only [nesting] at hnode
    omega
  have hlist (bound : Nat) : ∀ items, (Node.list items).nesting ≤ bound →
      ∀ item ∈ items, item.nesting ≤ bound := by
    intro items hitems
    apply deepest_le_iff.1
    simp only [nesting] at hitems
    omega
  cases root with
  | quote inner =>
    simp only [nesting, Nat.lt_succ_iff]
    rcases List.mem_cons.1 h with rfl | h
    · exact Nat.le_refl _
    · exact forall_inside (P := (nesting · ≤ inner.nesting)) (hquote _) (hlist _) inner
        (Nat.le_refl _) node h
  | list items =>
    simp only [nesting, Nat.lt_succ_iff]
    have hitems : ∀ item ∈ items, item.nesting ≤ deepest items := deepest_le_iff.1 (Nat.le_refl _)
    exact forall_insideEach (P := (nesting · ≤ deepest items)) (hquote _) (hlist _) items hitems node h
  | _ => cases h

mutual

theorem isComplete_of_isLegible : ∀ node : Node, node.isLegible = true → node.isComplete = true
  | .ident _, _ => rfl
  | .int _, _ => rfl
  | .str _, _ => rfl
  | .hole, h => h
  | .quote node, h => isComplete_of_isLegible node h
  | .list items, h => by
    simp only [isLegible, Bool.and_eq_true] at h
    exact allComplete_of_allLegible items h.2

theorem allComplete_of_allLegible :
    ∀ nodes : List Node, allLegible nodes = true → allComplete nodes = true
  | [], _ => rfl
  | node :: nodes, h => by
    simp only [allLegible, Bool.and_eq_true] at h
    have hnode := isComplete_of_isLegible node h.1
    have hnodes := allComplete_of_allLegible nodes h.2
    simp only [allComplete, hnode, hnodes, Bool.and_self]

end

theorem StandsIn.readable {read : List Node} (hread : ∀ root ∈ read, root.Readable) {node : Node}
    (h : node.StandsIn read) : node.isLegible = true ∧ node.nesting < maxNesting := by
  obtain ⟨root, hroot, hinside⟩ := h
  obtain ⟨hlegible, hnesting⟩ := hread root hroot
  exact ⟨isLegible_inside hlegible hinside,
    Nat.lt_of_lt_of_le (nesting_lt_of_inside hinside) hnesting⟩

end Node

-- ════════════════════════════════════════════════════════════════════════
-- What is typed in for a value
-- ════════════════════════════════════════════════════════════════════════

namespace Value

/-- Texts, captured code, functions and numbers that are not negative have a form to type in. -/
def isTypable : Value → Bool
  | .str _ | .quote _ | .function .. => true
  | .int n => 0 ≤ n
  | .intrinsic .. | .empty | .hole => false

/-- The node that is typed in for a value. -/
inductive Typed : Value → Node → Prop
  | int {n : Int} (h : 0 ≤ n) : Typed (.int n) (.int n)
  | str (text : String) : Typed (.str text) (.str text)
  | quote (node : Node) : Typed (.quote node) (.quote node)
  | function (params : List String) (body : Node) :
    Typed (.function params body) (.list [.ident "fn", .list (params.map .ident), body])

variable {value : Value} {node : Node} {read : List Node}

theorem exists_typed (h : value.isTypable = true) : ∃ node, value.Typed node := by
  cases value with
  | int n => exact ⟨_, .int (by simpa [isTypable] using h)⟩
  | str text => exact ⟨_, .str text⟩
  | quote node => exact ⟨_, .quote node⟩
  | function params body => exact ⟨_, .function params body⟩
  | _ => cases h

theorem Typed.source_eq (h : value.Typed node) : value.source = node.source := by
  cases h with
  | function params body =>
    have hparams : Node.sourceEach (params.map .ident) = params := by
      rw [Node.sourceEach_eq_map, List.map_map]
      exact List.map_id params
    have hlead : "(fn (" = "(" ++ ("fn" ++ " ") ++ "(" := rfl
    simp only [source, Node.source, Node.sourceEach, hparams, String.intercalate_cons_cons,
      String.intercalate_singleton, hlead, String.append_assoc]
    rfl
  | _ => rfl

theorem Typed.readable (h : value.Typed node) (hfrom : value.From read)
    (hread : ∀ root ∈ read, root.Readable) : node.Readable := by
  cases h with
  | int hn =>
    refine ⟨?_, Nat.zero_le _⟩
    simp only [Node.isLegible, Bool.and_eq_true, decide_eq_true_eq]
    exact ⟨hn, hfrom.2⟩
  | str text => exact ⟨rfl, Nat.zero_le _⟩
  | quote node =>
    obtain ⟨hlegible, hnesting⟩ := Node.StandsIn.readable hread hfrom
    exact ⟨hlegible, hnesting⟩
  | function params body =>
    obtain ⟨hne, hnames, hbody⟩ := hfrom
    obtain ⟨hlegible, hnesting⟩ := Node.StandsIn.readable hread hbody
    have hatoms : Node.deepest (params.map .ident) ≤ 0 := by
      rw [Node.deepest_le_iff]
      intro param hparam
      obtain ⟨name, -, rfl⟩ := List.mem_map.1 hparam
      exact Nat.le_refl _
    have hwords : Node.allLegible (params.map .ident) = true := by
      rw [Node.allLegible_iff]
      intro param hparam
      obtain ⟨name, hname, rfl⟩ := List.mem_map.1 hparam
      exact hnames name hname
    have hfn : (Node.ident "fn").isLegible = true := by decide
    have hparams : (Node.list (params.map .ident)).isLegible = true := by
      simp [Node.isLegible, hwords, hne]
    constructor
    · apply Bool.and_eq_true_iff.2 ⟨rfl, ?_⟩
      simp only [Node.allLegible, hfn, hparams, hlegible, Bool.and_self]
    · simp only [Node.nesting, Node.deepest, maxNesting] at hnesting ⊢
      omega

theorem source?_of_from (hfrom : value.From read) (hread : ∀ root ∈ read, root.Readable) :
    value.source? = some value.source := by
  have hsource {code : Node} (h : code.StandsIn read) : code.source? = some code.source :=
    if_pos (Node.isComplete_of_isLegible code (h.readable hread).1)
  cases value with
  | quote code => simp [source?, source, hsource hfrom]
  | function params body => simp [source?, source, hsource hfrom.2.2]
  | _ => rfl

end Value

-- ════════════════════════════════════════════════════════════════════════
-- It is evaluated to the value
-- ════════════════════════════════════════════════════════════════════════

theorem paramNames_map_ident (params : List String) :
    Form.paramNames (params.map .ident) = .ok params := by
  induction params with
  | nil => rfl
  | cons param params ih => simp [Form.paramNames, ih, Except.map]

theorem Value.Typed.evaluate {value : Value} {node : Node} (h : value.Typed node) {m : Machine}
    {name : String} (hfn : m.scopes.lookup? "fn" = some (.intrinsic name .lambda))
    (hroom : 2 ≤ m.room) : m.evaluate node = .ok value m := by
  show FexprLisp.evaluate node m = .ok value m
  have hm : m.room ≠ 0 := by omega
  cases h with
  | int h => exact evaluate_of_evalNode hm rfl
  | str text => exact evaluate_of_evalNode hm rfl
  | quote node => exact evaluate_of_evalNode hm rfl
  | function params body =>
    apply evaluate_of_evalNode hm
    -- the head is one evaluation deeper, and nothing else is evaluated
    have hopened : m.opened.room ≠ 0 := by
      rw [State.room_opened]
      omega
    have hhead : FexprLisp.evaluate (.ident "fn") m.opened =
        .ok (.intrinsic name .lambda) m.opened :=
      evaluate_of_evalNode hopened (EvalM.lookup_of_some hfn)
    rw [evalNode, EvalM.bind_of_ok hhead]
    simp only [callValue, Primitive.call, Form.lambda, paramNames_map_ident]
    rfl

namespace Machine

theorem lookup?_fn_boot (limit : Int) :
    (boot limit).scopes.lookup? "fn" = some (.intrinsic "fn" .lambda) := by
  have hstandard : Primitive.lambda ∈ Primitive.standard := by decide
  have hname : Primitive.lambda.name = "fn" := rfl
  have hlookup := lookup?_boot limit hstandard
  rwa [hname] at hlookup

/-- A node that a machine evaluates to a value without any effect is a text that it runs so. -/
theorem run_source {m : Machine} {node : Node} {value : Value} (hnode : node.Readable)
    (h : m.evaluate node = .ok value m) : m.run node.source = .ok value m := by
  have hread : readNodes node.source = .ok [node] := by
    have hspaced : Spaced [("", node)] "" := ⟨by simp [isGap], by simp, rfl⟩
    have hlaid := readNodes_laidOut hspaced (by simpa using hnode)
    simpa [laidOut] using hlaid
  rw [run_eq_runAfterReading hread]
  simp only [runAfterReading, hread, evaluateEach, h]

end Machine

-- ════════════════════════════════════════════════════════════════════════
-- Sessions
-- ════════════════════════════════════════════════════════════════════════

theorem Machine.readable_readsFrom {c : Cursor} (hc : c.Ready) (m : Machine) :
    ∀ node ∈ m.readsFrom c, node.Readable := by
  fun_induction Machine.readsFrom m c with
  | case1 m c c' hread => simp
  | case2 m c error c' hread => simp
  | case3 m c node c' hread value m' heval ih =>
    obtain ⟨hnode, hc'⟩ := hc.readNode hread
    exact List.forall_mem_cons.2 ⟨hnode, ih hc'⟩
  | case4 m c node c' hread error m' heval =>
    obtain ⟨hnode, -⟩ := hc.readNode hread
    simpa using hnode

theorem Session.readable_after (limit : Int) (texts : List String) :
    ∀ root ∈ (after limit texts).read, root.Readable := by
  have hfold : ∀ s : Session, (∀ root ∈ s.read, root.Readable) →
      ∀ root ∈ (texts.foldl run s).read, root.Readable := by
    induction texts with
    | nil => exact fun s hs => hs
    | cons text texts ih =>
      intro s hs
      apply ih (s.run text)
      intro root hroot
      rcases List.mem_append.1 hroot with hroot | hroot
      · exact hs root hroot
      · exact Machine.readable_readsFrom (Cursor.ready_ofText text) s.machine root hroot
  exact hfold _ (by simp)

/-- Whatever texts a machine has run, and however these runs ended: every text, piece of captured
code, function or number that is not negative among its values has a source form, which a new machine
with room for two evaluations runs to this value, and this leaves the new machine as it was. -/
theorem session_values_typed_back (limit : Int) (texts : List String) :
    ∀ value ∈ (Session.after limit texts).values, value.isTypable = true →
      ∀ fresh : Int, 2 ≤ fresh →
        ∃ text, value.source? = some text ∧
          (Machine.boot fresh).run text = .ok value (Machine.boot fresh) := by
  intro value hvalue htypable fresh hfresh
  have hfrom := (Session.sound_after limit texts).from_read value hvalue
  have hread := Session.readable_after limit texts
  obtain ⟨node, htyped⟩ := Value.exists_typed htypable
  refine ⟨value.source, Value.source?_of_from hfrom hread, ?_⟩
  rw [htyped.source_eq]
  refine Machine.run_source (htyped.readable hfrom hread) ?_
  apply htyped.evaluate (Machine.lookup?_fn_boot fresh)
  rw [Machine.room_boot]
  omega

/-- A function that a run bound before it failed, and a text that it returned. -/
theorem session_values_typed_back_function_and_text :
    let s := Session.after 100 ["(let f (fn (a b) '(a \"\\n\")))  f  (oops", "f", "\"x\\\\\""]
    let f : Value := .function ["a", "b"] (.quote (.list [.ident "a", .str "\n"]))
    s.returned = [f, .str "x\\"] ∧
      (∃ text, f.source? = some text ∧
        (Machine.boot 2).run text = .ok f (Machine.boot 2)) ∧
      ∃ text, (Value.str "x\\").source? = some text ∧
        (Machine.boot 7).run text = .ok (.str "x\\") (Machine.boot 7) := by
  intro s f
  have hreturned : s.returned = [f, .str "x\\"] := by decide +kernel
  have hf : f ∈ s.values := List.mem_append_right _ (by simp [hreturned])
  have htext : Value.str "x\\" ∈ s.values := List.mem_append_right _ (by simp [hreturned])
  have htyped := session_values_typed_back 100
    ["(let f (fn (a b) '(a \"\\n\")))  f  (oops", "f", "\"x\\\\\""]
  exact ⟨hreturned, htyped f hf rfl 2 (by decide), htyped _ htext rfl 7 (by decide)⟩

end FexprLisp
