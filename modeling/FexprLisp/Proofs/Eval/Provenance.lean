import FexprLisp.Proofs.Eval.Logic
import FexprLisp.Proofs.Source.Spelling

/-!
# Where values come from

Evaluation makes no code: what a quotation captures and what a function runs stands in a node that
was read. It makes no native operations either, and only integers that are in bounds. All of this
is one statement, that an evaluation never leaves the vocabulary that it works with.

## Main definitions

- `Node.inside` — the nodes that stand inside a node
- `Value.From` — a value that evaluations of some nodes may produce
- `Vocabulary.reading` — the vocabulary of programs that were read
- `EvalM.StaysIn` — computations that do not leave a vocabulary

## Main statements

- `Value.same_iff_of_from` — the language's own equality is equality
- `evaluate_staysIn` — evaluation does not leave any vocabulary
-/

namespace FexprLisp

namespace Node

mutual

/-- The nodes that stand inside a node, which does not stand inside itself. -/
def inside : Node → List Node
  | .quote node => node :: inside node
  | .list items => insideEach items
  | .ident _ | .int _ | .str _ | .hole => []

/-- Some nodes and all that stand inside them. -/
def insideEach : List Node → List Node
  | [] => []
  | node :: nodes => node :: (inside node ++ insideEach nodes)

end

theorem mem_insideEach {item : Node} {items : List Node} (h : item ∈ items) :
    item ∈ insideEach items ∧ item.inside ⊆ insideEach items := by
  induction items with
  | nil => cases h
  | cons first items ih =>
    rw [insideEach]
    rcases List.mem_cons.1 h with rfl | h
    · refine ⟨List.mem_cons_self, ?_⟩
      intro node hnode
      exact List.mem_cons_of_mem _ (List.mem_append_left _ hnode)
    · obtain ⟨hitem, hinside⟩ := ih h
      refine ⟨List.mem_cons_of_mem _ (List.mem_append_right _ hitem), ?_⟩
      intro node hnode
      exact List.mem_cons_of_mem _ (List.mem_append_right _ (hinside hnode))

mutual

/-- What a node hands down to its parts holds of all nodes inside it. -/
theorem forall_inside {P : Node → Prop} (hquote : ∀ node, P (.quote node) → P node)
    (hlist : ∀ items, P (.list items) → ∀ item ∈ items, P item) :
    ∀ root : Node, P root → ∀ node ∈ root.inside, P node
  | .ident _, _, _, h => by cases h
  | .int _, _, _, h => by cases h
  | .str _, _, _, h => by cases h
  | .hole, _, _, h => by cases h
  | .quote inner, hroot, node, h => by
    have hinner : P inner := hquote inner hroot
    rcases List.mem_cons.1 h with rfl | h
    · exact hinner
    · exact forall_inside hquote hlist inner hinner node h
  | .list items, hroot, node, h =>
    forall_insideEach hquote hlist items (hlist items hroot) node h

theorem forall_insideEach {P : Node → Prop} (hquote : ∀ node, P (.quote node) → P node)
    (hlist : ∀ items, P (.list items) → ∀ item ∈ items, P item) :
    ∀ nodes : List Node, (∀ node ∈ nodes, P node) → ∀ node ∈ insideEach nodes, P node
  | [], _, _, h => by cases h
  | first :: nodes, hnodes, node, h => by
    have hfirst : P first := hnodes first List.mem_cons_self
    have hlater : ∀ node ∈ nodes, P node := fun n hn => hnodes n (List.mem_cons_of_mem _ hn)
    rcases List.mem_cons.1 h with rfl | h
    · exact hfirst
    rcases List.mem_append.1 h with h | h
    · exact forall_inside hquote hlist first hfirst node h
    · exact forall_insideEach hquote hlist nodes hlater node h

end

theorem inside_subset {root node : Node} (h : node ∈ root.inside) : node.inside ⊆ root.inside := by
  refine forall_inside (P := fun node => node.inside ⊆ root.inside) ?_ ?_ root ?_ node h
  · intro node hquote inner hinner
    exact hquote (List.mem_cons_of_mem _ hinner)
  · intro items hlist item hitem inner hinner
    exact hlist ((mem_insideEach hitem).2 hinner)
  · exact fun _ hinner => hinner

theorem isLegible_inside {root node : Node} (hroot : root.isLegible = true)
    (h : node ∈ root.inside) : node.isLegible = true := by
  refine forall_inside (P := fun node => node.isLegible = true) ?_ ?_ root hroot node h
  · intro node hquote
    simpa only [isLegible] using hquote
  · intro items hlist
    simp only [isLegible, Bool.and_eq_true] at hlist
    exact allLegible_iff.1 hlist.2

end Node

/-- A node that stands inside one of those that were read. -/
def Node.StandsIn (read : List Node) (node : Node) : Prop :=
  ∃ root ∈ read, node ∈ root.inside

/-- A value that evaluations of some nodes may produce. -/
def Value.From (read : List Node) : Value → Prop
  | .int n => -2147483648 ≤ n ∧ n ≤ 2147483647
  | .str _ | .empty => True
  | .quote node => node.StandsIn read
  | .intrinsic name operation => operation ∈ Primitive.standard ∧ name = operation.name
  | .function params body =>
    params ≠ [] ∧ (∀ param ∈ params, isName param.toList = true) ∧ body.StandsIn read
  | .hole => False

theorem Node.StandsIn.mono {read more : List Node} {node : Node} (h : node.StandsIn read)
    (hmore : read ⊆ more) : node.StandsIn more := by
  obtain ⟨root, hroot, hnode⟩ := h
  exact ⟨root, hmore hroot, hnode⟩

theorem Node.StandsIn.isLegible {read : List Node} (hread : ∀ root ∈ read, root.isLegible = true)
    {node : Node} (h : node.StandsIn read) : node.isLegible = true := by
  obtain ⟨root, hroot, hnode⟩ := h
  exact isLegible_inside (hread root hroot) hnode

theorem Value.From.mono {read more : List Node} {value : Value} (h : value.From read)
    (hmore : read ⊆ more) : value.From more := by
  cases value with
  | quote node => exact Node.StandsIn.mono h hmore
  | function params body => exact ⟨h.1, h.2.1, h.2.2.mono hmore⟩
  | _ => exact h

theorem Primitive.eq_of_name_eq {a b : Primitive} (ha : a ∈ standard) (hb : b ∈ standard)
    (h : a.name = b.name) : a = b := by
  have hall : ∀ a ∈ standard, ∀ b ∈ standard, a.name = b.name → a = b := by decide
  exact hall a ha b hb h

/-- No two native operations share a name, so that the language's own equality is equality. -/
theorem Value.same_iff_of_from {read : List Node} {a b : Value} (ha : a.From read)
    (hb : b.From read) : a.same b = true ↔ a = b := by
  cases a with
  | intrinsic name operation =>
    cases b with
    | intrinsic other operation' =>
      obtain ⟨hstandard, rfl⟩ := ha
      obtain ⟨hstandard', rfl⟩ := hb
      simp only [same, beq_iff_eq, intrinsic.injEq]
      constructor
      · intro h
        exact ⟨h, Primitive.eq_of_name_eq hstandard hstandard' h⟩
      · exact fun h => h.1
    | _ => simp [same]
  | hole => exact ha.elim
  | _ => cases b <;> simp [same]

-- ════════════════════════════════════════════════════════════════════════
-- The vocabulary of programs that were read
-- ════════════════════════════════════════════════════════════════════════

theorem eq_map_of_paramNames {params : List Node} {names : List String}
    (h : Form.paramNames params = .ok names) : params = names.map .ident := by
  induction params generalizing names with
  | nil =>
    cases h
    rfl
  | cons param params ih =>
    cases param with
    | ident name =>
      simp only [Form.paramNames] at h
      cases hparams : Form.paramNames params with
      | error e => simp [hparams, Except.map] at h
      | ok later =>
        simp only [hparams, Except.map, Except.ok.injEq] at h
        rw [← h, List.map_cons, ih hparams]
    | _ => cases h

/-- Legible parameters are names, and there are some. -/
theorem names_of_legible_params {params : List Node} {names : List String}
    (hlegible : (Node.list params).isLegible = true) (h : Form.paramNames params = .ok names) :
    names ≠ [] ∧ ∀ name ∈ names, isName name.toList = true := by
  rw [eq_map_of_paramNames h] at hlegible
  simp only [Node.isLegible, Bool.and_eq_true, Bool.not_eq_true', List.isEmpty_eq_false_iff,
    Node.allLegible_iff] at hlegible
  obtain ⟨hne, hnames⟩ := hlegible
  refine ⟨mt (fun hnil => by rw [hnil, List.map_nil]) hne, fun name hname => ?_⟩
  have hident := hnames (.ident name) (List.mem_map_of_mem hname)
  simpa only [Node.isLegible] using hident

theorem Value.from_of_legible_int (read : List Node) {n : Int}
    (h : (Node.int n).isLegible = true) : (Value.int n).From read := by
  simp only [Node.isLegible, Bool.and_eq_true, decide_eq_true_eq] at h
  unfold maxInt at h
  simp only [Value.From]
  omega

/-- Programs work with what stands inside nodes that were read. -/
def Vocabulary.reading (read : List Node) (hread : ∀ root ∈ read, root.isLegible = true) :
    Vocabulary where
  name n := isName n.toList = true
  binder n := isName n.toList = true
  code := Node.StandsIn read
  value := Value.From read
  value_str _ := trivial
  value_empty := trivial
  value_int n h := inBounds_iff.1 h
  value_quote _ h := h
  value_lambda params names body hparams hnames hbody := by
    obtain ⟨hne, hall⟩ := names_of_legible_params (hparams.isLegible hread) hnames
    exact ⟨hne, hall, hbody⟩
  value_capture _ _ h _ := by
    have hcapture : Primitive.capture ∉ Primitive.standard := by decide
    exact absurd h.1 hcapture
  code_of_quote _ h := h
  of_function _ _ h := h.2
  binder_of_name _ h := h
  name_of_code n h := by
    have hlegible := h.isLegible hread
    rwa [Node.isLegible] at hlegible
  value_of_code n h := Value.from_of_legible_int read (h.isLegible hread)
  code_of_code node h := by
    obtain ⟨root, hroot, hinside⟩ := h
    exact ⟨root, hroot, Node.inside_subset hinside List.mem_cons_self⟩
  code_of_list items h item hitem := by
    obtain ⟨root, hroot, hinside⟩ := h
    exact ⟨root, hroot, Node.inside_subset hinside (Node.mem_insideEach hitem).1⟩

/-- A node that was read is not code itself, but all its parts are. -/
theorem Vocabulary.parts_of_read {read : List Node} {hread : ∀ root ∈ read, root.isLegible = true}
    {node : Node} (h : node ∈ read) : (Vocabulary.reading read hread).parts node := by
  have hlegible := hread node h
  cases node with
  | ident name => rwa [Node.isLegible] at hlegible
  | int n => exact Value.from_of_legible_int read hlegible
  | quote inner => exact ⟨.quote inner, h, List.mem_cons_self⟩
  | list items => exact fun item hitem => ⟨.list items, h, (Node.mem_insideEach hitem).1⟩
  | str text => trivial
  | hole => trivial

-- ════════════════════════════════════════════════════════════════════════
-- Evaluation does not leave its vocabulary
-- ════════════════════════════════════════════════════════════════════════

/-- The values that a frame binds names to. -/
def Frame.values {α : Type} (frame : Frame α) : List α :=
  frame.entries.map (·.2)

theorem Frame.mem_values_bind {α : Type} {frame : Frame α} {name : String} {value other : α}
    (h : other ∈ (frame.bind name value).values) : other = value ∨ other ∈ frame.values := by
  obtain ⟨entries⟩ := frame
  simp only [values, bind] at h ⊢
  induction entries with
  | nil => exact .inl (by simpa [put] using h)
  | cons entry entries ih =>
    obtain ⟨key, old⟩ := entry
    by_cases hkey : key = name
    · simp only [put, hkey, if_true, List.map_cons, List.mem_cons] at h ⊢
      rcases h with rfl | h
      · exact .inl rfl
      · exact .inr (.inr h)
    · simp only [put, hkey, if_false, List.map_cons, List.mem_cons] at h ⊢
      rcases h with rfl | h
      · exact .inr (.inl rfl)
      · rcases ih h with rfl | h
        · exact .inl rfl
        · exact .inr (.inr h)

theorem Frame.mem_values_of_get? {α : Type} {frame : Frame α} {name : String} {value : α}
    (h : frame.get? name = some value) : value ∈ frame.values := by
  obtain ⟨entries⟩ := frame
  simp only [get?, values] at h ⊢
  induction entries with
  | nil => cases h
  | cons entry entries ih =>
    obtain ⟨key, old⟩ := entry
    by_cases hkey : key = name
    · simp only [find?, hkey, if_true, Option.some.injEq] at h
      simp [h]
    · simp only [find?, hkey, if_false] at h
      exact List.mem_cons_of_mem _ (ih h)

namespace Scopes

/-- All values that the frames bind names to are of a sort. -/
def Holds {α : Type} (good : α → Prop) (scopes : Scopes α) : Prop :=
  ∀ frame ∈ scopes.frames, ∀ value ∈ frame.values, good value

variable {α : Type} {good : α → Prop} {scopes after : Scopes α}

theorem Holds.lookup (h : scopes.Holds good) {name : String} {value : α}
    (hlookup : scopes.lookup? name = some value) : good value := by
  obtain ⟨frames⟩ := scopes
  simp only [Holds, lookup?] at h hlookup
  induction frames with
  | nil => cases hlookup
  | cons frame frames ih =>
    simp only [lookupIn] at hlookup
    split at hlookup
    · next found hfound =>
      cases hlookup
      exact h frame List.mem_cons_self value (Frame.mem_values_of_get? hfound)
    · exact ih (fun other hother => h other (List.mem_cons_of_mem _ hother)) hlookup

theorem Holds.enter (h : scopes.Holds good) : scopes.enter.Holds good := by
  intro frame hframe
  rcases List.mem_cons.1 hframe with rfl | hframe
  · intro value hvalue
    cases hvalue
  · exact h frame hframe

theorem Holds.leave (h : scopes.Holds good) (hleave : scopes.leave = .ok after) :
    after.Holds good := by
  unfold Scopes.leave at hleave
  split at hleave
  · next top outer frames hframes =>
    cases hleave
    intro frame hframe
    refine h frame ?_
    rw [hframes]
    exact List.mem_cons_of_mem _ hframe
  · cases hleave

theorem Holds.bind (h : scopes.Holds good) {name : String} {value : α} (hvalue : good value)
    (hbind : scopes.bind name value = .ok after) : after.Holds good := by
  unfold Scopes.bind at hbind
  split at hbind
  · next top outer hframes =>
    cases hbind
    intro frame hframe other hother
    rcases List.mem_cons.1 hframe with rfl | hframe
    · rcases Frame.mem_values_bind hother with rfl | hother
      · exact hvalue
      · exact h top (by simp [hframes]) other hother
    · exact h frame (by simp [hframes, hframe]) other hother
  · cases hbind

end Scopes

namespace EvalM

/-- Where all values in the frames are good, they are so behind the computation too, and its result
is of a sort. -/
def StaysIn {α : Type} (good : Value → Prop) (sort : α → Prop) (x : EvalM α) : Prop :=
  ∀ s : State, s.scopes.Holds good →
    (final x s).scopes.Holds good ∧ ∀ a t, x s = .ok a t → sort a

variable {α β : Type} {good : Value → Prop} {sort : α → Prop}

theorem staysIn_bind {sort' : β → Prop} {x : EvalM α} {f : α → EvalM β} (hx : x.StaysIn good sort)
    (hf : ∀ a, sort a → (f a).StaysIn good sort') : (x >>= f).StaysIn good sort' := by
  intro s hs
  obtain ⟨hfirst, hresult⟩ := hx s hs
  rw [final_seq]
  cases hrun : x s with
  | error e t =>
    rw [final_of_error hrun] at hfirst
    rw [bind_of_error hrun]
    exact ⟨hfirst, by simp⟩
  | ok a t =>
    rw [final_of_ok hrun] at hfirst
    rw [bind_of_ok hrun]
    exact hf a (hresult a t hrun) t hfirst

theorem staysIn_throw (e : EvalError) : (throw e : EvalM α).StaysIn good sort := by
  intro s hs
  refine ⟨hs, ?_⟩
  intro a t h
  cases h

theorem staysIn_lookup (name : String) : (lookup name).StaysIn good good := by
  intro s hs
  rw [final_lookup]
  refine ⟨hs, ?_⟩
  intro value t h
  cases hlookup : s.scopes.lookup? name with
  | none =>
    rw [lookup_of_none hlookup] at h
    cases h
  | some found =>
    rw [lookup_of_some hlookup] at h
    cases h
    exact hs.lookup hlookup

theorem staysIn_bindName (name : String) {value : Value} (hvalue : good value) :
    (EvalM.bind name value).StaysIn good (fun _ => True) := by
  intro s hs
  refine ⟨?_, fun _ _ _ => trivial⟩
  cases hbind : s.scopes.bind name value with
  | error e =>
    have hrun : EvalM.bind name value s = .error (.scope e) s := by
      simp only [EvalM.bind, onScopes, hbind]
    rw [final_of_error hrun]
    exact hs
  | ok after =>
    have hrun : EvalM.bind name value s = .ok () { s with scopes := after } := by
      simp only [EvalM.bind, onScopes, hbind]
    rw [final_of_ok hrun]
    exact hs.bind hvalue hbind

theorem staysIn_inScope {x : EvalM α} (hx : x.StaysIn good sort) :
    (inScope x).StaysIn good sort := by
  intro s hs
  obtain ⟨hinside, hresult⟩ := hx s.entered hs.enter
  constructor
  · rw [final_inScope]
    cases hleave : (final x s.entered).scopes.leave with
    | ok scopes => exact hinside.leave hleave
    | error e => exact hinside
  · intro a t h
    obtain ⟨u, hu⟩ := ok_of_inScope h
    exact hresult a u hu

theorem staysIn_counted {x : EvalM α} (hx : x.StaysIn good sort) :
    (counted x).StaysIn good sort := by
  intro s hs
  obtain ⟨hinside, hresult⟩ := hx s.opened hs
  by_cases hroom : s.room = 0
  · rw [final_counted, if_pos hroom, counted_of_room_zero hroom]
    exact ⟨hs, by simp⟩
  · rw [final_counted, if_neg hroom]
    refine ⟨hinside, ?_⟩
    intro a t h
    cases hrun : x s.opened with
    | error e u =>
      rw [counted_of_error hroom hrun] at h
      cases h
    | ok b u =>
      rw [counted_of_ok hroom hrun] at h
      cases h
      exact hresult a u hrun

end EvalM

/-- Computations that do not leave a vocabulary; the second of the two does not matter. -/
def Vocabulary.staying (V : Vocabulary) : EvalLogic where
  toVocabulary := V
  rel sort x _ := x.StaysIn V.value sort
  rel_pure a h s hs := by
    refine ⟨hs, ?_⟩
    intro b t hrun
    cases hrun
    exact h
  rel_bind hx hf := EvalM.staysIn_bind hx hf
  rel_throw error _ := EvalM.staysIn_throw error
  rel_noTruth v _ _ := EvalM.staysIn_throw (.noTruth v)
  rel_lookup n _ := EvalM.staysIn_lookup n
  rel_bindName n _ _ hv := EvalM.staysIn_bindName n hv
  rel_print _ _ hs := ⟨hs, fun _ _ _ => trivial⟩
  rel_applied _ _ _ hs := ⟨hs, fun _ _ _ => trivial⟩
  rel_inScope h := EvalM.staysIn_inScope h

theorem evaluateWithin_staysIn (V : Vocabulary) (rounds : Nat) {node : Node} (h : V.parts node) :
    (evaluateWithin rounds node).StaysIn V.value V.value := by
  induction rounds generalizing node with
  | zero =>
    intro s hs
    refine ⟨hs, ?_⟩
    intro value t hrun
    cases hrun
  | succ rounds ih =>
    have hnested : V.staying.Compares (evaluateWithin rounds) (evaluateWithin rounds) :=
      fun other hother => ih (V.parts_of_code hother)
    exact EvalM.staysIn_counted (EvalLogic.rel_evalNode hnested h)

/-- Evaluation does not leave the vocabulary of the parts of a node. -/
theorem evaluate_staysIn (V : Vocabulary) {node : Node} (h : V.parts node) :
    (evaluate node).StaysIn V.value V.value :=
  fun s hs => evaluateWithin_staysIn V s.room h s hs

end FexprLisp
