import FexprLisp.Proofs.Eval.Frames

/-!
# What an evaluation sees

An evaluation sees what the names that it can mention are bound to, and nothing else of the scopes:
not how many frames there are, not which frame binds a name, and not what a binding hides.

## Main definitions

- `Node.names`, `Value.names` — the names that stand in code
- `Agree` — states in which some names are bound to the same
- `Reached`, `Matches` — where runs on such states lead to
- `EvalM.Observes`, `observes` — computations whose runs on such states match
- `Scopes.merged` — the visible bindings in a single frame

## Main statements

- `EvalM.observes_seq`, `EvalM.observes_inScope` — such computations one after the other and in a
  scope
- `observes_rounds` — runs on states that agree match
- `Scopes.lookup?_merged` — nothing is lost in merging
- `evaluation_sees_visible_names` — evaluations on machines that agree match, and so do those on a
  machine and on the same machine with its frames merged
-/

namespace FexprLisp

namespace Node

mutual

/-- The names that stand anywhere in a node, also in quotations and among parameters. -/
def names : Node → List String
  | .ident name => [name]
  | .quote node => names node
  | .list items => namesOfAll items
  | .int _ | .str _ | .hole => []

/-- The names that stand anywhere in some nodes. -/
def namesOfAll : List Node → List String
  | [] => []
  | node :: nodes => names node ++ namesOfAll nodes

end

/-- Only such names stand in the node. -/
def MentionsOnly (N : String → Prop) (node : Node) : Prop :=
  ∀ n ∈ node.names, N n

theorem mentionsOnly_list {N : String → Prop} {items : List Node} :
    MentionsOnly N (.list items) ↔ ∀ item ∈ items, item.MentionsOnly N := by
  simp only [MentionsOnly, names]
  induction items with
  | nil => simp [namesOfAll]
  | cons item items ih => simp [namesOfAll, or_imp, forall_and, ih]

end Node

/-- The names that stand in the code of a value. -/
def Value.names : Value → List String
  | .quote node => node.names
  | .function params body => params ++ body.names
  | _ => []

/-- Only such names stand in the code of the value. -/
def Value.MentionsOnly (N : String → Prop) (value : Value) : Prop :=
  ∀ n ∈ value.names, N n

theorem namesOfAll_of_paramNames {params : List Node} {names : List String}
    (h : Form.paramNames params = .ok names) : Node.namesOfAll params = names := by
  induction params generalizing names with
  | nil =>
    cases h
    rfl
  | cons param params ih =>
    cases param with
    | ident name =>
      simp only [Form.paramNames] at h
      cases hp : Form.paramNames params with
      | error e => simp [hp, Except.map] at h
      | ok rest =>
        simp only [hp, Except.map, Except.ok.injEq] at h
        rw [Node.namesOfAll, ih hp, ← h]
        rfl
    | _ => cases h

/-- Programs may mention some names only. -/
def Vocabulary.naming (N : String → Prop) : Vocabulary where
  name := N
  binder := N
  code := Node.MentionsOnly N
  value := Value.MentionsOnly N
  value_str _ n h := by cases h
  value_empty n h := by cases h
  value_int _ _ n h := by cases h
  value_quote _ h := h
  value_lambda params names body hparams hnames hbody n hn := by
    rcases List.mem_append.1 hn with hn | hn
    · rw [← namesOfAll_of_paramNames hnames] at hn
      exact hparams n hn
    · exact hbody n hn
  value_capture _ args _ hargs := Node.mentionsOnly_list.2 hargs
  code_of_quote _ h := h
  of_function params body h :=
    ⟨fun p hp => h p (List.mem_append_left _ hp), fun n hn => h n (List.mem_append_right _ hn)⟩
  binder_of_name _ h := h
  name_of_code n h := h n (List.mem_singleton.2 rfl)
  value_of_code _ _ n h := by cases h
  code_of_code _ h := h
  code_of_list _ h := Node.mentionsOnly_list.1 h

/-- Both states have frames and the same room; the names are bound to the same in both, and only to
what mentions only such names itself. -/
structure Agree (N : String → Prop) (s t : State) : Prop where
  frames : s.scopes.frames ≠ []
  frames' : t.scopes.frames ≠ []
  depth : t.depth = s.depth
  limit : t.limit = s.limit
  lookup : ∀ n, N n → t.scopes.lookup? n = s.scopes.lookup? n
  closed : ∀ n v, N n → s.scopes.lookup? n = some v → v.MentionsOnly N

/-- Two runs got from states to states that agree. Each has kept its frames, and both have printed
the same lines. -/
structure Reached (N : String → Prop) (s t s' t' : State) : Prop where
  agree : Agree N s' t'
  kept : Kept s s'
  kept' : Kept t t'
  printed : ∃ lines, s'.output.toList = s.output.toList ++ lines ∧
    t'.output.toList = t.output.toList ++ lines

/-- Two runs, which began on two states, led to the same result of a sort or to the same error. -/
inductive Matches (N : String → Prop) {α : Type} (good : α → Prop) (s t : State) :
    Machine.Outcome EvalError α → Machine.Outcome EvalError α → Prop where
  | ok (a : α) (s' t' : State) (ha : good a) (h : Reached N s t s' t') :
    Matches N good s t (.ok a s') (.ok a t')
  | error (e : EvalError) (s' t' : State) (h : Reached N s t s' t') :
    Matches N good s t (.error e s') (.error e t')

-- ════════════════════════════════════════════════════════════════════════
-- States that agree
-- ════════════════════════════════════════════════════════════════════════

theorem Scopes.lookup?_bindTop (top : Frame Value) (outer : List (Frame Value))
    (name other : String) (value : Value) :
    Scopes.lookup? ⟨top.bind name value :: outer⟩ other =
      if other = name then some value else Scopes.lookup? ⟨top :: outer⟩ other := by
  have hbind : Scopes.bind ⟨top :: outer⟩ name value = .ok ⟨top.bind name value :: outer⟩ := rfl
  split
  · next h =>
    rw [h]
    exact Scopes.lookup?_bind_self hbind
  · next h => exact Scopes.lookup?_bind_of_ne hbind h

namespace Agree

variable {N : String → Prop} {s t : State}

theorem room_eq (h : Agree N s t) : t.room = s.room := by
  rw [State.room, State.room, h.depth, h.limit]

theorem entered (h : Agree N s t) : Agree N s.entered t.entered :=
  { h with frames := List.cons_ne_nil _ _, frames' := List.cons_ne_nil _ _ }

theorem opened (h : Agree N s t) : Agree N s.opened t.opened :=
  { h with depth := by simp only [State.opened, h.depth] }

theorem closed_of_opened (h : Agree N s t) : Agree N s.closed t.closed :=
  { h with depth := by simp only [State.closed, h.depth] }

theorem left {s' t' : State} (h : Agree N s t) (h' : Agree N s' t') :
    Agree N (s'.left s.scopes) (t'.left t.scopes) :=
  { h with depth := h'.depth, limit := h'.limit }

theorem bind (h : Agree N s t) {top top' : Frame Value} {outer outer' : List (Frame Value)}
    (hs : s.scopes.frames = top :: outer) (ht : t.scopes.frames = top' :: outer') (name : String)
    {value : Value} (hv : value.MentionsOnly N) :
    Agree N { s with scopes := ⟨top.bind name value :: outer⟩ }
      { t with scopes := ⟨top'.bind name value :: outer'⟩ } := by
  have hs' : s.scopes = ⟨top :: outer⟩ := by rw [← hs]
  have ht' : t.scopes = ⟨top' :: outer'⟩ := by rw [← ht]
  refine ⟨List.cons_ne_nil _ _, List.cons_ne_nil _ _, h.depth, h.limit, ?_, ?_⟩
  · intro n hn
    simp only [Scopes.lookup?_bindTop, ← hs', ← ht', h.lookup n hn]
  · intro n v hn hlookup
    simp only [Scopes.lookup?_bindTop, ← hs'] at hlookup
    split at hlookup
    · cases hlookup
      exact hv
    · exact h.closed n v hn hlookup

end Agree

namespace Reached

variable {N : String → Prop} {s t s' t' s'' t'' : State}

theorem refl (h : Agree N s t) : Reached N s t s t :=
  ⟨h, .refl h.frames, .refl h.frames', [], by simp, by simp⟩

theorem trans (h : Reached N s t s' t') (h' : Reached N s' t' s'' t'') :
    Reached N s t s'' t'' := by
  obtain ⟨lines, hs, ht⟩ := h.printed
  obtain ⟨lines', hs', ht'⟩ := h'.printed
  refine ⟨h'.agree, h.kept.trans h'.kept, h.kept'.trans h'.kept', lines ++ lines', ?_, ?_⟩
  · rw [hs', hs, List.append_assoc]
  · rw [ht', ht, List.append_assoc]

theorem left (h : Agree N s t) (h' : Reached N s.entered t.entered s' t') :
    Reached N s t (s'.left s.scopes) (t'.left t.scopes) where
  agree := h.left h'.agree
  kept := .of_scopes_eq h.frames ⟨h'.kept.depth, h'.kept.limit⟩ rfl h'.kept.output
  kept' := .of_scopes_eq h.frames' ⟨h'.kept'.depth, h'.kept'.limit⟩ rfl h'.kept'.output
  printed := h'.printed

theorem closed (h : Reached N s.opened t.opened s' t') : Reached N s t s'.closed t'.closed where
  agree := h.agree.closed_of_opened
  kept := h.kept.closed
  kept' := h.kept'.closed
  printed := h.printed

end Reached

theorem Matches.weaken {N : String → Prop} {α : Type} {good good' : α → Prop} {s t : State}
    {r r' : Machine.Outcome EvalError α} (hm : Matches N good s t r r')
    (h : ∀ a, good a → good' a) : Matches N good' s t r r' := by
  cases hm with
  | ok a u u' ha hreached => exact .ok a u u' (h a ha) hreached
  | error e u u' hreached => exact .error e u u' hreached

theorem Matches.of_reached_ok {N : String → Prop} {α : Type} {good : α → Prop}
    {s t s' t' : State} {r r' : Machine.Outcome EvalError α} (h : Reached N s t s' t')
    (hm : Matches N good s' t' r r') : Matches N good s t r r' := by
  cases hm with
  | ok a u u' ha h' => exact .ok a u u' ha (h.trans h')
  | error e u u' h' => exact .error e u u' (h.trans h')

-- ════════════════════════════════════════════════════════════════════════
-- Computations that match
-- ════════════════════════════════════════════════════════════════════════

namespace EvalM

/-- Runs on states that agree match. -/
def Observes (N : String → Prop) {α : Type} (good : α → Prop) (x y : EvalM α) : Prop :=
  ∀ s t, Agree N s t → Matches N good s t (x s) (y t)

variable {N : String → Prop} {α β : Type} {good : α → Prop} {good' : β → Prop}

theorem observes_seq {x y : EvalM α} {f g : α → EvalM β} (hx : Observes N good x y)
    (hf : ∀ a, good a → Observes N good' (f a) (g a)) : Observes N good' (x >>= f) (y >>= g) := by
  intro s t h
  have hfirst := hx s t h
  generalize hrun : x s = r at hfirst
  generalize hrun' : y t = r' at hfirst
  cases hfirst with
  | ok a s' t' ha hreached =>
    rw [bind_of_ok hrun, bind_of_ok hrun']
    exact .of_reached_ok hreached (hf a ha s' t' hreached.agree)
  | error e s' t' hreached =>
    rw [bind_of_error hrun, bind_of_error hrun']
    exact .error e s' t' hreached

theorem observes_lookup {name : String} (hn : N name) :
    Observes N (Value.MentionsOnly N) (lookup name) (lookup name) := by
  intro s t h
  have hlookup := h.lookup name hn
  cases hs : s.scopes.lookup? name with
  | some v =>
    rw [lookup_of_some hs, lookup_of_some (hlookup.trans hs)]
    exact .ok v s t (h.closed name v hn hs) (.refl h)
  | none =>
    rw [lookup_of_none hs, lookup_of_none (hlookup.trans hs)]
    exact .error _ s t (.refl h)

theorem observes_bindName (name : String) {value : Value} (hv : value.MentionsOnly N) :
    Observes N (fun _ => True) (EvalM.bind name value) (EvalM.bind name value) := by
  intro s t h
  obtain ⟨top, outer, hs⟩ := List.exists_cons_of_ne_nil h.frames
  obtain ⟨top', outer', ht⟩ := List.exists_cons_of_ne_nil h.frames'
  have hkept := Kept.bind h.frames name value
  have hkept' := Kept.bind h.frames' name value
  rw [final_of_ok (bind_of_frames hs name value)] at hkept
  rw [final_of_ok (bind_of_frames ht name value)] at hkept'
  rw [bind_of_frames hs, bind_of_frames ht]
  exact .ok () _ _ trivial ⟨h.bind hs ht name hv, hkept, hkept', [], by simp, by simp⟩

/-- Each run leaves its scope with the frames that it had before, so that the states agree again. -/
theorem observes_inScope {x y : EvalM α} (hx : Observes N good x y) :
    Observes N good (inScope x) (inScope y) := by
  intro s t h
  have hinside := hx s.entered t.entered h.entered
  generalize hrun : x s.entered = r at hinside
  generalize hrun' : y t.entered = r' at hinside
  cases hinside with
  | ok a s' t' ha hreached =>
    rw [inScope_of_ok hrun (hreached.kept.leave h.frames),
      inScope_of_ok hrun' (hreached.kept'.leave h.frames')]
    exact .ok a _ _ ha (.left h hreached)
  | error e s' t' hreached =>
    rw [inScope_of_error hrun (hreached.kept.leave h.frames),
      inScope_of_error hrun' (hreached.kept'.leave h.frames')]
    exact .error e _ _ (.left h hreached)

theorem observes_counted {x y : EvalM α} (h : Observes N good x y) :
    Observes N good (counted x) (counted y) := by
  intro s t hagree
  have hrooms := hagree.room_eq
  by_cases hroom : s.room = 0
  · rw [counted_of_room_zero hroom, counted_of_room_zero (hrooms.trans hroom),
      hagree.limit]
    exact .error _ s t (.refl hagree)
  · have hroom' : t.room ≠ 0 := by rwa [hrooms]
    have hinside := h s.opened t.opened hagree.opened
    generalize hrun : x s.opened = r at hinside
    generalize hrun' : y t.opened = r' at hinside
    cases hinside with
    | ok a s' t' ha hreached =>
      rw [counted_of_ok hroom hrun, counted_of_ok hroom' hrun']
      exact .ok a _ _ ha hreached.closed
    | error e s' t' hreached =>
      rw [counted_of_error hroom hrun, counted_of_error hroom' hrun']
      exact .error e _ _ hreached.closed

end EvalM

/-- Computations whose runs on states that agree match. -/
def observes (N : String → Prop) : EvalLogic where
  toVocabulary := .naming N
  rel good x y := EvalM.Observes N good x y
  rel_pure a ha s t h := .ok a s t ha (.refl h)
  rel_bind hx hf := EvalM.observes_seq hx hf
  rel_throw e _ s t h := .error e s t (.refl h)
  rel_noTruth v _ _ s t h := .error _ s t (.refl h)
  rel_lookup _ hn := EvalM.observes_lookup hn
  rel_bindName n _ _ hv := EvalM.observes_bindName n hv
  rel_print v s t h :=
    .ok () _ _ trivial ⟨{ h with }, EvalM.keeps_print v.inspect s h.frames,
      EvalM.keeps_print v.inspect t h.frames', [v.inspect], by simp, by simp⟩
  rel_applied params values s t h :=
    .ok () _ _ trivial ⟨{ h with }, EvalM.keeps_note _ s h.frames, EvalM.keeps_note _ t h.frames',
      [], by simp, by simp⟩
  rel_inScope h := EvalM.observes_inScope h

/-- Evaluations of code that mentions only the names match, in any number of rounds. -/
theorem observes_rounds (N : String → Prop) (rounds : Nat) :
    (observes N).Compares (evaluateWithin rounds) (evaluateWithin rounds) := by
  induction rounds with
  | zero =>
    intro node _ s t h
    have hrefused : evaluateWithin 0 node t = .error (.tooDeep s.limit) t := by
      rw [← h.limit]
      rfl
    rw [hrefused]
    exact .error _ s t (.refl h)
  | succ rounds ih =>
    intro node hnode
    exact EvalM.observes_counted (EvalLogic.rel_evalNode ih (Vocabulary.parts_of_code _ hnode))

theorem evaluate_matches {N : String → Prop} {s t : State} (h : Agree N s t) {node : Node}
    (hnode : node.MentionsOnly N) :
    Matches N (Value.MentionsOnly N) s t (evaluate node s) (evaluate node t) := by
  have hrounds := observes_rounds N s.room node hnode s t h
  unfold evaluate
  rw [h.room_eq]
  exact hrounds

-- ════════════════════════════════════════════════════════════════════════
-- Merged frames
-- ════════════════════════════════════════════════════════════════════════

/-- Binds all entries over a frame. Where a name has several, the first one counts. -/
def Frame.overlay (entries : List (String × Value)) (frame : Frame Value) : Frame Value :=
  entries.foldr (fun entry below => below.bind entry.1 entry.2) frame

/-- The visible bindings of some frames, innermost first. -/
def Scopes.visible : List (Frame Value) → Frame Value
  | [] => .empty
  | frame :: outer => Frame.overlay frame.entries (visible outer)

/-- The visible bindings in a single frame. -/
def Scopes.merged (scopes : Scopes Value) : Scopes Value :=
  ⟨[visible scopes.frames]⟩

theorem Frame.get?_overlay (entries : List (String × Value)) (frame : Frame Value) (name : String) :
    (overlay entries frame).get? name = (find? name entries).or (frame.get? name) := by
  induction entries with
  | nil => rfl
  | cons entry entries ih =>
    obtain ⟨key, value⟩ := entry
    show ((overlay entries frame).bind key value).get? name = _
    by_cases hkey : key = name
    · subst hkey
      simp [find?]
    · rw [get?_bind_of_ne _ (Ne.symm hkey), ih]
      simp [find?, hkey]

theorem Scopes.get?_visible (frames : List (Frame Value)) (name : String) :
    (visible frames).get? name = lookupIn name frames := by
  induction frames with
  | nil => rfl
  | cons frame outer ih =>
    rw [visible, Frame.get?_overlay, ih, lookupIn]
    show (frame.get? name).or (lookupIn name outer) = _
    cases frame.get? name <;> rfl

theorem Scopes.lookup?_merged (scopes : Scopes Value) (name : String) :
    scopes.merged.lookup? name = scopes.lookup? name := by
  have hget := get?_visible scopes.frames name
  simp only [lookup?, merged, lookupIn, hget]
  cases lookupIn name scopes.frames <;> rfl

/-- Nothing of the scopes matters but what each name is bound to. -/
theorem evaluate_matches_of_lookup_eq {s : State} {scopes : Scopes Value}
    (hs : s.scopes.frames ≠ []) (hscopes : scopes.frames ≠ [])
    (h : ∀ n, scopes.lookup? n = s.scopes.lookup? n) (node : Node) :
    Matches (fun _ => True) (fun _ => True) s { s with scopes } (evaluate node s)
      (evaluate node { s with scopes }) := by
  have hagree : Agree (fun _ => True) s { s with scopes } :=
    ⟨hs, hscopes, rfl, rfl, fun n _ => h n, fun _ _ _ _ _ _ => trivial⟩
  have hnode : node.MentionsOnly fun _ => True := fun _ _ => trivial
  exact (evaluate_matches hagree hnode).weaken fun _ _ => trivial

/-- On machines that agree on the names that some code mentions, the code evaluates to the same.
In particular nothing but what each name is bound to matters, so bindings that are hidden do not,
and the frames may be merged into one. -/
theorem evaluation_sees_visible_names :
    (∀ (N : String → Prop) (m m' : Machine) (node : Node), Agree N m m' → node.MentionsOnly N →
      Matches N (Value.MentionsOnly N) m m' (m.evaluate node) (m'.evaluate node)) ∧
    (∀ (m : Machine) (scopes : Scopes Value) (node : Node), m.scopes.frames ≠ [] →
      scopes.frames ≠ [] → (∀ n, scopes.lookup? n = m.scopes.lookup? n) →
      Matches (fun _ => True) (fun _ => True) m { m with scopes } (m.evaluate node)
        (Machine.evaluate { m with scopes } node)) ∧
    ∀ (m : Machine) (node : Node), m.scopes.frames ≠ [] →
      Matches (fun _ => True) (fun _ => True) m { m with scopes := m.scopes.merged }
        (m.evaluate node) (Machine.evaluate { m with scopes := m.scopes.merged } node) := by
  refine ⟨fun N m m' node h hnode => evaluate_matches h hnode,
    fun m scopes node hm hscopes h => evaluate_matches_of_lookup_eq hm hscopes h node,
    fun m node hm => ?_⟩
  have hmerged : m.scopes.merged.frames ≠ [] := List.cons_ne_nil _ _
  exact evaluate_matches_of_lookup_eq hm hmerged (Scopes.lookup?_merged m.scopes) node

/-- A hidden binding and one of a name that is not mentioned make no difference. -/
theorem evaluation_sees_visible_names_hidden :
    let f : Value := .function ["x"] (.ident "x")
    let m : Machine := { scopes := ⟨[⟨[("x", .int 1)]⟩, ⟨[("f", f), ("x", .int 7)]⟩]⟩, limit := 9 }
    let m' : Machine := { scopes := ⟨[⟨[("y", .str "z"), ("f", f), ("x", .int 1)]⟩]⟩, limit := 9 }
    let N : String → Prop := fun n => n = "f" ∨ n = "x"
    let node : Node := .list [.ident "f", .ident "x"]
    Agree N m m' ∧ node.MentionsOnly N ∧
      Matches N (Value.MentionsOnly N) m m' (m.evaluate node) (m'.evaluate node) := by
  intro f m m' N node
  have hagree : Agree N m m' := by
    refine ⟨by decide, by decide, rfl, rfl, ?_, ?_⟩
    · rintro n (rfl | rfl) <;> rfl
    · rintro n v (rfl | rfl) h
      · cases h
        simp [Value.MentionsOnly, Value.names, Node.names, N, f]
      · cases h
        simp [Value.MentionsOnly, Value.names]
  have hnode : node.MentionsOnly N := by
    simp [Node.MentionsOnly, Node.names, Node.namesOfAll, N, node]
  exact ⟨hagree, hnode, evaluation_sees_visible_names.1 N m m' node hagree hnode⟩

end FexprLisp
