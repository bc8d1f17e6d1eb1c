import FexprLisp.Proofs.Eval.Frames
import FexprLisp.Proofs.Eval.Provenance
import FexprLisp.Proofs.Source.Reading

/-!
# Sessions

A session is a new machine that runs one text after the other. Some of the runs may fail, in the
middle of a text or of an evaluation. Whatever they do, between two runs the machine has its base
frame and no other, no evaluation is open, and all values come from nodes that were read.

## Main definitions

- `Machine.readsFrom`, `Machine.reads` — the nodes that a run reads
- `Session` — a machine with all that it has read and returned
- `Machine.Settled` — what holds of a machine between two runs

## Main statements

- `Machine.Settled.evaluate` — one evaluation keeps a machine settled
- `Machine.Settled.runFrom` — so does a run
- `session_values_from_read` — the values of a session come from what it has read
-/

namespace FexprLisp

namespace Machine

/-- What an operation gives back, if it succeeds. -/
def Outcome.results {ε α : Type} : Outcome ε α → List α
  | .ok a _ => [a]
  | .error _ _ => []

/-- The nodes that a run reads from a place on. None is read behind one whose evaluation fails. -/
def readsFrom (m : Machine) (c : Cursor) : List Node :=
  match _ : c.readNode with
  | .ok none _ => []
  | .error _ _ => []
  | .ok (some node) c' =>
    match m.evaluate node with
    | .ok _ m => node :: readsFrom m c'
    | .error _ _ => [node]
termination_by c.pending.length
decreasing_by exact Cursor.pending_readNode_lt (by assumption)

/-- The nodes that a run reads from a text. -/
def reads (m : Machine) (text : String) : List Node :=
  m.readsFrom (Cursor.ofText text)

end Machine

/-- A machine with all nodes that it has read and all values that its runs have returned. -/
structure Session where
  machine : Machine
  read : List Node := []
  returned : List Value := []

namespace Session

/-- Runs a text. -/
def run (s : Session) (text : String) : Session where
  machine := (s.machine.run text).machine
  read := s.read ++ s.machine.reads text
  returned := s.returned ++ (s.machine.run text).results

/-- All values that names are bound to or that were returned. -/
def values (s : Session) : List Value :=
  s.machine.scopes.frames.flatMap Frame.values ++ s.returned

/-- A new machine has run some texts, one after the other. -/
def after (limit : Int) (texts : List String) : Session :=
  texts.foldl run { machine := Machine.boot limit }

end Session

-- ════════════════════════════════════════════════════════════════════════
-- What is read
-- ════════════════════════════════════════════════════════════════════════

/-- A node may be read next, and the tokens ahead belong to their classes. -/
def Cursor.Ready (c : Cursor) : Prop :=
  c.Idle ∧ ∀ token ∈ c.pending, token.lexeme.wellFormed = true

theorem Cursor.ready_ofText (text : String) : (ofText text).Ready :=
  ⟨idle_ofText text, scan_wellFormed text⟩

theorem Cursor.Ready.readNode {c c' : Cursor} {node : Node} (h : c.Ready)
    (hread : c.readNode = .ok (some node) c') : node.Readable ∧ c'.Ready := by
  rw [readNode_eq_resume h.1] at hread
  obtain ⟨hnode, rest, position, rfl, hrest⟩ := resume_readable h.2 Level.fits_nil hread
  exact ⟨hnode, idle_before _ _ _, fun token htoken => h.2 token (hrest token htoken)⟩

-- ════════════════════════════════════════════════════════════════════════
-- Settled machines
-- ════════════════════════════════════════════════════════════════════════

/-- What holds of a machine between two runs, when some nodes have been read. -/
structure Machine.Settled (read : List Node) (m : Machine) : Prop where
  legible : ∀ root ∈ read, root.isLegible = true
  frames : ∃ base, m.scopes.frames = [base] ∧
    ∀ operation ∈ Primitive.standard, operation.name ∈ base.names
  depth : m.depth = 0
  values : m.scopes.Holds (Value.From read)

/-- The entry of a native operation that is bound under its own name. -/
def Primitive.entry (operation : Primitive) : String × Value :=
  (operation.name, .intrinsic operation.name operation)

namespace Machine

/-- Operations whose names are all new are bound behind what is bound already, in order. -/
theorem scopes_registerEach {operations : List Primitive} {base : Frame Value} {m : Machine}
    (hbase : m.scopes.frames = [base])
    (hnew : (base.names ++ operations.map Primitive.name).Nodup) :
    (EvalM.final (registerEach operations) m).scopes =
        ⟨[⟨base.entries ++ operations.map Primitive.entry⟩]⟩ ∧
      (EvalM.final (registerEach operations) m).depth = m.depth := by
  induction operations generalizing base m with
  | nil =>
    refine ⟨?_, rfl⟩
    rw [List.map_nil, List.append_nil]
    exact congrArg Scopes.mk hbase
  | cons operation operations ih =>
    rw [List.map_cons] at hnew
    have hfresh : operation.name ∉ base.names := by
      intro hmem
      exact (List.nodup_append.1 hnew).2.2 _ hmem _ List.mem_cons_self rfl
    let bound : Frame Value := ⟨base.entries ++ [operation.entry]⟩
    have hbind : base.bind operation.name (.intrinsic operation.name operation) = bound :=
      Frame.bind_of_not_mem hfresh _
    have hinstall : m.scopes.install operation.name (.intrinsic operation.name operation) =
        .ok ⟨[bound]⟩ := by
      simp only [Scopes.install, hbase, Scopes.installIn, hbind]
    let after : Machine := { m with
      scopes := ⟨[bound]⟩, journal := m.journal.push (.registered operation.name) }
    have hregister : EvalM.register operation.name operation m = .ok () after := by
      simp only [EvalM.register, Bind.bind, EStateM.bind, EvalM.onScopes, hinstall, EvalM.note]
      rfl
    have hlater : (bound.names ++ operations.map Primitive.name).Nodup := by
      simpa [bound, Frame.names, Primitive.entry] using hnew
    obtain ⟨hscopes, hdepth⟩ := ih (show after.scopes.frames = [bound] from rfl) hlater
    rw [registerEach, EvalM.final_seq, hregister]
    refine ⟨?_, hdepth⟩
    rw [hscopes]
    simp [bound]

theorem boot_eq (limit : Int) :
    boot limit =
      EvalM.final (EvalM.note (.ready Primitive.standard.length))
        (EvalM.final (registerEach Primitive.standard) (blank limit)) := rfl

/-- A new machine binds the standard operations, each under its own name, and nothing else. -/
theorem scopes_boot (limit : Int) :
    (boot limit).scopes = ⟨[⟨Primitive.standard.map Primitive.entry⟩]⟩ ∧
      (boot limit).depth = 0 := by
  have hbase : (blank limit).scopes.frames = [.empty] := rfl
  have hnew : ((Frame.empty : Frame Value).names ++ Primitive.standard.map Primitive.name).Nodup := by
    decide +kernel
  obtain ⟨hscopes, hdepth⟩ := scopes_registerEach hbase hnew
  rw [boot_eq, EvalM.final_note]
  -- the fields are read off first, so that nothing has to be run to compare them
  dsimp only
  rw [hscopes, hdepth]
  exact ⟨rfl, rfl⟩

theorem limit_registerEach (operations : List Primitive) (m : Machine) :
    (EvalM.final (registerEach operations) m).limit = m.limit := by
  induction operations generalizing m with
  | nil => rfl
  | cons operation operations ih =>
    rw [registerEach, EvalM.final_seq]
    cases hinstall : m.scopes.install operation.name (.intrinsic operation.name operation) with
    | error error =>
      have hregister : EvalM.register operation.name operation m = .error (.scope error) m := by
        simp only [EvalM.register, Bind.bind, EStateM.bind, EvalM.onScopes, hinstall]
      rw [hregister]
    | ok scopes =>
      have hregister : EvalM.register operation.name operation m = .ok () { m with
          scopes, journal := m.journal.push (.registered operation.name) } := by
        simp only [EvalM.register, Bind.bind, EStateM.bind, EvalM.onScopes, hinstall]
        rfl
      rw [hregister]
      exact ih _

theorem room_boot (limit : Int) : (boot limit).room = limit.toNat := by
  have hlimit : (boot limit).limit = limit := by
    rw [boot_eq, EvalM.final_note]
    dsimp only
    rw [limit_registerEach]
    rfl
  rw [State.room, hlimit, (scopes_boot limit).2, Int.sub_zero]

theorem settled_boot (limit : Int) : (boot limit).Settled [] := by
  obtain ⟨hscopes, hdepth⟩ := scopes_boot limit
  refine ⟨by simp, ⟨_, congrArg Scopes.frames hscopes, ?_⟩, hdepth, ?_⟩
  · intro operation hoperation
    simpa [Frame.names, Primitive.entry] using ⟨operation, hoperation, rfl⟩
  · intro frame hframe value hvalue
    rw [hscopes, List.mem_singleton] at hframe
    subst hframe
    simp only [Frame.values, List.map_map, List.mem_map, Function.comp_apply] at hvalue
    obtain ⟨operation, hoperation, rfl⟩ := hvalue
    exact ⟨hoperation, rfl⟩

theorem Settled.extend {read : List Node} {m : Machine} (h : m.Settled read) {node : Node}
    (hnode : node.isLegible = true) : m.Settled (read ++ [node]) := by
  refine ⟨?_, h.frames, h.depth, ?_⟩
  · intro root hroot
    rcases List.mem_append.1 hroot with hroot | hroot
    · exact h.legible root hroot
    · rw [List.mem_singleton.1 hroot]
      exact hnode
  · intro frame hframe value hvalue
    exact (h.values frame hframe value hvalue).mono (List.subset_append_left _ _)

/-- One evaluation keeps a machine settled, whatever it leads to. -/
theorem Settled.evaluate {read : List Node} {m : Machine} (h : m.Settled read) {node : Node}
    (hnode : node.isLegible = true) :
    (m.evaluate node).machine.Settled (read ++ [node]) ∧
      ∀ value ∈ (m.evaluate node).results, value.From (read ++ [node]) := by
  have hmore := h.extend hnode
  obtain ⟨hstays, hresult⟩ := evaluate_staysIn (Vocabulary.reading _ hmore.legible)
    (Vocabulary.parts_of_read (List.mem_append_right _ (List.mem_singleton.2 rfl))) m hmore.values
  obtain ⟨base, hbase, hnames⟩ := h.frames
  have hkept : Kept m (m.evaluate node).machine := evaluate_keeps node m (by simp [hbase])
  refine ⟨⟨hmore.legible, ?_, hkept.depth.trans h.depth, hstays⟩, ?_⟩
  · obtain ⟨top, top', outer, htop, htop', hmore⟩ := hkept.frames
    rw [hbase, List.cons.injEq] at htop
    obtain ⟨rfl, rfl⟩ := htop
    exact ⟨top', htop', fun operation hoperation => hmore.subset (hnames operation hoperation)⟩
  · intro value hvalue
    cases hrun : m.evaluate node with
    | error e m' =>
      rw [hrun] at hvalue
      cases hvalue
    | ok result m' =>
      rw [hrun] at hvalue
      rw [List.mem_singleton.1 hvalue]
      exact hresult result m' hrun

theorem readsFrom_of_end {m : Machine} {c c' : Cursor} (h : c.readNode = .ok none c') :
    m.readsFrom c = [] := by
  rw [readsFrom]
  split <;> simp_all

theorem readsFrom_of_error {m : Machine} {c c' : Cursor} {error : ReadError}
    (h : c.readNode = .error error c') : m.readsFrom c = [] := by
  rw [readsFrom]
  split <;> simp_all

theorem readsFrom_of_node {m : Machine} {c c' : Cursor} {node : Node}
    (h : c.readNode = .ok (some node) c') :
    m.readsFrom c = match m.evaluate node with
      | .ok _ m => node :: m.readsFrom c'
      | .error _ _ => [node] := by
  rw [readsFrom]
  split
  · simp_all
  · simp_all
  · next heq =>
    simp only [h, EStateM.Result.ok.injEq, Option.some.injEq] at heq
    obtain ⟨rfl, rfl⟩ := heq
    rfl

/-- A run keeps a machine settled, wherever it stops. -/
theorem Settled.runFrom {read : List Node} {m : Machine} (h : m.Settled read) {last : Value}
    (hlast : last.From read) {c : Cursor} (hc : c.Ready) :
    (m.runFrom last c).machine.Settled (read ++ m.readsFrom c) ∧
      ∀ value ∈ (m.runFrom last c).results, value.From (read ++ m.readsFrom c) := by
  fun_induction Machine.runFrom m last c generalizing read with
  | case1 m last c c' hread =>
    rw [readsFrom_of_end hread, List.append_nil]
    refine ⟨h, ?_⟩
    intro value hvalue
    rw [List.mem_singleton.1 hvalue]
    exact hlast
  | case2 m last c error c' hread =>
    rw [readsFrom_of_error hread, List.append_nil]
    refine ⟨h, ?_⟩
    intro value hvalue
    cases hvalue
  | case3 m last c node c' hread value m' heval ih =>
    obtain ⟨hnode, hc'⟩ := hc.readNode hread
    obtain ⟨hsettled, hvalue⟩ := h.evaluate hnode.1
    rw [heval] at hsettled hvalue
    have hrest := ih hsettled (hvalue value (List.mem_singleton.2 rfl)) hc'
    rw [readsFrom_of_node hread, heval]
    simpa using hrest
  | case4 m last c node c' hread error m' heval =>
    obtain ⟨hnode, -⟩ := hc.readNode hread
    obtain ⟨hsettled, -⟩ := h.evaluate hnode.1
    rw [heval] at hsettled
    rw [readsFrom_of_node hread, heval]
    refine ⟨hsettled, ?_⟩
    intro value hvalue
    cases hvalue

end Machine

-- ════════════════════════════════════════════════════════════════════════
-- Sessions
-- ════════════════════════════════════════════════════════════════════════

namespace Session

/-- The machine is settled, and what was returned comes from what was read. -/
structure Sound (s : Session) : Prop where
  settled : s.machine.Settled s.read
  returned : ∀ value ∈ s.returned, value.From s.read

theorem Sound.run {s : Session} (h : s.Sound) (text : String) : (s.run text).Sound := by
  have hempty : Value.empty.From s.read := trivial
  obtain ⟨hsettled, hresults⟩ := h.settled.runFrom hempty (Cursor.ready_ofText text)
  refine ⟨hsettled, ?_⟩
  intro value hvalue
  rcases List.mem_append.1 hvalue with hvalue | hvalue
  · exact (h.returned value hvalue).mono (List.subset_append_left _ _)
  · exact hresults value hvalue

theorem Sound.from_read {s : Session} (h : s.Sound) :
    ∀ value ∈ s.values, value.From s.read := by
  intro value hvalue
  rcases List.mem_append.1 hvalue with hvalue | hvalue
  · obtain ⟨frame, hframe, hvalue⟩ := List.mem_flatMap.1 hvalue
    exact h.settled.values frame hframe value hvalue
  · exact h.returned value hvalue

theorem sound_foldl {s : Session} (h : s.Sound) (texts : List String) :
    (texts.foldl Session.run s).Sound := by
  induction texts generalizing s with
  | nil => exact h
  | cons text texts ih => exact ih (h.run text)

theorem sound_after (limit : Int) (texts : List String) : (after limit texts).Sound :=
  sound_foldl ⟨Machine.settled_boot limit, by simp⟩ texts

end Session

theorem Machine.lookup?_boot (limit : Int) {operation : Primitive}
    (h : operation ∈ Primitive.standard) :
    (boot limit).scopes.lookup? operation.name =
      some (.intrinsic operation.name operation) := by
  have hall : ∀ operation ∈ Primitive.standard,
      Scopes.lookup? ⟨[⟨Primitive.standard.map Primitive.entry⟩]⟩ operation.name =
        some (.intrinsic operation.name operation) := by
    decide +kernel
  rw [(scopes_boot limit).1]
  exact hall operation h

/-- Whatever texts a new machine has run, and however these runs ended, it has one frame and no open
evaluation, and the names of the fourteen standard operations are still bound. All values that were
returned or are bound come from nodes that were read. A native operation among them is the one that
the new machine bound under its name, and the language's own equality is equality of such values. -/
theorem session_values_from_read (limit : Int) (texts : List String) :
    (∃ base, (Session.after limit texts).machine.scopes.frames = [base] ∧
      ∀ name ∈ ["let", "quote", "unquote", "do", "if", "fn", "debug", "+", "-", "*", "/", "mod", "=",
        "!="], base.binds name = true) ∧
    (Session.after limit texts).machine.depth = 0 ∧
    ∀ value ∈ (Session.after limit texts).values,
      value.From (Session.after limit texts).read ∧
      (∀ name operation, value = .intrinsic name operation →
        (Machine.boot limit).scopes.lookup? name = some value) ∧
      ∀ other ∈ (Session.after limit texts).values, value.same other = true ↔ value = other := by
  have hsound := Session.sound_after limit texts
  refine ⟨?_, hsound.settled.depth, ?_⟩
  · obtain ⟨base, hbase, hnames⟩ := hsound.settled.frames
    refine ⟨base, hbase, ?_⟩
    intro name hname
    have hstandard : Primitive.standard.map Primitive.name = ["let", "quote", "unquote", "do", "if",
        "fn", "debug", "+", "-", "*", "/", "mod", "=", "!="] := rfl
    rw [← hstandard] at hname
    obtain ⟨operation, hoperation, rfl⟩ := List.mem_map.1 hname
    exact Frame.binds_iff_mem_names.2 (hnames operation hoperation)
  · intro value hvalue
    have hfrom := hsound.from_read value hvalue
    refine ⟨hfrom, ?_, ?_⟩
    · rintro name operation rfl
      obtain ⟨hoperation, rfl⟩ := hfrom
      exact Machine.lookup?_boot limit hoperation
    · intro other hother
      exact Value.same_iff_of_from hfrom (hsound.from_read other hother)

/-- A function, a native operation under a second name and a run that fails behind its first node. -/
theorem session_values_from_read_function_and_operation :
    let s := Session.after 100 ["(let plus + f (fn (a) 'a))", "(f 1) (oops", "plus", "f"]
    let f : Value := .function ["a"] (.quote (.ident "a"))
    let plus : Value := .intrinsic "+" (.arith .add)
    s.returned = [.empty, plus, f] ∧ f.From s.read ∧
      (Machine.boot 100).scopes.lookup? "+" = some plus ∧ (plus.same f = true ↔ plus = f) := by
  intro s f plus
  have hreturned : s.returned = [.empty, plus, f] := by decide +kernel
  obtain ⟨-, -, hvalues⟩ :=
    session_values_from_read 100 ["(let plus + f (fn (a) 'a))", "(f 1) (oops", "plus", "f"]
  have hf : f ∈ s.values := List.mem_append_right _ (by simp [hreturned])
  have hplus : plus ∈ s.values := List.mem_append_right _ (by simp [hreturned])
  obtain ⟨-, hbound, hsame⟩ := hvalues plus hplus
  exact ⟨hreturned, (hvalues f hf).1, hbound "+" (.arith .add) rfl, hsame f hf⟩

end FexprLisp
