import FexprLisp.Machine.Script
import FexprLisp.Proofs.Eval.Run
import FexprLisp.Proofs.Scope.Cells

/-!
# The store of a machine

The actions that look names up, bind them and move between scopes may come in any order, and some of
them fail. Whatever has happened before, the base frame is there, a failed action has changed
nothing, and each action that succeeds writes one cell, pushes an empty frame or pops one.

## Main definitions

- `Action.onStore` — the actions that work on the scopes only
- `Machine.afterEach` — a machine after many actions, whatever each of them led to
- `Action.bracketed` — the scopes that actions enter are left, and names are bound inside them only
- `Machine.Reassigned`, `Machine.Registered` — what assigning and registering lead to

## Main statements

- `Action.perform_cases` — all that such an action can do
- `Machine.frames_ne_nil_afterEach` — the base frame stays
- `Machine.cell?_afterEach_leave` — leaving scopes keeps the cells of the frames that remain
- `Machine.frames_of_bracketed` — bracketed actions undo what they do to the frames
- `scopes_form_store` — all of this for any run of a new machine
-/

namespace FexprLisp

/-- The machine after some actions, whatever each of them led to. -/
def Machine.afterEach (m : Machine) (actions : List Action) : Machine :=
  actions.foldl (fun m action => (action.perform m).machine) m

namespace Action

/-- The actions that work on the scopes only, one frame at a time. -/
def onStore : Action → Bool
  | .lookup _ | .owner _ | .assign .. | .bind .. | .register .. | .enter | .leave => true
  | _ => false

/-- Behind so many scopes that were entered already, all scopes are left again, those that are
entered on the way too. Names are bound only inside them, and else only looked up. -/
def bracketed : Nat → List Action → Bool
  | opened, [] => opened == 0
  | opened, .enter :: later => bracketed (opened + 1) later
  | opened + 1, .leave :: later => bracketed opened later
  | opened + 1, .bind .. :: later => bracketed (opened + 1) later
  | opened, .lookup _ :: later => bracketed opened later
  | opened, .owner _ :: later => bracketed opened later
  | _, _ => false

variable (m : Machine) (name : String)

theorem perform_lookup :
    (lookup name).perform m = match m.scopes.lookup? name with
      | some value => .ok (.value value) m
      | none => .error (.eval (.scope (.unbound name))) m := by
  simp only [perform, performed, Machine.perform]
  cases h : m.scopes.lookup? name with
  | some value => rw [EvalM.lookup_of_some h, answer]
  | none => rw [EvalM.lookup_of_none h, answer]

theorem machine_perform_lookup : ((lookup name).perform m).machine = m := by
  rw [perform_lookup]
  cases m.scopes.lookup? name <;> rfl

theorem perform_owner :
    (owner name).perform m = match m.scopes.owner? name with
      | some index => .ok (.owner index) m
      | none => .error (.eval (.scope (.unbound name))) m := by
  simp only [perform]
  cases m.scopes.owner? name <;> rfl

theorem machine_perform_owner : ((owner name).perform m).machine = m := by
  rw [perform_owner]
  cases m.scopes.owner? name <;> rfl

theorem perform_assign (value : Value) :
    (assign name value).perform m = match m.scopes.owner? name with
      | some index => .ok .done { m with scopes := m.scopes.writeAt index name value }
      | none => .error (.eval (.scope (.unbound name))) m := by
  simp only [perform, performed, Machine.perform, EvalM.onScopes, Scopes.assign_eq]
  cases m.scopes.owner? name <;> rfl

variable {m}

theorem perform_bind (h : m.scopes.frames ≠ []) (value : Value) :
    (bind name value).perform m =
      .ok .done { m with scopes := m.scopes.writeAt (m.scopes.depth - 1) name value } := by
  simp only [perform, performed, Machine.perform, EvalM.bind, EvalM.onScopes, Scopes.bind_eq h]
  rfl

theorem perform_register (h : m.scopes.frames ≠ []) (operation : Primitive) :
    (register name operation).perform m =
      .ok .done { m with
        scopes := m.scopes.writeAt 0 name (.intrinsic name operation)
        journal := m.journal.push (.registered name) } := by
  have hrun : EvalM.onScopes (·.install name (.intrinsic name operation)) m =
      .ok () { m with scopes := m.scopes.writeAt 0 name (.intrinsic name operation) } := by
    simp only [EvalM.onScopes, Scopes.install_eq h]
  simp only [perform, performed, Machine.perform, EvalM.register]
  rw [EvalM.bind_of_ok hrun]
  rfl

theorem perform_enter : enter.perform m = .ok .done m.entered := rfl

theorem perform_leave_of_lt (h : 1 < m.scopes.depth) :
    leave.perform m = .ok .done (m.left ⟨m.scopes.frames.tail⟩) := by
  simp only [perform, performed, Machine.perform, EvalM.leave, Scopes.leave_of_lt h]
  rfl

theorem perform_leave_of_le (h : m.scopes.depth ≤ 1) :
    leave.perform m = .error (.eval (.scope .underflow)) m := by
  simp only [perform, performed, Machine.perform, EvalM.leave, Scopes.leave_eq_error_iff.2 h]
  rfl

/-- All that an action on the store can do: it leaves the machine alone, writes one cell, pushes an
empty frame, or pops a frame that is not the base frame. -/
theorem perform_cases {action : Action} (haction : action.onStore = true)
    (h : m.scopes.frames ≠ []) :
    (action.perform m).machine = m ∨ ∃ reply m', action.perform m = .ok reply m' ∧
      ((∃ index name value, index < m.scopes.depth ∧
          m'.scopes = m.scopes.writeAt index name value) ∨
        m'.scopes = m.scopes.enter ∨
        1 < m.scopes.depth ∧ m'.scopes = ⟨m.scopes.frames.tail⟩) := by
  have hpos : 0 < m.scopes.depth := List.length_pos_iff.2 h
  cases action with
  | lookup name => exact .inl (machine_perform_lookup m name)
  | owner name => exact .inl (machine_perform_owner m name)
  | assign name value =>
    rw [perform_assign]
    cases howner : m.scopes.owner? name with
    | none => exact .inl rfl
    | some index =>
      have hlt := Scopes.lt_depth_of_cell? (Scopes.owner?_eq_some_iff.1 howner).bound
      exact .inr ⟨_, _, rfl, .inl ⟨index, name, value, hlt, rfl⟩⟩
  | bind name value =>
    have hlt : m.scopes.depth - 1 < m.scopes.depth := by omega
    exact .inr ⟨_, _, perform_bind name h value, .inl ⟨_, name, value, hlt, rfl⟩⟩
  | register name operation =>
    exact .inr ⟨_, _, perform_register name h operation, .inl ⟨0, name, _, hpos, rfl⟩⟩
  | enter => exact .inr ⟨_, _, perform_enter, .inr (.inl rfl)⟩
  | leave =>
    by_cases hlt : 1 < m.scopes.depth
    · exact .inr ⟨_, _, perform_leave_of_lt hlt, .inr (.inr ⟨hlt, rfl⟩)⟩
    · left
      rw [perform_leave_of_le (Nat.le_of_not_lt hlt)]
      rfl
  | _ => cases haction

/-- An action on the store that fails changes nothing. -/
theorem eq_of_perform_error {action : Action} (haction : action.onStore = true)
    (h : m.scopes.frames ≠ []) {error : RunError} {m' : Machine}
    (herror : action.perform m = .error error m') : m' = m := by
  rcases perform_cases haction h with hsame | ⟨reply, n, hok, -⟩
  · rwa [herror] at hsame
  · rw [herror] at hok
    cases hok

/-- An action on the store leaves the base frame where it is. -/
theorem frames_ne_nil_perform {action : Action} (haction : action.onStore = true)
    (h : m.scopes.frames ≠ []) : (action.perform m).machine.scopes.frames ≠ [] := by
  have hpos : 0 < m.scopes.depth := List.length_pos_iff.2 h
  rcases perform_cases haction h with hsame | ⟨reply, m', hok, hchange⟩
  · rw [hsame]
    exact h
  rw [hok, Machine.Outcome.machine_ok, ← List.length_pos_iff]
  rcases hchange with ⟨index, name, value, -, hscopes⟩ | hscopes | ⟨hlt, hscopes⟩
  · rw [hscopes, Scopes.writeAt, Scopes.length_writeIn]
    exact hpos
  · rw [hscopes]
    exact Nat.zero_lt_succ _
  · rw [hscopes, List.length_tail]
    exact Nat.sub_pos_of_lt hlt

end Action

namespace Machine

variable {m : Machine}

theorem afterEach_of_ok {action : Action} {reply : Reply} {m' : Machine}
    (h : action.perform m = .ok reply m') (later : List Action) :
    m.afterEach (action :: later) = m'.afterEach later := by
  rw [afterEach, List.foldl_cons, h]
  rfl

theorem frames_ne_nil_afterEach {actions : List Action}
    (hactions : ∀ action ∈ actions, action.onStore = true) (h : m.scopes.frames ≠ []) :
    (m.afterEach actions).scopes.frames ≠ [] := by
  induction actions generalizing m with
  | nil => exact h
  | cons action actions ih =>
    rw [List.forall_mem_cons] at hactions
    exact ih hactions.2 (Action.frames_ne_nil_perform hactions.1 h)

/-- Scopes can be left as long as more than one frame remains, and every frame that remains holds
what it held. -/
theorem cell?_afterEach_leave (count : Nat) (h : count < m.scopes.depth) :
    (m.afterEach (List.replicate count .leave)).scopes.depth + count = m.scopes.depth ∧
    ∀ index name, index + count < m.scopes.depth →
      (m.afterEach (List.replicate count .leave)).scopes.cell? index name =
        m.scopes.cell? index name := by
  induction count generalizing m with
  | zero => exact ⟨rfl, fun _ _ _ => rfl⟩
  | succ count ih =>
    have hlt : 1 < m.scopes.depth := by omega
    have htail : m.scopes.frames.tail.length = m.scopes.depth - 1 := List.length_tail
    have hdepth : (m.left ⟨m.scopes.frames.tail⟩).scopes.depth = m.scopes.depth - 1 := htail
    obtain ⟨hless, hcells⟩ := @ih (m.left ⟨m.scopes.frames.tail⟩) (by omega)
    rw [List.replicate_succ, afterEach_of_ok (Action.perform_leave_of_lt hlt)]
    refine ⟨by omega, fun index name hindex => ?_⟩
    rw [hcells index name (by omega)]
    exact Scopes.cell?_tail (by omega) name

/-- Bracketed actions drop the frames that they push, and write no others. -/
theorem frames_of_bracketed {segment : List Action} {opened : Nat}
    (hsegment : Action.bracketed opened segment = true) {own kept : List (Frame Value)}
    (hm : m.scopes.frames = own ++ kept) (hown : own.length = opened) (hkept : kept ≠ []) :
    (m.afterEach segment).scopes.frames = kept := by
  fun_induction Action.bracketed opened segment generalizing m own with
  | case1 opened =>
    have hnil : own = [] := List.length_eq_zero_iff.1 (hown.trans (beq_iff_eq.1 hsegment))
    rw [hnil] at hm
    exact hm
  | case2 opened later ih =>
    have hentered : m.entered.scopes.frames = (Frame.empty :: own) ++ kept := by
      rw [List.cons_append, ← hm]
      rfl
    exact ih hsegment hentered (by rw [List.length_cons, hown])
  | case3 opened later ih =>
    have hlt : 1 < m.scopes.depth := by
      have hpos := List.length_pos_iff.2 hkept
      rw [Scopes.depth, hm, List.length_append, hown]
      omega
    rw [afterEach_of_ok (Action.perform_leave_of_lt hlt)]
    cases own with
    | nil => cases hown
    | cons top own =>
      have hleft : (m.left ⟨m.scopes.frames.tail⟩).scopes.frames = own ++ kept := by
        show m.scopes.frames.tail = own ++ kept
        rw [hm, List.cons_append, List.tail_cons]
      exact ih hsegment hleft (Nat.succ.inj hown)
  | case4 opened name value later ih =>
    cases own with
    | nil => cases hown
    | cons top own =>
      have hbind := EvalM.bind_of_frames hm name value
      have hperform : (Action.bind name value).perform m =
          .ok .done { m with scopes := ⟨top.bind name value :: (own ++ kept)⟩ } := by
        simp only [Action.perform, Action.performed, Machine.perform, hbind]
        rfl
      rw [afterEach_of_ok hperform]
      have hbound : top.bind name value :: (own ++ kept) =
          (top.bind name value :: own) ++ kept := List.cons_append.symm
      exact ih hsegment hbound hown
  | case5 opened name later ih =>
    rw [afterEach, List.foldl_cons, Action.machine_perform_lookup]
    exact ih hsegment hm hown
  | case6 opened name later ih =>
    rw [afterEach, List.foldl_cons, Action.machine_perform_owner]
    exact ih hsegment hm hown
  | case7 => cases hsegment

/-- A name was bound anew in the frame with the given number, which is the innermost one that bound
it. The value shows as long as that frame remains, and nothing else has changed. -/
structure Reassigned (m : Machine) (name : String) (value : Value) (index : Nat)
    (m' : Machine) : Prop where
  owner : (Action.owner name).perform m = .ok (.owner index) m
  owns : m.scopes.Owns index name
  written : m.scopes.Written index name value m'.scopes
  names : m'.scopes.frames.map Frame.names = m.scopes.frames.map Frame.names
  self : m'.scopes.lookup? name = some value
  others : ∀ other, other ≠ name → m'.scopes.lookup? other = m.scopes.lookup? other
  lasting : ∀ count, index + count < m.scopes.depth →
    let left := m'.afterEach (List.replicate count .leave)
    left.scopes.depth + count = m.scopes.depth ∧ left.scopes.lookup? name = some value

/-- A native operation was bound in the base frame. It shows unless another frame binds its name. -/
structure Registered (m : Machine) (name : String) (operation : Primitive)
    (m' : Machine) : Prop where
  written : m.scopes.Written 0 name (.intrinsic name operation) m'.scopes
  shown : (∀ j, 0 < j → m.scopes.cell? j name = none) →
    m'.scopes.lookup? name = some (.intrinsic name operation)
  hidden : ∀ j, 0 < j → (m.scopes.cell? j name).isSome = true →
    m'.scopes.lookup? name = m.scopes.lookup? name
  others : ∀ other, other ≠ name → m'.scopes.lookup? other = m.scopes.lookup? other

/-- What was written into the frame that owns a name shows while scopes are left down to it. -/
theorem lookup?_afterEach_leave {name : String} {value : Value} {index : Nat} {m' : Machine}
    (howns : m.scopes.Owns index name) (hwritten : m.scopes.Written index name value m'.scopes)
    {count : Nat} (hcount : index + count < m.scopes.depth) :
    let left := m'.afterEach (List.replicate count .leave)
    left.scopes.depth + count = m.scopes.depth ∧ left.scopes.lookup? name = some value := by
  intro left
  have hdepth := hwritten.depth
  obtain ⟨hless, hcells⟩ := m'.cell?_afterEach_leave count (by omega)
  have hleft : left.scopes.depth + count = m.scopes.depth := hless.trans hdepth
  have hself : left.scopes.cell? index name = some value := by
    rw [hcells index name (by omega), hwritten.cell, if_pos ⟨rfl, rfl⟩]
  have howns' : left.scopes.Owns index name := by
    refine ⟨by rw [hself]; rfl, fun j hj => ?_⟩
    by_cases hdropped : j + count < m.scopes.depth
    · have hne : j ≠ index := Nat.ne_of_gt hj
      rw [hcells j name (by omega), hwritten.cell, if_neg fun hcell => hne hcell.1]
      exact howns.innermost j hj
    · have hpast : left.scopes.depth ≤ j := by omega
      exact Scopes.cell?_of_depth_le _ hpast name
  exact ⟨hleft, howns'.lookup?.trans hself⟩

theorem reassigned_of_assign {name : String} {value : Value} {reply : Reply} {m' : Machine}
    (h : (Action.assign name value).perform m = .ok reply m') :
    ∃ index, m.Reassigned name value index m' := by
  rw [Action.perform_assign] at h
  cases howner : m.scopes.owner? name with
  | none =>
    rw [howner] at h
    cases h
  | some index =>
    rw [howner] at h
    cases h
    have howns := Scopes.owner?_eq_some_iff.1 howner
    have hwritten := Scopes.written_writeAt (Scopes.lt_depth_of_cell? howns.bound) name value
    refine ⟨index, ?_, howns, hwritten, ?_, hwritten.lookup?_self howns.innermost,
      fun other hne => hwritten.lookup?_of_ne hne,
      fun count hcount => lookup?_afterEach_leave howns hwritten hcount⟩
    · rw [Action.perform_owner, howner]
    · exact howns.names_writeAt value

theorem registered_of_register (h : m.scopes.frames ≠ []) (name : String) (operation : Primitive) :
    ∃ m', (Action.register name operation).perform m = .ok .done m' ∧
      m.Registered name operation m' := by
  have hpos : 0 < m.scopes.depth := List.length_pos_iff.2 h
  have hwritten := Scopes.written_writeAt hpos name (.intrinsic name operation)
  refine ⟨_, Action.perform_register name h operation, hwritten, ?_, ?_, ?_⟩
  · exact fun hnone => hwritten.lookup?_self hnone
  · exact fun j hj hbound => hwritten.lookup?_hidden hj hbound
  · exact fun other hne => hwritten.lookup?_of_ne hne

theorem leave_eq_error_iff (h : m.scopes.frames ≠ []) {error : RunError} {m' : Machine} :
    Action.leave.perform m = .error error m' ↔
      error = .eval (.scope .underflow) ∧ m' = m ∧ m.scopes.depth = 1 := by
  have hpos : 0 < m.scopes.depth := List.length_pos_iff.2 h
  by_cases hlt : 1 < m.scopes.depth
  · rw [Action.perform_leave_of_lt hlt]
    constructor
    · exact fun hok => by cases hok
    · rintro ⟨-, -, hone⟩
      omega
  · rw [Action.perform_leave_of_le (by omega), EStateM.Result.error.injEq]
    constructor
    · rintro ⟨rfl, rfl⟩
      exact ⟨rfl, rfl, by omega⟩
    · rintro ⟨rfl, rfl, -⟩
      exact ⟨rfl, rfl⟩

theorem assign_eq_error_iff {name : String} {value : Value} {error : RunError} {m' : Machine} :
    (Action.assign name value).perform m = .error error m' ↔
      error = .eval (.scope (.unbound name)) ∧ m' = m ∧
        (Action.lookup name).perform m = .error error m := by
  rw [Action.perform_assign, Action.perform_lookup]
  cases howner : m.scopes.owner? name with
  | none =>
    rw [Scopes.owner?_eq_none_iff.1 howner, EStateM.Result.error.injEq]
    constructor
    · rintro ⟨rfl, rfl⟩
      exact ⟨rfl, rfl, rfl⟩
    · rintro ⟨rfl, rfl, -⟩
      exact ⟨rfl, rfl⟩
  | some index =>
    constructor
    · exact fun hok => by cases hok
    · rintro ⟨rfl, rfl, hlookup⟩
      cases hvalue : m'.scopes.lookup? name with
      | none =>
        rw [Scopes.owner?_eq_none_iff.2 hvalue] at howner
        cases howner
      | some value =>
        rw [hvalue] at hlookup
        cases hlookup

end Machine

/-- The scopes of a machine are a store, after any run of actions on it and whichever of them
failed. The base frame is there, and a failed action changes nothing. A scope can be left unless
only the base frame remains. Assigning to a name fails exactly where looking it up fails, and else
writes the cell of the frame that owns it; binding a name writes a cell of the innermost frame, and
registering an operation one of the base frame. Actions that leave all scopes they enter, and bind
names only inside them, leave the scopes as they were. -/
theorem scopes_form_store (limit : Int) (actions : List Action)
    (h : ∀ action ∈ actions, action.onStore = true) :
    let m := (Machine.blank limit).afterEach actions
    m.scopes.frames ≠ [] ∧
    (∀ action : Action, action.onStore = true → ∀ error m',
      action.perform m = .error error m' → m' = m) ∧
    (∀ error m', Action.leave.perform m = .error error m' ↔
      error = .eval (.scope .underflow) ∧ m' = m ∧ m.scopes.depth = 1) ∧
    (∀ name value error m', (Action.assign name value).perform m = .error error m' ↔
      error = .eval (.scope (.unbound name)) ∧ m' = m ∧
        (Action.lookup name).perform m = .error error m) ∧
    (∀ name value reply m', (Action.assign name value).perform m = .ok reply m' →
      ∃ index, m.Reassigned name value index m') ∧
    (∀ name value, ∃ m', (Action.bind name value).perform m = .ok .done m' ∧
      m.scopes.Written (m.scopes.depth - 1) name value m'.scopes ∧
      m'.scopes.lookup? name = some value) ∧
    (∀ name operation, ∃ m', (Action.register name operation).perform m = .ok .done m' ∧
      m.Registered name operation m') ∧
    ∀ segment, Action.bracketed 0 segment = true → (m.afterEach segment).scopes = m.scopes := by
  intro m
  have hm : m.scopes.frames ≠ [] :=
    Machine.frames_ne_nil_afterEach h (List.cons_ne_nil Frame.empty [])
  have hpos : 0 < m.scopes.depth := List.length_pos_iff.2 hm
  refine ⟨hm, fun action haction error m' => Action.eq_of_perform_error haction hm,
    fun error m' => Machine.leave_eq_error_iff hm,
    fun name value error m' => Machine.assign_eq_error_iff,
    fun name value reply m' => Machine.reassigned_of_assign, fun name value => ?_,
    Machine.registered_of_register hm, fun segment hsegment => ?_⟩
  · have hlt : m.scopes.depth - 1 < m.scopes.depth := by omega
    have hwritten := Scopes.written_writeAt hlt name value
    refine ⟨_, Action.perform_bind name hm value, hwritten, hwritten.lookup?_self fun j hj => ?_⟩
    exact Scopes.cell?_of_depth_le m.scopes (by omega) name
  · have hframes := Machine.frames_of_bracketed hsegment (List.nil_append _).symm rfl hm
    exact congrArg Scopes.mk hframes

/-- Two scopes were entered, and one more was left that did not exist. A variable of the base frame
is assigned from inside, an operation is registered under a name that hides it, and a third scope
comes and goes. -/
theorem scopes_form_store_outer_variable :
    let actions : List Action := [.bind "x" (.int 1), .leave, .enter, .bind "y" (.int 2), .enter]
    let m := (Machine.blank 9).afterEach actions
    (∀ action ∈ actions, action.onStore = true) ∧ m.scopes.depth = 3 ∧
    (∃ m', (Action.assign "x" (.int 5)).perform m = .ok .done m' ∧
      m.Reassigned "x" (.int 5) 0 m') ∧
    (∃ m', (Action.register "y" .quote).perform m = .ok .done m' ∧
      m'.scopes.lookup? "y" = some (.int 2)) ∧
    (m.afterEach [.enter, .bind "x" (.int 7), .lookup "x", .leave]).scopes = m.scopes := by
  intro actions m
  have hactions : ∀ action ∈ actions, action.onStore = true := by decide
  obtain ⟨-, -, -, -, hassign, -, hregister, hsegment⟩ := scopes_form_store 9 actions hactions
  have howner : (Action.owner "x").perform m = .ok (.owner 0) m := rfl
  obtain ⟨index, hx⟩ := hassign "x" (.int 5) _ _ rfl
  obtain ⟨m', hperform, hy⟩ := hregister "y" .quote
  refine ⟨hactions, rfl, ⟨_, rfl, ?_⟩, ⟨m', hperform, hy.hidden 1 (by decide) rfl⟩,
    hsegment _ rfl⟩
  have hindex := hx.owner.symm.trans howner
  cases hindex
  exact hx

end FexprLisp
