import Mathlib.Combinatorics.Enumerative.DyckWord
import FexprLisp.Proofs.Eval.Frames

/-!
# How scopes nest

An evaluation records each scope that it enters and each that it leaves. These records are brackets:
every scope that is entered is left once, and the last one entered is left first, also where an error
unwinds several of them. Each record tells how many frames there are behind it. There are never more
than the limit on open evaluations, since a function is called inside an evaluation that had room for
one more, that of the head of the call.

## Main definitions

- `Nested` — records of scopes that nest, with at most so many frames
- `EvalM.Records` — computations whose records nest, with at most so many frames on top
- `Entry.bracket?`, `Tallies` — the brackets that records stand for, and the frames that they count

## Main statements

- `EvalM.records_inScope` — a scope is a pair of brackets around what is recorded inside
- `EvalM.records_evalNode` — one evaluation adds at most one frame to those nested in it
- `evaluateWithin_records` — every evaluation records brackets
- `scopes_nest` — so does every evaluation on a machine at top level
-/

namespace FexprLisp

/-- Records of scopes that nest where so many frames are there already: each scope that is entered
is left behind what is recorded inside it, and there are at most `most` frames at any time. -/
inductive Nested (most : Nat) : Nat → List Entry → Prop
  | nil {depth : Nat} : Nested most depth []
  | applied {depth : Nat} {params : List String} {values : List Value} {records : List Entry}
    (h : Nested most depth records) : Nested most depth (.applied params values :: records)
  | scope {depth : Nat} {inner records : List Entry} (hmost : depth + 1 ≤ most)
    (hinner : Nested most (depth + 1) inner) (h : Nested most depth records) :
    Nested most depth (.entered (depth + 1) :: (inner ++ .left depth :: records))

namespace Nested

variable {most depth : Nat} {records more : List Entry}

theorem append (h : Nested most depth records) (hmore : Nested most depth more) :
    Nested most depth (records ++ more) := by
  induction h with
  | nil => exact hmore
  | applied _ ih => exact .applied (ih hmore)
  | scope hmost hinner _ _ ih =>
    rw [List.cons_append, List.append_assoc, List.cons_append]
    exact .scope hmost hinner (ih hmore)

theorem mono (h : Nested most depth records) {most' : Nat} (hle : most ≤ most') :
    Nested most' depth records := by
  induction h with
  | nil => exact .nil
  | applied _ ih => exact .applied ih
  | scope hmost _ _ ihinner ih => exact .scope (hmost.trans hle) ihinner ih

end Nested

-- ════════════════════════════════════════════════════════════════════════
-- What a computation records
-- ════════════════════════════════════════════════════════════════════════

theorem Kept.scopes_depth {s t : State} (h : Kept s t) : t.scopes.depth = s.scopes.depth := by
  obtain ⟨top, top', outer, hs, ht, -⟩ := h.frames
  rw [Scopes.depth, Scopes.depth, hs, ht, List.length_cons, List.length_cons]

/-- The frames are kept, and what was recorded on the way are scopes that nest. -/
structure Recorded (most : Nat) (s t : State) : Prop extends Kept s t where
  records : ∃ records, t.journal.toList = s.journal.toList ++ records ∧
    Nested most s.scopes.depth records

namespace Recorded

variable {most : Nat} {s t u : State}

theorem of_journal_eq (h : Kept s t) (hjournal : t.journal = s.journal) : Recorded most s t :=
  ⟨h, [], by rw [hjournal, List.append_nil], .nil⟩

theorem refl (h : s.scopes.frames ≠ []) : Recorded most s s :=
  of_journal_eq (.refl h) rfl

theorem trans (h : Recorded most s t) (h' : Recorded most t u) : Recorded most s u := by
  obtain ⟨records, ht, hrecords⟩ := h.records
  obtain ⟨more, hu, hmore⟩ := h'.records
  rw [h.toKept.scopes_depth] at hmore
  refine ⟨h.toKept.trans h'.toKept, records ++ more, ?_, hrecords.append hmore⟩
  rw [hu, ht, List.append_assoc]

theorem mono (h : Recorded most s t) {most' : Nat} (hle : most ≤ most') : Recorded most' s t := by
  obtain ⟨records, ht, hrecords⟩ := h.records
  exact ⟨h.toKept, records, ht, hrecords.mono hle⟩

/-- Behind a scope, what was recorded inside stands between two brackets. -/
theorem left (h : Recorded most s.entered t) (hs : s.scopes.frames ≠ [])
    (hmost : s.scopes.depth + 1 ≤ most) : Recorded most s (t.left s.scopes) := by
  obtain ⟨inner, ht, hinner⟩ := h.records
  refine ⟨h.toKept.left hs, .entered (s.scopes.depth + 1) :: (inner ++ [.left s.scopes.depth]), ?_,
    .scope hmost hinner .nil⟩
  simp only [State.left, Array.toList_push, ht, State.entered, Scopes.depth_enter]
  simp

theorem closed (h : Recorded most s.opened t) : Recorded most s t.closed :=
  ⟨h.toKept.closed, h.records⟩

end Recorded

namespace EvalM

variable {α β : Type} {reach : Nat}

/-- Records scopes that nest, with at most so many frames on top of those that are there. -/
def Records (reach : Nat) (x : EvalM α) : Prop :=
  ∀ s : State, s.scopes.frames ≠ [] → Recorded (s.scopes.depth + reach) s (final x s)

theorem Records.mono {x : EvalM α} (h : x.Records reach) {reach' : Nat} (hle : reach ≤ reach') :
    x.Records reach' :=
  fun s hs => (h s hs).mono (Nat.add_le_add_left hle _)

theorem records_of_final_eq {x : EvalM α} (h : ∀ s, final x s = s) : x.Records reach := by
  intro s hs
  rw [h s]
  exact .refl hs

theorem records_bind {x : EvalM α} {f : α → EvalM β} (hx : x.Records reach)
    (hf : ∀ a s t, x s = .ok a t → (f a).Records reach) : (x >>= f).Records reach := by
  intro s hs
  have hfirst := hx s hs
  rw [final_seq]
  cases hrun : x s with
  | error e t =>
    rw [final_of_error hrun] at hfirst
    exact hfirst
  | ok a t =>
    rw [final_of_ok hrun] at hfirst
    have hlater := hf a s t hrun t hfirst.toKept.frames_ne_nil
    rw [hfirst.toKept.scopes_depth] at hlater
    exact hfirst.trans hlater

theorem records_bindName (name : String) (value : Value) :
    (EvalM.bind name value).Records reach := by
  intro s hs
  refine .of_journal_eq (.bind hs name value) ?_
  obtain ⟨top, outer, hframes⟩ := List.exists_cons_of_ne_nil hs
  rw [final_of_ok (bind_of_frames hframes name value)]

theorem records_print (line : String) : (print line).Records reach :=
  fun s hs => .of_journal_eq (keeps_print line s hs) rfl

theorem records_applied (params : List String) (values : List Value) :
    (note (.applied params values)).Records reach := by
  intro s hs
  refine ⟨keeps_note _ s hs, [.applied params values], ?_, .applied .nil⟩
  rw [final_note, Array.toList_push]

/-- A scope adds a frame to those that are added inside it. -/
theorem records_inScope {x : EvalM α} (hx : x.Records reach) :
    (inScope x).Records (reach + 1) := by
  intro s hs
  have hinside := hx s.entered (List.cons_ne_nil _ _)
  have hmost : s.entered.scopes.depth + reach = s.scopes.depth + (reach + 1) := by
    rw [State.entered, Scopes.depth_enter]
    omega
  rw [hmost] at hinside
  rw [final_inScope_of_kept hs hinside.toKept]
  exact hinside.left hs (by omega)

theorem records_counted {x : EvalM α} (hx : x.Records reach) : (counted x).Records reach := by
  intro s hs
  rw [final_counted]
  split
  · exact .refl hs
  · exact (hx s.opened hs).closed

end EvalM

-- ════════════════════════════════════════════════════════════════════════
-- What an evaluation records
-- ════════════════════════════════════════════════════════════════════════

/-- Computations that open no scope record what the evaluations nested in them do; the second of the
two does not matter. -/
def recording (reach : Nat) : StepLogic where
  toVocabulary := .all
  rel good x _ := x.Records reach ∧ PlainLogic.Yields good x
  rel_pure _ h := ⟨EvalM.records_of_final_eq fun _ => rfl, PlainLogic.yields_pure h⟩
  rel_bind hx hf :=
    ⟨EvalM.records_bind hx.1 fun a s t h => (hf a (hx.2 s a t h)).1,
      PlainLogic.yields_bind hx.2 fun a ha => (hf a ha).2⟩
  rel_throw error _ :=
    ⟨EvalM.records_of_final_eq (EvalM.final_throw error), PlainLogic.yields_throw _ error⟩
  rel_noTruth v _ _ :=
    ⟨EvalM.records_of_final_eq (EvalM.final_throw (.noTruth v)), PlainLogic.yields_throw _ _⟩
  rel_lookup n _ := ⟨EvalM.records_of_final_eq (EvalM.final_lookup n), PlainLogic.yields_all _⟩
  rel_bindName n v _ _ := ⟨EvalM.records_bindName n v, PlainLogic.yields_all _⟩
  rel_print v := ⟨EvalM.records_print v.inspect, PlainLogic.yields_all _⟩
  rel_applied params values := ⟨EvalM.records_applied params values, PlainLogic.yields_all _⟩

namespace EvalM

variable {ev : Evaluator} {reach : Nat}

theorem records_callFunction (h : (recording reach).Compares ev ev) (params : List String)
    (body : Node) (args : List Node) : (callFunction ev params body args).Records (reach + 1) := by
  unfold callFunction
  split
  · have hargs : (evalEach ev args).Records reach :=
      (StepLogic.rel_evalEach h fun _ _ => trivial).1
    refine records_bind (hargs.mono (Nat.le_succ reach)) fun values _ _ _ => ?_
    refine records_bind (records_applied params values) fun _ _ _ _ => ?_
    have hparams : (bindEach params values).Records reach :=
      ((recording reach).rel_bindEach (fun _ _ => trivial) fun _ _ => trivial).1
    exact records_inScope (records_bind hparams fun _ _ _ _ => (h body trivial).1)
  · exact records_of_final_eq (final_throw _)

theorem records_callValue (h : (recording reach).Compares ev ev) (callee : Value)
    (args : List Node) : (callValue ev callee args).Records (reach + 1) := by
  cases callee with
  | intrinsic bound operation =>
    have hvalue : (recording reach).value (.intrinsic bound operation) := trivial
    have hcall : (operation.call ev args).Records reach :=
      (StepLogic.rel_call h hvalue fun _ _ => trivial).1
    exact hcall.mono (Nat.le_succ reach)
  | function params body => exact records_callFunction h params body args
  | _ => exact records_of_final_eq (final_throw _)

/-- One evaluation adds at most one frame to those that the evaluations nested in it add. -/
theorem records_evalNode (h : (recording reach).Compares ev ev) (node : Node) :
    (evalNode ev node).Records (reach + 1) := by
  match node with
  | .ident name => exact records_of_final_eq (final_lookup name)
  | .int _ | .str _ | .quote _ => exact records_of_final_eq fun _ => rfl
  | .list [] | .hole => exact records_of_final_eq (final_throw _)
  | .list (head :: args) =>
    have hhead : (ev head).Records reach := (h head trivial).1
    exact records_bind (hhead.mono (Nat.le_succ reach)) fun callee _ _ _ =>
      records_callValue h callee args

/-- Where nothing may be nested, not even the head of a call is evaluated, and no scope is entered. -/
theorem records_evalNode_refused (node : Node) : (evalNode (evaluateWithin 0) node).Records 0 := by
  match node with
  | .ident name => exact records_of_final_eq (final_lookup name)
  | .int _ | .str _ | .quote _ => exact records_of_final_eq fun _ => rfl
  | .list [] | .hole => exact records_of_final_eq (final_throw _)
  | .list (head :: args) =>
    refine records_of_final_eq fun s => ?_
    have hrefused : evaluateWithin 0 head s = .error (.tooDeep s.limit) s := rfl
    exact final_of_error (bind_of_error hrefused _)

end EvalM

/-- An evaluation in so many rounds adds fewer frames than there are rounds, since the last round is
spent on the head of a call. -/
theorem evaluateWithin_records (rounds : Nat) (node : Node) :
    (evaluateWithin rounds node).Records (rounds - 1) := by
  induction rounds generalizing node with
  | zero => exact EvalM.records_of_final_eq fun _ => rfl
  | succ rounds ih =>
    rw [evaluateWithin_succ, Nat.add_sub_cancel]
    cases rounds with
    | zero => exact EvalM.records_counted (EvalM.records_evalNode_refused node)
    | succ rounds =>
      have hnested : (recording rounds).Compares (evaluateWithin (rounds + 1))
          (evaluateWithin (rounds + 1)) :=
        fun other _ => ⟨ih other, PlainLogic.yields_all _⟩
      exact EvalM.records_counted (EvalM.records_evalNode hnested node)

theorem evaluate_records (node : Node) {s : State} (h : s.scopes.frames ≠ []) :
    Recorded (s.scopes.depth + (s.room - 1)) s (EvalM.final (evaluate node) s) :=
  evaluateWithin_records s.room node s h

-- ════════════════════════════════════════════════════════════════════════
-- Brackets
-- ════════════════════════════════════════════════════════════════════════

/-- The bracket that a record stands for, if it is about a scope. -/
def Entry.bracket? : Entry → Option DyckStep
  | .entered _ => some .U
  | .left _ => some .D
  | _ => none

/-- Read from left to right, every record about a scope tells how many frames there are behind it. -/
def Tallies : Nat → List Entry → Prop
  | _, [] => True
  | count, .entered depth :: records => depth = count + 1 ∧ Tallies (count + 1) records
  | count, .left depth :: records => depth + 1 = count ∧ Tallies (count - 1) records
  | count, _ :: records => Tallies count records

namespace Nested

variable {most depth : Nat} {records : List Entry}

theorem exists_dyckWord (h : Nested most depth records) :
    ∃ word : DyckWord, word.toList = records.filterMap Entry.bracket? := by
  induction h with
  | nil => exact ⟨0, rfl⟩
  | applied _ ih => exact ih
  | @scope depth inner records _ _ _ ihinner ih =>
    obtain ⟨between, hbetween⟩ := ihinner
    obtain ⟨behind, hbehind⟩ := ih
    refine ⟨between.nest + behind, ?_⟩
    show .U :: between.toList ++ [.D] ++ behind.toList = _
    simp [Entry.bracket?, hbetween, hbehind]

theorem tallies_append (h : Nested most depth records) {more : List Entry}
    (hmore : Tallies depth more) : Tallies depth (records ++ more) := by
  induction h generalizing more with
  | nil => exact hmore
  | applied _ ih => exact ih hmore
  | scope _ _ _ ihinner ih =>
    rw [List.cons_append, List.append_assoc]
    exact ⟨rfl, ihinner ⟨rfl, ih hmore⟩⟩

theorem bounds_of_entered (h : Nested most depth records) {n : Nat} (hn : .entered n ∈ records) :
    depth + 1 ≤ n ∧ n ≤ most := by
  induction h with
  | nil => cases hn
  | applied _ ih => exact ih (by simpa using hn)
  | scope hmost _ _ ihinner ih =>
    simp only [List.mem_cons, List.mem_append, Entry.entered.injEq, reduceCtorEq, false_or] at hn
    rcases hn with rfl | hn | hn
    · exact ⟨Nat.le_refl _, hmost⟩
    · have hinner := ihinner hn
      exact ⟨by omega, hinner.2⟩
    · exact ih hn

end Nested

/-- What an evaluation records about scopes on a machine at top level, whether it fails or not, is a
balanced word of brackets. Counted from the base frame on, every record tells how many frames there are
behind it, and no scope is entered that would make them more than the limit on open evaluations. -/
theorem scopes_nest (m : Machine) (hframes : m.scopes.depth = 1) (hdepth : m.depth = 0)
    (node : Node) :
    ∃ records, (m.evaluate node).machine.journal.toList = m.journal.toList ++ records ∧
      (∃ word : DyckWord, word.toList = records.filterMap Entry.bracket?) ∧
      Tallies 1 records ∧
      ∀ n : Nat, .entered n ∈ records → 2 ≤ n ∧ n ≤ m.limit := by
  have hm : m.scopes.frames ≠ [] := by
    intro hnil
    simp [Scopes.depth, hnil] at hframes
  obtain ⟨records, hjournal, hnested⟩ := (evaluate_records node hm).records
  rw [hframes] at hnested
  refine ⟨records, hjournal, hnested.exists_dyckWord, ?_, fun n hn => ?_⟩
  · have htallies := hnested.tallies_append (show Tallies 1 [] from trivial)
    rwa [List.append_nil] at htallies
  · have hbounds := hnested.bounds_of_entered hn
    rw [State.room, hdepth] at hbounds
    omega

/-- A name that is missing unwinds two scopes, which is as many as fit under the limit. -/
theorem scopes_nest_unwound :
    let f : Value := .function ["x"] (.list [.ident "g", .ident "x"])
    let g : Value := .function ["y"] (.ident "z")
    let m : Machine := { scopes := ⟨[⟨[("f", f), ("g", g)]⟩]⟩, limit := 3 }
    let node : Node := .list [.ident "f", .int 1]
    let records : List Entry :=
      [.applied ["x"] [.int 1], .entered 2, .applied ["y"] [.int 1], .entered 3, .left 2, .left 1]
    m.scopes.depth = 1 ∧ m.depth = 0 ∧ (m.evaluate node).machine.journal.toList = records ∧
      (∃ word : DyckWord, word.toList = [.U, .U, .D, .D]) ∧ Tallies 1 records ∧
      ∀ n : Nat, .entered n ∈ records → 2 ≤ n ∧ n ≤ m.limit := by
  intro f g m node records
  have hframes : m.scopes.depth = 1 := by decide
  have hdepth : m.depth = 0 := by decide
  have hrun : (m.evaluate node).machine.journal.toList = records := by decide +kernel
  obtain ⟨found, hfound, hword, htallies, hbounds⟩ := scopes_nest m hframes hdepth node
  have hrecords : found = records := by
    rw [hrun] at hfound
    exact hfound.symm
  rw [hrecords] at hword htallies hbounds
  exact ⟨hframes, hdepth, hrun, hword, htallies, hbounds⟩

end FexprLisp
