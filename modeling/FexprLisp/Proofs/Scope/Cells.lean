import FexprLisp.Scope.Stack

/-!
# Scopes as a store

Scopes are a store with one cell for every frame and every name. Whatever binds a name writes one
cell: the innermost frame, the base frame and the frame that binds the name already differ in
nothing but their number. A name is looked up in the innermost cell of that name that holds
anything.

## Main definitions

- `Scopes.cell?` — what a frame binds a name to
- `Scopes.Owns` — a frame is the innermost one that binds a name
- `Scopes.writeAt` — binds a name in any frame
- `Scopes.Written` — what that changes

## Main statements

- `Scopes.owner?_eq_some_iff`, `Scopes.Owns.lookup?` — which cell is looked up
- `Scopes.bind_eq`, `Scopes.install_eq`, `Scopes.assign_eq` — which cell is written
- `Scopes.Written.lookup?_of_ne`, `Scopes.Written.lookup?_self`, `Scopes.Written.lookup?_hidden` —
  what becomes visible by writing a cell
- `Scopes.leave_of_lt`, `Scopes.cell?_tail` — leaving a scope keeps the cells of all frames that
  remain
-/

namespace FexprLisp.Scopes

variable {α : Type} {scopes before after : Scopes α} {name other : String} {value : α} {index : Nat}

/-- What the frame with the given number binds a name to. -/
def cell? (scopes : Scopes α) (index : Nat) (name : String) : Option α :=
  (scopes.frame? index).bind (·.get? name)

/-- The frame with the given number is the innermost one that binds a name. -/
structure Owns (scopes : Scopes α) (index : Nat) (name : String) : Prop where
  bound : (scopes.cell? index name).isSome = true
  innermost : ∀ j, index < j → scopes.cell? j name = none

/-- Binds a name in the frame outside which there are so many others. -/
def writeIn (index : Nat) (name : String) (value : α) : List (Frame α) → List (Frame α)
  | [] => []
  | frame :: outer =>
    if outer.length = index then frame.bind name value :: outer
    else frame :: writeIn index name value outer

/-- Binds a name in the frame with the given number. -/
def writeAt (scopes : Scopes α) (index : Nat) (name : String) (value : α) : Scopes α :=
  ⟨writeIn index name value scopes.frames⟩

/-- The scopes after one cell was written: nothing else has changed. -/
structure Written (before : Scopes α) (index : Nat) (name : String) (value : α)
    (after : Scopes α) : Prop where
  depth : after.depth = before.depth
  cell : ∀ i other, after.cell? i other =
    if i = index ∧ other = name then some value else before.cell? i other

-- ════════════════════════════════════════════════════════════════════════
-- Cells of a stack
-- ════════════════════════════════════════════════════════════════════════

theorem cell?_cons (frame : Frame α) (outer : List (Frame α)) (index : Nat) (name : String) :
    (⟨frame :: outer⟩ : Scopes α).cell? index name =
      if index = outer.length then frame.get? name else (⟨outer⟩ : Scopes α).cell? index name := by
  simp only [cell?, frame?, List.reverse_cons, List.getElem?_append, List.length_reverse]
  by_cases hindex : index = outer.length
  · simp [hindex]
  · rw [if_neg hindex]
    by_cases hlt : index < outer.length
    · rw [if_pos hlt]
    · have hpast : outer.reverse[index]? = none := by
        rw [List.getElem?_eq_none_iff, List.length_reverse]
        omega
      have hone : [frame][index - outer.length]? = none := by
        rw [List.getElem?_eq_none_iff, List.length_singleton]
        omega
      rw [if_neg hlt, hpast, hone]

theorem cell?_of_depth_le (scopes : Scopes α) (h : scopes.depth ≤ index) (name : String) :
    scopes.cell? index name = none := by
  have hframe : scopes.frame? index = none := by
    rw [frame?, List.getElem?_eq_none_iff, List.length_reverse]
    exact h
  rw [cell?, hframe, Option.bind_none]

theorem lt_depth_of_cell? (h : (scopes.cell? index name).isSome = true) : index < scopes.depth := by
  refine Nat.lt_of_not_le fun hle => ?_
  rw [cell?_of_depth_le scopes hle] at h
  cases h

theorem get?_of_not_binds {frame : Frame α} (h : ¬ frame.binds name = true) :
    frame.get? name = none := by
  simpa [Frame.binds_eq_isSome] using h

/-- Two frames cannot both be the innermost one that binds a name. -/
theorem Owns.unique {i j : Nat} (h : scopes.Owns i name) (h' : scopes.Owns j name) : i = j := by
  rcases Nat.lt_trichotomy i j with hlt | heq | hlt
  · have hbound := h'.bound
    rw [h.innermost j hlt] at hbound
    cases hbound
  · exact heq
  · have hbound := h.bound
    rw [h'.innermost i hlt] at hbound
    cases hbound

/-- Which frame binds a name depends on the cells of that name only. -/
theorem owns_congr (h : ∀ i, after.cell? i name = before.cell? i name) :
    after.Owns index name ↔ before.Owns index name := by
  constructor
  · exact fun ho => ⟨h index ▸ ho.bound, fun j hj => h j ▸ ho.innermost j hj⟩
  · exact fun ho => ⟨h index ▸ ho.bound, fun j hj => (h j).trans (ho.innermost j hj)⟩

theorem owns_cons (frame : Frame α) (outer : List (Frame α)) (name : String) :
    (⟨frame :: outer⟩ : Scopes α).Owns index name ↔
      if frame.binds name = true then index = outer.length
      else (⟨outer⟩ : Scopes α).Owns index name := by
  split
  · next hbinds =>
    have htop : (⟨frame :: outer⟩ : Scopes α).Owns outer.length name := by
      refine ⟨?_, ?_⟩
      · rw [cell?_cons, if_pos rfl, ← Frame.binds_eq_isSome, hbinds]
      · intro j hj
        exact cell?_of_depth_le ⟨frame :: outer⟩ hj name
    constructor
    · exact fun h => h.unique htop
    · rintro rfl
      exact htop
  · next hbinds =>
    have hcells : ∀ i, (⟨frame :: outer⟩ : Scopes α).cell? i name =
        (⟨outer⟩ : Scopes α).cell? i name := by
      intro i
      rw [cell?_cons]
      by_cases hi : i = outer.length
      · have hpast : (⟨outer⟩ : Scopes α).depth ≤ i := Nat.le_of_eq hi.symm
        rw [if_pos hi, get?_of_not_binds hbinds, cell?_of_depth_le ⟨outer⟩ hpast]
      · rw [if_neg hi]
    exact owns_congr hcells

theorem ownerIn_eq_some_iff (frames : List (Frame α)) (name : String) :
    ownerIn name frames = some index ↔ (⟨frames⟩ : Scopes α).Owns index name := by
  induction frames with
  | nil =>
    constructor
    · exact fun h => by cases h
    · exact fun h => by cases h.bound
  | cons frame outer ih =>
    rw [owns_cons, ownerIn]
    split
    · rw [Option.some.injEq, eq_comm]
    · exact ih

/-- The frame that is said to bind a name is the innermost one that does. -/
theorem owner?_eq_some_iff : scopes.owner? name = some index ↔ scopes.Owns index name :=
  ownerIn_eq_some_iff scopes.frames name

theorem owner?_eq_none_iff : scopes.owner? name = none ↔ scopes.lookup? name = none := by
  obtain ⟨frames⟩ := scopes
  simp only [owner?, lookup?]
  induction frames with
  | nil => simp [ownerIn, lookupIn]
  | cons frame outer ih =>
    rw [ownerIn, lookupIn, Frame.binds_eq_isSome]
    cases frame.get? name with
    | some value => simp
    | none => simpa using ih

/-- A name is looked up in the innermost frame that binds it. -/
theorem Owns.lookup? (h : scopes.Owns index name) :
    scopes.lookup? name = scopes.cell? index name := by
  obtain ⟨frames⟩ := scopes
  induction frames with
  | nil => cases h.bound
  | cons frame outer ih =>
    rw [owns_cons] at h
    simp only [Scopes.lookup?, lookupIn] at ih ⊢
    rw [cell?_cons]
    split at h
    · next hbinds =>
      rw [Frame.binds_eq_isSome, Option.isSome_iff_exists] at hbinds
      obtain ⟨value, hvalue⟩ := hbinds
      rw [if_pos h, hvalue]
    · next hbinds =>
      have hne : index ≠ outer.length := Nat.ne_of_lt (lt_depth_of_cell? h.bound)
      rw [if_neg hne, get?_of_not_binds hbinds]
      exact ih h

/-- A name that is bound in some frame is bound there or further in. -/
theorem exists_owns_of_cell? (h : (scopes.cell? index name).isSome = true) :
    ∃ i, index ≤ i ∧ scopes.Owns i name := by
  obtain ⟨frames⟩ := scopes
  induction frames with
  | nil => cases h
  | cons frame outer ih =>
    have hlt : index < outer.length + 1 := lt_depth_of_cell? h
    by_cases hbinds : frame.binds name = true
    · refine ⟨outer.length, by omega, ?_⟩
      rw [owns_cons, if_pos hbinds]
    · rw [cell?_cons] at h
      split at h
      · rw [get?_of_not_binds hbinds] at h
        cases h
      · obtain ⟨i, hi, howns⟩ := ih h
        refine ⟨i, hi, ?_⟩
        rw [owns_cons, if_neg hbinds]
        exact howns

/-- Scopes with the same cells of a name have the same binding of it. -/
theorem lookup?_congr (h : ∀ i, after.cell? i name = before.cell? i name) :
    after.lookup? name = before.lookup? name := by
  cases howner : before.owner? name with
  | some i =>
    have hbefore := owner?_eq_some_iff.1 howner
    rw [hbefore.lookup?, ((owns_congr h).2 hbefore).lookup?, h i]
  | none =>
    have hafter : after.owner? name = none := by
      rw [Option.eq_none_iff_forall_ne_some]
      intro i hi
      rw [owner?_eq_some_iff, owns_congr h, ← owner?_eq_some_iff, howner] at hi
      cases hi
    rw [owner?_eq_none_iff.1 howner, owner?_eq_none_iff.1 hafter]

-- ════════════════════════════════════════════════════════════════════════
-- Writing one cell
-- ════════════════════════════════════════════════════════════════════════

theorem length_writeIn (index : Nat) (name : String) (value : α) (frames : List (Frame α)) :
    (writeIn index name value frames).length = frames.length := by
  induction frames with
  | nil => rfl
  | cons frame outer ih =>
    rw [writeIn]
    split
    · rfl
    · rw [List.length_cons, List.length_cons, ih]

theorem get?_bind (frame : Frame α) (name other : String) (value : α) :
    (frame.bind name value).get? other = if other = name then some value else frame.get? other := by
  by_cases h : other = name
  · rw [h, if_pos rfl, Frame.get?_bind_self]
  · rw [if_neg h, Frame.get?_bind_of_ne frame h]

/-- Binding a name in a frame writes one cell. -/
theorem written_writeAt (h : index < scopes.depth) (name : String) (value : α) :
    Written scopes index name value (scopes.writeAt index name value) := by
  obtain ⟨frames⟩ := scopes
  refine ⟨length_writeIn index name value frames, fun i other => ?_⟩
  simp only [writeAt, depth] at h ⊢
  induction frames with
  | nil => cases h
  | cons frame outer ih =>
    rw [List.length_cons] at h
    rw [writeIn]
    by_cases hindex : outer.length = index
    · rw [if_pos hindex, cell?_cons, cell?_cons, hindex]
      by_cases hi : i = index <;> simp [hi, get?_bind]
    · rw [if_neg hindex, cell?_cons, cell?_cons, length_writeIn, ih (by omega)]
      by_cases hi : i = outer.length
      · simp [hi, hindex]
      · simp [hi]

/-- A name that a frame binds already keeps its place there. -/
theorem Owns.names_writeAt (h : scopes.Owns index name) (value : α) :
    (scopes.writeAt index name value).frames.map Frame.names = scopes.frames.map Frame.names := by
  obtain ⟨frames⟩ := scopes
  simp only [writeAt]
  induction frames with
  | nil => rfl
  | cons frame outer ih =>
    rw [owns_cons] at h
    rw [writeIn]
    split at h
    · next hbinds =>
      have hnames := Frame.names_bind_of_mem (Frame.binds_iff_mem_names.1 hbinds) value
      rw [if_pos h.symm, List.map_cons, List.map_cons, hnames]
    · have hne : outer.length ≠ index := Nat.ne_of_gt (lt_depth_of_cell? h.bound)
      rw [if_neg hne, List.map_cons, List.map_cons, ih h]

theorem ownerIn_lt {frames : List (Frame α)} (h : ownerIn name frames = some index) :
    index < frames.length := by
  have howns := (ownerIn_eq_some_iff frames name).1 h
  exact lt_depth_of_cell? howns.bound

theorem assignIn_eq (name : String) (value : α) (frames : List (Frame α)) :
    assignIn name value frames =
      (ownerIn name frames).map fun index => writeIn index name value frames := by
  induction frames with
  | nil => rfl
  | cons frame outer ih =>
    rw [assignIn, ownerIn]
    split
    · simp [writeIn]
    · rw [ih]
      cases howner : ownerIn name outer with
      | none => rfl
      | some index =>
        have hne : outer.length ≠ index := Nat.ne_of_gt (ownerIn_lt howner)
        simp [writeIn, hne]

/-- Assigning to a name writes its cell in the frame that binds it. -/
theorem assign_eq (scopes : Scopes α) (name : String) (value : α) :
    scopes.assign name value = match scopes.owner? name with
      | some index => .ok (scopes.writeAt index name value)
      | none => .error (.unbound name) := by
  rw [assign, assignIn_eq, owner?]
  cases ownerIn name scopes.frames <;> rfl

theorem installIn_eq (name : String) (value : α) (frames : List (Frame α)) :
    installIn name value frames = writeIn 0 name value frames := by
  fun_induction installIn name value frames with
  | case1 => rfl
  | case2 base => simp [writeIn]
  | case3 frame outer hne ih =>
    have hlength : outer.length ≠ 0 := mt List.length_eq_zero_iff.1 fun hnil => hne hnil
    rw [writeIn, if_neg hlength, ih]

/-- Installing a name writes its cell in the base frame. -/
theorem install_eq (h : scopes.frames ≠ []) (name : String) (value : α) :
    scopes.install name value = .ok (scopes.writeAt 0 name value) := by
  obtain ⟨frames⟩ := scopes
  cases frames with
  | nil => exact absurd rfl h
  | cons frame outer =>
    simp only [install, writeAt, installIn_eq]

/-- Binding a name writes its cell in the innermost frame. -/
theorem bind_eq (h : scopes.frames ≠ []) (name : String) (value : α) :
    scopes.bind name value = .ok (scopes.writeAt (scopes.depth - 1) name value) := by
  obtain ⟨frames⟩ := scopes
  cases frames with
  | nil => exact absurd rfl h
  | cons frame outer => simp [bind, writeAt, writeIn, depth]

namespace Written

/-- What other names are bound to does not change. -/
theorem lookup?_of_ne (h : Written before index name value after) (hne : other ≠ name) :
    after.lookup? other = before.lookup? other := by
  refine lookup?_congr fun i => ?_
  rw [h.cell, if_neg fun hcell => hne hcell.2]

/-- What was written is visible where no frame further in binds the name. -/
theorem lookup?_self (h : Written before index name value after)
    (hvisible : ∀ j, index < j → before.cell? j name = none) :
    after.lookup? name = some value := by
  have hself : after.cell? index name = some value := by
    rw [h.cell, if_pos ⟨rfl, rfl⟩]
  have howns : after.Owns index name := by
    refine ⟨by rw [hself]; rfl, fun j hj => ?_⟩
    rw [h.cell, if_neg fun hcell => Nat.ne_of_gt hj hcell.1]
    exact hvisible j hj
  rw [howns.lookup?, hself]

/-- What was written is hidden by any frame further in that binds the name. -/
theorem lookup?_hidden (h : Written before index name value after) {j : Nat} (hj : index < j)
    (hbound : (before.cell? j name).isSome = true) :
    after.lookup? name = before.lookup? name := by
  obtain ⟨i, hi, howns⟩ := exists_owns_of_cell? hbound
  have hkept : ∀ k, i ≤ k → after.cell? k name = before.cell? k name := by
    intro k hk
    rw [h.cell, if_neg fun hcell => Nat.ne_of_gt (by omega) hcell.1]
  have howns' : after.Owns i name := by
    refine ⟨hkept i (Nat.le_refl i) ▸ howns.bound, fun k hk => ?_⟩
    rw [hkept k (Nat.le_of_lt hk), howns.innermost k hk]
  rw [howns'.lookup?, howns.lookup?, hkept i (Nat.le_refl i)]

end Written

-- ════════════════════════════════════════════════════════════════════════
-- Leaving scopes
-- ════════════════════════════════════════════════════════════════════════

/-- A scope can be left unless only the base frame remains, and its frame is dropped then. -/
theorem leave_of_lt (h : 1 < scopes.depth) : scopes.leave = .ok ⟨scopes.frames.tail⟩ := by
  obtain ⟨frames⟩ := scopes
  match frames with
  | [] => cases h
  | [_] => simp [depth] at h
  | _ :: _ :: _ => rfl

/-- The cells of the frames that remain are kept. -/
theorem cell?_tail {frames : List (Frame α)} (h : index < frames.tail.length) (name : String) :
    (⟨frames.tail⟩ : Scopes α).cell? index name = (⟨frames⟩ : Scopes α).cell? index name := by
  cases frames with
  | nil => rfl
  | cons frame outer =>
    have hne : index ≠ outer.length := Nat.ne_of_lt h
    rw [cell?_cons, if_neg hne, List.tail_cons]

end FexprLisp.Scopes
