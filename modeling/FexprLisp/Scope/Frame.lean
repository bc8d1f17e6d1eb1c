/-!
# Frames

A frame holds the bindings of one scope, in the order in which the names were first bound.

## Main definitions

- `Frame` — names with what they are bound to
- `Frame.get?` — what a name is bound to
- `Frame.bind` — binds a name

## Main statements

- `Frame.get?_bind_self`, `Frame.get?_bind_of_ne` — a binding shows for its own name only
- `Frame.names_bind_of_mem`, `Frame.names_bind_of_not_mem` — a new name goes to the end, a bound
  one keeps its place
-/

namespace FexprLisp

/-- The bindings of one scope, in the order in which the names were first bound. -/
structure Frame (α : Type) where
  entries : List (String × α)
deriving DecidableEq, Repr, Inhabited

namespace Frame

variable {α : Type}

/-- A frame without bindings. -/
def empty : Frame α := ⟨[]⟩

/-- The names that a frame binds. -/
def names (frame : Frame α) : List String :=
  frame.entries.map (·.1)

/-- Whether a frame binds a name. -/
def binds (frame : Frame α) (name : String) : Bool :=
  frame.entries.any (·.1 == name)

/-- The first entry of a name. -/
def find? (name : String) : List (String × α) → Option α
  | [] => none
  | (key, value) :: entries => if key = name then some value else find? name entries

/-- What a name is bound to. -/
def get? (frame : Frame α) (name : String) : Option α :=
  find? name frame.entries

/-- Changes the entry of a name, or adds one at the end. -/
def put (name : String) (value : α) : List (String × α) → List (String × α)
  | [] => [(name, value)]
  | (key, old) :: entries =>
    if key = name then (key, value) :: entries else (key, old) :: put name value entries

/-- Binds a name. A name that is bound already keeps its place. -/
def bind (frame : Frame α) (name : String) (value : α) : Frame α :=
  ⟨put name value frame.entries⟩

@[simp]
theorem get?_empty (name : String) : (empty : Frame α).get? name = none := rfl

/-- The entry that was put in is found. -/
theorem find?_put_self (name : String) (value : α) (entries : List (String × α)) :
    find? name (put name value entries) = some value := by
  induction entries with
  | nil => simp [put, find?]
  | cons entry entries ih =>
    obtain ⟨key, old⟩ := entry
    by_cases h : key = name <;> simp [put, find?, h, ih]

/-- Entries of other names are found as before. -/
theorem find?_put_of_ne {name other : String} (h : other ≠ name) (value : α)
    (entries : List (String × α)) : find? other (put name value entries) = find? other entries := by
  induction entries with
  | nil => simp [put, find?, Ne.symm h]
  | cons entry entries ih =>
    obtain ⟨key, old⟩ := entry
    by_cases hk : key = name
    · subst hk
      simp [put, find?, Ne.symm h]
    · simp [put, find?, hk, ih]

/-- A name is bound to what it was bound to last. -/
@[simp]
theorem get?_bind_self (frame : Frame α) (name : String) (value : α) :
    (frame.bind name value).get? name = some value :=
  find?_put_self name value frame.entries

/-- Binding a name leaves other names alone. -/
theorem get?_bind_of_ne (frame : Frame α) {name other : String} (h : other ≠ name) (value : α) :
    (frame.bind name value).get? other = frame.get? other :=
  find?_put_of_ne h value frame.entries

/-- A frame binds exactly the names that it has a value for. -/
theorem binds_eq_isSome (frame : Frame α) (name : String) :
    frame.binds name = (frame.get? name).isSome := by
  obtain ⟨entries⟩ := frame
  simp only [binds, get?]
  induction entries with
  | nil => rfl
  | cons entry entries ih =>
    obtain ⟨key, value⟩ := entry
    by_cases h : key = name <;> simp [find?, h, ih]

/-- A frame binds exactly the names that it lists. -/
theorem binds_iff_mem_names {frame : Frame α} {name : String} :
    frame.binds name = true ↔ name ∈ frame.names := by
  simp [binds, names]

/-- A bound name keeps its place among the names. -/
theorem names_bind_of_mem {frame : Frame α} {name : String} (h : name ∈ frame.names) (value : α) :
    (frame.bind name value).names = frame.names := by
  obtain ⟨entries⟩ := frame
  simp only [names, bind] at h ⊢
  induction entries with
  | nil => simp at h
  | cons entry entries ih =>
    obtain ⟨key, old⟩ := entry
    by_cases hk : key = name
    · simp [put, hk]
    · have : name ∈ entries.map (·.1) := by
        simpa [Ne.symm hk] using h
      simp [put, hk, ih this]

/-- A new name goes to the end. -/
theorem bind_of_not_mem {frame : Frame α} {name : String} (h : name ∉ frame.names) (value : α) :
    frame.bind name value = ⟨frame.entries ++ [(name, value)]⟩ := by
  obtain ⟨entries⟩ := frame
  simp only [names, bind, mk.injEq] at h ⊢
  induction entries with
  | nil => rfl
  | cons entry entries ih =>
    obtain ⟨key, old⟩ := entry
    rw [List.map_cons, List.mem_cons, not_or] at h
    rw [put, if_neg (Ne.symm h.1), ih h.2, List.cons_append]

theorem names_bind_of_not_mem {frame : Frame α} {name : String} (h : name ∉ frame.names)
    (value : α) : (frame.bind name value).names = frame.names ++ [name] := by
  rw [bind_of_not_mem h]
  simp [names]

end Frame

end FexprLisp
