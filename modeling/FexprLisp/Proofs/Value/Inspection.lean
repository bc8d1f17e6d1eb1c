import FexprLisp.Proofs.Source.Literal
import FexprLisp.Value.Print

/-!
# Debug forms

The debug form of a node or a value tells all about it. Each form shows where it ends, whatever
stands behind it, so that rows of forms between brackets can be taken apart again. No form holds a
line feed.

## Main definitions

- `SelfDelimiting` — a printed form that shows where it ends

## Main statements

- `intercalate_append_inj` — a row of such forms between brackets is one too
- `Node.induction` — induction over nodes, for all items of a list at once
- `Node.selfDelimiting_inspect` — debug forms of nodes show where they end
- `Value.inspect_eq_iff` — values have the same debug form exactly when the language takes them for
  the same
- `Node.lineFeed_not_mem_inspect`, `Value.lineFeed_not_mem_inspect` — debug forms are single lines
-/

namespace FexprLisp

/-- A printed form that shows where it ends: whatever stands behind it, nothing else is printed like
this. -/
def SelfDelimiting {α : Type} (print : α → String) (a : α) : Prop :=
  ∀ (b : α) (rest more : List Char),
    (print a).toList ++ rest = (print b).toList ++ more → a = b ∧ rest = more

-- ════════════════════════════════════════════════════════════════════════
-- Numbers and texts
-- ════════════════════════════════════════════════════════════════════════

/-- What stands before the first of two equal marks is determined by the whole. -/
theorem append_cons_inj {first second rest more : List Char} {mark : Char} (hfirst : mark ∉ first)
    (hsecond : mark ∉ second) (h : first ++ mark :: rest = second ++ mark :: more) :
    first = second ∧ rest = more := by
  have hsplit := congrArg (List.splitOn mark) h
  rw [List.splitOn_append_cons_self_of_not_mem hfirst,
    List.splitOn_append_cons_self_of_not_mem hsecond] at hsplit
  obtain rfl : first = second := (List.cons.inj hsplit).1
  exact ⟨rfl, (List.cons.inj (List.append_cancel_left h)).2⟩

theorem toList_toString (n : Int) :
    (toString n).toList = if 0 ≤ n then Nat.toDigits 10 n.toNat
      else '-' :: Nat.toDigits 10 (-n).toNat := by
  rw [Int.toString_eq_repr, Int.repr_eq_if]
  split
  · rw [Nat.toList_repr]
  · rw [String.toList_append, Nat.toList_repr]
    rfl

theorem mem_toString {n : Int} {c : Char} (h : c ∈ (toString n).toList) :
    c = '-' ∨ c.isDigit = true := by
  rw [toList_toString] at h
  split at h
  · exact .inr (Nat.isDigit_of_mem_toDigits (by decide) (by decide) h)
  · rcases List.mem_cons.1 h with hminus | hdigit
    · exact .inl hminus
    · exact .inr (Nat.isDigit_of_mem_toDigits (by decide) (by decide) hdigit)

theorem not_mem_toString (n : Int) {c : Char} (hc : c ≠ '-') (hdigit : c.isDigit = false) :
    c ∉ (toString n).toList := by
  intro h
  rcases mem_toString h with hminus | htrue
  · exact hc hminus
  · rw [hdigit] at htrue
    cases htrue

theorem toDigits_injective {n k : Nat} (h : Nat.toDigits 10 n = Nat.toDigits 10 k) : n = k := by
  have hvalue := congrArg (Nat.ofDigitChars 10 · 0) h
  simpa only [Nat.ofDigitChars_ten_toDigits] using hvalue

theorem minus_not_mem_toDigits (n : Nat) : '-' ∉ Nat.toDigits 10 n := by
  intro h
  have hdigit := Nat.isDigit_of_mem_toDigits (by decide) (by decide) h
  revert hdigit
  decide

/-- Numbers that are written alike are the same. -/
theorem toString_injective {n k : Int} (h : toString n = toString k) : n = k := by
  have hlists := congrArg String.toList h
  rw [toList_toString, toList_toString] at hlists
  by_cases hn : 0 ≤ n
  · by_cases hk : 0 ≤ k
    · rw [if_pos hn, if_pos hk] at hlists
      have := toDigits_injective hlists
      omega
    · rw [if_pos hn, if_neg hk] at hlists
      exact absurd (hlists ▸ List.mem_cons_self) (minus_not_mem_toDigits n.toNat)
  · by_cases hk : 0 ≤ k
    · rw [if_neg hn, if_pos hk] at hlists
      exact absurd (hlists ▸ List.mem_cons_self) (minus_not_mem_toDigits k.toNat)
    · rw [if_neg hn, if_neg hk] at hlists
      have := toDigits_injective (List.cons.inj hlists).2
      omega

/-- A number shows where it ends if a parenthesis stands there. -/
theorem toString_append_inj {n k : Int} {rest more : List Char}
    (h : (toString n).toList ++ ')' :: rest = (toString k).toList ++ ')' :: more) :
    n = k ∧ rest = more := by
  have hmark : ∀ n : Int, ')' ∉ (toString n).toList :=
    fun n => not_mem_toString n (by decide) (by decide)
  obtain ⟨htext, hrest⟩ := append_cons_inj (hmark n) (hmark k) h
  exact ⟨toString_injective (String.toList_injective htext), hrest⟩

theorem selfDelimiting_quoted (text : String) : SelfDelimiting Text.quoted text :=
  fun _ _ _ h => Text.quoted_append_inj h

theorem exists_quoted_eq (text : String) :
    ∃ later, (Text.quoted text).toList = '"' :: later := by
  exact ⟨_, by rw [Text.quoted, String.append_assoc, String.toList_append]; rfl⟩

theorem lineFeed_not_mem_toString (n : Int) : '\n' ∉ (toString n).toList :=
  not_mem_toString n (by decide) (by decide)

theorem lineFeed_not_mem_quoted (text : String) : '\n' ∉ (Text.quoted text).toList := by
  have hchar : ∀ c, '\n' ∉ Text.escapeChar c := by
    intro c
    unfold Text.escapeChar
    split
    · decide
    split
    · decide
    split
    · decide
    · next hfeed => simpa using Ne.symm hfeed
  simp only [Text.quoted, String.toList_append, String.toList_ofList, Text.escape_eq_flatMap]
  simp [hchar]

-- ════════════════════════════════════════════════════════════════════════
-- Rows
-- ════════════════════════════════════════════════════════════════════════

section Row

variable {α : Type} {print : α → String}

/-- What stands behind the first form of a row. -/
theorem toList_intercalate_cons (item : α) (items : List α) :
    (", ".intercalate ((item :: items).map print)).toList =
      (print item).toList ++ match items with
        | [] => []
        | _ => ',' :: ' ' :: (", ".intercalate (items.map print)).toList := by
  cases items with
  | nil => simp
  | cons next items => simp [String.intercalate_cons_cons]

/-- A row of forms that show where they end is determined by its text up to the closing bracket. -/
theorem intercalate_append_inj {items others : List α} {rest more : List Char}
    (hitems : ∀ item ∈ items, SelfDelimiting print item)
    (hstart : ∀ item, ∃ c later, (print item).toList = c :: later ∧ c ≠ ']')
    (h : (", ".intercalate (items.map print)).toList ++ ']' :: rest =
      (", ".intercalate (others.map print)).toList ++ ']' :: more) :
    items = others ∧ rest = more := by
  have hfirst : ∀ (item : α) (items : List α) (rest more : List Char),
      (", ".intercalate ((item :: items).map print)).toList ++ rest ≠ ']' :: more := by
    intro item items rest more hrow
    obtain ⟨c, later, hprint, hc⟩ := hstart item
    rw [toList_intercalate_cons, hprint, List.append_assoc, List.cons_append] at hrow
    exact hc (List.cons.inj hrow).1
  induction items generalizing others with
  | nil =>
    cases others with
    | nil => exact ⟨rfl, (List.cons.inj h).2⟩
    | cons other others => exact absurd h.symm (hfirst other others _ _)
  | cons item items ih =>
    cases others with
    | nil => exact absurd h (hfirst item items _ _)
    | cons other others =>
      rw [List.forall_mem_cons] at hitems
      rw [toList_intercalate_cons, toList_intercalate_cons, List.append_assoc,
        List.append_assoc] at h
      obtain ⟨rfl, htail⟩ := hitems.1 _ _ _ h
      cases items with
      | nil =>
        cases others with
        | nil => exact ⟨rfl, (List.cons.inj htail).2⟩
        | cons next others => simp at htail
      | cons next items =>
        cases others with
        | nil => simp at htail
        | cons next' others =>
          have hrow := (List.cons.inj (List.cons.inj htail).2).2
          obtain ⟨hrest, hmore⟩ := ih hitems.2 hrow
          exact ⟨by rw [hrest], hmore⟩

theorem lineFeed_not_mem_intercalate {items : List α}
    (h : ∀ item ∈ items, '\n' ∉ (print item).toList) :
    '\n' ∉ (", ".intercalate (items.map print)).toList := by
  induction items with
  | nil => simp
  | cons item items ih =>
    rw [List.forall_mem_cons] at h
    rw [toList_intercalate_cons, List.mem_append, not_or]
    refine ⟨h.1, ?_⟩
    cases items with
    | nil => simp
    | cons next items => simpa using ih h.2

end Row

-- ════════════════════════════════════════════════════════════════════════
-- Nodes
-- ════════════════════════════════════════════════════════════════════════

namespace Node

@[simp]
theorem inspect_ident (name : String) :
    (ident name).inspect = "Identifier(" ++ Text.quoted name ++ ")" := rfl

@[simp]
theorem inspect_int (value : Int) :
    (int value).inspect = "IntegerLiteral(" ++ toString value ++ ")" := rfl

@[simp]
theorem inspect_str (text : String) :
    (str text).inspect = "StringLiteral(" ++ Text.quoted text ++ ")" := rfl

@[simp]
theorem inspect_quote (node : Node) :
    (quote node).inspect = "Quote(" ++ node.inspect ++ ")" := rfl

@[simp]
theorem inspect_list (items : List Node) :
    (list items).inspect = "List([" ++ ", ".intercalate (items.map inspect) ++ "])" := by
  rw [← inspectEach_eq_map]
  rfl

@[simp]
theorem inspect_hole : hole.inspect = "None" := rfl

theorem exists_inspect_eq (node : Node) :
    ∃ c later, node.inspect.toList = c :: later ∧ c ≠ ']' := by
  cases node with
  | ident name => exact ⟨'I', _, by simp; rfl, by decide⟩
  | int value => exact ⟨'I', _, by simp; rfl, by decide⟩
  | str text => exact ⟨'S', _, by simp; rfl, by decide⟩
  | quote node => exact ⟨'Q', _, by simp; rfl, by decide⟩
  | list items => exact ⟨'L', _, by simp; rfl, by decide⟩
  | hole => exact ⟨'N', _, by simp; rfl, by decide⟩

/-- Induction over nodes, for all items of a list at once. -/
@[elab_as_elim]
theorem induction {P : Node → Prop} (ident : ∀ name, P (.ident name))
    (int : ∀ value, P (.int value)) (str : ∀ text, P (.str text))
    (quote : ∀ node, P node → P (.quote node))
    (list : ∀ items, (∀ item ∈ items, P item) → P (.list items)) (hole : P .hole) (node : Node) :
    P node := by
  cases node with
  | ident name => exact ident name
  | int value => exact int value
  | str text => exact str text
  | quote node => exact quote node (induction ident int str quote list hole node)
  | list items => exact list items fun item _ => induction ident int str quote list hole item
  | hole => exact hole

/-- The debug form of a node shows where it ends. -/
theorem selfDelimiting_inspect (node : Node) : SelfDelimiting inspect node := by
  induction node using induction with
  | ident name =>
    intro other rest more h
    cases other with
    | ident other =>
      simp only [inspect_ident, String.toList_append, List.append_assoc] at h
      obtain ⟨rfl, hrest⟩ := Text.quoted_append_inj (List.append_cancel_left h)
      exact ⟨rfl, List.append_cancel_left hrest⟩
    | _ => simp at h
  | int value =>
    intro other rest more h
    cases other with
    | int other =>
      simp only [inspect_int, String.toList_append, List.append_assoc] at h
      obtain ⟨rfl, hrest⟩ := toString_append_inj (List.append_cancel_left h)
      exact ⟨rfl, hrest⟩
    | _ => simp at h
  | str text =>
    intro other rest more h
    cases other with
    | str other =>
      simp only [inspect_str, String.toList_append, List.append_assoc] at h
      obtain ⟨rfl, hrest⟩ := Text.quoted_append_inj (List.append_cancel_left h)
      exact ⟨rfl, List.append_cancel_left hrest⟩
    | _ => simp at h
  | quote node ih =>
    intro other rest more h
    cases other with
    | quote other =>
      simp only [inspect_quote, String.toList_append, List.append_assoc] at h
      obtain ⟨rfl, hrest⟩ := ih _ _ _ (List.append_cancel_left h)
      exact ⟨rfl, List.append_cancel_left hrest⟩
    | _ => simp at h
  | list items ih =>
    intro other rest more h
    cases other with
    | list others =>
      simp only [inspect_list, String.toList_append, List.append_assoc] at h
      obtain ⟨rfl, hrest⟩ :=
        intercalate_append_inj ih exists_inspect_eq (List.append_cancel_left h)
      exact ⟨rfl, (List.cons.inj hrest).2⟩
    | _ => simp at h
  | hole =>
    intro other rest more h
    cases other with
    | hole => exact ⟨rfl, List.append_cancel_left h⟩
    | _ => simp at h

/-- The debug form of a node is a single line. -/
theorem lineFeed_not_mem_inspect (node : Node) : '\n' ∉ node.inspect.toList := by
  induction node using induction with
  | ident name => simp [lineFeed_not_mem_quoted]
  | int value =>
    have hdigits := lineFeed_not_mem_toString value
    simp only [inspect_int, String.toList_append, List.mem_append, hdigits]
    decide
  | str text => simp [lineFeed_not_mem_quoted]
  | quote node ih => simp [ih]
  | list items ih =>
    have hrow := lineFeed_not_mem_intercalate ih
    simp only [inspect_list, String.toList_append, List.mem_append, hrow]
    decide
  | hole => simp

/-- Nodes with the same debug form are the same. -/
theorem inspect_injective {a b : Node} (h : a.inspect = b.inspect) : a = b := by
  refine (selfDelimiting_inspect a b [] [] ?_).1
  rw [h]

end Node

-- ════════════════════════════════════════════════════════════════════════
-- Values
-- ════════════════════════════════════════════════════════════════════════

namespace Value

/-- The same are native operations of one name and otherwise equal values. -/
theorem same_iff {a b : Value} :
    a.same b = true ↔ a = b ∨ ∃ name operation operation', a = .intrinsic name operation ∧
      b = .intrinsic name operation' := by
  cases a with
  | intrinsic name operation =>
    cases b with
    | intrinsic other operation' =>
      constructor
      · intro h
        obtain rfl : name = other := by simpa [same] using h
        exact .inr ⟨name, operation, operation', rfl, rfl⟩
      · rintro (heq | ⟨_, _, _, heq, heq'⟩)
        · cases heq
          exact beq_self_eq_true name
        · cases heq
          cases heq'
          exact beq_self_eq_true name
    | _ => simp [same]
  | _ => cases b <;> simp [same]

theorem same_of_inspect_eq {a b : Value} (h : a.inspect = b.inspect) : a.same b = true := by
  have hlists := congrArg String.toList h
  cases a with
  | int n =>
    cases b with
    | int k =>
      simp only [inspect, String.toList_append, List.append_assoc] at hlists
      obtain ⟨rfl, -⟩ := toString_append_inj (List.append_cancel_left hlists)
      exact beq_self_eq_true n
    | _ => simp [inspect] at hlists
  | str text =>
    cases b with
    | str other =>
      simp only [inspect, String.toList_append, List.append_assoc] at hlists
      obtain ⟨rfl, -⟩ := Text.quoted_append_inj (List.append_cancel_left hlists)
      exact beq_self_eq_true text
    | _ => simp [inspect] at hlists
  | quote node =>
    cases b with
    | quote other =>
      simp only [inspect, String.toList_append, List.append_assoc] at hlists
      obtain ⟨rfl, -⟩ := node.selfDelimiting_inspect _ _ _ (List.append_cancel_left hlists)
      exact beq_self_eq_true node
    | _ => simp [inspect] at hlists
  | intrinsic name operation =>
    cases b with
    | intrinsic other operation' =>
      simp only [inspect, String.toList_append, List.append_assoc] at hlists
      obtain ⟨rfl, -⟩ := Text.quoted_append_inj (List.append_cancel_left hlists)
      exact beq_self_eq_true name
    | _ => simp [inspect] at hlists
  | function params body =>
    cases b with
    | function others body' =>
      simp only [inspect, String.toList_append, List.append_assoc] at hlists
      have hstart : ∀ text, ∃ c later, (Text.quoted text).toList = c :: later ∧ c ≠ ']' := by
        intro text
        obtain ⟨later, hquoted⟩ := exists_quoted_eq text
        exact ⟨'"', later, hquoted, by decide⟩
      obtain ⟨rfl, hbody⟩ := intercalate_append_inj (fun text _ => selfDelimiting_quoted text)
        hstart (List.append_cancel_left hlists)
      obtain ⟨rfl, -⟩ := body.selfDelimiting_inspect _ _ _ (List.append_cancel_left hbody)
      simp [same]
    | _ => simp [inspect] at hlists
  | empty =>
    cases b with
    | empty => rfl
    | _ => simp [inspect] at hlists
  | hole =>
    cases b with
    | hole => rfl
    | _ => simp [inspect] at hlists

/-- Values have the same debug form exactly when the language takes them for the same. -/
theorem inspect_eq_iff {a b : Value} : a.inspect = b.inspect ↔ a.same b = true := by
  refine ⟨same_of_inspect_eq, fun h => ?_⟩
  obtain rfl | ⟨name, operation, operation', rfl, rfl⟩ := same_iff.1 h
  · rfl
  · rfl

/-- The debug form of a value is a single line. -/
theorem lineFeed_not_mem_inspect (value : Value) : '\n' ∉ value.inspect.toList := by
  cases value with
  | int n =>
    have hdigits := lineFeed_not_mem_toString n
    simp only [inspect, String.toList_append, List.mem_append, hdigits]
    decide
  | str text => simp [inspect, lineFeed_not_mem_quoted]
  | quote node => simp [inspect, node.lineFeed_not_mem_inspect]
  | intrinsic name operation => simp [inspect, lineFeed_not_mem_quoted]
  | function params body =>
    have hrow := lineFeed_not_mem_intercalate fun param (_ : param ∈ params) =>
      lineFeed_not_mem_quoted param
    have hbody := body.lineFeed_not_mem_inspect
    simp only [inspect, String.toList_append, List.mem_append, hrow, hbody]
    decide
  | empty => simp [inspect]
  | hole => simp [inspect]

end Value

end FexprLisp
