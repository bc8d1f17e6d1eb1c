import FexprLisp.Proofs.Eval.Run
import Mathlib.Tactic.SplitIfs

/-!
# Exact arithmetic

The quotient that is rounded toward zero is the only one that leaves a remainder smaller than the
divisor and with the sign of the dividend. So all that can leave the bounds of the language is a sum,
a difference, a product, and one single quotient; a remainder never does.

## Main definitions

- `IsQuotient` — a quotient with a remainder of the right size and sign
- `Machine.compute` — a call of an operation, as a user is told of it

## Main statements

- `isQuotient_iff` — there is one such quotient
- `inBounds_truncDiv_iff` — which quotients are in bounds
- `inBounds_remainder` — all remainders are
- `Arith.apply_div`, `Arith.apply_mod` — what the two operations make of integers
- `Machine.compute_of_compute`, `Machine.compute_div`, `Machine.compute_mod` — a call of each operation
- `arithmetic_exact_or_refused` — what calls of the operations lead to
-/

namespace FexprLisp

-- ════════════════════════════════════════════════════════════════════════
-- Quotients
-- ════════════════════════════════════════════════════════════════════════

/-- A quotient whose remainder is smaller than the divisor, and is zero or has the sign of the
dividend. -/
def IsQuotient (a b q : Int) : Prop :=
  (a - b * q).natAbs < b.natAbs ∧ (a - b * q = 0 ∨ (a - b * q).sign = a.sign)

theorem remainder_eq (a b : Int) : a - b * truncDiv a b = a.tmod b := by
  rw [truncDiv_eq]
  exact (Int.tmod_def a b).symm

theorem isQuotient_truncDiv (a : Int) {b : Int} (hb : b ≠ 0) : IsQuotient a b (truncDiv a b) := by
  unfold IsQuotient
  rw [remainder_eq]
  constructor
  · rw [Int.natAbs_tmod]
    exact Nat.mod_lt _ (Int.natAbs_pos.2 hb)
  · by_cases hdvd : b ∣ a
    · exact .inl (Int.tmod_eq_zero_of_dvd hdvd)
    · right
      rw [Int.sign_tmod, if_neg hdvd]

namespace IsQuotient

variable {a b q q' : Int}

theorem remainder_nonneg (h : IsQuotient a b q) (ha : 0 ≤ a) : 0 ≤ a - b * q := by
  rcases h.2 with hzero | hsign
  · omega
  · rw [← Int.sign_nonneg_iff, hsign, Int.sign_nonneg_iff]
    exact ha

theorem remainder_nonpos (h : IsQuotient a b q) (ha : a ≤ 0) : a - b * q ≤ 0 := by
  rcases h.2 with hzero | hsign
  · omega
  · rw [← Int.sign_nonpos_iff, hsign, Int.sign_nonpos_iff]
    exact ha

/-- Two remainders lie on the same side of zero, so they differ by less than the divisor. -/
theorem natAbs_sub_lt (h : IsQuotient a b q) (h' : IsQuotient a b q') :
    ((a - b * q') - (a - b * q)).natAbs < b.natAbs := by
  have hsmall := h.1
  have hsmall' := h'.1
  rcases Int.le_total 0 a with ha | ha
  · have hside := h.remainder_nonneg ha
    have hside' := h'.remainder_nonneg ha
    omega
  · have hside := h.remainder_nonpos ha
    have hside' := h'.remainder_nonpos ha
    omega

theorem unique (h : IsQuotient a b q) (h' : IsQuotient a b q') : q = q' := by
  have hlt := h.natAbs_sub_lt h'
  have hproduct : (a - b * q') - (a - b * q) = b * (q - q') := by
    rw [Int.mul_sub]
    omega
  rw [hproduct, Int.natAbs_mul] at hlt
  -- a multiple of the divisor that is smaller than the divisor
  have hzero : (q - q').natAbs = 0 := by
    rcases Nat.eq_zero_or_pos (q - q').natAbs with hzero | hpos
    · exact hzero
    · exact absurd hlt (Nat.not_lt.2 (Nat.le_mul_of_pos_right _ hpos))
  omega

end IsQuotient

theorem isQuotient_iff {a b : Int} (hb : b ≠ 0) (q : Int) : IsQuotient a b q ↔ q = truncDiv a b := by
  constructor
  · intro h
    exact h.unique (isQuotient_truncDiv a hb)
  · rintro rfl
    exact isQuotient_truncDiv a hb

-- ════════════════════════════════════════════════════════════════════════
-- Bounds
-- ════════════════════════════════════════════════════════════════════════

/-- A remainder is no larger than the dividend. -/
theorem inBounds_remainder {a b : Int} (ha : inBounds a = true) (hb : b ≠ 0) :
    inBounds (a - b * truncDiv a b) = true := by
  have hquotient := isQuotient_truncDiv a hb
  have hle : (a - b * truncDiv a b).natAbs ≤ a.natAbs := by
    rw [remainder_eq, Int.natAbs_tmod]
    exact Nat.mod_le _ _
  rw [inBounds_iff] at ha ⊢
  unfold minInt maxInt at ha ⊢
  rcases Int.le_total 0 a with hside | hside
  · have hremainder := hquotient.remainder_nonneg hside
    omega
  · have hremainder := hquotient.remainder_nonpos hside
    omega

/-- A quotient by two or more is at most half the dividend. -/
theorem natAbs_truncDiv_le {b : Int} (hb : 2 ≤ b.natAbs) (a : Int) :
    (truncDiv a b).natAbs ≤ a.natAbs / 2 := by
  rw [truncDiv_eq, Int.natAbs_tdiv]
  exact Nat.div_le_div_left hb (by decide)

/-- The only quotient out of bounds is that of the least integer by minus one. -/
theorem inBounds_truncDiv_iff {a b : Int} (ha : inBounds a = true) (hb : b ≠ 0) :
    inBounds (truncDiv a b) = true ↔ ¬ (a = minInt ∧ b = -1) := by
  rw [inBounds_iff] at ha ⊢
  unfold minInt maxInt at ha ⊢
  by_cases hlarge : 2 ≤ b.natAbs
  · have hhalf := natAbs_truncDiv_le hlarge a
    constructor
    · intro _ hleast
      omega
    · intro _
      omega
  · obtain rfl | rfl : b = 1 ∨ b = -1 := by omega
    · rw [truncDiv_eq, Int.tdiv_one]
      constructor
      · intro _ hleast
        omega
      · intro _
        exact ha
    · have hneg : truncDiv a (-1) = -a := by rw [truncDiv_eq, Int.tdiv_neg, Int.tdiv_one]
      rw [hneg]
      omega

-- ════════════════════════════════════════════════════════════════════════
-- Operations
-- ════════════════════════════════════════════════════════════════════════

namespace Arith

theorem apply_of_compute {op : Arith} {a b n : Int} (h : op.compute a b = .ok n) :
    op.apply a b = if inBounds n then .ok (.int n) else .error (.overflow op.name) := by
  rw [apply, h]
  rfl

theorem apply_div {a : Int} (ha : inBounds a = true) (b : Int) :
    div.apply a b =
      if b = 0 then .error .divisionByZero
      else if a = minInt ∧ b = -1 then .error (.overflow div.name)
      else .ok (.int (truncDiv a b)) := by
  by_cases hb : b = 0
  · rw [if_pos hb, apply, compute, if_pos hb]
  have hcompute : div.compute a b = .ok (truncDiv a b) := by rw [compute, if_neg hb]
  rw [if_neg hb, apply_of_compute hcompute]
  by_cases hleast : a = minInt ∧ b = -1
  · rw [if_pos hleast, if_neg (mt (inBounds_truncDiv_iff ha hb).1 (not_not_intro hleast))]
  · rw [if_neg hleast, if_pos ((inBounds_truncDiv_iff ha hb).2 hleast)]

theorem apply_mod {a : Int} (ha : inBounds a = true) (b : Int) :
    mod.apply a b =
      if b = 0 then .error .moduloByZero else .ok (.int (a - b * truncDiv a b)) := by
  by_cases hb : b = 0
  · rw [if_pos hb, apply, compute, if_pos hb]
  · have hcompute : mod.compute a b = .ok (a - b * truncDiv a b) := by rw [compute, if_neg hb]
    rw [if_neg hb, apply_of_compute hcompute, if_pos (inBounds_remainder ha hb)]

end Arith

namespace Machine

/-- An outcome, with what a user is told of an error, if anything. -/
def Outcome.told {α : Type} : Outcome EvalError α → Outcome (Option Failure) α
  | .ok a m => .ok a m
  | .error error m => .error error.failure? m

/-- A call of an operation on two arguments, as a user is told of it. The name that an intrinsic is
bound to may differ from that of its operation. -/
def compute (m : Machine) (bound : Arith → String) (left right : Node) (op : Arith) :
    Outcome (Option Failure) Value :=
  (m.call (.intrinsic (bound op) (.arith op)) [left, right]).told

/-- A call that was refused, with the machine that it leaves. -/
def refused (m : Machine) (text : String) : Outcome (Option Failure) Value :=
  .error (some { kind := .runtime, text }) m

section Integers

variable {m between after : Machine} {left right : Node} {a b : Int}
  (hleft : m.evaluate left = .ok (.int a) between)
  (hright : between.evaluate right = .ok (.int b) after) (bound : Arith → String)

include hleft hright

/-- An operation on two arguments that are integers. They are evaluated from left to right, and
then nothing else happens to the machine. -/
theorem compute_eq (op : Arith) :
    m.compute bound left right op = Outcome.told (EvalM.ofExcept (op.apply a b) after) := by
  have hoperands : Form.operands FexprLisp.evaluate op.name [left, right] m =
      .ok (.int a, .int b) after := by
    rw [Form.operands, EvalM.bind_of_ok hleft, EvalM.bind_of_ok hright]
    rfl
  rw [compute, call, perform, callValue, Primitive.call, Form.arith, EvalM.bind_of_ok hoperands]

theorem compute_of_compute {op : Arith} {n : Int} (h : op.compute a b = .ok n) :
    m.compute bound left right op =
      if inBounds n then .ok (.int n) after
      else after.refused ("Integer overflow in " ++ op.name ++ ".") := by
  rw [compute_eq hleft hright, Arith.apply_of_compute h]
  split_ifs <;> rfl

theorem compute_div (ha : inBounds a = true) :
    m.compute bound left right .div =
      if b = 0 then after.refused "Division by zero."
      else if a = minInt ∧ b = -1 then after.refused "Integer overflow in /."
      else .ok (.int (truncDiv a b)) after := by
  rw [compute_eq hleft hright, Arith.apply_div ha]
  split_ifs <;> rfl

theorem compute_mod (ha : inBounds a = true) :
    m.compute bound left right .mod =
      if b = 0 then after.refused "Modulo by zero."
      else .ok (.int (a - b * truncDiv a b)) after := by
  rw [compute_eq hleft hright, Arith.apply_mod ha]
  split_ifs <;> rfl

/-- A quotient and a remainder make up the dividend. -/
theorem add_of_compute (ha : inBounds a = true) {q r : Int} {n n' : Machine}
    (hq : m.compute bound left right .div = .ok (.int q) n)
    (hr : m.compute bound left right .mod = .ok (.int r) n') : q * b + r = a := by
  rw [compute_div hleft hright bound ha] at hq
  rw [compute_mod hleft hright bound ha] at hr
  split_ifs at hq hr
  · cases hq
  · cases hq
  · cases hq
    cases hr
    rw [Int.mul_comm]
    omega

end Integers

end Machine

/-- What calls of the operations lead to. There is one quotient of integers of any size with a
remainder that is smaller than the divisor and has the sign of the dividend. A sum, a difference and
a product are exact or refused; a division is refused by zero and where the least integer is divided
by minus one; a remainder is refused by zero only. -/
theorem arithmetic_exact_or_refused :
    (∀ a b : Int, b ≠ 0 → ∀ q, IsQuotient a b q ↔ q = truncDiv a b) ∧
    ∀ (m between after : Machine) (left right : Node) (a b : Int) (bound : Arith → String),
      m.evaluate left = .ok (.int a) between → between.evaluate right = .ok (.int b) after →
      inBounds a = true → inBounds b = true →
      let told := m.compute bound left right
      (∀ op n, (op, n) ∈ [(.add, a + b), (.sub, a - b), (.mul, a * b)] →
        told op = if inBounds n then .ok (.int n) after
          else after.refused ("Integer overflow in " ++ op.name ++ ".")) ∧
      told .div = (if b = 0 then after.refused "Division by zero."
        else if a = minInt ∧ b = -1 then after.refused "Integer overflow in /."
        else .ok (.int (truncDiv a b)) after) ∧
      told .mod = (if b = 0 then after.refused "Modulo by zero."
        else .ok (.int (a - b * truncDiv a b)) after) ∧
      ∀ q r n n', told .div = .ok (.int q) n → told .mod = .ok (.int r) n' → q * b + r = a := by
  refine ⟨fun a b hb q => isQuotient_iff hb q, ?_⟩
  intro m between after left right a b bound hleft hright ha _ told
  refine ⟨?_, Machine.compute_div hleft hright bound ha, Machine.compute_mod hleft hright bound ha, ?_⟩
  · intro op n hop
    have hcompute : op.compute a b = .ok n := by
      simp only [List.mem_cons, Prod.mk.injEq, List.not_mem_nil, or_false] at hop
      obtain ⟨rfl, rfl⟩ | ⟨rfl, rfl⟩ | ⟨rfl, rfl⟩ := hop <;> rfl
    exact Machine.compute_of_compute hleft hright bound hcompute
  · intro q r n n' hq hr
    exact Machine.add_of_compute hleft hright bound ha hq hr

/-- The least integer by minus one, both looked up: its product and its quotient are refused, and
there is nothing left over. -/
theorem arithmetic_exact_or_refused_least :
    let base : Frame Value := ⟨[("least", .int minInt), ("less", .int (-1))]⟩
    let m : Machine := { scopes := ⟨[base]⟩, limit := 1 }
    let told := m.compute Arith.name (.ident "least") (.ident "less")
    IsQuotient minInt (-1) 2147483648 ∧
    told .add = m.refused "Integer overflow in +." ∧
    told .sub = .ok (.int (-2147483647)) m ∧
    told .mul = m.refused "Integer overflow in *." ∧
    told .div = m.refused "Integer overflow in /." ∧
    told .mod = .ok (.int 0) m := by
  intro base m told
  obtain ⟨hquotient, hcalls⟩ := arithmetic_exact_or_refused
  obtain ⟨hexact, hdiv, hmod, -⟩ := hcalls m m m (.ident "least") (.ident "less") minInt (-1)
    Arith.name rfl rfl (by decide) (by decide)
  refine ⟨(hquotient minInt (-1) (by decide) _).2 rfl, ?_, ?_, ?_, hdiv, hmod⟩
  · exact (hexact .add (minInt + -1) (by decide)).trans (if_neg (by decide))
  · exact (hexact .sub (minInt - -1) (by decide)).trans (if_pos (by decide))
  · exact (hexact .mul (minInt * -1) (by decide)).trans (if_neg (by decide))

end FexprLisp
