import FexprLisp.Bounds
import FexprLisp.Eval.Error

/-!
# Arithmetic

Integer arithmetic is exact or refused: a result that is no integer of the language is an overflow.

## Main definitions

- `truncDiv` — the quotient of two numbers
- `Arith.compute` — the exact result of an operation
- `checked` — a result as a value, if it is in bounds

## Main statements

- `truncDiv_eq` — the quotient of the absolute values, with its sign, is the one rounded toward zero
-/

namespace FexprLisp

/-- The quotient of the absolute values, negative when exactly one of the numbers is. -/
def truncDiv (a b : Int) : Int :=
  let q : Int := (a.natAbs / b.natAbs : Nat)
  if a < 0 ↔ b < 0 then q else -q

/-- The quotient by a number other than zero. -/
def truncDiv? (a b : Int) : Option Int :=
  if b = 0 then none else some (truncDiv a b)

/-- The exact result of an operation. -/
def Arith.compute (a b : Int) : Arith → Except EvalError Int
  | add => .ok (a + b)
  | sub => .ok (a - b)
  | mul => .ok (a * b)
  | div => if b = 0 then .error .divisionByZero else .ok (truncDiv a b)
  | mod => if b = 0 then .error .moduloByZero else .ok (a - b * truncDiv a b)

/-- The result of an operation as a value, if it is in bounds. -/
def checked (operation : String) (n : Int) : Except EvalError Value :=
  if inBounds n then .ok (.int n) else .error (.overflow operation)

/-- What an operation makes of two integers. -/
def Arith.apply (op : Arith) (a b : Int) : Except EvalError Value :=
  match op.compute a b with
  | .ok n => checked op.name n
  | .error error => .error error

/-- The quotient is rounded toward zero. -/
theorem truncDiv_eq (a b : Int) : truncDiv a b = a.tdiv b := by
  unfold truncDiv
  rcases Int.lt_or_le a 0 with ha | ha <;> rcases Int.lt_or_le b 0 with hb | hb
  · rw [if_pos (by omega), Int.natCast_ediv, ← Int.neg_tdiv_neg,
      Int.tdiv_eq_ediv_of_nonneg (by omega), Int.ofNat_natAbs_of_nonpos (by omega),
      Int.ofNat_natAbs_of_nonpos (by omega)]
  · rw [if_neg (by omega), Int.natCast_ediv, Int.ofNat_natAbs_of_nonpos (by omega),
      Int.natAbs_of_nonneg hb, ← Int.tdiv_eq_ediv_of_nonneg (by omega), Int.neg_tdiv, Int.neg_neg]
  · rw [if_neg (by omega), Int.natCast_ediv, Int.natAbs_of_nonneg ha,
      Int.ofNat_natAbs_of_nonpos (by omega), ← Int.tdiv_eq_ediv_of_nonneg ha, Int.tdiv_neg,
      Int.neg_neg]
  · rw [if_pos (by omega), Int.natCast_ediv, Int.natAbs_of_nonneg ha, Int.natAbs_of_nonneg hb,
      Int.tdiv_eq_ediv_of_nonneg ha]

end FexprLisp
