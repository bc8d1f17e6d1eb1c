/-!
# Numerals in settings

A setting may hold a whole number. Blanks around it are dropped; then come an optional sign and
decimal digits of any script, with single underscores allowed between two digits. A numeral of
more than `digitLimit` digits is refused.

## Main definitions

- `Text.isBlank`, `Text.trimBlanks` — blanks and their removal at both ends
- `Text.digitValue?` — the value of a decimal digit of any script
- `Text.readInteger?` — the number that a text stands for
-/

namespace FexprLisp.Text

/-- The most digits that a numeral may have. -/
def digitLimit : Nat := 4300

/-- Blanks: the white space of every script, and the four information separators. -/
def isBlank (c : Char) : Bool :=
  let n := c.toNat
  (0x9 ≤ n && n ≤ 0xd) || (0x1c ≤ n && n ≤ 0x20) || n == 0x85 || n == 0xa0 || n == 0x1680 ||
    (0x2000 ≤ n && n ≤ 0x200a) || n == 0x2028 || n == 0x2029 || n == 0x202f || n == 0x205f ||
    n == 0x3000

/-- The text without the blanks at its two ends. -/
def trimBlanks (text : List Char) : List Char :=
  ((text.dropWhile isBlank).reverse.dropWhile isBlank).reverse

/-- The zeros of the decimal digit blocks. In each block the other nine digits follow in order. -/
def digitZeros : List Nat :=
  [
    0x30, 0x660, 0x6f0, 0x7c0, 0x966, 0x9e6, 0xa66, 0xae6, 0xb66, 0xbe6, 0xc66, 0xce6, 0xd66, 0xde6,
    0xe50, 0xed0, 0xf20, 0x1040, 0x1090, 0x17e0, 0x1810, 0x1946, 0x19d0, 0x1a80, 0x1a90, 0x1b50,
    0x1bb0, 0x1c40, 0x1c50, 0xa620, 0xa8d0, 0xa900, 0xa9d0, 0xa9f0, 0xaa50, 0xabf0, 0xff10, 0x104a0,
    0x10d30, 0x11066, 0x110f0, 0x11136, 0x111d0, 0x112f0, 0x11450, 0x114d0, 0x11650, 0x116c0,
    0x11730, 0x118e0, 0x11950, 0x11c50, 0x11d50, 0x11da0, 0x16a60, 0x16ac0, 0x16b50, 0x1d7ce,
    0x1d7d8, 0x1d7e2, 0x1d7ec, 0x1d7f6, 0x1e140, 0x1e2f0, 0x1e950, 0x1fbf0
  ]

/-- The value of a decimal digit of any script. -/
def digitValue? (c : Char) : Option Nat :=
  (digitZeros.find? fun first => first ≤ c.toNat && c.toNat < first + 10).map (c.toNat - ·)

/-- The values of the digits of a numeral; an underscore may stand between two digits. -/
def digitValues? : List Char → Option (List Nat)
  | [] => none
  | [c] => (digitValue? c).map ([·])
  | c :: '_' :: rest =>
    match digitValue? c, digitValues? rest with
    | some d, some ds => some (d :: ds)
    | _, _ => none
  | c :: rest =>
    match digitValue? c, digitValues? rest with
    | some d, some ds => some (d :: ds)
    | _, _ => none

/-- The number that a row of decimal digits stands for, most significant digit first. -/
def ofDigitValues (digits : List Nat) : Nat :=
  digits.foldl (fun total digit => 10 * total + digit) 0

/-- The number that unsigned digits stand for, if there are not too many of them. -/
def readNatural? (text : List Char) : Option Nat :=
  match digitValues? text with
  | none => none
  | some digits => if digits.length ≤ digitLimit then some (ofDigitValues digits) else none

/-- The whole number that a text stands for, blanks around it aside. -/
def readInteger? (text : List Char) : Option Int :=
  match trimBlanks text with
  | '+' :: digits => (readNatural? digits).map Int.ofNat
  | '-' :: digits => (readNatural? digits).map fun n => -Int.ofNat n
  | digits => (readNatural? digits).map Int.ofNat

end FexprLisp.Text
