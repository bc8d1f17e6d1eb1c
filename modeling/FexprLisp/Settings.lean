import FexprLisp.Text.Numeral

/-!
# Settings

How deep evaluations may nest and how much is logged, as the environment says it. A setting that
is missing or makes no sense takes its usual value.

## Main definitions

- `positiveSetting` — a positive number from the environment
- `LogLevel` — the levels of severity
- `Settings` — all settings
-/

namespace FexprLisp

/-- A positive whole number from the environment, or the usual value. -/
def positiveSetting (raw : Option String) (usual : Int) : Int :=
  match raw.bind fun text => Text.readInteger? text.toList with
  | some value => if 0 < value then value else usual
  | none => usual

/-- The levels of severity. -/
inductive LogLevel where
  | critical
  | error
  | warning
  | info
  | debug
  | all
deriving DecidableEq, Repr

namespace LogLevel

/-- The rank of a level; what is logged has at least the rank of the level that is set. -/
def rank : LogLevel → Nat
  | critical => 50
  | error => 40
  | warning => 30
  | info => 20
  | debug => 10
  | all => 0

/-- Whether entries of the lowest severity are logged. -/
def showsDebug (level : LogLevel) : Bool :=
  level.rank ≤ debug.rank

/-- The level of a name in capitals. -/
def ofName? : String → Option LogLevel
  | "CRITICAL" | "FATAL" => some critical
  | "ERROR" => some error
  | "WARNING" | "WARN" => some warning
  | "INFO" => some info
  | "DEBUG" => some debug
  | "NOTSET" => some all
  | _ => none

/-- A character in capitals, for the characters whose capitals are letters from A to Z. Any other
character stays as it is: it stands in no name of a level, and neither do its capitals. -/
def capitals (c : Char) : List Char :=
  match c with
  | 'ı' => ['I']
  | 'ſ' => ['S']
  | 'ß' => ['S', 'S']
  | 'ﬀ' => ['F', 'F']
  | 'ﬁ' => ['F', 'I']
  | 'ﬂ' => ['F', 'L']
  | 'ﬃ' => ['F', 'F', 'I']
  | 'ﬄ' => ['F', 'F', 'L']
  | 'ﬅ' | 'ﬆ' => ['S', 'T']
  | c => [c.toUpper]

/-- The level that the environment asks for. Blanks and the case of letters do not matter. -/
def ofSetting (raw : Option String) : LogLevel :=
  match raw with
  | none => warning
  | some text =>
    (ofName? (String.ofList ((Text.trimBlanks text.toList).flatMap capitals))).getD warning

end LogLevel

/-- The settings of a session. -/
structure Settings where
  /-- How many evaluations may be open at once. -/
  limit : Int
  level : LogLevel
deriving DecidableEq, Repr

namespace Settings

/-- How many evaluations may usually be open at once. -/
def usualLimit : Int := 1000

/-- The variable of the environment that sets the limit. -/
def limitVariable : String := "FEXL_MAX_DEPTH"

/-- The variable of the environment that sets the level. -/
def levelVariable : String := "FEXL_LOG_LEVEL"

/-- Whether a text can be the value of a variable of the environment: none holds a NUL. -/
def isVariableText (text : String) : Bool :=
  !text.toList.contains '\x00'

/-- The settings by the two variables of the environment. -/
def ofVariables (limit level : Option String) : Settings where
  limit := positiveSetting limit usualLimit
  level := .ofSetting level

end Settings

end FexprLisp
