/-!
# Room on the host's stack

An evaluation uses several frames of the stack of the host that runs it. A machine asks the host for
enough of them before it starts, and a host counts them in a signed 32-bit number.

## Main definitions

- `HostStack.needed` — how many frames evaluations up to a limit need
- `HostStack.supports` — whether a host can allow for as many
- `HostStack.Refusal` — why a host cannot allow for a number of frames
- `HostStack.allowance` — how many frames a host allows for once it has been asked
-/

namespace FexprLisp.HostStack

/-- The most frames that a host can allow for. -/
def capacity : Int := 2147483647

/-- How many frames evaluations up to a limit need: eight for each, and some room around them. -/
def needed (limit : Int) : Int :=
  limit * 8 + 500

/-- Whether a host can allow for evaluations up to a limit. -/
def supports (limit : Int) : Bool :=
  needed limit ≤ capacity

/-- Why a host cannot allow for a number of frames. -/
inductive Refusal where
  /-- It must allow for one frame at least. -/
  | tooFew
  /-- It cannot allow for more than its capacity. -/
  | tooMany
deriving DecidableEq, Repr

/-- How many frames a host allows for once evaluations up to a limit have been asked for. What it
allowed for before is never reduced. -/
def allowance (allowed limit : Int) : Except Refusal Int :=
  let frames := max allowed (needed limit)
  if allowed < 1 then .error .tooFew
  else if capacity < frames then .error .tooMany
  else .ok frames

end FexprLisp.HostStack
