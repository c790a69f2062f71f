import EltexCourse.Foundations.Cells
import EltexCourse.Foundations.Decimal

/-!
# task10/simple_bash: `parse_command`

`strtok` is `strtok_r` with a cursor of its own. A token is the place in the
input where it starts; an array slot is unwritten, NULL or a token. Allocations
succeed. A loop that has used up its fuel has no defined result.
-/

set_option autoImplicit false

namespace EltexCourse.Source.SimpleBash
open Foundations.CString Foundations.CBuffer Foundations.Cells Foundations.Decimal

/-- `" \t\r\n\a"`, main.c:34. -/
def delims : Text := [' ', '\t', '\r', '\n', '\x07']

/-- `tokens`, `position` and `buffer_size`, main.c:24-26. -/
structure Tokens where
  slots : Block (Option Nat)
  position : Nat
  bufferSize : Int
  deriving DecidableEq, Repr

/-- The store of one token, and the growth of the array behind it, main.c:36-46. -/
def Tokens.push (tokens : Tokens) (token : Nat) : Option Tokens := do
  let slots ← write tokens.slots tokens.position (some token)
  let position := tokens.position + 1
  if tokens.bufferSize ≤ position then do
    let bufferSize ← int (tokens.bufferSize * 2)
    some { slots := realloc slots bufferSize.toNat, position, bufferSize }
  else some { tokens with slots, position }

/-- `while (token != NULL)`, main.c:35-49. -/
def parseLoop : Nat → Text → Option Nat → Nat → Tokens → Option (Text × Tokens)
  | 0, _, _, _, _ => none
  | _ + 1, input, none, _, tokens => some (input, tokens)
  | fuel + 1, input, some token, save, tokens => do
    let tokens ← tokens.push token
    let next ← strtokR delims input save
    parseLoop fuel next.2.1 next.1 next.2.2 tokens

/-- The input as `strtok` leaves it, and the array, main.c:23-52. -/
def parseCommand (input : Text) : Option (Text × Block (Option Nat)) := do
  let first ← strtokR delims input 0
  let parsed ← parseLoop (input.length + 1) first.2.1 first.1 first.2.2
    { slots := malloc 64, position := 0, bufferSize := 64 }
  let slots ← write parsed.2.slots parsed.2.position none
  some (parsed.1, slots)

/-- What `execvp` is given: the strings in front of the NULL. -/
def argv (input : Text) : Block (Option Nat) → Option (List Text)
  | [] | none :: _ => none
  | some none :: _ => some []
  | some (some token) :: slots => do
    let arg ← stringAt input token
    let args ← argv input slots
    some (arg :: args)

end EltexCourse.Source.SimpleBash
