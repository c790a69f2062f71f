import EltexCourse.Foundations.Streams
import EltexCourse.Source.Pipeline.Parse

/-!
# task12/pipeline_bash: the loop of `main`

`line` is a block of `MAX_COMMAND_SIZE` bytes. What it holds before a read is
given for each turn: `parse` leaves its own marks in it. The commands run are
the first `count` ones of what `parse` returns. A child whose `execvp` fails calls
`exit` with its copy of `stdin`; only the first one of a line has the shell's input,
the others a pipe. What a child reads of the same input once it has been executed,
and what it prints, is not modelled.
-/

set_option autoImplicit false

namespace EltexCourse.Source.Pipeline
open Foundations.CString Foundations.CBuffer Foundations.Streams

/-- `MAX_COMMAND_SIZE`, main.c:10. -/
def maxCommandSize : Nat := 60

def exitText : Text := ['e', 'x', 'i', 't']

/-- A command list that is run, and the number of newlines read before it, which
nothing looks at. -/
structure Ran where
  line : Nat
  commands : List (Option Command)
  deriving DecidableEq, Repr

/-- The commands `main` looks at. -/
def Parsed.list (parsed : Parsed) : List (Option Command) := parsed.commands.take parsed.count

variable {device : Device}

/-- main.c:46-47 and 184-199, for the child that has the input of the shell. `fails`
says which commands cannot be executed. -/
def afterChildren (fails : Option Command → Bool) (commands : List (Option Command))
    (stdin : Reader device) : Reader device :=
  if commands.head?.any fails then stdin.giveBack else stdin

/-- main.c:25-69. -/
def mainLoop (fails : Option Command → Bool) (block : Nat → Text) :
    Nat → Nat → Nat → Reader device → Option (List Ran)
  | 0, _, _, _ => none
  | fuel + 1, turn, number, stdin => do
    match ← stdin.fgets (block turn) maxCommandSize with
    | (none, _) => some []
    | (some line, stdin) =>
      let text ← stringAt line 0
      if text = exitText ++ ['\n'] then some []
      else do
        let parsed ← parse line
        let later ← mainLoop fails block fuel (turn + 1) (number + text.count '\n')
          (afterChildren fails parsed.list stdin)
        some (⟨number, parsed.list⟩ :: later)

def shell (fails : Option Command → Bool) (device : Device) (block : Nat → Text) (fuel : Nat) :
    Option (List Ran) :=
  mainLoop fails block fuel 0 0 (Reader.start device)

end EltexCourse.Source.Pipeline
