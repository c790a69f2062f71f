import EltexCourse.Foundations.Looping
import EltexCourse.Foundations.Streams
import EltexCourse.Source.SimpleBash.ParseCommand

/-!
# task10/simple_bash: the loop of `main`

`main` does not look at what `fgets` returns: at the end of the input it goes on
with what `input` holds. `fork` succeeds and every child terminates. On a file
`tcsetpgrp` fails, and the child calls `exit` with its copy of `stdin`; what a child
does on a terminal or a pipe leaves the stream of the shell as it is, unless it reads
from it itself, which is not modelled. A command counts as run when a child is forked
for it, whether or not it gets as far as `execvp`.
-/

set_option autoImplicit false

namespace EltexCourse.Source.SimpleBash
open Foundations.CString Foundations.CBuffer Foundations.Looping Foundations.Streams

/-- `sizeof(input)`, main.c:55. -/
def inputSize : Nat := 100

def exitText : Text := ['e', 'x', 'i', 't', '\n']

/-- Where the text in `input` was read: how many characters and how many
newlines of the input come before it. Nothing looks at it. -/
structure Origin where
  place : Nat
  line : Nat
  deriving DecidableEq, Repr

def Origin.of (text : Text) (place : Nat) : Origin := ⟨place, (text.take place).count '\n'⟩

structure Ran where
  /-- `none` for what was in `input` before anything was read. -/
  origin : Option Origin
  args : List Text
  deriving DecidableEq, Repr

structure Shell (device : Device) where
  stdin : Reader device
  input : Text
  origin : Option Origin
  ran : List Ran
  deriving DecidableEq, Repr

variable {device : Device}

/-- `fgets(input, sizeof(input), stdin);`, main.c:58. -/
def Shell.read (s : Shell device) : Option (Shell device) := do
  match ← s.stdin.fgets s.input inputSize with
  | (none, stdin) => some { s with stdin }
  | (some input, stdin) =>
    some { s with stdin, input, origin := some (.of device.text s.stdin.fill.place) }

/-- One pass of `while(1)`, main.c:57-79. The child that is forked for it ends in
main.c:14 or main.c:20 where the input is a file. -/
def turn (s : Shell device) : Option (Turn (Shell device) (List Ran)) := do
  let s ← s.read
  let text ← stringAt s.input 0
  if text = exitText then some (.stop s.ran)
  else do
    let parsed ← parseCommand s.input
    let args ← argv parsed.1 parsed.2
    some (.next { s with
      stdin := s.stdin.giveBack, input := parsed.1, ran := s.ran ++ [⟨s.origin, args⟩] })

/-- `junk` is what `input` holds before it is first written. -/
def start (junk : Text) (device : Device) : Shell device := ⟨.start device, junk, none, []⟩

end EltexCourse.Source.SimpleBash
