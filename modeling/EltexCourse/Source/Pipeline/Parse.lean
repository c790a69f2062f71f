import EltexCourse.Foundations.CBuffer

/-!
# task12/pipeline_bash: `parse`

The line and the two kinds of arrays are blocks; `malloc`, `realloc` and
`strdup` succeed. A slot of an array is `none` until it is written; what
`strdup` returns is the string itself. A loop that has used up its fuel has no
defined result.
-/

set_option autoImplicit false

namespace EltexCourse.Source.Pipeline
open Foundations.CString Foundations.CBuffer

/-- `MAX_ARGS`, main.c:11. -/
def maxArgs : Nat := 16

/-- An array of strings: each slot unwritten, NULL or a string. -/
abbrev Args := List (Option (Option Text))

/-- main.c:13-16. -/
structure Command where
  path : Text
  args : Args
  deriving DecidableEq, Repr

def malloc {α : Type*} (n : Nat) : List (Option α) := List.replicate n none

def realloc {α : Type*} (block : List (Option α)) (n : Nat) : List (Option α) :=
  block.take n ++ List.replicate (n - block.length) none

/-- main.c:92. `while (end > com && *end == ' ') end--`, on `end + 1`: `end` lies in
front of `com` when that is empty. -/
def trimEnd (block : Text) (com : Nat) : Nat → Option Nat
  | 0 => some 0
  | last + 1 =>
    if com < last then do
      let c ← block[last]?
      if c = ' ' then trimEnd block com last else some (last + 1)
    else some (last + 1)

/-- main.c:90-93. A segment is trimmed where it stands; the result is the new `com`. -/
def trim (block : Text) (com : Nat) : Option (Nat × Text) := do
  let com ← skip (· = ' ') block com
  let length ← strlen block com
  let stop ← trimEnd block com (com + length)
  let block ← store block stop nul
  some (com, block)

/-- The inner `while (arg != NULL)`, main.c:109-118. -/
def argsLoop : Nat → Text → Option Nat → Nat → Nat → Args → Option (Nat × Args × Text)
  | 0, _, _, _, _, _ => none
  | _ + 1, block, none, _, argCount, args => some (argCount, args, block)
  | fuel + 1, block, some arg, save, argCount, args => do
    let word ← stringAt block arg
    let args ← store args argCount (some (some word))
    if maxArgs - 1 ≤ argCount + 1 then some (argCount + 1, args, block)
    else do
      let next ← strtokR [' '] block save
      argsLoop fuel next.2.1 next.1 next.2.2 (argCount + 1) args

/-- The arguments of the segment at `com`, with the NULL behind them, main.c:100-119. -/
def readArgs (block : Text) (com : Nat) : Option (Args × Text) := do
  let first ← strtokR [' '] block com
  let read ← argsLoop block.length first.2.1 first.1 first.2.2 0 (malloc maxArgs)
  let args ← store read.2.1 read.1 (some none)
  some (args, read.2.2)

structure Parsed where
  commands : List (Option Command)
  commandsSize : Nat
  /-- `*count`. -/
  count : Nat
  deriving DecidableEq, Repr

/-- main.c:121-137. `strdup` of a slot that holds no string has no defined result. -/
def addCommand (parsed : Parsed) (args : Args) : Option Parsed :=
  match args[0]? with
  | some (some (some path)) => do
    let commands ← store parsed.commands parsed.count (some ⟨path, args⟩)
    if parsed.commandsSize ≤ parsed.count + 1 then
      some ⟨realloc commands (parsed.count + 2), parsed.commandsSize + 1, parsed.count + 1⟩
    else some ⟨commands, parsed.commandsSize, parsed.count + 1⟩
  | _ => none

/-- The outer `while (com != NULL)`, main.c:89-140. -/
def parseLoop : Nat → Text → Option Nat → Nat → Parsed → Option Parsed
  | 0, _, _, _, _ => none
  | _ + 1, _, none, _, parsed => some parsed
  | fuel + 1, block, some com, save, parsed => do
    let trimmed ← trim block com
    let length ← strlen trimmed.2 trimmed.1
    if length = 0 then do
      let next ← strtokR ['|'] trimmed.2 save
      parseLoop fuel next.2.1 next.1 next.2.2 parsed
    else do
      let read ← readArgs trimmed.2 trimmed.1
      let parsed ← addCommand parsed read.1
      let next ← strtokR ['|'] read.2 save
      parseLoop fuel next.2.1 next.1 next.2.2 parsed

/-- main.c:75-143. -/
def parse (block : Text) : Option Parsed := do
  let stop ← skip (fun c => c ≠ '\n' ∧ c ≠ nul) block 0
  let block ← store block stop nul
  let first ← strtokR ['|'] block 0
  parseLoop block.length first.2.1 first.1 first.2.2 ⟨malloc 1, 1, 0⟩

end EltexCourse.Source.Pipeline
