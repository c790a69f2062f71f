import EltexCourse.Foundations.CBuffer
import EltexCourse.Foundations.Decimal
import EltexCourse.Source.Drivers.Manager

/-!
# task_drivers: one pass of the command loop

How `main` takes a line apart. `buff` is a block of `BUFF_SIZE` bytes that is
all NUL before `fgets` writes to it. A NULL token that reaches `strcmp` or
`atoi`, and an access outside `buff`, is a fault; `perform` does the rest.
-/

set_option autoImplicit false

namespace EltexCourse.Source.Drivers
open Foundations.CString Foundations.CBuffer Foundations.Decimal

/-- `BUFF_SIZE`, main.c:11. -/
def buffSize : Nat := 30

/-- What `fgets(buff, BUFF_SIZE, stdin)` can return, main.c:48. -/
structure Line where
  bytes : Text
  nonempty : bytes ≠ []
  fits : bytes.length < buffSize
  oneLine : '\n' ∉ bytes.dropLast

def inBounds {α : Type} : Option α → Except Fault α
  | some a => .ok a
  | none => .error .outOfBounds

def nonNull : Option Text → Except Fault Text
  | some token => .ok token
  | none => .error .nullToken

/-- `strtok` from place `s`: the token, the block, and where the next call with
NULL goes on. -/
def strtokAt (delims block : Text) (s : Nat) : Except Fault (Option Text × Text × Nat) := do
  let (start, block, save) ← inBounds (strtokR delims block s)
  match start with
  | none => .ok (none, block, save)
  | some start => do
    let token ← inBounds (stringAt block start)
    .ok (some token, block, save)

def createDriverText : Text := ['c', 'r', 'e', 'a', 't', 'e', '_', 'd', 'r', 'i', 'v', 'e', 'r']
def quitText : Text := ['q', 'u', 'i', 't']
def getDriversText : Text := ['g', 'e', 't', '_', 'd', 'r', 'i', 'v', 'e', 'r', 's']
def sendTaskText : Text := ['s', 'e', 'n', 'd', '_', 't', 'a', 's', 'k']
def getStatusText : Text := ['g', 'e', 't', '_', 's', 't', 'a', 't', 'u', 's']

/-- `memset`, `fgets` and `buff[strlen(buff)+1] = '\0'`, main.c:47-49. -/
def readLine (line : Line) : Except Fault Text := do
  let buff ← inBounds (writeString (List.replicate buffSize nul) line.bytes)
  let length ← inBounds (strlen buff 0)
  inBounds (store buff (length + 1) nul)

/-- The second tokenising, by spaces, main.c:109-120. -/
def readWords (buff : Text) : Except Fault Command := do
  let (token, buff, save) ← strtokAt [' '] buff 0
  let token ← nonNull token
  if token = sendTaskText then do
    let (pid, buff, save) ← strtokAt [' '] buff save
    let pid ← nonNull pid
    let (time, _, _) ← strtokAt [' '] buff save
    let time ← nonNull time
    .ok (.sendTask (atoi pid) (atoi time))
  else if token = getStatusText then do
    let (pid, _, _) ← strtokAt [' '] buff save
    let pid ← nonNull pid
    .ok (.getStatus (atoi pid))
  else .ok .unknown

/-- main.c:50-120. -/
def readCommand (line : Line) : Except Fault Command := do
  let buff ← readLine line
  let (token, buff, _) ← strtokAt ['\n'] buff 0
  let token ← nonNull token
  if token = createDriverText then .ok .createDriver
  else if token = quitText then .ok .quit
  else if token = getDriversText then .ok .getDrivers
  else readWords buff

/-- One pass: the line is read and the command carried out, main.c:46-137. -/
def mainPass (drv : Drv) (line : Line) (forked stat : Int) : Except Fault Outcome := do
  let command ← readCommand line
  perform drv forked stat command

end EltexCourse.Source.Drivers
