import EltexCourse.Foundations.Cells
import EltexCourse.Foundations.Decimal
import EltexCourse.Foundations.Transition

/-!
# task9/fake_mc: the path of a panel

path.c, and the buffer for the name of an entry in `print_dirs` and `open_dir`
of my_funcs.c. Allocations succeed; what the blocks hold that `malloc`,
`realloc` and `realpath` return is given. A call whose `realpath` fails has no
defined result.
-/

set_option autoImplicit false

namespace EltexCourse.Source.FakeMc
open Foundations.CString Foundations.CBuffer Foundations.Cells Foundations.Decimal
  Foundations.Transition

/-- `struct PATH`, path.h:3-7. -/
structure PATH where
  path : Block Char
  size : Int
  capacity : Int
  deriving DecidableEq, Repr

/-- An `int` as a `size_t`. -/
def asSize (n : Int) : Nat := (n % 2 ^ 64).toNat

/-- path.c:6-15. `block` is what `malloc(path->capacity)` returns. -/
def pathInit (start : Text) (block : Block Char) : Option PATH := do
  let size := asInt start.length
  let capacity ← int (size + 100)
  let path ← strcpy block start
  some { path, size, capacity }

/-- `sizeof(new_part)`, which is that of a pointer. -/
def pointerSize : Nat := 8

/-- The first `if`, with what lies behind the old block in the new one, path.c:18-23. -/
def PATH.grow (p : PATH) (fresh : Block Char) : Option PATH :=
  if asSize p.capacity ≤ (asSize p.size + pointerSize) % 2 ^ 64 then do
    let bytes ← int (p.capacity + 100)
    some { p with path := p.path.take (asSize bytes) ++ fresh }
  else some p

/-- `if(path->path[path->size-1] != '/') strcat(path->path, "/");`, path.c:24-25. -/
def PATH.separate (p : PATH) : Option (Block Char) := do
  let last ← int (p.size - 1)
  let c ← read p.path last
  if c = '/' then some p.path else strcat p.path ['/']

/-- A call of `path_add`, with what `realloc` adds to the block and what lies
behind the string that `realpath` returns. -/
structure AddCall where
  newPart : Text
  fresh : Block Char
  spare : Block Char
  deriving DecidableEq, Repr

def parent : Text := ['.', '.']

/-- The last `if`, path.c:27-31. -/
def resolveParent (realpath : Text → Option Text) (call : AddCall) (path : Block Char) :
    Option (Block Char) :=
  if call.newPart = parent then do
    let text ← stringIn path
    let newPath ← realpath text
    some (newPath.map some ++ some nul :: call.spare)
  else some path

/-- path.c:17-34. -/
def pathAdd (realpath : Text → Option Text) (p : PATH) (call : AddCall) : Option PATH := do
  let p ← p.grow call.fresh
  let path ← p.separate
  let path ← strcat path call.newPart
  let path ← resolveParent realpath call path
  let text ← stringIn path
  some { p with path, size := asInt (p.size + text.length) }

/-- The path texts that the calls lead to. -/
def pathCalls (realpath : Text → Option Text) : System PATH AddCall Text where
  step := pathAdd realpath
  emit p call := ((pathAdd realpath p call).bind fun p => stringIn p.path).toList

/-- my_funcs.c:18 and 60. `malloc(path->size + 30)`: no object has a negative size as a
`size_t`. -/
def mallocFilename (p : PATH) : Option (Block Char) := do
  let bytes ← int (p.size + 30)
  if 0 ≤ bytes then some (malloc bytes.toNat) else none

/-- `strcpy(filename, path->path); strcat(filename, "/"); strcat(filename, d_name);`,
my_funcs.c:21-22 and 61-62. -/
def fillFilename (p : PATH) (filename : Block Char) (name : Text) : Option (Block Char) := do
  let text ← stringIn p.path
  let filename ← strcpy filename text
  let filename ← strcat filename ['/']
  strcat filename name

/-- `open_dir` up to the call of `stat`, my_funcs.c:60-62. -/
def openDirFilename (p : PATH) (name : Text) : Option (Block Char) := do
  let filename ← mallocFilename p
  fillFilename p filename name

/-- The loop of `print_dirs` over the entries shown, one buffer for all,
my_funcs.c:18-39. -/
def printDirsFilenames (p : PATH) (names : List Text) : Option (Block Char) := do
  let filename ← mallocFilename p
  names.foldlM (fillFilename p) filename

end EltexCourse.Source.FakeMc
