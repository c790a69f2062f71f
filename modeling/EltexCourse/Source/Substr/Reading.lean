import EltexCourse.Foundations.Cells

/-!
# task3: the reading loops of `main`

substr.c. What is typed is the list of its characters, the newlines included;
`scanf` on what has come to its end has no defined result. Allocations succeed.
-/

set_option autoImplicit false

namespace EltexCourse.Source.Substr
open Foundations.CString Foundations.CBuffer Foundations.Cells

/-- `str`, `str_size` and `i`, or `sstr`, `sstr_size` and `i`. -/
structure Growing where
  str : Block Char
  strSize : Nat
  i : Nat
  deriving DecidableEq

/-- substr.c:22-24. -/
def fresh : Growing := { str := malloc 10, strSize := 10, i := 0 }

/-- substr.c:33-38. A turn in which no newline was read. `realloc` leaves `str_size` as
it is. -/
def Growing.put (s : Growing) (c : Char) : Option Growing := do
  let str := if s.i + 1 = s.strSize then realloc s.str (s.strSize * 2) else s.str
  let str ← write str s.i c
  let str ← write str (s.i + 1 : Nat) nul
  some { s with str, i := s.i + 1 }

/-- `while(1)`, and what is left of the input behind the newline, substr.c:26-39 and
44-57. -/
def readLoop : Text → Growing → Option (Growing × Text)
  | [], _ => none
  | c :: input, s =>
    if c = '\n' then some ({ s with strSize := s.i }, input)
    else do
      let s ← s.put c
      readLoop input s

/-- The text and the pattern, substr.c:22-57. -/
def readLines (input : Text) : Option (Growing × Growing) := do
  let text ← readLoop input fresh
  let pattern ← readLoop text.2 fresh
  some (text.1, pattern.1)

end EltexCourse.Source.Substr
