import EltexCourse.Foundations.Cells
import EltexCourse.Foundations.Looping

/-!
# task1: `print_positive_num` and `print_negative_num`

print_positive_num.c and print_negative_num.c, with what `scanf` has stored in
`num`. A shift of an `int` by its width or more has no defined result. The array
that goes to `printf` for `%s` is recorded, not what is printed of it.
-/

set_option autoImplicit false

namespace EltexCourse.Source.Binary
open Foundations.CString Foundations.Cells Foundations.Looping

/-- All that is printed, or the array in "number in binary form: %s\n". -/
inductive Printed where
  | text (text : Text)
  | line (line : Block Char)
  deriving DecidableEq

/-- `48 + ((num >> i) & 0x1)`, print_positive_num.c:21. -/
def bitChar (num : BitVec 32) (i : Nat) : Option Char :=
  if i < 32 then some (Char.ofNat (48 + (num.sshiftRight i &&& 0x1).toNat)) else none

/-- `line[size - 1 - i] = c`, print_positive_num.c:20-23. -/
def fillTurn (num : BitVec 32) (size : Nat) (line : Block Char) (i : Nat) :
    Option (Block Char) := do
  let c ← bitChar num i
  write line ((size : Int) - 1 - i) c

/-- `char line[size]` and the loop that fills it, print_positive_num.c:19-23. -/
def fillLine (num : BitVec 32) (size : Nat) : Option (Block Char) :=
  (List.range size).foldlM (fillTurn num size) (malloc size)

namespace PositiveNum

structure Sizing where
  i : BitVec 32
  size : Nat

/-- `for (int i = num; i != 0; i /= 2)`, print_positive_num.c:15-17. -/
def sizeTurn (s : Sizing) : Option (Turn Sizing Nat) :=
  if s.i ≠ 0 then some (.next { i := s.i.sdiv 2, size := s.size + 1 }) else some (.stop s.size)

/-- print_positive_num.c:2-26. -/
def Main (num : BitVec 32) (printed : Printed) : Prop :=
  if num.toInt < 0 then
    printed = .text "The num must be positive or smaller. Retry.\n".toList
  else if num.toInt = 0 then
    printed = .text "number in binary form: 0\n".toList
  else
    ∃ size line, Ends sizeTurn { i := num, size := 0 } size ∧ fillLine num size = some line ∧
      printed = .line line

end PositiveNum

namespace NegativeNum

/-- The index is `31 - i` here, print_negative_num.c:2-22. -/
def main (num : BitVec 32) : Option Printed :=
  if 0 < num.toInt then
    some (.text "The num must be negative or bigger. Retry.\n".toList)
  else if num.toInt = 0 then
    some (.text "number in binary form: 0\n".toList)
  else
    (fillLine num 32).map .line

end NegativeNum

end EltexCourse.Source.Binary
