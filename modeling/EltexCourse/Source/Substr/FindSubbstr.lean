import EltexCourse.Foundations.CBuffer
import EltexCourse.Foundations.Looping

/-!
# task3: `find_subbstr`

substr.c. The text and the pattern are in blocks of their own; `str` is a place
in the block of the text, and what the function returns is another one, with
the block it leaves. The sizes are `int`s, so neither `s_size - ss_size` nor
`i++` goes out of range.
-/

set_option autoImplicit false

namespace EltexCourse.Source.Substr
open Foundations.CString Foundations.CBuffer Foundations.Looping

structure Search where
  block : Text
  i : Int
  str : Nat
  deriving DecidableEq

abbrev Found := Option Nat × Text

/-- `!strcmp(str, sstr)`, with terminators in both blocks. -/
def same (block : Text) (str : Nat) (sstr : Text) : Option Bool := do
  let one ← stringAt block str
  let other ← stringAt sstr 0
  some (one = other)

/-- substr.c:8-14. The body of the `if`: with a terminator at `border`. -/
def compared (sstr : Text) (ssSize : Int) (s : Search) : Option (Turn Search Found) := do
  let border ← (s.str + ssSize).toNat?
  let buff ← s.block[border]?
  let planted ← store s.block border nul
  if ← same planted s.str sstr then some (.stop (some s.str, planted))
  else do
    let block ← store planted border buff
    some (.next { block, i := s.i + 1, str := s.str + 1 })

/-- substr.c:6-17. -/
def searchTurn (sstr : Text) (sSize ssSize : Int) (s : Search) : Option (Turn Search Found) :=
  if s.i ≤ sSize - ssSize then do
    let first ← s.block[s.str]?
    let wanted ← sstr[0]?
    if first = wanted then compared sstr ssSize s
    else some (.next { s with i := s.i + 1, str := s.str + 1 })
  else some (.stop (none, s.block))

/-- substr.c:5-19. -/
def findSubbstr (str sstr : Text) (sSize ssSize : Int) (found : Found) : Prop :=
  Ends (searchTurn sstr sSize ssSize) { block := str, i := 0, str := 0 } found

end EltexCourse.Source.Substr
