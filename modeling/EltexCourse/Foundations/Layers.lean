import Mathlib.Data.List.Induction

/-!
# Texts laid over a block

Each text lies at the start of the block, over what was there; beyond its end the
block is as before. What is seen at a place is of the last text that reaches so
far.
-/

set_option autoImplicit false

namespace EltexCourse.Foundations.Layers

variable {α : Type*} {block text : List α} {texts : List (List α)} {i : Nat}

def layer (block text : List α) : List α := text ++ block.drop text.length

/-- The last text that reaches to `i`, or the block itself. -/
def top (block : List α) (texts : List (List α)) (i : Nat) : List α :=
  (texts.findRev? fun text => i < text.length).getD block

theorem layer_length (fits : text.length ≤ block.length) :
    (layer block text).length = block.length := by
  rw [layer, List.length_append, List.length_drop]
  omega

/-- Each place has what was laid over it last, the text as far as it reaches. -/
theorem layer_getElem? : (layer block text)[i]? =
    if i < text.length then text[i]? else block[i]? := by
  unfold layer
  split
  · next inside => exact List.getElem?_append_left inside
  · next beyond =>
    rw [List.getElem?_append_right (Nat.le_of_not_lt beyond), List.getElem?_drop]
    congr 1
    omega

theorem layer_take {k : Nat} (reaches : k ≤ text.length) :
    (layer block text).take k = text.take k := List.take_append_of_le_length reaches

theorem top_append : top block (texts ++ [text]) i =
    if i < text.length then text else top block texts i := by
  simp only [top, List.findRev?_eq_find?_reverse, List.reverse_append, List.reverse_singleton,
    List.singleton_append, List.find?_cons]
  by_cases inside : i < text.length <;> simp [inside]

/-- After any number of texts each place shows the last of them that reached it, or what
was there before all of them. -/
theorem foldl_layer_getElem? : (texts.foldl layer block)[i]? = (top block texts i)[i]? := by
  induction texts using List.reverseRecOn with
  | nil => rfl
  | append_singleton texts text ih =>
    rw [List.foldl_append, List.foldl_cons, List.foldl_nil, layer_getElem?, top_append, ih]
    split <;> rfl

/-- A block starts with `word` when every place of it is right. -/
theorem take_eq_iff (word : List α) : block.take word.length = word ↔
    ∀ i < word.length, block[i]? = word[i]? := by
  constructor
  · intro same i inside
    rw [← List.getElem?_take_of_lt inside, same]
  · intro right
    refine List.ext_getElem? fun i => ?_
    by_cases inside : i < word.length
    · rw [List.getElem?_take_of_lt inside, right i inside]
    · rw [List.getElem?_eq_none (Nat.le_of_not_lt inside), List.getElem?_eq_none]
      exact Nat.le_trans (List.length_take_le ..) (Nat.le_of_not_lt inside)

end EltexCourse.Foundations.Layers
