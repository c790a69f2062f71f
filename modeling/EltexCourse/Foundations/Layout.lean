import Mathlib.Algebra.Ring.Nat
import Mathlib.Data.List.Basic

/-!
# Blocks that are filled field by field

A block of memory is a row of fields of known sizes. A store that has the place
and the size of a field replaces that field and no other, so a block whose fields
have all been stored does not depend on what it held before.
-/

set_option autoImplicit false

namespace EltexCourse.Foundations.Layout

variable {α : Type*} {block bytes : List α} {sizes : List Nat} {fields : List (List α)} {k : Nat}

/-- Stores bytes from `offset` on. -/
def write (block : List α) (offset : Nat) (bytes : List α) : List α :=
  block.take offset ++ bytes ++ block.drop (offset + bytes.length)

/-- A store that has the place of field `s.1`. -/
def store (sizes : List Nat) (block : List α) (s : Nat × List α) : List α :=
  write block (sizes.take s.1).sum s.2

/-- The same on the fields. -/
def replace (fields : List (List α)) (s : Nat × List α) : List (List α) := fields.set s.1 s.2

/-- The fields of a block. -/
def split : List Nat → List α → List (List α)
  | [], _ => []
  | size :: sizes, block => block.take size :: split sizes (block.drop size)

theorem split_flatten (whole : block.length = sizes.sum) : (split sizes block).flatten = block := by
  induction sizes generalizing block with
  | nil =>
    rw [List.sum_nil] at whole
    rw [List.eq_nil_of_length_eq_zero whole]
    rfl
  | cons size sizes ih =>
    rw [List.sum_cons] at whole
    rw [split, List.flatten_cons, ih (by rw [List.length_drop]; omega), List.take_append_drop]

theorem split_lengths (whole : block.length = sizes.sum) :
    (split sizes block).map List.length = sizes := by
  induction sizes generalizing block with
  | nil => rfl
  | cons size sizes ih =>
    rw [List.sum_cons] at whole
    rw [split, List.map_cons, ih (by rw [List.length_drop]; omega),
      List.length_take_of_le (by omega)]

/-- A write of a field replaces this field and leaves those in front of it and behind
it. -/
theorem write_at (front old rest : List α) (same : bytes.length = old.length) :
    write (front ++ (old ++ rest)) front.length bytes = front ++ (bytes ++ rest) := by
  rw [write, List.take_left, ← List.append_assoc front, List.drop_append_of_le_length,
    List.drop_eq_nil_of_le]
  · simp
  · simp [same]
  · simp [same]

theorem write_length (inside : k + bytes.length ≤ block.length) :
    (write block k bytes).length = block.length := by
  simp only [write, List.length_append, List.length_take, List.length_drop]
  omega

theorem write_behind (front rest : List α) (offset : Nat) (bytes : List α) :
    write (front ++ rest) (front.length + offset) bytes = front ++ write rest offset bytes := by
  rw [write, write, List.take_length_add_append, Nat.add_assoc, List.drop_length_add_append,
    List.append_assoc, List.append_assoc, List.append_assoc]

/-- A store of field `k`. -/
theorem write_field (lengths : fields.map List.length = sizes)
    (same : sizes[k]? = some bytes.length) :
    write fields.flatten (sizes.take k).sum bytes = (fields.set k bytes).flatten := by
  subst lengths
  induction fields generalizing k with
  | nil => simp at same
  | cons field fields ih =>
    cases k with
    | zero =>
      have size : bytes.length = field.length := by simpa using same.symm
      simpa using write_at [] field fields.flatten size
    | succ k =>
      rw [List.flatten_cons, List.set_cons_succ, List.map_cons, List.take_succ_cons, List.sum_cons,
        write_behind, ih (by simpa using same), List.flatten_cons]

/-- The stores of several fields, one after the other. -/
theorem foldl_write_field (lengths : fields.map List.length = sizes)
    (stores : List (Nat × List α)) (sized : ∀ s ∈ stores, sizes[s.1]? = some s.2.length) :
    stores.foldl (store sizes) fields.flatten = (stores.foldl replace fields).flatten := by
  induction stores generalizing fields with
  | nil => rfl
  | cons first stores ih =>
    rw [List.forall_mem_cons] at sized
    rw [List.foldl_cons, List.foldl_cons, store, write_field lengths sized.1]
    refine ih ?_ sized.2
    have same : fields[first.1]?.map List.length = some first.2.length := by
      rw [← List.getElem?_map, lengths]
      exact sized.1
    rw [List.map_set, ← lengths]
    refine List.ext_getElem? fun i => ?_
    rw [List.getElem?_set]
    split
    · next here =>
      subst here
      rw [List.getElem?_map, same]
      split
      · rfl
      · next outside =>
        rw [List.length_map] at outside
        rw [List.getElem?_eq_none (Nat.le_of_not_lt outside)] at same
        cases same
    · rfl

/-- A whole block, filled by the stores. -/
theorem foldl_write (sizes : List Nat) (whole : block.length = sizes.sum)
    (stores : List (Nat × List α))
    (sized : ∀ s ∈ stores, sizes[s.1]? = some s.2.length) :
    stores.foldl (store sizes) block = (stores.foldl replace (split sizes block)).flatten := by
  have filled := foldl_write_field (split_lengths whole) stores sized
  rw [split_flatten whole] at filled
  exact filled

end EltexCourse.Foundations.Layout
