import EltexCourse.Source.Chat.Store

/-!
# The chat's table of entries as a list

As long as `data_delete` is only called for ids that are in the table, the block
holds the list that the calls stand for. For an absent id the index is -1: on an
empty table the size becomes negative, and otherwise the first store is outside
the block.
-/

set_option autoImplicit false

namespace EltexCourse.Guarantees.Chat.Store
open Foundations.Cells Foundations.Decimal Foundations.Transition Source.Chat

/-- What the calls are to do to the list of the entries. -/
def reference (xs : List DataArr) : DataCall → List DataArr
  | .init => []
  | .add entry => dataAdd xs entry
  | .delete id => xs.eraseP (·.id = id)
  | .find _ => xs

/-- The table is the list, and a search finds the first entry with an id, or -1. -/
structure Holds (m : Store) (xs : List DataArr) : Prop where
  low : 0 ≤ m.size
  high : m.size ≤ m.capacity
  block : (m.data.length : Int) = m.capacity
  size : m.size = xs.length
  entries : ∀ i entry, xs[i]? = some entry → read m.data (i : Nat) = some entry
  find : ∀ id, m.dataFind id = some ((xs.findIdx? (·.id = id)).elim (-1) fun i => (i : Int))

/-- There are fewer than 2^30 entries. -/
def Room (m : Store) : DataCall → Prop
  | .add _ => m.size < 2 ^ 30
  | _ => True

/-- Only ids of entries are deleted. -/
def Present (m : Store) : DataCall → Prop
  | .delete id =>
    ∃ (i : Nat) (entry : DataArr), i < m.size ∧ read m.data i = some entry ∧ entry.id = id
  | _ => True

/-- The list, with what has been left behind it. -/
structure Stores (m : Store) (xs : List DataArr) : Prop where
  data : ∃ rest, m.data = xs.map some ++ rest
  size : m.size = xs.length
  block : (m.data.length : Int) = m.capacity
  positive : 0 < m.capacity
  fits : IsInt m.capacity

variable {m m' : Store} {xs before behind : List DataArr} {entry : DataArr} {rest : Block DataArr}
  {id : Int}

theorem stores_init : Stores Store.dataInit [] := ⟨⟨malloc 1, rfl⟩, rfl, rfl, by decide, by decide⟩

theorem Stores.length_le (stores : Stores m xs) : (xs.length : Int) ≤ m.capacity := by
  obtain ⟨rest, data⟩ := stores.data
  have block := stores.block
  rw [data, List.length_append, List.length_map] at block
  omega

theorem read_entry (before : List DataArr) (entry : DataArr) (cells : Block DataArr) :
    read (before.map some ++ some entry :: cells) before.length = some entry := by
  have found := read_at (before.map some) cells entry
  rwa [List.length_map] at found

/-- The table is searched as the list of its entries is. -/
theorem findLoop_list (before : List DataArr)
    (data : m.data = before.map some ++ (xs.map some ++ rest)) (id : Int) :
    m.findLoop id before.length xs.length = some (dataFindFrom id xs before.length) := by
  induction xs generalizing before with
  | nil => rfl
  | cons entry xs ih =>
    have here : read m.data before.length = some entry := by
      rw [data]
      exact read_entry before entry _
    have later := ih (before ++ [entry]) (by simpa using data)
    rw [List.length_append, List.length_singleton] at later
    rw [List.length_cons, Store.findLoop, here, Option.bind_eq_bind, Option.bind_some, dataFindFrom]
    by_cases same : entry.id = id
    · rw [if_pos same, if_pos same]
    · rw [if_neg same, if_neg same]
      exact later

/-- `data_find` on the block is the search of the list model, as long as the block holds
the list. -/
theorem Stores.find_list (stores : Stores m xs) (id : Int) :
    m.dataFind id = some (dataFind xs id) := by
  obtain ⟨rest, data⟩ := stores.data
  rw [Store.dataFind, stores.size, Int.toNat_natCast, dataFind]
  exact findLoop_list [] (by rw [data]; rfl) id

/-- And that search finds the first entry of the id. -/
theorem dataFindFrom_first (id : Int) (xs : List DataArr) (i : Int) :
    dataFindFrom id xs i = (xs.findIdx? (·.id = id)).elim (-1) fun k => i + k := by
  induction xs generalizing i with
  | nil => rfl
  | cons entry xs ih =>
    rw [dataFindFrom, List.findIdx?_cons]
    by_cases same : entry.id = id
    · simp [same]
    · rw [if_neg same, if_neg (by simpa using same), ih]
      cases xs.findIdx? (·.id = id) with
      | none => rfl
      | some k =>
        simp only [Option.map_some, Option.elim_some, Int.natCast_add, Int.natCast_one]
        omega

theorem Stores.find (stores : Stores m xs) (id : Int) :
    m.dataFind id = some ((xs.findIdx? (·.id = id)).elim (-1) fun i => (i : Int)) := by
  rw [stores.find_list, dataFind, dataFindFrom_first]
  simp

theorem Stores.holds (stores : Stores m xs) : Holds m xs where
  low := by
    have size := stores.size
    omega
  high := stores.size ▸ stores.length_le
  block := stores.block
  size := stores.size
  entries i entry listed := by
    obtain ⟨rest, data⟩ := stores.data
    obtain ⟨inside, rfl⟩ := List.getElem?_eq_some_iff.mp listed
    rw [data, read_eq_some, List.getElem?_append_left (by simpa using inside)]
    simp [inside]
  find := stores.find

theorem add_stores (stores : Stores m xs) (room : m.size < 2 ^ 30) (entry : DataArr) :
    ∃ m', m.dataAdd entry = some m' ∧ Stores m' (xs ++ [entry]) := by
  obtain ⟨rest, data⟩ := stores.data
  have size := stores.size
  have block := stores.block
  have positive := stores.positive
  have length : ((xs ++ [entry]).length : Int) = m.size + 1 := by
    rw [List.length_append, List.length_singleton, size]
    rfl
  have fits : IsInt (m.size + 1) := by
    unfold IsInt
    omega
  by_cases full : m.size = m.capacity
  · have doubled : IsInt (m.capacity * 2) := by
      unfold IsInt
      omega
    obtain ⟨cells, fresh⟩ : ∃ cells, (m.capacity * 2).toNat - m.data.length = cells + 1 :=
      Nat.exists_eq_add_one.mpr (by omega)
    have exact : rest = [] := by
      rw [data, List.length_append, List.length_map] at block
      exact List.eq_nil_of_length_eq_zero (by omega)
    have grown : realloc m.data (m.capacity * 2).toNat = xs.map some ++ none :: malloc cells := by
      rw [realloc_more (by omega), fresh, data, exact, List.append_nil]
      rfl
    have written := write_next xs none (malloc cells) entry
    refine ⟨⟨m.size + 1, m.capacity * 2, (xs ++ [entry]).map some ++ malloc cells⟩, ?_, ⟨_, rfl⟩,
      length.symm, ?_, ?_, doubled⟩
    · simp only [Store.dataAdd, if_pos full, int_of_isInt doubled, int_of_isInt fits, grown,
        Option.bind_eq_bind, Option.bind_some]
      rw [size, written, Option.bind_some]
    · rw [data, exact, List.append_nil, List.length_map] at block fresh
      simp only [List.length_append, List.length_map, List.length_singleton, malloc_length]
      omega
    · show 0 < m.capacity * 2
      omega
  · obtain ⟨old, cells, rfl⟩ : ∃ old cells, rest = old :: cells := by
      refine List.exists_cons_of_ne_nil fun exact => full ?_
      rw [data, exact, List.append_nil, List.length_map] at block
      omega
    have written := write_next xs old cells entry
    refine ⟨⟨m.size + 1, m.capacity, (xs ++ [entry]).map some ++ cells⟩, ?_, ⟨_, rfl⟩, length.symm,
      ?_, positive, stores.fits⟩
    · simp only [Store.dataAdd, if_neg full, int_of_isInt fits, data, Option.bind_eq_bind,
        Option.bind_some]
      rw [size, written, Option.bind_some]
    · rw [← block, data]
      simp only [List.length_append, List.length_map, List.length_cons, List.length_nil]
      omega

/-- What follows moves one place down. -/
theorem shiftLoop_moves (before behind : List DataArr) (old : Option DataArr)
    (rest : Block DataArr) :
    ∃ last, Store.shiftLoop (before.map some ++ old :: (behind.map some ++ rest)) before.length
      behind.length = some ((before ++ behind).map some ++ last :: rest) := by
  induction behind generalizing before old with
  | nil => exact ⟨old, by rw [List.append_nil]; rfl⟩
  | cons entry behind ih =>
    have here : read (before.map some ++ old :: ((entry :: behind).map some ++ rest))
        ((before.length : Int) + 1) = some entry := by
      have found := read_at (before.map some ++ [old]) (behind.map some ++ rest) entry
      simpa using found
    have stored := write_next before old ((entry :: behind).map some ++ rest) entry
    obtain ⟨last, shifted⟩ := ih (before ++ [entry]) (some entry)
    rw [List.length_append, List.length_singleton] at shifted
    refine ⟨last, ?_⟩
    simp only [List.length_cons, Store.shiftLoop, here, stored, Option.bind_eq_bind,
      Option.bind_some]
    simpa using shifted

theorem find_first (first : ∀ x ∈ before, x.id ≠ id) (same : entry.id = id) :
    (before ++ entry :: behind).findIdx? (·.id = id) = some before.length := by
  have none : before.findIdx? (·.id = id) = none := by simpa using first
  rw [List.findIdx?_append, none, Option.none_or, List.findIdx?_cons, if_pos (by simpa using same)]
  simp

/-- A present id is that of a first entry. -/
theorem Stores.first (stores : Stores m xs) (present : Present m (.delete id)) :
    ∃ before entry behind, xs = before ++ entry :: behind ∧ entry.id = id ∧
      ∀ x ∈ before, x.id ≠ id := by
  obtain ⟨i, found, inside, at_i, same⟩ := present
  have size := stores.size
  have listed : found ∈ xs := by
    have entries := stores.holds.entries i xs[i] (List.getElem?_eq_getElem (by omega))
    rw [Option.some.inj (at_i.symm.trans entries)]
    exact List.getElem_mem _
  cases matched : xs.find? (·.id = id) with
  | none => exact absurd (by simpa using same) (List.find?_eq_none.mp matched found listed)
  | some entry =>
    obtain ⟨isNamed, before, behind, split, unlike⟩ := List.find?_eq_some_iff_append.mp matched
    exact ⟨before, entry, behind, split, by simpa using isNamed, by simpa using unlike⟩

theorem delete_stores (stores : Stores m xs) (present : Present m (.delete id)) :
    ∃ m', m.dataDelete id = some m' ∧ Stores m' (xs.eraseP (·.id = id)) := by
  obtain ⟨before, entry, behind, rfl, same, first⟩ := stores.first present
  obtain ⟨rest, data⟩ := stores.data
  have size := stores.size
  have block := stores.block
  have positive := stores.positive
  have high := stores.length_le
  have found := stores.find id
  rw [find_first first same, Option.elim_some] at found
  have whole : m.data = before.map some ++ some entry :: (behind.map some ++ rest) := by simp [data]
  obtain ⟨last, shifted⟩ := shiftLoop_moves before behind (some entry) rest
  simp only [List.length_append, List.length_cons] at size high
  have turns : (m.size - 1 - (before.length : Int)).toNat = behind.length := by omega
  have fits : IsInt (m.size - 1) := by
    have upper := stores.fits
    unfold IsInt at upper ⊢
    omega
  rw [List.eraseP_append_right _ (by simpa using first),
    List.eraseP_cons_of_pos (by simpa using same)]
  refine ⟨⟨m.size - 1, m.capacity, (before ++ behind).map some ++ last :: rest⟩, ?_,
    ⟨_, rfl⟩, ?_, ?_,
    positive, stores.fits⟩
  · simp only [Store.dataDelete, found, turns, whole, shifted, int_of_isInt fits,
      Option.bind_eq_bind,
      Option.bind_some]
  · show m.size - 1 = _
    rw [List.length_append]
    omega
  · rw [← block, data]
    simp only [List.length_append, List.length_map, List.length_cons]
    omega

/-- Without such an entry the table was empty: else the first store is outside the block. -/
theorem delete_absent (stores : Stores m xs) (absent : ¬ Present m (.delete id))
    (deleted : m.dataDelete id = some m') : m'.size < 0 := by
  have none : xs.findIdx? (·.id = id) = none := by
    refine List.findIdx?_eq_none_iff.mpr fun entry listed => ?_
    obtain ⟨i, at_i⟩ := List.getElem?_of_mem listed
    have inside := (List.getElem?_eq_some_iff.mp at_i).1
    have size := stores.size
    simpa using fun same => absent ⟨i, entry, by omega, stores.holds.entries i entry at_i, same⟩
  have found := stores.find id
  rw [none, Option.elim_none] at found
  have size := stores.size
  rw [Store.dataDelete, found, Option.bind_eq_bind, Option.bind_some] at deleted
  obtain ⟨data, shifted, resized⟩ := Option.bind_eq_some_iff.mp deleted
  obtain ⟨size', shrunk, same⟩ := Option.bind_eq_some_iff.mp resized
  cases same
  obtain ⟨rfl, -⟩ := int_eq_some.mp shrunk
  cases turns : (m.size - 1 - -1).toNat with
  | zero =>
    show m.size - 1 < 0
    omega
  | succ turns' =>
    rw [turns, Store.shiftLoop, Option.bind_eq_bind] at shifted
    obtain ⟨entry, -, stored⟩ := Option.bind_eq_some_iff.mp shifted
    rw [write_before (by decide), Option.bind_eq_bind, Option.bind_none] at stored
    cases stored

/-- One call under the condition keeps block and list in step, and no access is outside
the block. -/
theorem stores_step {a : DataCall} (stores : Stores m xs) (room : Room m a)
    (present : Present m a) :
    ∃ m', dataCalls.step m a = some m' ∧ Stores m' (reference xs a) := by
  cases a with
  | init => exact ⟨_, rfl, stores_init⟩
  | add entry => exact add_stores stores room entry
  | delete id => exact delete_stores stores present
  | find id => exact ⟨m, by simp only [dataCalls, Store.step, stores.find, Option.map_some], stores⟩

/-- A delete of an id that is not there takes index -1, and afterwards no list is what
the block holds. -/
theorem broken_step {a : DataCall} (stores : Stores m xs) (absent : ¬ Present m a)
    (stepped : dataCalls.step m a = some m') (ys : List DataArr) : ¬ Holds m' ys := by
  intro holds
  have low := holds.low
  cases a with
  | init => exact absent trivial
  | add entry => exact absent trivial
  | delete id =>
    have negative := delete_absent stores absent stepped
    omega
  | find id => exact absent trivial

/-- After every call of a sequence the table is the list that the calls stand
for, exactly if every deletion is of the id of an entry. -/
theorem store_iff (calls : List DataCall) (room : dataCalls.Meets Room Store.dataInit calls) :
    dataCalls.Keeps (fun past m => Holds m (past.foldl reference [])) [] Store.dataInit calls ↔
      dataCalls.Meets Present Store.dataInit calls := by
  refine System.keeps_iff (fun past m => Stores m (past.foldl reference []))
    (fun _ _ stores => stores.holds) (fun past m a stores room present => ?_)
    (fun past m a m' stores _ absent stepped => ?_) stores_init room
  · rw [List.foldl_concat]
    exact stores_step stores room present
  · exact broken_step stores absent stepped _

def ann : DataArr := ⟨['a'], 7, 1⟩

/-- Two entries of one id, of which the first is deleted. -/
def twice : List DataCall := [.add ann, .add { ann with isOnline := 0 }, .find 7, .delete 7]

theorem store_twice :
    dataCalls.Keeps (fun past m => Holds m (past.foldl reference [])) [] Store.dataInit twice := by
  refine (store_iff twice ?_).mpr ?_
  · exact .cons rfl (show (0 : Int) < 2 ^ 30 by decide)
      (.cons rfl (show (1 : Int) < 2 ^ 30 by decide)
      (.cons rfl trivial (.cons rfl trivial trivial)))
  · exact .cons rfl trivial (.cons rfl trivial (.cons rfl trivial
      (.cons rfl ⟨0, ann, by decide, rfl, rfl⟩ trivial)))

/-- An id that is not there: an empty table gets a negative size, and in one with
an entry the step has no defined result. -/
theorem absent_deleted :
    (∃ m, dataCalls.step Store.dataInit (.delete 8) = some m ∧ m.size = -1) ∧
      ¬ dataCalls.Keeps (fun past m => Holds m (past.foldl reference [])) [] Store.dataInit
        [.delete 8] ∧
      ∃ m, dataCalls.step Store.dataInit (.add ann) = some m ∧ dataCalls.step m (.delete 8) =
        none := by
  refine ⟨⟨_, rfl, rfl⟩, fun keeps => ?_, _, rfl, rfl⟩
  obtain ⟨-, m, deleted, holds⟩ := keeps
  cases deleted
  exact absurd holds.low (by decide)

end EltexCourse.Guarantees.Chat.Store
