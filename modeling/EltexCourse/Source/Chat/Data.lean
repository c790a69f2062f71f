import Mathlib.Data.List.Basic
import Mathlib.Data.List.Nodup
import EltexCourse.Foundations.CString

/-!
# The chat's table of entries

`data.c` of task13/chat and task14/chat (the files are equal). A `struct data`
is the list of its entries 0 .. size-1; capacity and reallocation are not
modelled. `dataFind` returns -1 for an absent id, and every caller uses the
result as an index without looking at it, so a write through index -1 has no
successor state here.
-/

set_option autoImplicit false

namespace EltexCourse.Source.Chat
open Foundations.CString

/-- data.h:11-16. `struct data_arr`. Entries of a message table never set `is_online`;
nothing reads it there. -/
structure DataArr where
  line : Text
  id : Int
  isOnline : Int
  deriving DecidableEq, Repr

abbrev Data := List DataArr

/-- data.c:20-34. -/
def dataAdd (m : Data) (entry : DataArr) : Data := m ++ [entry]

/-- The search loop of `data_find` from index `i` on, data.c:45-49. -/
def dataFindFrom (id : Int) : Data → Int → Int
  | [], _ => -1
  | entry :: rest, i => if entry.id = id then i else dataFindFrom id rest (i + 1)

/-- data.c:44-51. -/
def dataFind (m : Data) (id : Int) : Int := dataFindFrom id m 0

/-- `m.data[data_find(&m, id)].is_online = 0`, server.c:69 and client.c:157 of
task13/chat. -/
def markOffline (m : Data) (id : Int) : Option Data :=
  let index := dataFind m id
  if index < 0 then none
  else some (m.modify index.toNat fun entry => { entry with isOnline := 0 })

def ids (m : Data) : List Int := m.map (·.id)

/-- What the clients print as the member list: the entries whose flag is set,
client.c:204-207 of task13/chat. -/
def online (m : Data) : Data := m.filter (·.isOnline ≠ 0)

def onlineIds (m : Data) : List Int := ids (online m)

@[simp] theorem ids_nil : ids [] = [] := rfl

@[simp] theorem ids_cons (entry : DataArr) (m : Data) : ids (entry :: m) = entry.id :: ids m := rfl

@[simp] theorem ids_append (m n : Data) : ids (m ++ n) = ids m ++ ids n := by
  simp [ids]

@[simp] theorem online_nil : online [] = [] := rfl

@[simp] theorem online_append (m n : Data) : online (m ++ n) = online m ++ online n := by
  simp [online]

/-- An entry whose flag is set is passed on, another one is not. -/
theorem online_cons (entry : DataArr) (m : Data) :
    online (entry :: m) = if entry.isOnline ≠ 0 then entry :: online m else online m := by
  simp [online, List.filter_cons]

@[simp] theorem online_online (m : Data) : online (online m) = online m := by
  simp [online]

theorem online_sublist (m : Data) : (online m).Sublist m := List.filter_sublist

/-- The ids online are some of the ids, in their order. -/
theorem onlineIds_sublist (m : Data) : (onlineIds m).Sublist (ids m) :=
  (online_sublist m).map _

theorem mem_ids_of_mem_onlineIds {m : Data} {id : Int} (member : id ∈ onlineIds m) :
    id ∈ ids m :=
  (onlineIds_sublist m).subset member

/-- The loop of `data_find`, from any index on: -1 if no entry has the id, or the index
of the first that has. -/
theorem dataFindFrom_spec (id : Int) (m : Data) (i : Int) :
    (id ∉ ids m ∧ dataFindFrom id m i = -1) ∨
      ∃ before entry after, m = before ++ entry :: after ∧ entry.id = id ∧ id ∉ ids before ∧
        dataFindFrom id m i = i + before.length := by
  induction m generalizing i with
  | nil => exact Or.inl ⟨by simp, rfl⟩
  | cons head tail ih =>
    by_cases same : head.id = id
    · exact Or.inr ⟨[], head, tail, rfl, same, by simp, by simp [dataFindFrom, same]⟩
    · rcases ih (i + 1) with ⟨absent, result⟩ | ⟨before, entry, after, split, key, first, result⟩
      · refine Or.inl ⟨?_, by simp [dataFindFrom, same, result]⟩
        simpa [Ne.symm same] using absent
      · refine Or.inr ⟨head :: before, entry, after, by simp [split], key, ?_, ?_⟩
        · simpa [Ne.symm same] using first
        · simp only [dataFindFrom, if_neg same, result, List.length_cons]
          omega

/-- `dataFind` is -1 exactly for the ids no entry carries. -/
theorem dataFind_eq_neg_one_iff (m : Data) (id : Int) : dataFind m id = -1 ↔ id ∉ ids m := by
  rcases dataFindFrom_spec id m 0 with ⟨absent, result⟩ |
    ⟨before, entry, after, split, key, _, result⟩
  · exact ⟨fun _ => absent, fun _ => result⟩
  · have present : id ∈ ids m := by simp [split, key]
    refine ⟨fun missing => ?_, fun absent => absurd present absent⟩
    rw [dataFind, result] at missing
    omega

@[simp] theorem ids_dataAdd (m : Data) (entry : DataArr) :
    ids (dataAdd m entry) = ids m ++ [entry.id] := by
  simp [dataAdd]

/-- Ids stay without repetition as long as new ones are added only. -/
theorem ids_dataAdd_nodup {m : Data} {entry : DataArr} (unique : (ids m).Nodup)
    (fresh : entry.id ∉ ids m) : (ids (dataAdd m entry)).Nodup := by
  rw [ids_dataAdd]
  refine List.nodup_append.mpr ⟨unique, by simp, fun id old other isNew => ?_⟩
  rintro rfl
  exact fresh (List.mem_singleton.mp isNew ▸ old)

/-- The flag is cleared in the first entry that carries the id. -/
theorem markOffline_first {before after : Data} {entry : DataArr} {id : Int}
    (key : entry.id = id) (first : id ∉ ids before) :
    markOffline (before ++ entry :: after) id =
      some (before ++ { entry with isOnline := 0 } :: after) := by
  have present : id ∈ ids (before ++ entry :: after) := by simp [key]
  rcases dataFindFrom_spec id (before ++ entry :: after) 0 with
    ⟨absent, _⟩ | ⟨before', entry', after', split, key', first', result⟩
  · exact absurd present absent
  · have same : before = before' := by
      rcases List.append_eq_append_iff.mp split with ⟨gap, isBefore, isRest⟩ |
        ⟨gap, isBefore, isRest⟩
      · cases gap with
        | nil => simpa using isBefore.symm
        | cons c cs =>
          obtain ⟨rfl, -⟩ := List.cons.inj isRest
          exact absurd (by simp [isBefore, key]) first'
      · cases gap with
        | nil => simpa using isBefore
        | cons c cs =>
          obtain ⟨rfl, -⟩ := List.cons.inj isRest
          exact absurd (by simp [isBefore, key']) first
    subst same
    simp only [markOffline, dataFind, result]
    rw [if_neg (by omega)]
    simp [List.modify_eq_take_drop]

/-- Where `data_find` finds an entry, the write changes its flag and nothing else in the
table. -/
theorem markOffline_some {m m' : Data} {id : Int} (found : markOffline m id = some m') :
    ∃ before entry after, m = before ++ entry :: after ∧ entry.id = id ∧ id ∉ ids before ∧
      m' = before ++ { entry with isOnline := 0 } :: after := by
  rcases dataFindFrom_spec id m 0 with ⟨_, result⟩ | ⟨before, entry, after, rfl, key, first, _⟩
  · simp [markOffline, dataFind, result] at found
  · rw [markOffline_first key first] at found
    exact ⟨before, entry, after, rfl, key, first, (Option.some.inj found).symm⟩

/-- An id that is in the table is found. -/
theorem markOffline_isSome {m : Data} {id : Int} (present : id ∈ ids m) :
    ∃ m', markOffline m id = some m' := by
  rcases dataFindFrom_spec id m 0 with ⟨absent, _⟩ | ⟨before, entry, after, rfl, key, first, _⟩
  · exact absurd present absent
  · exact ⟨_, markOffline_first key first⟩

theorem markOffline_ids {m m' : Data} {id : Int} (found : markOffline m id = some m') :
    ids m' = ids m := by
  obtain ⟨before, entry, after, rfl, _, _, rfl⟩ := markOffline_some found
  simp

/-- When ids do not repeat, exactly the entries of that id leave the member list. -/
theorem markOffline_online {m m' : Data} {id : Int} (unique : (ids m).Nodup)
    (found : markOffline m id = some m') : online m' = (online m).filter (·.id ≠ id) := by
  obtain ⟨before, entry, after, rfl, key, first, rfl⟩ := markOffline_some found
  have absent : id ∉ ids after := by
    simp only [ids_append, ids_cons, key] at unique
    exact (List.nodup_cons.mp (List.nodup_append.mp unique).2.1).1
  have untouched : ∀ n : Data, id ∉ ids n → (online n).filter (·.id ≠ id) = online n := by
    intro n outside
    rw [List.filter_eq_self]
    intro e member
    have : e.id ∈ ids n := (online_sublist n |>.map _).subset (List.mem_map_of_mem member)
    simpa using fun same : e.id = id => outside (same ▸ this)
  simp only [online_append, online_cons, List.filter_append]
  rw [untouched before first]
  have rest := untouched after absent
  by_cases flag : entry.isOnline = 0
  · simpa [flag] using rest.symm
  · simpa [flag, key] using rest.symm

end EltexCourse.Source.Chat
