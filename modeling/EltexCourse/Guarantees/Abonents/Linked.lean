import Mathlib.Data.List.Find
import Mathlib.Data.List.Induction
import Mathlib.Tactic.Tauto
import EltexCourse.Source.Abonents.Linked

/-!
# task6: the linked directory is a list

`Represents` ties the heap to a list of entries: the cells follow each other
along `next` and backwards along `prev`, each with a record of its own, and
nothing else is live. Nothing is said about `tail` while the list is empty: the
removal of the only cell leaves it pointing at the freed cell, and the next
addition, which finds `head` NULL, sets it before it is read.
-/

set_option autoImplicit false

namespace EltexCourse.Guarantees.Abonents.Linked
open Foundations.CString Foundations.Transition Foundations.Links Source.Abonents.Linked

variable {Addr : Type} {heap heap' : Heap Addr} {a b : Addr}

/-- Only `next` and `prev` fields have changed. -/
structure Relinked (heap heap' : Heap Addr) : Prop where
  data : dataOf heap' = dataOf heap
  record : recordOf heap' = recordOf heap
  live : ∀ a, heap' a = none ↔ heap a = none

theorem cellOf_eq_some {cell : Cell Addr} (live : cellOf heap a = some cell) :
    heap a = some (.cell cell) := by
  unfold cellOf Block.asCell at live
  cases found : heap a with
  | none => simp [found] at live
  | some block => cases block <;> simp_all

structure Entry (Addr : Type) where
  cell : Addr
  record : Addr
  abonent : Abonent

abbrev cells (es : List (Entry Addr)) : List Addr := es.map Entry.cell

abbrev abonents (es : List (Entry Addr)) : List Abonent := es.map Entry.abonent

/-- The cells and records of the entries are live, all different, and nothing
else is. -/
structure Owned (heap : Heap Addr) (es : List (Entry Addr)) : Prop where
  data : ∀ e ∈ es, dataOf heap e.cell = some e.record
  records : ∀ e ∈ es, recordOf heap e.record = some e.abonent
  cellsDistinct : (cells es).Nodup
  recordsDistinct : (es.map Entry.record).Nodup
  complete : ∀ a, heap a ≠ none → (∃ e ∈ es, a = e.cell) ∨ ∃ e ∈ es, a = e.record

variable {es xs ys : List (Entry Addr)} {e : Entry Addr}

theorem Owned.relinked (owned : Owned heap es) (relinked : Relinked heap heap') : Owned heap' es :=
  ⟨relinked.data ▸ owned.data, relinked.record ▸ owned.records, owned.cellsDistinct,
    owned.recordsDistinct, fun a live => owned.complete a fun dead =>
      live ((relinked.live a).mpr dead)⟩

/-- A record is not a cell. -/
theorem record_not_cell {abonent : Abonent} (record : recordOf heap a = some abonent) :
    nextOf heap a = none ∧ prevOf heap a = none ∧ dataOf heap a = none := by
  unfold recordOf Block.asRecord at record
  cases found : heap a with
  | none => simp [found] at record
  | some block => cases block <;> simp_all [nextOf, prevOf, dataOf, cellOf, Block.asCell]

structure Represents (dir : Directory Addr) (es : List (Entry Addr)) : Prop where
  owned : Owned dir.heap es
  forward : Path (nextOf dir.heap) dir.head (cells es) none
  backward : es ≠ [] → Path (prevOf dir.heap) dir.tail (cells es).reverse none
  capacity : dir.capacity = es.length
  bound : es.length ≤ 100

variable {dir : Directory Addr}

theorem represents_init : Represents (directoryInit : Directory Addr) [] where
  owned := ⟨by simp, by simp, by simp, by simp, fun a live => absurd rfl live⟩
  forward := rfl
  backward nonempty := absurd rfl nonempty
  capacity := rfl
  bound := by simp

/-- The search follows the links and returns the first cell whose record has the name,
or NULL at the end of the list. -/
theorem searchLoop_found {p : Option Addr} (data : ∀ e ∈ es, dataOf heap e.cell = some e.record)
    (records : ∀ e ∈ es, recordOf heap e.record = some e.abonent)
    (path : Path (nextOf heap) p (cells es) none) (name : Text) :
    searchLoop heap name es.length p =
      some ((es.find? fun e => e.abonent.name = name).map Entry.cell) := by
  induction es generalizing p with
  | nil =>
    obtain rfl := path
    rfl
  | cons e es ih =>
    obtain ⟨rfl, next, at_e, rest⟩ := path
    have later := ih (fun x inside => data x (by simp [inside]))
      (fun x inside => records x (by simp [inside])) rest
    simp only [List.length_cons, searchLoop, data e (by simp), records e (by simp), at_e, later,
      Option.bind_eq_bind, Option.bind_some, List.find?_cons]
    split
    next same => simp [same]
    next other => simp [other]

theorem printLoop_all {p : Option Addr} (data : ∀ e ∈ es, dataOf heap e.cell = some e.record)
    (records : ∀ e ∈ es, recordOf heap e.record = some e.abonent)
    (path : Path (nextOf heap) p (cells es) none) :
    printLoop heap es.length p = some (abonents es) := by
  induction es generalizing p with
  | nil =>
    obtain rfl := path
    rfl
  | cons e es ih =>
    obtain ⟨rfl, next, at_e, rest⟩ := path
    have later := ih (fun x inside => data x (by simp [inside]))
      (fun x inside => records x (by simp [inside])) rest
    simp only [List.length_cons, printLoop, data e (by simp), records e (by simp), at_e, later,
      Option.bind_eq_bind, Option.bind_some, Option.map_some, abonents, List.map_cons]

theorem cellSearch_found (represents : Represents dir es) (name : Text) :
    cellSearch dir name = some ((es.find? fun e => e.abonent.name = name).map Entry.cell) := by
  rw [cellSearch, represents.capacity, Int.toNat_natCast]
  exact searchLoop_found represents.owned.data represents.owned.records represents.forward name

theorem printAll_abonents (represents : Represents dir es) : printAll dir = some (abonents es) := by
  rw [printAll, represents.capacity, Int.toNat_natCast]
  exact printLoop_all represents.owned.data represents.owned.records represents.forward

theorem searchAndPrint_found (represents : Represents dir es) (name : Text) :
    searchAndPrint dir name = some ((abonents es).find? fun abonent => abonent.name = name) := by
  have same : (abonents es).find? (fun abonent => abonent.name = name) =
      (es.find? fun e => e.abonent.name = name).map Entry.abonent := List.find?_map ..
  rw [searchAndPrint, cellSearch_found represents, same]
  cases found : es.find? fun e => e.abonent.name = name with
  | none => rfl
  | some e =>
    have inside := List.mem_of_find?_eq_some found
    simp [represents.owned.data e inside, represents.owned.records e inside]

section

variable [DecidableEq Addr]

/-- A write to one block changes one place of each field of the cells. -/
theorem cellField_update {β : Type} (field : Cell Addr → β) (heap : Heap Addr) (a : Addr)
    (block : Option (Block Addr)) :
    (fun b => (cellOf (Function.update heap a block) b).map field) =
      Function.update (fun b => (cellOf heap b).map field) a
        ((block.bind Block.asCell).map field) :=
  Function.comp_update
    (fun block : Option (Block Addr) => (block.bind Block.asCell).map field) heap a block

theorem nextOf_update (heap : Heap Addr) (a : Addr) (block : Option (Block Addr)) :
    nextOf (Function.update heap a block) =
      Function.update (nextOf heap) a ((block.bind Block.asCell).map Cell.next) :=
  cellField_update Cell.next heap a block

theorem prevOf_update (heap : Heap Addr) (a : Addr) (block : Option (Block Addr)) :
    prevOf (Function.update heap a block) =
      Function.update (prevOf heap) a ((block.bind Block.asCell).map Cell.prev) :=
  cellField_update Cell.prev heap a block

theorem dataOf_update (heap : Heap Addr) (a : Addr) (block : Option (Block Addr)) :
    dataOf (Function.update heap a block) =
      Function.update (dataOf heap) a ((block.bind Block.asCell).map Cell.data) :=
  cellField_update Cell.data heap a block

theorem recordOf_update (heap : Heap Addr) (a : Addr) (block : Option (Block Addr)) :
    recordOf (Function.update heap a block) =
      Function.update (recordOf heap) a (block.bind Block.asRecord) :=
  Function.comp_update (fun block : Option (Block Addr) => block.bind Block.asRecord) heap a block

/-- A field that already has the value. -/
theorem update_same {β : Type} {f : Addr → β} {a : Addr} {value : β} (holds : f a = value) :
    Function.update f a value = f := by
  rw [← holds, Function.update_eq_self]

theorem relinked_update {cell changed : Cell Addr} (live : cellOf heap a = some cell)
    (data : changed.data = cell.data) :
    Relinked heap (Function.update heap a (some (.cell changed))) := by
  have block := cellOf_eq_some live
  refine ⟨?_, ?_, fun b => ?_⟩
  · rw [dataOf_update]
    exact update_same (by simp [dataOf, live, Block.asCell, data])
  · rw [recordOf_update]
    exact update_same (by simp [recordOf, block, Block.asRecord])
  · by_cases same : b = a
    · subst same
      simp [block]
    · rw [Function.update_of_ne same]

/-- The write to `next` goes to a live cell and changes one link of the forward chain
only. -/
theorem setNext_spec {data : Addr} (live : dataOf heap a = some data) (next : Option Addr) :
    ∃ heap', setNext heap (some a) next = some heap' ∧ Relinked heap heap' ∧
      nextOf heap' = Function.update (nextOf heap) a (some next) ∧ prevOf heap' = prevOf heap := by
  obtain ⟨cell, found, rfl⟩ := Option.map_eq_some_iff.mp live
  refine ⟨Function.update heap a (some (.cell { cell with next })), by simp [setNext, found],
    relinked_update found rfl, by rw [nextOf_update]; rfl, ?_⟩
  rw [prevOf_update]
  exact update_same (by simp [prevOf, found, Block.asCell])

theorem setPrev_spec {data : Addr} (live : dataOf heap a = some data) (prev : Option Addr) :
    ∃ heap', setPrev heap (some a) prev = some heap' ∧ Relinked heap heap' ∧
      prevOf heap' = Function.update (prevOf heap) a (some prev) ∧ nextOf heap' = nextOf heap := by
  obtain ⟨cell, found, rfl⟩ := Option.map_eq_some_iff.mp live
  refine ⟨Function.update heap a (some (.cell { cell with prev })), by simp [setPrev, found],
    relinked_update found rfl, by rw [prevOf_update]; rfl, ?_⟩
  rw [nextOf_update]
  exact update_same (by simp [nextOf, found, Block.asCell])

theorem free_spec (live : heap a ≠ none) : free heap a = some (Function.update heap a none) := by
  simp [free, live]

/-- Freeing an entry frees its two blocks and nothing of the others. -/
theorem Owned.release (owned : Owned heap (xs ++ e :: ys)) :
    ∃ heap', release heap e.cell = some heap' ∧ Owned heap' (xs ++ ys) ∧
      nextOf heap' = Function.update (nextOf heap) e.cell none ∧
      prevOf heap' = Function.update (prevOf heap) e.cell none := by
  have data := owned.data e (by simp)
  have record := owned.records e (by simp)
  have notCell := record_not_cell record
  obtain ⟨cellsDistinct, cellApart⟩ := nodup_middle owned.cellsDistinct
  obtain ⟨recordsDistinct, recordApart⟩ := nodup_middle owned.recordsDistinct
  have apart {x : Entry Addr} (inside : x ∈ xs ++ e :: ys) : x.record ≠ e.cell := by
    intro same
    simp [← same, record_not_cell (owned.records x inside)] at data
  have cellLive : heap e.cell ≠ none := fun dead => by simp [dataOf, cellOf, dead] at data
  have recordLive : heap e.record ≠ none := fun dead => by simp [recordOf, dead] at record
  have others {x : Entry Addr} (inside : x ∈ xs ++ ys) : x ∈ xs ++ e :: ys := by
    simp only [List.mem_append, List.mem_cons] at inside ⊢
    exact inside.imp_right Or.inr
  have secondFree : free (Function.update heap e.record none) e.cell =
      some (Function.update (Function.update heap e.record none) e.cell none) := by
    refine free_spec ?_
    rwa [Function.update_of_ne (apart (by simp)).symm]
  refine ⟨Function.update (Function.update heap e.record none) e.cell none,
    by simp [Source.Abonents.Linked.release, data, free_spec recordLive, secondFree],
    ⟨?_, ?_, cellsDistinct, recordsDistinct, ?_⟩, ?_, ?_⟩
  · intro x inside
    rw [dataOf_update, dataOf_update, Function.update_of_ne (cellApart x inside),
      update_same (by simp [notCell])]
    exact owned.data x (others inside)
  · intro x inside
    rw [recordOf_update, recordOf_update, Function.update_of_ne (apart (others inside)),
      Function.update_of_ne (recordApart x inside)]
    exact owned.records x (others inside)
  · intro a live
    have notCellAddr : a ≠ e.cell := fun same => live (by rw [same, Function.update_self])
    rw [Function.update_of_ne notCellAddr] at live
    have notRecord : a ≠ e.record := fun same => live (by rw [same, Function.update_self])
    rw [Function.update_of_ne notRecord] at live
    have split {x : Entry Addr} (inside : x ∈ xs ++ e :: ys) : x = e ∨ x ∈ xs ++ ys := by
      simp only [List.mem_append, List.mem_cons] at inside ⊢
      tauto
    rcases owned.complete a live with ⟨x, inside, rfl⟩ | ⟨x, inside, rfl⟩
    · rcases split inside with rfl | kept
      · exact absurd rfl notCellAddr
      · exact Or.inl ⟨x, kept, rfl⟩
    · rcases split inside with rfl | kept
      · exact absurd rfl notRecord
      · exact Or.inr ⟨x, kept, rfl⟩
  · rw [nextOf_update, nextOf_update, update_same (f := nextOf heap) (by simp [notCell])]
    rfl
  · rw [prevOf_update, prevOf_update, update_same (f := prevOf heap) (by simp [notCell])]
    rfl

/-- The only cell, or the first of several. -/
theorem remove_first (represents : Represents dir (e :: ys)) :
    ∃ dir', cellRemove dir (some e.cell) = some dir' ∧ Represents dir' ys := by
  have owned : Owned dir.heap ([] ++ e :: ys) := represents.owned
  obtain ⟨atHead, next, at_e, rest⟩ := path_cons.mp represents.forward
  have fresh : e.cell ∉ cells ys := (List.nodup_cons.mp owned.cellsDistinct).1
  have bound := represents.bound
  have capacity := represents.capacity
  simp only [List.length_cons] at bound capacity
  cases ys with
  | nil =>
    obtain rfl := rest
    obtain ⟨heap', released, left, nexts, prevs⟩ := owned.release
    refine ⟨⟨heap', none, dir.tail, dir.capacity - 1⟩,
      by simp [cellRemove, atHead, at_e, released], left, rfl, fun nonempty => absurd rfl nonempty,
      by simp [capacity], by simp⟩
  | cons n ys =>
    obtain rfl := rest.start
    obtain ⟨heap₁, set, relinked, prevs₁, nexts₁⟩ :=
      setPrev_spec (owned.data n (by simp)) none
    obtain ⟨heap₂, released, left, nexts₂, prevs₂⟩ := (owned.relinked relinked).release
    refine ⟨⟨heap₂, some n.cell, dir.tail, dir.capacity - 1⟩, ?_, left, ?_, fun _ => ?_, ?_, ?_⟩
    · simp [cellRemove, atHead, at_e, set, nexts₁, released]
    · rw [nexts₂, nexts₁]
      exact rest.update fresh none
    · have backward := represents.backward (by simp)
      simp only [cells, List.map_cons, List.reverse_cons] at backward fresh ⊢
      have distinct : n.cell ∉ (cells ys).reverse := by
        have := owned.cellsDistinct
        simp_all
      rw [prevs₂, prevs₁]
      exact ((path_snoc.mp backward).1.redirect distinct none).update
        (by simpa [and_comm] using fresh) none
    · simp only [List.length_cons] at capacity ⊢
      omega
    · omega

/-- Removal of the last cell of several: the cell in front becomes the tail. -/
theorem remove_last {p : Entry Addr} (represents : Represents dir ((xs ++ [p]) ++ [e])) :
    ∃ dir', cellRemove dir (some e.cell) = some dir' ∧ Represents dir' (xs ++ [p]) := by
  have owned := represents.owned
  have distinct := owned.cellsDistinct
  have forward := represents.forward
  have backward := represents.backward (by simp)
  simp only [cells, List.map_append, List.map_cons, List.map_nil, List.reverse_append,
    List.reverse_cons, List.reverse_nil, List.nil_append, List.singleton_append]
    at distinct forward backward
  obtain ⟨front, at_e⟩ := path_snoc.mp forward
  obtain ⟨atTail, prev, back, rest⟩ := path_cons.mp backward
  obtain rfl := rest.start
  have outside : e.cell ∉ List.map Entry.cell xs ++ [p.cell] := by
    intro inside
    exact (List.nodup_append.mp distinct).2.2 _ inside _ (by simp) rfl
  have before : p.cell ∉ List.map Entry.cell xs := by
    intro inside
    exact (List.nodup_append.mp (List.nodup_append.mp distinct).1).2.2 _ inside _ (by simp) rfl
  have notHead := forward.start_ne (by simp) outside
  obtain ⟨heap₁, set, relinked, nexts₁, prevs₁⟩ := setNext_spec (owned.data p (by simp)) none
  obtain ⟨heap₂, released, left, nexts₂, prevs₂⟩ := (owned.relinked relinked).release
  rw [List.append_nil] at left
  have bound := represents.bound
  have capacity := represents.capacity
  refine ⟨⟨heap₂, dir.head, some p.cell, dir.capacity - 1⟩, ?_, left, ?_, fun _ => ?_, ?_, ?_⟩
  · simp [cellRemove, notHead, atTail, back, set, prevs₁, released]
  · rw [nexts₂, nexts₁]
    simpa [cells] using (front.redirect before none).update outside none
  · rw [prevs₂, prevs₁]
    simpa [cells] using rest.update (by simpa [or_comm] using outside) none
  · simp at capacity ⊢
    omega
  · simp at bound ⊢
    omega

/-- Removal between two cells: these are linked with each other in both directions, and
both blocks of the entry are freed. -/
theorem remove_middle {p n : Entry Addr}
    (represents : Represents dir ((xs ++ [p]) ++ e :: n :: ys)) :
    ∃ dir', cellRemove dir (some e.cell) = some dir' ∧
      Represents dir' ((xs ++ [p]) ++ n :: ys) := by
  have owned := represents.owned
  have distinct : (cells xs ++ p.cell :: e.cell :: n.cell :: cells ys).Nodup := by
    simpa [cells] using owned.cellsDistinct
  have forward : Path (nextOf dir.heap) dir.head
      (cells xs ++ p.cell :: e.cell :: n.cell :: cells ys) none := by
    simpa [cells] using represents.forward
  have backward : Path (prevOf dir.heap) dir.tail
      ((cells ys).reverse ++ n.cell :: e.cell :: p.cell :: (cells xs).reverse) none := by
    simpa [cells] using represents.backward (by simp)
  have reversed :
    ((cells ys).reverse ++ n.cell :: e.cell :: p.cell :: (cells xs).reverse).Nodup := by
    simpa using List.nodup_reverse.mpr distinct
  obtain ⟨_, _, rfl, _, _, rfl, next, at_e, rest⟩ := path_append.mp forward
  obtain rfl := rest.start
  obtain ⟨_, _, rfl, _, _, rfl, prev, back, before⟩ := path_append.mp backward
  obtain rfl := before.start
  have apart (x : Entry Addr) (inside : x ∈ (xs ++ [p]) ++ n :: ys) : x.cell ≠ e.cell :=
    (nodup_middle owned.cellsDistinct).2 x inside
  have outside : e.cell ∉ cells ((xs ++ [p]) ++ n :: ys) := by
    intro inside
    obtain ⟨x, among, same⟩ := List.mem_map.mp inside
    exact apart x among same
  simp only [cells, List.map_append, List.map_cons, List.append_assoc,
    List.singleton_append] at outside
  have outsideReversed : e.cell ∉ (cells ys).reverse ++ n.cell :: p.cell :: (cells xs).reverse := by
    simp only [List.mem_append, List.mem_cons, List.mem_reverse, not_or] at outside ⊢
    tauto
  have notHead : dir.head ≠ some e.cell := by
    have path : Path (nextOf dir.heap) dir.head
        ((cells xs ++ [p.cell]) ++ e.cell :: n.cell :: cells ys) none := by simpa using forward
    refine path.start_ne (by simp) ?_
    exact fun inside => outside (List.append_cons .. ▸ List.mem_append_left _ inside)
  have notTail : dir.tail ≠ some e.cell := by
    have path : Path (prevOf dir.heap) dir.tail
        (((cells ys).reverse ++ [n.cell]) ++ e.cell :: p.cell :: (cells xs).reverse) none := by
      simpa using backward
    refine path.start_ne (by simp) ?_
    exact fun inside => outsideReversed (List.append_cons .. ▸ List.mem_append_left _ inside)
  obtain ⟨heap₁, setN, relinked₁, prevs₁, nexts₁⟩ :=
    setPrev_spec (owned.data n (by simp)) (some p.cell)
  have owned₁ := owned.relinked relinked₁
  obtain ⟨heap₂, setP, relinked₂, nexts₂, prevs₂⟩ :=
    setNext_spec (owned₁.data p (by simp)) (some n.cell)
  obtain ⟨heap₃, released, left, nexts₃, prevs₃⟩ := (owned₁.relinked relinked₂).release
  have back₁ : prevOf heap₁ e.cell = some (some p.cell) := by
    rw [prevs₁, Function.update_of_ne (apart n (by simp)).symm, back]
  refine ⟨⟨heap₃, dir.head, dir.tail, dir.capacity - 1⟩, ?_, left, ?_, fun _ => ?_, ?_, ?_⟩
  · simp [cellRemove, notHead, notTail, at_e, back, back₁, setN, nexts₁, setP, released]
  · rw [nexts₃, nexts₂, nexts₁]
    simpa [cells] using (forward.unlink distinct at_e).update outside none
  · rw [prevs₃, prevs₂, prevs₁]
    simpa [cells] using (backward.unlink reversed back).update outsideReversed none
  · have capacity := represents.capacity
    simp only [List.length_append, List.length_cons, List.length_nil] at capacity ⊢
    omega
  · have bound := represents.bound
    simp only [List.length_append, List.length_cons, List.length_nil] at bound ⊢
    omega

/-- Removal of any entry leaves the entries before and behind it, in their order. -/
theorem remove_entry (represents : Represents dir (xs ++ e :: ys)) :
    ∃ dir', cellRemove dir (some e.cell) = some dir' ∧ Represents dir' (xs ++ ys) := by
  induction xs using List.reverseRecOn with
  | nil => exact remove_first represents
  | append_singleton xs p =>
    cases ys with
    | nil => simpa using remove_last represents
    | cons n ys => exact remove_middle represents

/-- Two fresh blocks become an entry. -/
theorem Owned.add {record cell : Addr} (owned : Owned heap es)
    (freeRecord : heap record = none) (freeCell : heap cell = none) (apart : record ≠ cell)
    (abonent : Abonent) (prev next : Option Addr) :
    Owned (Function.update (Function.update heap record (some (.record abonent))) cell
      (some (.cell ⟨record, prev, next⟩))) (es ++ [⟨cell, record, abonent⟩]) := by
  have liveCell {e : Entry Addr} (inside : e ∈ es) {a : Addr} (free : heap a = none) :
    e.cell ≠ a := by
    rintro rfl
    have data := owned.data e inside
    simp [dataOf, cellOf, free] at data
  have liveRecord {e : Entry Addr} (inside : e ∈ es) {a : Addr} (free : heap a = none) :
      e.record ≠ a := by
    rintro rfl
    have record := owned.records e inside
    simp [recordOf, free] at record
  refine ⟨?_, ?_, ?_, ?_, ?_⟩
  · intro e inside
    rw [dataOf_update, dataOf_update]
    rcases List.mem_append.mp inside with old | isNew
    · rw [Function.update_of_ne (liveCell old freeCell),
        Function.update_of_ne (liveCell old freeRecord)]
      exact owned.data e old
    · obtain rfl := List.mem_singleton.mp isNew
      rw [Function.update_self]
      rfl
  · intro e inside
    rw [recordOf_update, recordOf_update]
    rcases List.mem_append.mp inside with old | isNew
    · rw [Function.update_of_ne (liveRecord old freeCell),
        Function.update_of_ne (liveRecord old freeRecord)]
      exact owned.records e old
    · obtain rfl := List.mem_singleton.mp isNew
      rw [Function.update_of_ne apart, Function.update_self]
      rfl
  · rw [cells, List.map_append, List.nodup_append]
    refine ⟨owned.cellsDistinct, by simp, ?_⟩
    rintro _ inside _ isNew rfl
    obtain ⟨e, inside, same⟩ := List.mem_map.mp inside
    exact liveCell inside freeCell (same.trans (by simpa using isNew))
  · rw [List.map_append, List.nodup_append]
    refine ⟨owned.recordsDistinct, by simp, ?_⟩
    rintro _ inside _ isNew rfl
    obtain ⟨e, inside, same⟩ := List.mem_map.mp inside
    exact liveRecord inside freeRecord (same.trans (by simpa using isNew))
  · intro a live
    by_cases isCell : a = cell
    · exact Or.inl ⟨_, List.mem_append_right _ (List.mem_singleton.mpr rfl), isCell⟩
    · rw [Function.update_of_ne isCell] at live
      by_cases isRecord : a = record
      · exact Or.inr ⟨_, List.mem_append_right _ (List.mem_singleton.mpr rfl), isRecord⟩
      · rw [Function.update_of_ne isRecord] at live
        rcases owned.complete a live with ⟨e, inside, same⟩ | ⟨e, inside, same⟩
        · exact Or.inl ⟨e, List.mem_append_left _ inside, same⟩
        · exact Or.inr ⟨e, List.mem_append_left _ inside, same⟩

/-- An addition to a directory with room links a new cell behind the tail; the two new
blocks were free. -/
theorem add_entry {record cell : Addr} (abonent : Abonent) (represents : Represents dir es)
    (room : es.length < 100) (freeRecord : dir.heap record = none) (freeCell : dir.heap cell = none)
    (apart : record ≠ cell) :
    ∃ dir', cellAdd { dir with heap := Function.update dir.heap record (some (.record abonent)) }
      record cell = some dir' ∧ Represents dir' (es ++ [⟨cell, record, abonent⟩]) := by
  have capacity := represents.capacity
  have notFull : dir.capacity ≠ 100 := by omega
  have owned := represents.owned
  have fresh : cell ∉ cells es := by
    intro inside
    obtain ⟨e, member, rfl⟩ := List.mem_map.mp inside
    have data := owned.data e member
    simp [dataOf, cellOf, freeCell] at data
  have noRecord : nextOf dir.heap record = none ∧ prevOf dir.heap record = none := by
    simp [nextOf, prevOf, cellOf, freeRecord]
  have added (prev : Option Addr) := owned.add freeRecord freeCell apart abonent prev none
  have nexts (prev : Option Addr) : nextOf (Function.update (Function.update dir.heap record
      (some (.record abonent))) cell (some (.cell ⟨record, prev, none⟩))) =
      Function.update (nextOf dir.heap) cell (some none) := by
    rw [nextOf_update, nextOf_update]
    exact congrArg (Function.update · cell (some none)) (update_same noRecord.1)
  have prevs (prev : Option Addr) : prevOf (Function.update (Function.update dir.heap record
      (some (.record abonent))) cell (some (.cell ⟨record, prev, none⟩))) =
      Function.update (prevOf dir.heap) cell (some prev) := by
    rw [prevOf_update, prevOf_update]
    exact congrArg (Function.update · cell (some prev)) (update_same noRecord.2)
  rcases List.eq_nil_or_concat' es with rfl | ⟨es, l, rfl⟩
  · have isEmpty : dir.head = none := represents.forward
    refine ⟨_, by simp [cellAdd, notFull, isEmpty]; rfl, added none, ?_, fun _ => ?_,
      by simp [capacity], by simp⟩
    · rw [nexts none]
      exact ⟨rfl, none, Function.update_self _ _ _, rfl⟩
    · rw [prevs none]
      exact ⟨rfl, none, Function.update_self _ _ _, rfl⟩
  · have backward := represents.backward (by simp)
    have forward := represents.forward
    simp only [cells, List.map_append, List.map_singleton, List.reverse_append,
      List.reverse_singleton,
      List.singleton_append] at backward forward
    have atTail := backward.start
    obtain ⟨heap₂, set, relinked, nexts₂, prevs₂⟩ :=
      setNext_spec ((added dir.tail).data l (by simp)) (some cell)
    obtain ⟨first, atHead⟩ := forward.exists_start (by simp)
    have outside : l.cell ∉ cells es := by
      have distinct := owned.cellsDistinct
      rw [cells, List.map_append, List.map_singleton, List.nodup_append] at distinct
      exact fun inside => distinct.2.2 _ inside _ (by simp) rfl
    refine ⟨⟨heap₂, dir.head, some cell, dir.capacity + 1⟩, ?_, (added dir.tail).relinked relinked,
      ?_, fun _ => ?_, ?_, ?_⟩
    · rw [← atTail] at set
      simp [cellAdd, notFull, atHead, set]
    · have apart : cell ≠ l.cell := fun same => fresh (by simp [same])
      rw [nexts₂, nexts, cells, List.map_append, List.map_append, List.map_singleton]
      refine path_snoc.mpr ⟨(forward.update (by simpa using fresh) _).redirect outside _, ?_⟩
      rw [Function.update_of_ne apart, Function.update_self]
    · rw [prevs₂, prevs]
      simpa using path_cons.mpr ⟨rfl, dir.tail, Function.update_self _ _ _,
        backward.update (by simpa [and_comm] using fresh) _⟩
    · simp only [List.length_append, List.length_singleton] at capacity ⊢
      omega
    · simp at room ⊢
      omega

/-- `dir_free` frees every block of every entry, each once, and nothing else is left
allocated. -/
theorem freeLoop_all {p : Option Addr} (owned : Owned heap es)
    (path : Path (nextOf heap) p (cells es) none) :
    ∃ heap', freeLoop heap es.length p = some heap' ∧ ∀ a, heap' a = none := by
  induction es generalizing heap p with
  | nil =>
    refine ⟨heap, rfl, fun a => ?_⟩
    by_contra live
    rcases owned.complete a live with ⟨e, inside, _⟩ | ⟨e, inside, _⟩ <;>
      exact List.not_mem_nil inside
  | cons e es ih =>
    obtain ⟨rfl, next, at_e, rest⟩ := path
    have first : Owned heap ([] ++ e :: es) := owned
    obtain ⟨heap₁, released, left, nexts, _⟩ := first.release
    have fresh : e.cell ∉ cells es := (List.nodup_cons.mp owned.cellsDistinct).1
    obtain ⟨heap₂, freed, empty⟩ := ih left (nexts ▸ rest.update fresh none)
    exact ⟨heap₂, by simp [freeLoop, at_e, released, freed], empty⟩

/-- What the user is told to expect of each command. -/
def reference (xs : List Abonent) : Action Addr → List Abonent
  | .add abonent _ _ => if xs.length = 100 then xs else xs ++ [abonent]
  | .delete name => xs.eraseP (·.name = name)
  | .search _ | .print => xs

/-- The record of a cell. -/
def abonentAt (heap : Heap Addr) (cell : Addr) : Option Abonent :=
  (dataOf heap cell).bind (recordOf heap)

/-- The cells met from `head` along `next` hold the list, and every operation
goes by it: none of them uses a block that is not live. -/
structure Refines (dir : Directory Addr) (xs : List Abonent) : Prop where
  visited : ∃ cs, Path (nextOf dir.heap) dir.head cs none ∧ cs.map (abonentAt dir.heap) =
    xs.map some ∧
    ∀ name, cellSearch dir name =
      some (cs.find? fun c => (abonentAt dir.heap c).any fun abonent => abonent.name = name)
  capacity : dir.capacity = xs.length
  searched : ∀ name, searchAndPrint dir name = some (xs.find? fun abonent => abonent.name = name)
  printed : printAll dir = some xs
  defined : ∀ a, Allocates dir a → ∃ dir', step dir a = some dir'
  freed : ∃ dir', dirFree dir = some dir' ∧ ∀ a, dir'.heap a = none

/-- Option 2 removes the first entry of the name and frees its blocks, and does nothing
if there is none. -/
theorem delete_entry (represents : Represents dir es) (name : Text) :
    ∃ dir' es', step dir (.delete name) = some dir' ∧ Represents dir' es' ∧
      abonents es' = (abonents es).eraseP (·.name = name) := by
  have capacity := represents.capacity
  simp only [step]
  split
  next empty =>
    obtain rfl : es = [] := List.eq_nil_of_length_eq_zero (by omega)
    exact ⟨dir, [], rfl, represents, rfl⟩
  next nonempty =>
    rw [cellSearch_found represents]
    cases found : es.find? fun e => e.abonent.name = name with
    | none =>
      refine ⟨dir, es, rfl, represents, (List.eraseP_of_forall_not fun abonent inside => ?_).symm⟩
      obtain ⟨e, member, rfl⟩ := List.mem_map.mp inside
      exact List.find?_eq_none.mp found e member
    | some e =>
      obtain ⟨isNamed, xs, ys, rfl, before⟩ := List.find?_eq_some_iff_append.mp found
      obtain ⟨dir', removed, represents'⟩ := remove_entry represents
      refine ⟨dir', xs ++ ys, removed, represents', ?_⟩
      have others (abonent : Abonent) (inside : abonent ∈ abonents xs) : ¬ abonent.name = name := by
        obtain ⟨x, member, rfl⟩ := List.mem_map.mp inside
        simpa using before x member
      rw [abonents, abonents, List.map_append, List.map_append, List.map_cons,
        List.eraseP_append_right _ (by simpa using others)]
      simp [show e.abonent.name = name by simpa using isNamed]

/-- Each option does to the list of entries what the reference does, and no pointer it
follows is dangling. -/
theorem represents_step (represents : Represents dir es) {a : Action Addr}
    (allocates : Allocates dir a) :
    ∃ dir' es', step dir a = some dir' ∧ Represents dir' es' ∧
      abonents es' = reference (abonents es) a := by
  have capacity := represents.capacity
  cases a with
  | add abonent record cell =>
    obtain ⟨freeRecord, freeCell, apart⟩ := allocates
    simp only [step, reference, abonents, List.length_map]
    by_cases full : es.length = 100
    · exact ⟨dir, es, by simp [capacity, full], represents, by simp [full]⟩
    · have room : es.length < 100 := Nat.lt_of_le_of_ne represents.bound full
      obtain ⟨dir', added, represents'⟩ := add_entry _ represents room freeRecord freeCell apart
      have notFull : dir.capacity ≠ 100 := by omega
      exact ⟨dir', _, by rw [if_neg notFull, added], represents', by simp [full]⟩
  | delete name => exact delete_entry represents name
  | search name =>
    refine ⟨dir, es, ?_, represents, rfl⟩
    simp [step, searchAndPrint_found represents]
  | print => exact ⟨dir, es, by simp [step, printAll_abonents represents], represents, rfl⟩

/-- So the cells in the heap show the same as the list, in both directions. -/
theorem Represents.refines (represents : Represents dir es) : Refines dir (abonents es) where
  visited := by
    have held (e : Entry Addr) (inside : e ∈ es) : abonentAt dir.heap e.cell = some e.abonent := by
      simp [abonentAt, represents.owned.data e inside, represents.owned.records e inside]
    refine ⟨cells es, represents.forward, ?_, fun name => ?_⟩
    · simpa using held
    · rw [cellSearch_found represents, cells, List.find?_map]
      congr 2
      exact List.find?_congr fun e inside => by simp [held e inside]
  capacity := by simp [represents.capacity]
  searched := searchAndPrint_found represents
  printed := printAll_abonents represents
  defined a allocates := by
    obtain ⟨dir', _, stepped, _⟩ := represents_step represents allocates
    exact ⟨dir', stepped⟩
  freed := by
    obtain ⟨heap, freed, empty⟩ := freeLoop_all represents.owned represents.forward
    exact ⟨⟨heap, none, none, 0⟩, by simp [dirFree, represents.capacity, freed], empty⟩

/-- After every sequence of commands, whatever free addresses `malloc` returned,
the directory is the list the commands stand for. -/
theorem directory_refines {log : List (Action Addr)}
    (run : system.Reach Allocates directoryInit log dir) :
    Refines dir (log.foldl reference []) := by
  obtain ⟨es, represents, same⟩ := run.invariant
    (fun log dir => ∃ es, Represents dir es ∧ abonents es = log.foldl reference [])
    ⟨[], represents_init, rfl⟩ fun log dir a dir' ⟨es, represents, same⟩ allocates stepped => by
      obtain ⟨_, es', stepped', represents', next⟩ := represents_step represents allocates
      cases stepped'.symm.trans stepped
      exact ⟨es', represents', by rw [next, same, List.foldl_append]; rfl⟩
  exact same ▸ represents.refines

end

def bob : Abonent := ⟨['b', 'o', 'b'], ['w'], ['1']⟩

def ann : Abonent := ⟨['a', 'n', 'n'], ['w'], ['2']⟩

/-- "bob" is removed while he is alone, and "ann" gets his two blocks the other
way round. -/
def reuse : List (Action Nat) :=
  [.add bob 1 2, .delete ['b', 'o', 'b'], .add ann 2 1, .add bob 3 4,
    .search ['b', 'o', 'b'], .print]

theorem directory_refines_reuse :
    ∃ dir : Directory Nat, system.Reach Allocates directoryInit reuse dir ∧
      Refines dir [ann, bob] := by
  obtain ⟨log, dir, run, rfl⟩ := system.exists_reach Allocates directoryInit reuse
    (fun log _ => log = reuse) (by decide)
  exact ⟨dir, run, directory_refines run⟩

end EltexCourse.Guarantees.Abonents.Linked
