import Mathlib.Data.List.Find
import EltexCourse.Foundations.Links
import EltexCourse.Foundations.Logs
import EltexCourse.Source.Echo.ClientList

/-!
# task_echo: the table counts

`Represents` ties the nodes to a list of entries with different keys. Read as a
map from keys to counts, an addition counts its key up, `list_switch_off` sets
its key to zero, and nothing else changes; so every count returned is the
number of additions of the key since it was last switched off.
-/

set_option autoImplicit false

namespace EltexCourse.Guarantees.Echo.Counts
open Foundations.Transition Foundations.Links Foundations.Logs Source.Echo

abbrev Key := Int × Int

structure Entry (Addr : Type) where
  cell : Addr
  key : Key
  count : Int
  deriving DecidableEq, Repr

def isAdd (key : Key) : Event → Bool
  | .added ip port _ => (ip, port) = key
  | .switchedOff _ _ => false

def isOff (key : Key) : Event → Bool
  | .added _ _ _ => false
  | .switchedOff ip port => (ip, port) = key

/-- The additions of a key since it was last switched off. -/
def sinceOff (key : Key) (log : List Event) : Nat := sinceLast (isOff key) (isAdd key) log

def additions (log : List Event) : Nat :=
  log.countP fun
    | .added _ _ _ => true
    | .switchedOff _ _ => false

theorem sinceOff_added (key : Key) (log : List Event) (ip port count : Int) :
    sinceOff key (log ++ [.added ip port count]) =
      if (ip, port) = key then sinceOff key log + 1 else sinceOff key log := by
  rw [sinceOff, sinceLast_append]
  simp [isOff, isAdd, sinceOff]

theorem sinceOff_switchedOff (key : Key) (log : List Event) (ip port : Int) :
    sinceOff key (log ++ [.switchedOff ip port]) =
      if (ip, port) = key then 0 else sinceOff key log := by
  rw [sinceOff, sinceLast_append]
  simp [isOff, isAdd, sinceOff]

/-- A client has been added no more often since it was switched off than all clients
together ever. -/
theorem sinceOff_le (key : Key) (log : List Event) : sinceOff key log ≤ additions log := by
  refine Nat.le_trans sinceLast_le (List.countP_mono_left fun e _ added => ?_)
  cases e with
  | added => rfl
  | switchedOff => cases added

section
variable {Addr : Type} {es xs ys : List (Entry Addr)} {e : Entry Addr} {key : Key}

def countOf (es : List (Entry Addr)) (key : Key) : Int :=
  ((es.find? fun e => e.key = key).map Entry.count).getD 0

theorem countOf_absent (absent : ∀ e ∈ es, e.key ≠ key) : countOf es key = 0 := by
  rw [countOf, List.find?_eq_none.mpr (by simpa using absent)]
  rfl

/-- The first entry with the key gives the count. -/
theorem countOf_present (before : ∀ x ∈ xs, x.key ≠ e.key) :
    countOf (xs ++ e :: ys) e.key = e.count := by
  have found : (xs ++ e :: ys).find? (fun x => x.key = e.key) = some e :=
    List.find?_eq_some_iff_append.mpr ⟨by simp, xs, ys, rfl, by simpa using before⟩
  rw [countOf, found]
  rfl

/-- A new entry at the end changes the count of its own key only. -/
theorem countOf_snoc (absent : ∀ x ∈ es, x.key ≠ e.key) :
    countOf (es ++ [e]) = Function.update (countOf es) e.key e.count := by
  funext key
  by_cases same : key = e.key
  · rw [same, Function.update_self]
    exact countOf_present absent
  · have other : e.key ≠ key := fun equal => same equal.symm
    rw [Function.update_of_ne same, countOf, countOf, List.find?_append]
    simp [other]

/-- So does a change of the first entry with a key. -/
theorem countOf_changed (before : ∀ x ∈ xs, x.key ≠ e.key) (count : Int) :
    countOf (xs ++ { e with count } :: ys) =
      Function.update (countOf (xs ++ e :: ys)) e.key count := by
  funext key
  by_cases same : key = e.key
  · rw [same, Function.update_self]
    exact countOf_present (e := { e with count }) before
  · have other : e.key ≠ key := fun equal => same equal.symm
    rw [Function.update_of_ne same, countOf, countOf, List.find?_append, List.find?_append]
    simp [other]

end

section
variable {Addr : Type} {es es' : List (Entry Addr)} {log : List Event} {e : Event}

/-- What identifies a node. -/
def Entry.node (e : Entry Addr) : Addr × Key := (e.cell, e.key)

/-- What a call does to the map from keys to counts. -/
def counted (counts : Key → Int) : Event → Key → Int
  | .added ip port _ => Function.update counts (ip, port) (counts (ip, port) + 1)
  | .switchedOff ip port => Function.update counts (ip, port) 0

/-- One call on a table: no node goes, at most one comes, and the counts are
those of the map. -/
structure Steps (es es' : List (Entry Addr)) (e : Event) : Prop where
  kept : es.map Entry.node <+: es'.map Entry.node
  grown : es'.length ≤ es.length + additions [e]
  counts : countOf es' = counted (countOf es) e
  returned : ∀ ip port n, e = .added ip port n → n = countOf es (ip, port) + 1

/-- The entries hold the counts of the log, and so did every count returned. -/
structure Tracks (log : List Event) (es : List (Entry Addr)) : Prop where
  counts : ∀ key, countOf es key = sinceOff key log
  length : es.length ≤ additions log
  returned : EachEntry (fun before e => ∀ ip port (n : Int), e = .added ip port n →
    n = sinceOff (ip, port) before + 1) log

theorem additions_append (log more : List Event) :
    additions (log ++ more) = additions log + additions more := List.countP_append ..

theorem tracks_init : Tracks [] ([] : List (Entry Addr)) :=
  ⟨fun _ => rfl, Nat.le_refl _, eachEntry_nil⟩

/-- One change of the list is the same change of the counts, read off the log. -/
theorem tracks_step (tracks : Tracks log es) (steps : Steps es es' e) :
    Tracks (log ++ [e]) es' where
  counts key := by
    rw [steps.counts]
    cases e with
    | added ip port n =>
      rw [sinceOff_added, counted, tracks.counts]
      by_cases same : (ip, port) = key
      · subst same
        simp
      · rw [Function.update_of_ne fun equal => same equal.symm, if_neg same, tracks.counts]
    | switchedOff ip port =>
      rw [sinceOff_switchedOff, counted]
      by_cases same : (ip, port) = key
      · subst same
        simp
      · rw [Function.update_of_ne fun equal => same equal.symm, if_neg same, tracks.counts]
  length := by
    have grown := steps.grown
    have before := tracks.length
    rw [additions_append]
    omega
  returned := tracks.returned.append fun ip port n same => by
    rw [steps.returned ip port n same, tracks.counts]

end

section
variable {Addr : Type} {heap : Heap Addr} {list : ClientList Addr}
  {es xs ys : List (Entry Addr)} {e : Entry Addr} {a : Addr}

def nextOf (heap : Heap Addr) (a : Addr) : Option (Option Addr) := (heap a).map Node.next

/-- Key and count of the node at an address. -/
def contentOf (heap : Heap Addr) (a : Addr) : Option (Key × Int) :=
  (heap a).map fun node => ((node.ip, node.port), node.count)

abbrev cells (es : List (Entry Addr)) : List Addr := es.map Entry.cell

abbrev keys (es : List (Entry Addr)) : List Key := es.map Entry.key

structure Represents (list : ClientList Addr) (es : List (Entry Addr)) : Prop where
  chain : Path (nextOf list.heap) list.head (cells es) none
  content : ∀ e ∈ es, contentOf list.heap e.cell = some (e.key, e.count)
  cellsDistinct : (cells es).Nodup
  keysDistinct : (keys es).Nodup
  tail : list.tail = (cells es).getLast?
  size : list.size = es.length

theorem represents_init : Represents (listInit : ClientList Addr) [] :=
  ⟨rfl, by simp, by simp, by simp, rfl, rfl⟩

theorem content_node {key : Key} {count : Int} (content : contentOf heap a = some (key, count)) :
    ∃ next, heap a = some ⟨key.1, key.2, count, next⟩ := by
  obtain ⟨⟨ip, port, n, next⟩, live, same⟩ := Option.map_eq_some_iff.mp content
  cases same
  exact ⟨next, live⟩

/-- The search goes along the chain to the first node with the key, and ends after as
many turns as there are nodes at most. -/
theorem findLoop_spec {ip port : Int} {turns : Nat} {p : Option Addr}
    (chain : Path (nextOf heap) p (cells es) none)
    (content : ∀ e ∈ es, contentOf heap e.cell = some (e.key, e.count))
    (enough : es.length < turns) :
    findLoop heap ip port turns p =
      some ((es.find? fun e => e.key = (ip, port)).map Entry.cell) := by
  induction es generalizing p turns with
  | nil =>
    obtain ⟨turns, rfl⟩ := Nat.exists_eq_succ_of_ne_zero (Nat.ne_of_gt enough)
    obtain rfl := chain
    rfl
  | cons e es ih =>
    obtain ⟨turns, rfl⟩ := Nat.exists_eq_succ_of_ne_zero (Nat.ne_of_gt (Nat.zero_lt_of_lt enough))
    obtain ⟨rfl, next, link, rest⟩ := path_cons.mp chain
    obtain ⟨next', live⟩ := content_node (content e (by simp))
    rw [nextOf, live] at link
    cases link
    have later := ih rest (fun x inside => content x (List.mem_cons_of_mem _ inside))
      (Nat.lt_of_succ_lt_succ enough)
    by_cases same : e.key = (ip, port)
    · simp [findLoop, live, same]
    · have differs : ¬ (e.key.1 = ip ∧ e.key.2 = port) := fun both =>
        same (Prod.ext both.1 both.2)
      simp [findLoop, live, same, differs, later]

/-- `list_find` returns the node of the first entry with the address and port, or null.
-/
theorem listFind_spec (rep : Represents list es) (ip port : Int) :
    listFind list ip port = some ((es.find? fun e => e.key = (ip, port)).map Entry.cell) := by
  refine findLoop_spec rep.chain rep.content ?_
  rw [rep.size, Int.toNat_natCast]
  exact Nat.lt_succ_self _

theorem cell_live (rep : Represents list es) {a : Addr} (inside : a ∈ cells es) :
    list.heap a ≠ none := by
  obtain ⟨e, member, rfl⟩ := List.mem_map.mp inside
  obtain ⟨next, live⟩ := content_node (rep.content e member)
  simp [live]

/-- A block that `malloc` returns is none of the nodes, as those are allocated. -/
theorem not_mem_of_free (rep : Represents list es) {new : Addr} (free : list.heap new = none) :
    new ∉ cells es :=
  fun inside => cell_live rep inside free

theorem find_absent {key : Key} (absent : key ∉ keys es) :
    es.find? (fun e => e.key = key) = none :=
  List.find?_eq_none.mpr fun e inside same =>
    absent (List.mem_map.mpr ⟨e, inside, of_decide_eq_true same⟩)

theorem nil_of_head (rep : Represents list es) (empty : list.head = none) : es = [] := by
  by_contra nonempty
  have visited : cells es ≠ [] := by simpa using nonempty
  obtain ⟨a, start⟩ := rep.chain.exists_start visited
  rw [empty] at start
  cases start

/-- The entry of a key, and where it stands. -/
theorem exists_entry (rep : Represents list es) {key : Key} (present : key ∈ keys es) :
    ∃ xs e ys, es = xs ++ e :: ys ∧ e.key = key ∧ ∀ x ∈ xs, x.key ≠ e.key := by
  obtain ⟨e, member, rfl⟩ := List.mem_map.mp present
  obtain ⟨xs, ys, rfl⟩ := List.append_of_mem member
  exact ⟨xs, e, ys, rfl, rfl, fun x inside =>
    (nodup_middle rep.keysDistinct).2 x (List.mem_append_left _ inside)⟩

theorem listFind_present {ip port : Int} (rep : Represents list (xs ++ e :: ys))
    (key : e.key = (ip, port)) (before : ∀ x ∈ xs, x.key ≠ e.key) :
    listFind list ip port = some (some e.cell) := by
  rw [key] at before
  have found : (xs ++ e :: ys).find? (fun x => x.key = (ip, port)) = some e :=
    List.find?_eq_some_iff_append.mpr ⟨by simp [key], xs, ys, rfl, by simpa using before⟩
  rw [listFind_spec rep, found]
  rfl

theorem head_of_entry (rep : Represents list (xs ++ e :: ys)) : ∃ a, list.head = some a := by
  have nonempty : cells (xs ++ e :: ys) ≠ [] := by simp [cells]
  exact rep.chain.exists_start nonempty

theorem absent_keys {key : Key} (absent : key ∉ keys es) (x : Entry Addr) (inside : x ∈ es) :
    x.key ≠ key :=
  fun same => absent (List.mem_map.mpr ⟨x, inside, same⟩)

variable [DecidableEq Addr]

theorem nextOf_update (heap : Heap Addr) (a : Addr) (node : Option (Node Addr)) :
    nextOf (Function.update heap a node) =
      Function.update (nextOf heap) a (node.map Node.next) :=
  Function.comp_update (Option.map Node.next) heap a node

theorem contentOf_update (heap : Heap Addr) (a : Addr) (node : Option (Node Addr)) :
    contentOf (Function.update heap a node) =
      Function.update (contentOf heap) a
        (node.map fun node => ((node.ip, node.port), node.count)) :=
  Function.comp_update (Option.map fun node : Node Addr => ((node.ip, node.port), node.count))
    heap a node

/-- Only the count of one entry changes. -/
theorem represents_setCount (rep : Represents list (xs ++ e :: ys)) {node : Node Addr}
    (live : list.heap e.cell = some node) (count : Int) :
    Represents (setCount list e.cell node count) (xs ++ { e with count } :: ys) := by
  have key := rep.content e (by simp)
  rw [contentOf, live] at key
  have cellsSame : cells (xs ++ { e with count } :: ys) = cells (xs ++ e :: ys) := by simp [cells]
  have apart := (nodup_middle rep.cellsDistinct).2
  refine ⟨?_, ?_, cellsSame ▸ rep.cellsDistinct, ?_, ?_, ?_⟩
  · have links : nextOf (setCount list e.cell node count).heap = nextOf list.heap := by
      rw [setCount, nextOf_update]
      refine Function.update_eq_self_iff.mpr ?_
      rw [nextOf, live]
      rfl
    rw [links, cellsSame]
    exact rep.chain
  · intro x inside
    rw [setCount, contentOf_update]
    by_cases changed : x = { e with count }
    · have same : (node.ip, node.port) = e.key := congrArg Prod.fst (Option.some.inj key)
      rw [changed, Function.update_self]
      show some ((node.ip, node.port), count) = some (e.key, count)
      rw [same]
    · have other : x ∈ xs ++ ys := by simpa [changed] using inside
      rw [Function.update_of_ne (apart x other)]
      exact rep.content x (by
        rcases List.mem_append.mp other with before | later
        · exact List.mem_append_left _ before
        · exact List.mem_append_right _ (List.mem_cons_of_mem _ later))
  · simpa [keys] using rep.keysDistinct
  · rw [cellsSame]
    exact rep.tail
  · show list.size = _
    simpa using rep.size

/-- A table with one more node at its end. -/
theorem represents_snoc (rep : Represents list es) {new : Addr} {key : Key}
    (free : list.heap new = none) (absent : key ∉ keys es) {heap : Heap Addr} {head : Option Addr}
    (chain : Path (nextOf heap) head (cells es ++ [new]) none)
    (contents : contentOf heap = Function.update (contentOf list.heap) new (some (key, 1))) :
    Represents ⟨heap, head, some new, es.length + 1⟩ (es ++ [⟨new, key, 1⟩]) := by
  have outside := not_mem_of_free rep free
  refine ⟨by simpa [cells] using chain, ?_, ?_, ?_, by simp [cells], by simp⟩
  · intro e inside
    rw [contents]
    rcases List.mem_append.mp inside with old | fresh
    · have other : e.cell ≠ new := fun same => outside (List.mem_map.mpr ⟨e, old, same⟩)
      rw [Function.update_of_ne other]
      exact rep.content e old
    · obtain rfl := List.mem_singleton.mp fresh
      rw [Function.update_self]
  · simpa [cells] using List.nodup_append.mpr ⟨rep.cellsDistinct, List.nodup_singleton new,
      fun a old b fresh same => outside (List.mem_singleton.mp fresh ▸ same ▸ old)⟩
  · simpa [keys] using List.nodup_append.mpr ⟨rep.keysDistinct, List.nodup_singleton key,
      fun a old b fresh same => absent (List.mem_singleton.mp fresh ▸ same ▸ old)⟩

theorem increment_map {β : Type} (n : Int) (result : Int → β) :
    (increment n).map result = if n + 1 < 2 ^ 31 then some (result (n + 1)) else none := by
  unfold increment
  split <;> rfl

theorem listAdd_first {ip port : Int} (malloc : Addr) (start : list.head = none) :
    listAdd list ip port malloc = (increment list.size).map fun size =>
      (⟨Function.update list.heap malloc (some ⟨ip, port, 1, none⟩), some malloc, some malloc,
        size⟩, 1) := by
  rw [listAdd, start]
  cases increment list.size <;> rfl

/-- Into a list that has nodes the new one goes behind `tail`. -/
theorem listAdd_behind {ip port : Int} (malloc : Addr) {first tail : Addr} {last : Node Addr}
    (start : list.head = some first) (notFound : listFind list ip port = some none)
    (atTail : list.tail = some tail)
    (live : Function.update list.heap malloc (some ⟨ip, port, 1, none⟩) tail = some last) :
    listAdd list ip port malloc = (increment list.size).map fun size =>
      (⟨Function.update (Function.update list.heap malloc (some ⟨ip, port, 1, none⟩)) tail
        (some { last with next := some malloc }), list.head, some malloc, size⟩, 1) := by
  simp only [listAdd, start, notFound, atTail, live, Option.bind_eq_bind, Option.bind_some]
  cases increment list.size <;> rfl

theorem listAdd_found {ip port : Int} (malloc : Addr) {first n : Addr} {node : Node Addr}
    (start : list.head = some first) (found : listFind list ip port = some (some n))
    (live : list.heap n = some node) :
    listAdd list ip port malloc =
      (increment node.count).map fun count => (setCount list n node count, count) := by
  simp only [listAdd, start, found, live, Option.bind_eq_bind, Option.bind_some]
  cases increment node.count <;> rfl

/-- The first node of all, or one behind the last. -/
theorem listAdd_new (rep : Represents list es) {ip port : Int} (absent : (ip, port) ∉ keys es)
    {malloc : Addr} (free : list.heap malloc = none) :
    ∃ list', Represents list' (es ++ [⟨malloc, (ip, port), 1⟩]) ∧
      listAdd list ip port malloc =
        if (es.length : Int) + 1 < 2 ^ 31 then some (list', 1) else none := by
  have outside := not_mem_of_free rep free
  cases start : list.head with
  | none =>
    obtain rfl := nil_of_head rep start
    refine ⟨⟨Function.update list.heap malloc (some ⟨ip, port, 1, none⟩), some malloc,
      some malloc, _⟩, represents_snoc rep free absent ?_ ?_, ?_⟩
    · rw [nextOf_update]
      exact ⟨rfl, none, Function.update_self _ _ _, rfl⟩
    · rw [contentOf_update]
      rfl
    · rw [listAdd_first malloc start, increment_map, rep.size]
  | some first =>
    obtain rfl | ⟨xs, last, rfl⟩ := List.eq_nil_or_concat' es
    · have chain := rep.chain
      rw [start] at chain
      cases chain
    · obtain ⟨next, live⟩ := content_node (rep.content last (by simp))
      have tail : list.tail = some last.cell := by simpa [cells] using rep.tail
      have notFound : listFind list ip port = some none := by
        rw [listFind_spec rep, find_absent absent]
        rfl
      have other : last.cell ≠ malloc := fun same => outside (by simp [cells, ← same])
      have liveStill : Function.update list.heap malloc (some ⟨ip, port, 1, none⟩) last.cell =
          some ⟨last.key.1, last.key.2, last.count, next⟩ := by
        rw [Function.update_of_ne other, live]
      refine ⟨⟨Function.update (Function.update list.heap malloc (some ⟨ip, port, 1, none⟩))
        last.cell (some ⟨last.key.1, last.key.2, last.count, some malloc⟩), list.head,
        some malloc, _⟩, represents_snoc rep free absent ?_ ?_, ?_⟩
      · have chain := rep.chain
        simp only [cells, List.map_append, List.map_cons, List.map_nil] at chain outside ⊢
        have before : last.cell ∉ xs.map Entry.cell := fun inside =>
          (List.nodup_append.mp (by simpa [cells] using rep.cellsDistinct)).2.2 _ inside _
            (List.mem_singleton_self _) rfl
        rw [nextOf_update, nextOf_update]
        refine path_snoc.mpr ⟨(chain.update outside _).redirect before _, ?_⟩
        rw [Function.update_of_ne other.symm]
        exact Function.update_self _ _ _
      · rw [contentOf_update, contentOf_update]
        refine Function.update_eq_self_iff.mpr ?_
        rw [Function.update_of_ne other, contentOf, live]
        rfl
      · rw [listAdd_behind malloc start notFound tail liveStill, increment_map, rep.size]

/-- An address that is listed gets no second node; its count goes up by one. -/
theorem listAdd_known {ip port : Int} (rep : Represents list (xs ++ e :: ys))
    (key : e.key = (ip, port)) (before : ∀ x ∈ xs, x.key ≠ e.key) (malloc : Addr) :
    ∃ list', Represents list' (xs ++ { e with count := e.count + 1 } :: ys) ∧
      listAdd list ip port malloc =
        if e.count + 1 < 2 ^ 31 then some (list', e.count + 1) else none := by
  obtain ⟨first, start⟩ := head_of_entry rep
  obtain ⟨next, live⟩ := content_node (rep.content e (by simp))
  have found := listFind_present rep key before
  refine ⟨_, represents_setCount rep live _, ?_⟩
  rw [listAdd_found malloc start found live, increment_map]

/-- Switching off sets the count of the first node with the key to zero and leaves it in
the list. -/
theorem listSwitchOff_known {ip port : Int} (rep : Represents list (xs ++ e :: ys))
    (key : e.key = (ip, port)) (before : ∀ x ∈ xs, x.key ≠ e.key) :
    ∃ list', Represents list' (xs ++ { e with count := 0 } :: ys) ∧
      listSwitchOff list ip port = some list' := by
  obtain ⟨next, live⟩ := content_node (rep.content e (by simp))
  have found := listFind_present rep key before
  exact ⟨_, represents_setCount rep live _, by simp [listSwitchOff, found, live]⟩

/-- For a key that is not listed nothing happens. -/
theorem listSwitchOff_absent {ip port : Int} (rep : Represents list es)
    (absent : (ip, port) ∉ keys es) : listSwitchOff list ip port = some list := by
  have notFound : listFind list ip port = some none := by
    rw [listFind_spec rep, find_absent absent]
    rfl
  simp [listSwitchOff, notFound]

/-- The additions a call makes. -/
def adds : Call Addr → Nat
  | .add _ _ _ => 1
  | .switchOff _ _ => 0

/-- A count that the call may have to raise has reached its bound. -/
def Full (es : List (Entry Addr)) (c : Call Addr) : Prop :=
  2 ^ 31 ≤ (es.length : Int) + adds c ∨ ∃ key, 2 ^ 31 ≤ countOf es key + adds c

omit [DecidableEq Addr] in
/-- Fewer additions than an `int` counts fill nothing. -/
theorem Tracks.not_full {log : List Event} (tracks : Tracks log es) {c : Call Addr}
    (few : additions log + adds c < 2 ^ 31) : ¬ Full es c := by
  have length := tracks.length
  intro full
  rcases full with full | ⟨key, full⟩
  · omega
  · have counted := sinceOff_le key log
    rw [tracks.counts] at full
    omega

/-- An addition steps the map, unless a count is full. -/
theorem listAdd_steps (rep : Represents list es) (ip port : Int) {malloc : Addr}
    (free : list.heap malloc = none) :
    (∃ list' n es', listAdd list ip port malloc = some (list', n) ∧ Represents list' es' ∧
        Steps es es' (.added ip port n)) ∨
      (listAdd list ip port malloc = none ∧ Full es (.add ip port malloc)) := by
  by_cases present : (ip, port) ∈ keys es
  · obtain ⟨xs, e, ys, rfl, key, before⟩ := exists_entry rep present
    have count : countOf (xs ++ e :: ys) e.key = e.count := countOf_present before
    obtain ⟨list', rep', added⟩ := listAdd_known rep key before malloc
    split at added
    next =>
      refine Or.inl ⟨list', _, _, added, rep', by simp [Entry.node], by simp, ?_, ?_⟩
      · rw [countOf_changed before, counted, ← key, count]
      · rintro _ _ _ same
        cases same
        rw [← key, count]
    next full => exact Or.inr ⟨added, Or.inr ⟨e.key, by rw [count]; exact not_lt.mp full⟩⟩
  · obtain ⟨list', rep', added⟩ := listAdd_new rep present free
    have absent := absent_keys present
    split at added
    next =>
      refine Or.inl ⟨list', _, _, added, rep', by simp, by simp [additions], ?_, ?_⟩
      · rw [countOf_snoc absent, counted, countOf_absent absent]
        rfl
      · rintro _ _ _ same
        cases same
        rw [countOf_absent absent]
        rfl
    next full => exact Or.inr ⟨added, Or.inl (not_lt.mp full)⟩

theorem listSwitchOff_steps (rep : Represents list es) (ip port : Int) :
    ∃ list' es', listSwitchOff list ip port = some list' ∧ Represents list' es' ∧
      Steps es es' (.switchedOff ip port) := by
  by_cases present : (ip, port) ∈ keys es
  · obtain ⟨xs, e, ys, rfl, key, before⟩ := exists_entry rep present
    obtain ⟨list', rep', off⟩ := listSwitchOff_known rep key before
    refine ⟨list', _, off, rep', by simp [Entry.node], by simp, ?_,
      fun _ _ _ same => Event.noConfusion same⟩
    rw [countOf_changed before, counted, ← key]
  · refine ⟨list, es, listSwitchOff_absent rep present, rep, List.prefix_refl _,
      Nat.le_add_right _ _, ?_, fun _ _ _ same => Event.noConfusion same⟩
    exact (Function.update_eq_self_iff.mpr (countOf_absent (absent_keys present)).symm).symm

/-- Every call either takes the list one step on, or has no result because a counter is
at the largest `int`. -/
theorem call_spec (rep : Represents list es) (c : Call Addr) (allocates : Allocates list c) :
    (∃ list' e es', call list c = some (list', e) ∧ Represents list' es' ∧ Steps es es' e) ∨
      (call list c = none ∧ Full es c) := by
  cases c with
  | add ip port malloc =>
    rcases listAdd_steps rep ip port allocates with ⟨list', n, es', added, found⟩ | ⟨added, full⟩
    · exact Or.inl ⟨list', _, es', by rw [call, added]; rfl, found⟩
    · exact Or.inr ⟨by rw [call, added]; rfl, full⟩
  | switchOff ip port =>
    obtain ⟨list', es', off, found⟩ := listSwitchOff_steps rep ip port
    exact Or.inl ⟨list', _, es', by rw [call, off]; rfl, found⟩

theorem call_steps (rep : Represents list es) {c : Call Addr} (allocates : Allocates list c)
    {list' : ClientList Addr} {e : Event} (called : call list c = some (list', e)) :
    ∃ es', Represents list' es' ∧ Steps es es' e := by
  rcases call_spec rep c allocates with ⟨list'', e', es', called', found⟩ | ⟨none, -⟩
  · rw [called] at called'
    cases called'
    exact ⟨es', found⟩
  · rw [called] at none
    cases none

/-- Below that bound every call has a result, whichever free block `malloc` gives. -/
theorem call_defined (rep : Represents list es) {c : Call Addr} (allocates : Allocates list c)
    (room : ¬ Full es c) : (call list c).isSome := by
  rcases call_spec rep c allocates with ⟨_, _, _, called, -⟩ | ⟨-, full⟩
  · rw [called]
    rfl
  · exact absurd full room

/-- What a run of calls makes of a table. -/
theorem run_tracked {log more : List Event} {list' : ClientList Addr} (rep : Represents list es)
    (tracks : Tracks log es) (run : calls.Reach Allocates list more list') :
    ∃ es', Represents list' es' ∧ Tracks (log ++ more) es' ∧
      es.map Entry.node <+: es'.map Entry.node := by
  refine run.invariant (fun more list' => ∃ es', Represents list' es' ∧ Tracks (log ++ more) es' ∧
      es.map Entry.node <+: es'.map Entry.node)
    ⟨es, rep, by rwa [List.append_nil], List.prefix_refl _⟩ ?_
  rintro more now c next ⟨es', rep', tracks', kept⟩ allocates stepped
  obtain ⟨⟨after, e⟩, called, rfl⟩ := Option.map_eq_some_iff.mp stepped
  have seen : calls.emit now c = [e] := by simp [calls, called]
  obtain ⟨es'', rep'', steps⟩ := call_steps rep' allocates called
  rw [seen, ← List.append_assoc]
  exact ⟨es'', rep'', tracks_step tracks' steps, kept.trans steps.kept⟩

/-- The table is a counting map: its nodes have different keys and stay, `size`
and `tail` are right, every addition returns the number of additions of its key
since that was switched off, and while these are fewer than 2^31 no call is
without a result. -/
theorem table_counts {log : List Event} (run : calls.Reach Allocates listInit log list) :
    ∃ es, Represents list es ∧
      (∀ before ip port (n : Int) after, log = before ++ .added ip port n :: after →
        n = sinceOff (ip, port) before + 1) ∧
      (∀ more list', calls.Reach Allocates list more list' →
        ∃ es', Represents list' es' ∧ es.map Entry.node <+: es'.map Entry.node) ∧
      ∀ c, Allocates list c → additions log + adds c < 2 ^ 31 → (call list c).isSome := by
  obtain ⟨es, rep, tracks, -⟩ := run_tracked represents_init tracks_init run
  rw [List.nil_append] at tracks
  refine ⟨es, rep, fun before ip port n after split =>
    tracks.returned before _ after split ip port n rfl, fun more list' goesOn => ?_,
    fun c allocates few => call_defined rep allocates ?_⟩
  · obtain ⟨es', rep', -, kept⟩ := run_tracked rep tracks goesOn
    exact ⟨es', rep', kept⟩
  · exact tracks.not_full few

end

/-- Two clients, one of which leaves and comes back. -/
def session : List Event :=
  [.added 1 80 1, .added 2 80 1, .added 1 80 2, .switchedOff 1 80, .added 1 80 1]

theorem table_counts_session :
    ∃ list : ClientList Nat, calls.Reach Allocates listInit session list ∧
      ∃ es, Represents list es ∧ ∀ c, Allocates list c → (call list c).isSome := by
  obtain ⟨log, list, run, rfl⟩ := System.exists_reach calls Allocates listInit
    [.add 1 80 0, .add 2 80 1, .add 1 80 2, .switchOff 1 80, .add 1 80 2]
    (fun log _ => log = session) (by decide)
  obtain ⟨es, rep, -, -, defined⟩ := table_counts run
  have four : additions session = 4 := by decide
  exact ⟨list, run, es, rep, fun c allocates => defined c allocates (by
    cases c <;> simp [four, adds])⟩

end EltexCourse.Guarantees.Echo.Counts
