import Mathlib.Data.List.Count
import EltexCourse.Source.Chat.Members

/-!
# Membership accounting

Entries are never deleted and a leave clears the first entry of its pid, so the
flags follow the joins and leaves only until some pid leaves a second time: the
counter goes down then and no flag changes. A nickname of several words, or of
none, puts another word in the place of the pid, or nothing. Both servers keep the
same accounts.
-/

set_option autoImplicit false

namespace EltexCourse.Guarantees.Chat.Accounting
open Foundations.CString Foundations.Decimal Source.Chat

/-- A client's request, with the nickname and pid it was sent with. -/
inductive Event where
  | join (line : Text) (pid : Int)
  | leave (line : Text) (pid : Int)
  deriving DecidableEq, Repr

def Event.text : Event → Text
  | .join line pid => wordText 1 line pid
  | .leave line pid => wordText 0 line pid

def Event.Valid : Event → Prop
  | .join line pid => Word line ∧ IsInt pid
  | .leave line pid => Word line ∧ IsInt pid

/-- The request as `members_handler` reads it, if all tokens are there. -/
def Event.read (e : Event) : Option Event :=
  (membersHandlerTokens e.text).map fun tokens =>
    match tokens.1 with
    | .join line pid => .join line pid
    | .leave pid => .leave [] pid

def Event.joins (pid : Int) : Event → Bool
  | .join _ who => who = pid
  | .leave _ _ => false

def Event.leaves (pid : Int) : Event → Bool
  | .join _ _ => false
  | .leave _ who => who = pid

def Event.isJoin : Event → Bool
  | .join _ _ => true
  | .leave _ _ => false

def joins (pid : Int) (es : List Event) : Nat := es.countP (·.joins pid)

def leaves (pid : Int) (es : List Event) : Nat := es.countP (·.leaves pid)

/-- Joins minus leaves over all pids. -/
def balance (es : List Event) : Int := es.countP (·.isJoin) - es.countP (!·.isJoin)

/-- Each leave follows a join of its pid that no leave has answered. -/
def Matched : List Event → List Event → Prop
  | _, [] => True
  | past, .join line pid :: rest => Matched (past ++ [.join line pid]) rest
  | past, .leave line pid :: rest =>
    leaves pid past < joins pid past ∧ Matched (past ++ [.leave line pid]) rest

/-- What a leave says has joined before. -/
def Registered (past : List Event) : Event → Prop
  | .join _ _ => True
  | .leave _ pid => 0 < joins pid past

/-- It is no second leave. -/
def First (past : List Event) : Event → Prop
  | .join _ _ => True
  | .leave _ pid => leaves pid past = 0

/-- The pids that have joined and not left are the same in both. -/
def SamePresent (sent read : List Event) : Prop :=
  ∀ pid, leaves pid read < joins pid read ↔ leaves pid sent < joins pid sent

/-- Every request has all its tokens, and as they are read, a pid leaves that has
joined; as long as somebody stays, it leaves for the first time, and those present
as the pids are read are those present as they were sent. -/
def ReadsWell : List Event → List Event → List Event → Prop
  | _, _, [] => True
  | sent, read, e :: rest => ∃ r, e.read = some r ∧ Registered read r ∧
      (0 < balance (read ++ [r]) → First read r ∧ SamePresent (sent ++ [e]) (read ++ [r]) ∧
        ReadsWell (sent ++ [e]) (read ++ [r]) rest)

/-- As long as somebody stays, no pid leaves that has left before. -/
def LeavesOnce : List Event → List Event → Prop
  | _, [] => True
  | past, .join line pid :: rest =>
    0 < balance (past ++ [.join line pid]) → LeavesOnce (past ++ [.join line pid]) rest
  | past, .leave line pid :: rest =>
    0 < balance (past ++ [.leave line pid]) →
      leaves pid past = 0 ∧ LeavesOnce (past ++ [.leave line pid]) rest

/-- The counter and the flags agree with the requests processed so far. -/
structure Agrees (a : Accounts) (past : List Event) : Prop where
  count : a.membersOnline = (online a.members).length
  present : ∀ pid, pid ∈ onlineIds a.members ↔ leaves pid past < joins pid past

/-- After every processed message for which the loop goes on, the accounts agree. -/
def AlwaysAgrees (message : Accounts → Text → Option Accounts) (es : List Event) : Prop :=
  ∃ states, membersHandlerLoop message Accounts.init (es.map Event.text) = some states ∧
    ∀ n a, states[n]? = some a → Agrees a (es.take (n + 1))

@[simp] theorem joins_append (pid : Int) (es fs : List Event) :
    joins pid (es ++ fs) = joins pid es + joins pid fs := by
  simp [joins]

@[simp] theorem leaves_append (pid : Int) (es fs : List Event) :
    leaves pid (es ++ fs) = leaves pid es + leaves pid fs := by
  simp [leaves]

@[simp] theorem joins_join (pid who : Int) (line : Text) :
    joins pid [.join line who] = if who = pid then 1 else 0 := by
  simp [joins, Event.joins, List.countP_cons]

@[simp] theorem joins_leave (pid who : Int) (line : Text) : joins pid [.leave line who] = 0 := rfl

@[simp] theorem leaves_join (pid who : Int) (line : Text) : leaves pid [.join line who] = 0 := rfl

@[simp] theorem leaves_leave (pid who : Int) (line : Text) :
    leaves pid [.leave line who] = if who = pid then 1 else 0 := by
  simp [leaves, Event.leaves, List.countP_cons]

theorem balance_join (es : List Event) (line : Text) (pid : Int) :
    balance (es ++ [.join line pid]) = balance es + 1 := by
  simp [balance, Event.isJoin]
  omega

theorem balance_leave (es : List Event) (line : Text) (pid : Int) :
    balance (es ++ [.leave line pid]) = balance es - 1 := by
  simp [balance, Event.isJoin]
  omega

/-- The entry a search for `pid` meets first. -/
def firstOf (m : Data) (pid : Int) : Option DataArr := m.find? (·.id = pid)

/-- `data_find` looks through the entries in order, so an entry of the front half hides
those of the same id behind it. -/
theorem firstOf_append (m n : Data) (pid : Int) :
    firstOf (m ++ n) pid = (firstOf m pid).or (firstOf n pid) := List.find?_append

theorem firstOf_cons (entry : DataArr) (m : Data) (pid : Int) :
    firstOf (entry :: m) pid = if entry.id = pid then some entry else firstOf m pid := by
  by_cases key : entry.id = pid <;> simp [firstOf, key]

/-- The search ends with -1 exactly when no entry has the id, online or not: entries are
never deleted. -/
theorem firstOf_eq_none {m : Data} {pid : Int} : firstOf m pid = none ↔ pid ∉ ids m := by
  simp [firstOf, ids]

theorem firstOf_split {m before after : Data} {entry : DataArr}
    (split : m = before ++ entry :: after)
    (first : entry.id ∉ ids before) : firstOf m entry.id = some entry := by
  rw [split, firstOf_append, firstOf_cons, firstOf_eq_none.mpr first]
  simp

/-- What holds while every pid has left at most once: the first entry of a pid
is the one its leave has cleared. -/
structure Consistent (a : Accounts) (past : List Event) : Prop where
  counter : a.membersOnline = balance past
  flags : a.membersOnline = (online a.members).length
  total : ∀ pid, (ids a.members).count pid = joins pid past
  entries : ∀ pid, (onlineIds a.members).count pid + leaves pid past = joins pid past
  first : ∀ pid entry, firstOf a.members pid = some entry →
    (entry.isOnline = 0 ↔ 0 < leaves pid past)

theorem Consistent.init : Consistent Accounts.init [] :=
  ⟨rfl, rfl, fun _ => rfl, fun _ => rfl, fun pid entry found => by
    simp [Accounts.init, firstOf] at found⟩

theorem Consistent.present {a : Accounts} {past : List Event} (consistent : Consistent a past)
    (pid : Int) : pid ∈ onlineIds a.members ↔ leaves pid past < joins pid past := by
  have entries := consistent.entries pid
  rw [← List.count_pos_iff]
  omega

/-- The accounts are right for what was sent when they are for what was read. -/
theorem Consistent.counter_iff {a : Accounts} {sent read : List Event}
    (consistent : Consistent a read) : Agrees a sent ↔ SamePresent sent read := by
  constructor
  · exact fun agrees pid => (consistent.present pid).symm.trans (agrees.present pid)
  · exact fun same => ⟨consistent.flags, fun pid => (consistent.present pid).trans (same pid)⟩

/-- A join adds an online entry at the end and raises the counter, whatever older
entries of the pid there are. -/
theorem Consistent.join {a : Accounts} {past : List Event} (consistent : Consistent a past)
    (line : Text) (pid : Int) :
    Consistent (a.add ⟨line, pid, 1⟩).count (past ++ [.join line pid]) := by
  constructor
  · simp [Accounts.count, Accounts.add, balance_join, consistent.counter]
  · simp [Accounts.count, Accounts.add, dataAdd, online_cons, consistent.flags]
  · intro who
    have total := consistent.total who
    simp only [Accounts.count, Accounts.add, dataAdd, ids_append, List.count_append, joins_append,
      joins_join, total]
    simp [List.count_cons]
  · intro who
    have entries := consistent.entries who
    simp only [onlineIds] at entries
    simp only [Accounts.count, Accounts.add, dataAdd, onlineIds, online_append, ids_append,
      List.count_append, online_cons, online_nil, joins_append, leaves_append, joins_join,
      leaves_join]
    simp [List.count_cons]
    omega
  · intro who entry found
    simp only [Accounts.count, Accounts.add, dataAdd, firstOf_append, firstOf_cons] at found
    simp only [leaves_append, leaves_join, Nat.add_zero]
    cases earlier : firstOf a.members who with
    | some head =>
      obtain rfl : head = entry := by simpa [earlier] using found
      exact consistent.first who head earlier
    | none =>
      have total := consistent.total who
      rw [List.count_eq_zero.mpr (firstOf_eq_none.mp earlier)] at total
      have entries := consistent.entries who
      rw [earlier] at found
      have isNew : pid = who ∧ (⟨line, pid, 1⟩ : DataArr) = entry := by simpa [firstOf] using found
      simp only [← isNew.2, Int.reduceEq, false_iff]
      omega

/-- A leave finds the entry its pid was first registered with. -/
theorem Consistent.leave_found {a : Accounts} {past : List Event} (consistent : Consistent a past)
    {pid : Int} (joined : 0 < joins pid past) :
    ∃ before entry after, a.members = before ++ entry :: after ∧ entry.id = pid ∧
      pid ∉ ids before ∧
      a.leave pid = some ⟨before ++ { entry with isOnline := 0 } :: after,
        a.membersOnline - 1⟩ := by
  have present : pid ∈ ids a.members := by
    rw [← List.count_pos_iff, consistent.total pid]
    exact joined
  obtain ⟨members, found⟩ := markOffline_isSome present
  obtain ⟨before, entry, after, split, key, first, rfl⟩ := markOffline_some found
  exact ⟨before, entry, after, split, key, first, by simp [Accounts.leave, found]⟩

/-- The first leave of a pid that has joined clears the entry that the first join made,
so counter and flags go down together. -/
theorem Consistent.first_leave {a : Accounts} {past : List Event} (consistent : Consistent a past)
    (line : Text) {pid : Int} (joined : 0 < joins pid past) (never : leaves pid past = 0) :
    ∃ a', a.leave pid = some a' ∧ Consistent a' (past ++ [.leave line pid]) := by
  obtain ⟨before, entry, after, split, rfl, first, left⟩ := consistent.leave_found joined
  have flag : entry.isOnline ≠ 0 := by
    rw [Ne, consistent.first entry.id entry (firstOf_split split first)]
    omega
  refine ⟨_, left, ?_, ?_, ?_, ?_, ?_⟩
  · simp [balance_leave, consistent.counter]
  · have flags := consistent.flags
    rw [split] at flags
    simp [online_cons, flag] at flags ⊢
    omega
  · intro who
    have total := consistent.total who
    simp only [split, ids_append, ids_cons] at total
    simpa using total
  · intro who
    have entries := consistent.entries who
    simp only [split, onlineIds, online_append, online_cons, ids_append] at entries ⊢
    simp [flag, List.count_cons] at entries ⊢
    split_ifs at entries ⊢ <;> omega
  · intro who head found
    rw [firstOf_append, firstOf_cons] at found
    by_cases same : entry.id = who
    · subst same
      rw [firstOf_eq_none.mpr first] at found
      obtain rfl : ({ entry with isOnline := 0 } : DataArr) = head := by simpa using found
      simp
    · have unchanged : firstOf a.members who = some head := by
        rw [split, firstOf_append, firstOf_cons]
        simpa [same] using found
      simpa [same] using consistent.first who head unchanged

/-- A second leave of a pid lowers the counter and changes no flag. -/
theorem Consistent.second_leave {a : Accounts} {past : List Event} (consistent : Consistent a past)
    {pid : Int} (joined : 0 < joins pid past) (again : 0 < leaves pid past) :
    a.leave pid = some { a with membersOnline := a.membersOnline - 1 } := by
  obtain ⟨before, entry, after, split, rfl, first, left⟩ := consistent.leave_found joined
  have flag : entry.isOnline = 0 :=
    (consistent.first entry.id entry (firstOf_split split first)).mpr again
  rw [left, split, ← flag]

/-- A request, once it has been read. -/
def process (a : Accounts) : Event → Option Accounts
  | .join line pid => some (a.add ⟨line, pid, 1⟩).count
  | .leave _ pid => a.leave pid

/-- Reading the raw text and processing the request read are the two halves of one turn
of the handler. -/
theorem message_eq (a : Accounts) (e : Event) :
    membersHandlerMessage a e.text = e.read.bind (process a) := by
  unfold membersHandlerMessage Event.read
  cases tokens : membersHandlerTokens e.text with
  | none => rfl
  | some request => rcases request with ⟨⟨pid⟩ | ⟨line, pid⟩, cursor⟩ <;> rfl

/-- A nickname of one word is read, and so is the pid behind it. -/
theorem Event.Valid.read {e : Event} (valid : e.Valid) : ∃ r, e.read = some r ∧
    (∀ pid, r.joins pid = e.joins pid ∧ r.leaves pid = e.leaves pid) ∧ r.isJoin = e.isJoin := by
  cases e with
  | join line pid =>
    exact ⟨.join line pid, by simp [Event.read, Event.text, membersHandler_join valid.1 valid.2],
      fun _ => ⟨rfl, rfl⟩, rfl⟩
  | leave line pid =>
    exact ⟨.leave [] pid, by simp [Event.read, Event.text, membersHandler_leave valid.1 valid.2],
      fun _ => ⟨rfl, rfl⟩, rfl⟩

/-- The accounts agree with the history wherever the loop goes on from `a`. -/
def AgreesFrom (a : Accounts) (sent es : List Event) : Prop :=
  ∃ states, membersHandlerLoop membersHandlerMessage a (es.map Event.text) = some states ∧
    ∀ n b, states[n]? = some b → Agrees b (sent ++ es.take (n + 1))

theorem agreesFrom_nil (a : Accounts) (sent : List Event) : AgreesFrom a sent [] :=
  ⟨[], rfl, fun n b found => by simp at found⟩

/-- A message that has no successor ends the agreement. -/
theorem not_agreesFrom {a : Accounts} {e : Event} {sent rest : List Event}
    (fails : membersHandlerMessage a e.text = none) : ¬ AgreesFrom a sent (e :: rest) := by
  rintro ⟨states, run, -⟩
  simp [membersHandlerLoop, fails] at run

/-- One turn of the loop: it stops, or the accounts agree now and from there on. -/
theorem agreesFrom_cons {a a' : Accounts} {e : Event} {sent rest : List Event}
    (processed : membersHandlerMessage a e.text = some a') :
    AgreesFrom a sent (e :: rest) ↔
      (0 < a'.membersOnline → Agrees a' (sent ++ [e]) ∧ AgreesFrom a' (sent ++ [e]) rest) := by
  unfold AgreesFrom
  simp only [List.map_cons, membersHandlerLoop, processed]
  by_cases stops : a'.membersOnline ≤ 0
  · simp only [if_pos stops]
    exact ⟨fun _ positive => absurd positive (by omega),
      fun _ => ⟨[], rfl, fun n b found => by simp at found⟩⟩
  · simp only [if_neg stops, Option.map_eq_some_iff]
    constructor
    · rintro ⟨_, ⟨states, run, rfl⟩, agrees⟩ _
      refine ⟨by simpa using agrees 0 a' rfl, states, run, fun n b found => ?_⟩
      simpa using agrees (n + 1) b (by simpa using found)
    · intro goesOn
      obtain ⟨now, states, run, later⟩ := goesOn (by omega)
      refine ⟨a' :: states, ⟨states, run, rfl⟩, fun n b found => ?_⟩
      cases n with
      | zero =>
        obtain rfl := Option.some.inj found
        simpa using now
      | succ n => simpa using later n b (by simpa using found)

/-- A leave of a pid that never joined is a write through index -1. -/
theorem Consistent.leave_unknown {a : Accounts} {read : List Event} (consistent : Consistent a read)
    {pid : Int} (unknown : joins pid read = 0) : a.leave pid = none := by
  have absent : pid ∉ ids a.members := by
    rw [← List.count_eq_zero, consistent.total pid, unknown]
  have missing := (dataFind_eq_neg_one_iff a.members pid).mpr absent
  simp [Accounts.leave, markOffline, missing]

/-- By induction on the messages, along what `members_handler` has read so far. -/
theorem agreesFrom_iff {a : Accounts} {sent read : List Event} (es : List Event)
    (consistent : Consistent a read) : AgreesFrom a sent es ↔ ReadsWell sent read es := by
  induction es generalizing a sent read with
  | nil => exact iff_of_true (agreesFrom_nil a sent) trivial
  | cons e rest ih =>
    cases found : e.read with
    | none =>
      refine iff_of_false (not_agreesFrom (by rw [message_eq, found]; rfl)) ?_
      rintro ⟨r, reads, -⟩
      rw [found] at reads
      cases reads
    | some r =>
      have processed : membersHandlerMessage a e.text = process a r := by
        rw [message_eq, found]; rfl
      have unique : ReadsWell sent read (e :: rest) ↔ Registered read r ∧
          (0 < balance (read ++ [r]) → First read r ∧ SamePresent (sent ++ [e]) (read ++ [r]) ∧
            ReadsWell (sent ++ [e]) (read ++ [r]) rest) := by
        simp [ReadsWell, found]
      rw [unique]
      cases r with
      | join line pid =>
        have next := consistent.join line pid
        rw [agreesFrom_cons processed, next.counter, next.counter_iff, ih next,
          and_iff_right (show Registered read (.join line pid) from trivial)]
        exact imp_congr_right fun _ => (and_iff_right trivial).symm
      | leave line pid =>
        by_cases unknown : joins pid read = 0
        · refine iff_of_false (not_agreesFrom (processed.trans (consistent.leave_unknown unknown)))
            ?_
          exact fun both => absurd unknown (Nat.pos_iff_ne_zero.mp both.1)
        have joined : 0 < joins pid read := Nat.pos_of_ne_zero unknown
        rw [and_iff_right (show Registered read (.leave line pid) from joined)]
        by_cases never : leaves pid read = 0
        · obtain ⟨a', left, next⟩ := consistent.first_leave line joined never
          rw [agreesFrom_cons (processed.trans left), next.counter, next.counter_iff, ih next]
          exact imp_congr_right fun _ => (and_iff_right never).symm
        · have left := consistent.second_leave joined (Nat.pos_of_ne_zero never)
          rw [agreesFrom_cons (processed.trans left), balance_leave, ← consistent.counter]
          refine imp_congr_right fun _ => iff_of_false ?_ fun once => never once.1
          rintro ⟨agrees, _⟩
          have flags := consistent.flags
          have count := agrees.count
          simp only at count
          omega

/-- What was read says the same of every pid as what was sent. -/
structure SameCounts (sent read : List Event) : Prop where
  joins : ∀ pid, joins pid read = joins pid sent
  leaves : ∀ pid, leaves pid read = leaves pid sent
  balance : balance read = balance sent

/-- A request read with the effect of the one sent leaves both histories with the same
counts. -/
theorem SameCounts.snoc {sent read : List Event} {e r : Event} (same : SameCounts sent read)
    (counts : ∀ pid, r.joins pid = e.joins pid ∧ r.leaves pid = e.leaves pid)
    (kind : r.isJoin = e.isJoin) : SameCounts (sent ++ [e]) (read ++ [r]) := by
  refine ⟨fun pid => ?_, fun pid => ?_, ?_⟩
  · rw [joins_append, joins_append, same.joins]
    simp [Accounting.joins, (counts pid).1, List.countP_cons]
  · rw [leaves_append, leaves_append, same.leaves]
    simp [Accounting.leaves, (counts pid).2, List.countP_cons]
  · have balances := same.balance
    simp only [Accounting.balance, List.countP_append, List.countP_singleton, kind] at balances ⊢
    omega

/-- Then only second leaves are left to go wrong. -/
theorem readsWell_iff {sent read : List Event} (es : List Event) (same : SameCounts sent read)
    (valid : ∀ e ∈ es, e.Valid) (matched : Matched sent es) :
    ReadsWell sent read es ↔ LeavesOnce sent es := by
  induction es generalizing sent read with
  | nil => exact Iff.rfl
  | cons e rest ih =>
    rw [List.forall_mem_cons] at valid
    obtain ⟨r, found, counts, kind⟩ := valid.1.read
    have next := same.snoc counts kind
    have present : SamePresent (sent ++ [e]) (read ++ [r]) := fun pid => by
      rw [next.joins, next.leaves]
    have unique : ReadsWell sent read (e :: rest) ↔ Registered read r ∧
        (0 < balance (sent ++ [e]) → First read r ∧
          ReadsWell (sent ++ [e]) (read ++ [r]) rest) := by
      simp [ReadsWell, found, present, next.balance]
    rw [unique]
    cases e with
    | join line pid =>
      cases r with
      | leave line' who => cases kind
      | join line' who =>
        rw [ih next valid.2 matched, LeavesOnce, Registered, First, true_and]
        exact imp_congr_right fun _ => and_iff_right trivial
    | leave line pid =>
      obtain ⟨joined, matchedRest⟩ := matched
      cases r with
      | join line' who => cases kind
      | leave line' who =>
        obtain rfl : who = pid := by simpa [Event.leaves] using (counts pid).2
        have registered : 0 < joins who read := by
          rw [same.joins]
          omega
        rw [ih next valid.2 matchedRest, LeavesOnce, Registered, First, same.leaves,
          and_iff_right registered]

/-- Both servers keep agreeing accounts exactly on the sequences that are read well;
where every nickname is one word, on those in which, as long as somebody stays, no
pid leaves for a second time. -/
theorem always_agrees_iff (es : List Event) (matched : Matched [] es) :
    (AlwaysAgrees membersHandlerMessage es ↔ ReadsWell [] [] es) ∧
      (AlwaysAgrees membersHandlerMessageShm es ↔ ReadsWell [] [] es) ∧
      ((∀ e ∈ es, e.Valid) → (ReadsWell [] [] es ↔ LeavesOnce [] es)) := by
  have agrees : AlwaysAgrees membersHandlerMessage es ↔ ReadsWell [] [] es := by
    have loop : AgreesFrom Accounts.init [] es ↔ ReadsWell [] [] es :=
      agreesFrom_iff es Consistent.init
    simpa [AgreesFrom, AlwaysAgrees] using loop
  refine ⟨agrees, by rw [membersHandlerMessageShm_eq]; exact agrees, fun valid => ?_⟩
  exact readsWell_iff es ⟨fun _ => rfl, fun _ => rfl, rfl⟩ valid matched

/-- Two clients come, the first leaves and comes back. -/
def comeBack : List Event :=
  [.join ['a'] 3, .join ['b'] 4, .leave ['a'] 3, .join ['a'] 3]

theorem always_agrees_comeBack :
    AlwaysAgrees membersHandlerMessage comeBack ∧
      AlwaysAgrees membersHandlerMessageShm comeBack := by
  obtain ⟨msg, shm, words⟩ := always_agrees_iff comeBack (by simp [comeBack, Matched]; decide)
  have once : LeavesOnce [] comeBack := by
    simp only [comeBack, LeavesOnce]
    decide
  have well := (words (by simp [comeBack, Event.Valid, IsInt]; decide)).mpr once
  exact ⟨msg.mpr well, shm.mpr well⟩

/-- The table when the first client has left for the second time: its newer
entry is still marked online, and the counter is 1. -/
def afterSecondLeave : Accounts := ⟨[⟨['a'], 3, 0⟩, ⟨['b'], 4, 1⟩, ⟨['a'], 3, 1⟩], 1⟩

/-- The second leave of pid 3 clears its first entry again: the counter is 1 and two
entries are online. All nicknames are words and each leave follows its join. -/
theorem second_leave_disagrees :
    Matched [] (comeBack ++ [Event.leave ['a'] 3]) ∧
      (∀ e ∈ comeBack ++ [Event.leave ['a'] 3], e.Valid) ∧
      (∃ states, membersHandlerLoop membersHandlerMessage Accounts.init
          ((comeBack ++ [Event.leave ['a'] 3]).map Event.text) = some states ∧
        states[4]? = some afterSecondLeave) ∧
      ¬ Agrees afterSecondLeave (comeBack ++ [Event.leave ['a'] 3]) ∧
      ¬ AlwaysAgrees membersHandlerMessage (comeBack ++ [Event.leave ['a'] 3]) := by
  have valid : ∀ e ∈ comeBack ++ [Event.leave ['a'] 3], e.Valid := by
    simp [comeBack, Event.Valid, IsInt]
    decide
  have matched : Matched [] (comeBack ++ [Event.leave ['a'] 3]) := by
    simp [comeBack, Matched]
    decide
  have run : ∃ states, membersHandlerLoop membersHandlerMessage Accounts.init
      ((comeBack ++ [Event.leave ['a'] 3]).map Event.text) = some states ∧
        states[4]? = some afterSecondLeave :=
    ⟨[⟨[⟨['a'], 3, 1⟩], 1⟩, ⟨[⟨['a'], 3, 1⟩, ⟨['b'], 4, 1⟩], 2⟩,
      ⟨[⟨['a'], 3, 0⟩, ⟨['b'], 4, 1⟩], 1⟩, ⟨[⟨['a'], 3, 0⟩, ⟨['b'], 4, 1⟩, ⟨['a'], 3, 1⟩], 2⟩,
      afterSecondLeave], by decide, rfl⟩
  have disagrees : ¬ Agrees afterSecondLeave (comeBack ++ [Event.leave ['a'] 3]) :=
    fun agrees => absurd agrees.count (by decide)
  refine ⟨matched, valid, run, disagrees, ?_⟩
  rintro ⟨states, loop, agrees⟩
  obtain ⟨states', loop', last⟩ := run
  obtain rfl : states = states' := Option.some.inj (loop.symm.trans loop')
  exact disagrees (agrees 4 afterSecondLeave last)

end EltexCourse.Guarantees.Chat.Accounting
