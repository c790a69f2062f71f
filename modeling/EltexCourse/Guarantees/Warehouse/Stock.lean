import Mathlib.Algebra.BigOperators.Fin
import Mathlib.Algebra.Order.Ring.Int
import EltexCourse.Foundations.Completion
import EltexCourse.Foundations.Custody
import EltexCourse.Foundations.Semaphore
import EltexCourse.Source.Warehouse.Threads

/-!
# No stock is lost in task11.3

The five mutexes exclude each other's holders, so that what a thread has read of
a cell stays true until it writes. What is taken and loaded is counted where a
cell is written; a customer's need follows one step later.
-/

set_option autoImplicit false

namespace EltexCourse.Guarantees.Warehouse.Stock
open Foundations.Transition Foundations.Decimal Foundations.Semaphore Foundations.Custody
  Source.Warehouse

variable {ι : Type}

/-- The steps of a customer, with what they write to the cells. -/
inductive CustomerMove [DecidableEq ι] (s : State ι) (i : ι) : State ι → List (Event ι) → Prop where
  | stops (done : s.need i = 0) (pc : s.customer i = .testing) :
      CustomerMove s i (s.setCustomer i .stopped) []
  | goes (choice : Cell) (needs : s.need i ≠ 0) (pc : s.customer i = .testing) :
      CustomerMove s i (s.setCustomer i (.locking choice)) []
  | locks (choice : Cell) (free : 0 < s.mutex choice) (pc : s.customer i = .locking choice) :
      CustomerMove s i
        ({ s with mutex := Function.update s.mutex choice (s.mutex choice - 1) }.setCustomer i
          (.comparing choice)) []
  | compares (choice : Cell) (pc : s.customer i = .comparing choice) :
      CustomerMove s i
        (s.setCustomer i (.choosing choice (s.storedge choice < s.need i))) []
  | chooses (choice : Cell) (less : Bool) (pc : s.customer i = .choosing choice less) :
      CustomerMove s i
        (s.setCustomer i (.reading choice (if less then s.storedge choice else s.need i))) []
  | reads (choice : Cell) (minVal : Int) (pc : s.customer i = .reading choice minVal) :
      CustomerMove s i (s.setCustomer i (.writing choice minVal (s.storedge choice))) []
  | writes (choice : Cell) (minVal stored : Int)
      (pc : s.customer i = .writing choice minVal stored) :
      CustomerMove s i ((s.store choice (stored - minVal)).setCustomer i (.paying choice minVal))
        [.taken i minVal]
  | pays (choice : Cell) (minVal : Int) (pc : s.customer i = .paying choice minVal) :
      CustomerMove s i ((s.setNeed i (s.need i - minVal)).setCustomer i (.unlocking choice)) []
  | unlocks (choice : Cell) (pc : s.customer i = .unlocking choice) :
      CustomerMove s i ((s.unlock choice).setCustomer i .testing) []

inductive LoaderMove [DecidableEq ι] (s : State ι) : State ι → List (Event ι) → Prop where
  | goesOn (pc : LoaderPc) (same : s.loader = .testing)
      (outside : pc = .stopped ∨ ∃ choice, pc = .locking choice) :
      LoaderMove s (s.setLoader pc) []
  | locks (choice : Cell) (free : 0 < s.mutex choice) (pc : s.loader = .locking choice) :
      LoaderMove s
        ({ s with mutex := Function.update s.mutex choice (s.mutex choice - 1) }.setLoader
          (.reading choice)) []
  | reads (choice : Cell) (pc : s.loader = .reading choice) :
      LoaderMove s (s.setLoader (.writing choice (s.storedge choice))) []
  | writes (choice : Cell) (stored : Int) (pc : s.loader = .writing choice stored) :
      LoaderMove s ((s.store choice (stored + 500)).setLoader (.unlocking choice))
        [.loaded choice]
  | unlocks (choice : Cell) (pc : s.loader = .unlocking choice) :
      LoaderMove s ((s.unlock choice).setLoader .testing) []

/-- A lock that is granted was free, and takes its one permit; nothing else of the state
changes. -/
theorem lock_eq_some {s t : State ι} {choice : Cell} (locked : s.lock choice = some t) :
    0 < s.mutex choice ∧
      t = { s with mutex := Function.update s.mutex choice (s.mutex choice - 1) } := by
  unfold State.lock at locked
  split at locked
  · next free =>
    cases locked
    exact ⟨free, rfl⟩
  · cases locked

/-- What the customer is about to write is in the range of `int`. -/
def customerFits (need : Int) : CustomerPc → Prop
  | .writing _ minVal stored => IsInt (stored - minVal)
  | .paying _ minVal => IsInt (need - minVal)
  | .testing | .locking _ | .comparing _ | .choosing _ _ | .reading _ _ | .unlocking _
  | .stopped => True

/-- The package that the loader is about to add stays in the range of `int`. -/
def loaderFits : LoaderPc → Prop
  | .writing _ stored => IsInt (stored + 500)
  | .testing | .locking _ | .reading _ | .unlocking _ | .stopped => True

instance : DecidablePred loaderFits
  | .writing _ stored => inferInstanceAs (Decidable (IsInt (stored + 500)))
  | .testing | .locking _ | .reading _ | .unlocking _ | .stopped => isTrue trivial

section Moves

variable [DecidableEq ι] {s t : State ι} {i : ι} {rand : Cell}

/-- As long as nothing goes beyond the range of `int`, the sums are those of
arithmetic. -/
theorem customerStep_move (fits : customerFits (s.need i) (s.customer i))
    (stepped : customerStep s i rand = some t) :
    CustomerMove s i t (emit s (.customer i rand)) := by
  unfold customerStep at stepped
  simp only [emit]
  split at stepped
  · next pc =>
    cases stepped
    rw [pc]
    split
    · next needs => exact .goes rand needs pc
    · next done => exact .stops (by simpa using done) pc
  · next choice pc =>
    obtain ⟨locked, locks, rfl⟩ := Option.map_eq_some_iff.mp stepped
    obtain ⟨free, rfl⟩ := lock_eq_some locks
    rw [pc]
    exact .locks choice free pc
  · next choice pc =>
    cases stepped
    rw [pc]
    exact .compares choice pc
  · next choice less pc =>
    cases stepped
    rw [pc]
    exact .chooses choice less pc
  · next choice minVal pc =>
    cases stepped
    rw [pc]
    exact .reads choice minVal pc
  · next choice minVal stored pc =>
    rw [pc] at fits
    cases stepped
    rw [pc, asInt_eq fits]
    exact .writes choice minVal stored pc
  · next choice minVal pc =>
    rw [pc] at fits
    cases stepped
    rw [pc, asInt_eq fits]
    exact .pays choice minVal pc
  · next choice pc =>
    cases stepped
    rw [pc]
    exact .unlocks choice pc
  · cases stepped

/-- The loader's steps, as long as the package it has in hand goes into the cell without
leaving the range of `int`. -/
theorem loaderStep_move (fits : loaderFits s.loader) (stepped : loaderStep s rand = some t) :
    LoaderMove s t (emit s (.loader rand)) := by
  unfold loaderStep at stepped
  simp only [emit]
  split at stepped
  · next pc =>
    cases stepped
    rw [pc]
    apply LoaderMove.goesOn _ pc
    split
    · exact .inr ⟨rand, rfl⟩
    · exact .inl rfl
  · next choice pc =>
    obtain ⟨locked, locks, rfl⟩ := Option.map_eq_some_iff.mp stepped
    obtain ⟨free, rfl⟩ := lock_eq_some locks
    rw [pc]
    exact .locks choice free pc
  · next choice pc =>
    cases stepped
    rw [pc]
    exact .reads choice pc
  · next choice stored pc =>
    rw [pc] at fits
    cases stepped
    rw [pc, asInt_eq fits]
    exact .writes choice stored pc
  · next choice pc =>
    cases stepped
    rw [pc]
    exact .unlocks choice pc
  · cases stepped

end Moves

def customerInside (choice : Cell) : CustomerPc → Prop
  | .testing | .locking _ | .stopped => False
  | .comparing c | .choosing c _ | .reading c _ | .writing c _ _ | .paying c _ | .unlocking c =>
    choice = c

def loaderInside (choice : Cell) : LoaderPc → Prop
  | .testing | .locking _ | .stopped => False
  | .reading c | .writing c _ | .unlocking c => choice = c

/-- The parties are the customers and, as `none`, the loader. -/
def holds (s : State ι) (choice : Cell) : Option ι → Prop
  | some i => customerInside choice (s.customer i)
  | none => loaderInside choice s.loader

/-- The mutexes do what they are for. -/
def Locked (s : State ι) : Prop := ∀ choice, Exclusive (s.mutex choice) (holds s choice)

section Locks

variable [DecidableEq ι] {s t : State ι} {i : ι} {events : List (Event ι)}

/-- A customer moves itself only: the program counters of all the others are as they
were. -/
theorem CustomerMove.customer_ne (move : CustomerMove s i t events) {j : ι} (other : j ≠ i) :
    t.customer j = s.customer j := by
  cases move <;> exact Function.update_of_ne other ..

theorem CustomerMove.loader (move : CustomerMove s i t events) : t.loader = s.loader := by
  cases move <;> rfl

theorem LoaderMove.customer (move : LoaderMove s t events) : t.customer = s.customer := by
  cases move <;> rfl

theorem setCustomer_inside {pc : CustomerPc} {choice : Cell} :
    holds (s.setCustomer i pc) choice (some i) ↔ customerInside choice pc := by
  simp [holds, State.setCustomer]

/-- A customer's step takes one mutex, gives one back, or leaves all of them alone. This
is what the library of exclusive permits asks of a party. -/
theorem CustomerMove.turn (move : CustomerMove s i t events) :
    Turn s.mutex t.mutex (fun c => holds s c (some i)) (fun c => holds t c (some i)) := by
  have inside : ∀ choice, holds s choice (some i) ↔ customerInside choice (s.customer i) :=
    fun _ => Iff.rfl
  cases move with
  | stops done pc =>
    apply Turn.keeps rfl
    simp [setCustomer_inside, inside, pc, customerInside]
  | goes choice needs pc =>
    apply Turn.keeps rfl
    simp [setCustomer_inside, inside, pc, customerInside]
  | locks choice free pc =>
    apply Turn.acquires choice free rfl
    · simp [inside, pc, customerInside]
    · simp [setCustomer_inside, customerInside]
  | compares choice pc =>
    apply Turn.keeps rfl
    simp [setCustomer_inside, inside, pc, customerInside]
  | chooses choice less pc =>
    apply Turn.keeps rfl
    simp [setCustomer_inside, inside, pc, customerInside]
  | reads choice minVal pc =>
    apply Turn.keeps rfl
    simp [setCustomer_inside, inside, pc, customerInside]
  | writes choice minVal stored pc =>
    apply Turn.keeps rfl
    simp [setCustomer_inside, inside, pc, customerInside]
  | pays choice minVal pc =>
    apply Turn.keeps rfl
    simp [setCustomer_inside, inside, pc, customerInside]
  | unlocks choice pc =>
    apply Turn.releases choice rfl
    · simp [inside, pc, customerInside]
    · simp [setCustomer_inside, customerInside]

/-- The same of the loader, which is the one party besides the customers. -/
theorem LoaderMove.turn (move : LoaderMove s t events) :
    Turn s.mutex t.mutex (fun c => holds s c none) (fun c => holds t c none) := by
  cases move with
  | goesOn pc same outside =>
    apply Turn.keeps rfl
    rcases outside with rfl | ⟨choice, rfl⟩ <;> simp [holds, State.setLoader, same, loaderInside]
  | locks choice free pc =>
    apply Turn.acquires choice free rfl
    · simp [holds, pc, loaderInside]
    · simp [holds, State.setLoader, loaderInside]
  | reads choice pc =>
    apply Turn.keeps rfl
    simp [holds, State.setLoader, pc, loaderInside]
  | writes choice stored pc =>
    apply Turn.keeps rfl
    simp [holds, State.setLoader, pc, loaderInside]
  | unlocks choice pc =>
    apply Turn.releases choice rfl
    · simp [holds, pc, loaderInside]
    · simp [holds, State.setLoader, loaderInside]

/-- The mutexes stay exclusive when a customer moves, since nobody else is in another
place than before. -/
theorem CustomerMove.locked (move : CustomerMove s i t events) (locked : Locked s) : Locked t := by
  apply move.turn.exclusive _ locked
  intro party other choice
  cases party with
  | none => rw [holds, holds, move.loader]
  | some j =>
    have different : j ≠ i := fun same => other (same ▸ rfl)
    rw [holds, holds, move.customer_ne different]

theorem LoaderMove.locked (move : LoaderMove s t events) (locked : Locked s) : Locked t := by
  apply move.turn.exclusive _ locked
  intro party other choice
  cases party with
  | none => exact absurd rfl other
  | some j => rw [holds, holds, move.customer]

end Locks

def Knows (storedge : Cell → Int) (need : Int) : CustomerPc → Prop
  | .testing | .locking _ | .comparing _ | .unlocking _ => True
  | .choosing choice less => less = decide (storedge choice < need)
  | .reading choice minVal => 0 ≤ minVal ∧ minVal ≤ storedge choice ∧ minVal ≤ need
  | .writing choice minVal stored =>
    stored = storedge choice ∧ 0 ≤ minVal ∧ minVal ≤ stored ∧ minVal ≤ need
  | .paying _ minVal => 0 ≤ minVal ∧ minVal ≤ need
  | .stopped => need = 0

def LoaderKnows (storedge : Cell → Int) : LoaderPc → Prop
  | .writing choice stored => stored = storedge choice
  | .testing | .locking _ | .reading _ | .unlocking _ | .stopped => True

/-- Reads are still true, and nothing is negative. -/
structure Known (s : State ι) : Prop where
  customers : ∀ i, Knows s.storedge (s.need i) (s.customer i)
  loader : LoaderKnows s.storedge s.loader
  cells : ∀ choice, 0 ≤ s.storedge choice
  needs : ∀ i, 0 ≤ s.need i

section Knowledge

variable {s t : State ι} {i : ι} {events : List (Event ι)} {cells cells' : Cell → Int}
  {needed : Int}

/-- Only the cell whose mutex it holds matters to a customer. -/
theorem Knows.frame {pc : CustomerPc} (knows : Knows cells needed pc)
    (same : ∀ choice, customerInside choice pc → cells' choice = cells choice) :
    Knows cells' needed pc := by
  cases pc with
  | testing => trivial
  | locking choice => trivial
  | comparing choice => trivial
  | choosing choice less =>
    simp only [Knows, same choice rfl]
    exact knows
  | reading choice minVal =>
    simp only [Knows, same choice rfl]
    exact knows
  | writing choice minVal stored =>
    simp only [Knows, same choice rfl]
    exact knows
  | paying choice minVal => exact knows
  | unlocking choice => trivial
  | stopped => exact knows

theorem LoaderKnows.frame {pc : LoaderPc} (knows : LoaderKnows cells pc)
    (same : ∀ choice, loaderInside choice pc → cells' choice = cells choice) :
    LoaderKnows cells' pc := by
  cases pc with
  | writing choice stored => exact knows.trans (same choice rfl).symm
  | testing => trivial
  | locking choice => trivial
  | reading choice => trivial
  | unlocking choice => trivial
  | stopped => trivial

variable [DecidableEq ι]

theorem CustomerMove.storedge (move : CustomerMove s i t events) (choice : Cell)
    (outside : ¬ customerInside choice (s.customer i)) : t.storedge choice = s.storedge choice := by
  cases move with
  | writes c minVal stored pc =>
    apply Function.update_of_ne
    rw [pc] at outside
    exact outside
  | _ => rfl

/-- The loader, too, changes only the cell whose mutex it has. With the frame lemmas above
this keeps what the others have read. -/
theorem LoaderMove.storedge (move : LoaderMove s t events) (choice : Cell)
    (outside : ¬ loaderInside choice s.loader) : t.storedge choice = s.storedge choice := by
  cases move with
  | writes c stored pc =>
    apply Function.update_of_ne
    rw [pc] at outside
    exact outside
  | _ => rfl

theorem CustomerMove.need_ne (move : CustomerMove s i t events) {j : ι} (other : j ≠ i) :
    t.need j = s.need j := by
  cases move with
  | pays choice minVal pc => exact Function.update_of_ne other ..
  | _ => rfl

theorem LoaderMove.need (move : LoaderMove s t events) : t.need = s.need := by
  cases move <;> rfl

theorem setCustomer_customer {pc : CustomerPc} : (s.setCustomer i pc).customer i = pc :=
  Function.update_self ..

theorem setNeed_need {left : Int} : (s.setNeed i left).need i = left := Function.update_self ..

/-- What a customer knows after its own step. -/
theorem CustomerMove.knows (move : CustomerMove s i t events) (known : Known s) :
    Knows t.storedge (t.need i) (t.customer i) := by
  have knows := known.customers i
  have needs := known.needs i
  cases move with
  | stops done pc =>
    rw [setCustomer_customer]
    exact done
  | goes choice needed pc =>
    rw [setCustomer_customer]
    trivial
  | locks choice free pc =>
    rw [setCustomer_customer]
    trivial
  | compares choice pc =>
    rw [setCustomer_customer]
    exact rfl
  | chooses choice less pc =>
    have cell := known.cells choice
    rw [pc] at knows
    rw [setCustomer_customer]
    obtain rfl : less = decide (s.storedge choice < s.need i) := knows
    by_cases smaller : s.storedge choice < s.need i
    · simp only [smaller, decide_true, if_true]
      exact ⟨cell, Int.le_refl _, Int.le_of_lt smaller⟩
    · simp only [smaller, decide_false]
      exact ⟨needs, Int.not_lt.mp smaller, Int.le_refl _⟩
  | reads choice minVal pc =>
    rw [pc] at knows
    rw [setCustomer_customer]
    exact ⟨rfl, knows⟩
  | writes choice minVal stored pc =>
    rw [pc] at knows
    rw [setCustomer_customer]
    exact ⟨knows.2.1, knows.2.2.2⟩
  | pays choice minVal pc =>
    rw [setCustomer_customer]
    trivial
  | unlocks choice pc =>
    rw [setCustomer_customer]
    trivial

theorem CustomerMove.known (move : CustomerMove s i t events) (locked : Locked s)
    (known : Known s) : Known t := by
  constructor
  · intro j
    by_cases own : j = i
    · exact own ▸ move.knows known
    · rw [move.customer_ne own, move.need_ne own]
      apply (known.customers j).frame
      intro choice inside
      apply move.storedge choice
      intro both
      have same := (locked choice).unique (i := some j) (j := some i) inside both
      exact own (Option.some.inj same)
  · rw [move.loader]
    apply known.loader.frame
    intro choice inside
    apply move.storedge choice
    intro both
    have same := (locked choice).unique (i := none) (j := some i) inside both
    cases same
  · intro choice
    have cell := known.cells choice
    cases move with
    | writes c minVal stored pc =>
      have knows := known.customers i
      rw [pc] at knows
      by_cases here : choice = c
      · subst here
        have left : ((s.store choice (stored - minVal)).setCustomer i
            (.paying choice minVal)).storedge choice = stored - minVal := Function.update_self ..
        rw [left]
        exact Int.sub_nonneg_of_le knows.2.2.1
      · exact cell.trans_eq (Function.update_of_ne here ..).symm
    | _ => exact cell
  · intro j
    have needs := known.needs j
    cases move with
    | pays choice minVal pc =>
      have knows := known.customers i
      rw [pc] at knows
      by_cases own : j = i
      · subst own
        have left : ((s.setNeed j (s.need j - minVal)).setCustomer j
            (.unlocking choice)).need j = s.need j - minVal := Function.update_self ..
        rw [left]
        exact Int.sub_nonneg_of_le knows.2
      · exact needs.trans_eq (Function.update_of_ne own ..).symm
    | _ => exact needs

/-- A load keeps what the customers know: each of them that has read something is at
another cell. The cell itself only grows. -/
theorem LoaderMove.known (move : LoaderMove s t events) (locked : Locked s) (known : Known s) :
    Known t := by
  constructor
  · intro j
    rw [move.customer, move.need]
    apply (known.customers j).frame
    intro choice inside
    apply move.storedge choice
    intro both
    have same := (locked choice).unique (i := some j) (j := none) inside both
    cases same
  · cases move with
    | goesOn pc same outside =>
      rcases outside with rfl | ⟨choice, rfl⟩ <;> trivial
    | locks choice free pc => trivial
    | reads choice pc => exact rfl
    | writes choice stored pc => trivial
    | unlocks choice pc => trivial
  · intro choice
    have cell := known.cells choice
    cases move with
    | writes c stored pc =>
      have knows := known.loader
      rw [pc] at knows
      by_cases here : choice = c
      · subst here
        have more : ((s.store choice (stored + 500)).setLoader
            (.unlocking choice)).storedge choice = stored + 500 := Function.update_self ..
        rw [more, show stored = s.storedge choice from knows]
        exact Int.add_nonneg cell (by decide)
      · exact cell.trans_eq (Function.update_of_ne here ..).symm
    | _ => exact cell
  · intro j
    rw [move.need]
    exact known.needs j

end Knowledge

/-- The values of the shared variables and of the needs are those of an `int`. -/
structure Bounded (s : State ι) : Prop where
  cells : ∀ choice, s.storedge choice ≤ 2147483647
  needs : ∀ i, s.need i ≤ 2147483647

section Range

variable {s t : State ι} {i : ι} {events : List (Event ι)}

/-- A customer takes no more than there is, and no more than it needs: its
subtractions are always defined. -/
theorem Known.fits (known : Known s) (bounded : Bounded s) (i : ι) :
    customerFits (s.need i) (s.customer i) := by
  have knows := known.customers i
  cases pc : s.customer i with
  | writing choice minVal stored =>
    rw [pc] at knows
    obtain ⟨stored_eq, positive, enough, -⟩ := knows
    have bound := bounded.cells choice
    exact ⟨by omega, by omega⟩
  | paying choice minVal =>
    rw [pc] at knows
    obtain ⟨positive, enough⟩ : 0 ≤ minVal ∧ minVal ≤ s.need i := knows
    have bound := bounded.needs i
    exact ⟨by omega, by omega⟩
  | _ => trivial

variable [DecidableEq ι]

theorem CustomerMove.storedge_le (move : CustomerMove s i t events) (known : Known s)
    (choice : Cell) : t.storedge choice ≤ s.storedge choice := by
  cases move with
  | writes c minVal stored pc =>
    have knows := known.customers i
    rw [pc] at knows
    obtain ⟨rfl, positive, -, -⟩ := knows
    by_cases here : choice = c
    · subst here
      have left : ((s.store choice (s.storedge choice - minVal)).setCustomer i
          (.paying choice minVal)).storedge choice = s.storedge choice - minVal :=
        Function.update_self ..
      omega
    · exact (Function.update_of_ne here ..).le
  | _ => exact Int.le_refl _

theorem CustomerMove.need_le (move : CustomerMove s i t events) (known : Known s) (j : ι) :
    t.need j ≤ s.need j := by
  cases move with
  | pays c minVal pc =>
    have knows := known.customers i
    rw [pc] at knows
    have positive : 0 ≤ minVal := knows.1
    by_cases own : j = i
    · subst own
      have left : ((s.setNeed j (s.need j - minVal)).setCustomer j (.unlocking c)).need j =
          s.need j - minVal := setNeed_need
      omega
    · exact (Function.update_of_ne own ..).le
  | _ => exact Int.le_refl _

theorem CustomerMove.bounded (move : CustomerMove s i t events) (known : Known s)
    (bounded : Bounded s) : Bounded t :=
  ⟨fun c => (move.storedge_le known c).trans (bounded.cells c),
    fun j => (move.need_le known j).trans (bounded.needs j)⟩

theorem LoaderMove.bounded (move : LoaderMove s t events) (fits : loaderFits s.loader)
    (bounded : Bounded s) : Bounded t := by
  refine ⟨fun c => ?_, fun j => move.need ▸ bounded.needs j⟩
  cases move with
  | writes choice stored pc =>
    rw [pc] at fits
    by_cases here : c = choice
    · subst here
      have more : ((s.store c (stored + 500)).setLoader (.unlocking c)).storedge c = stored + 500 :=
        Function.update_self ..
      have high := fits.2
      omega
    · exact (Function.update_of_ne here ..).le.trans (bounded.cells c)
  | _ => exact bounded.cells c

end Range

def itemsOf [DecidableEq ι] (i : ι) : Event ι → Int
  | .taken j items => if j = i then items else 0
  | .loaded _ => 0

/-- What customer `i` has taken from the cells. -/
def takenBy [DecidableEq ι] (i : ι) (log : List (Event ι)) : Int := (log.map (itemsOf i)).sum

def isLoad : Event ι → Bool
  | .taken _ _ => false
  | .loaded _ => true

def loads (log : List (Event ι)) : Nat := log.countP isLoad

/-- What a customer has taken and not yet subtracted from its need. -/
def inHand : CustomerPc → Int
  | .paying _ minVal => minVal
  | .testing | .locking _ | .comparing _ | .choosing _ _ | .reading _ _ | .writing _ _ _
  | .unlocking _ | .stopped => 0

structure Accounted [Fintype ι] [DecidableEq ι] (initial : ι → Int) (log : List (Event ι))
    (s : State ι) : Prop where
  paid : ∀ i, s.need i + takenBy i log = initial i + inHand (s.customer i)
  stock : ∑ c, s.storedge c + ∑ i, takenBy i log = 2500 + 500 * loads log
  bounded : ∀ c, s.storedge c ≤ 500 + 500 * loads log

section Accounts

variable {s t : State ι} {i j : ι} {items : Int} {choice : Cell}
  {events log : List (Event ι)} {initial : ι → Int}

theorem loads_taken : loads (log ++ [.taken i items]) = loads log := by
  simp [loads, isLoad]

theorem loads_loaded : loads (log ++ [.loaded choice]) = loads log + 1 := by
  simp [loads, isLoad]

theorem start_locked (initial : ι → Int) : Locked (start initial) := by
  intro choice
  apply Exclusive.free rfl
  intro party
  cases party with
  | none => exact id
  | some i => exact id

/-- Nobody has anything in hand while all mutexes are free. -/
theorem Locked.inHand (locked : Locked s) (free : ∀ c, s.mutex c = 1) (i : ι) :
    inHand (s.customer i) = 0 := by
  cases pc : s.customer i with
  | paying choice minVal =>
    have holding : holds s choice (some i) := by
      show customerInside choice (s.customer i)
      rw [pc]
      exact rfl
    have nobody := (locked choice).nobody (by rw [free]; exact Nat.one_pos) (some i)
    exact absurd holding nobody
  | _ => rfl

variable [DecidableEq ι]

theorem takenBy_taken_self : takenBy i (log ++ [.taken i items]) = takenBy i log + items := by
  simp [takenBy, itemsOf]

theorem takenBy_taken_ne (other : j ≠ i) :
    takenBy j (log ++ [.taken i items]) = takenBy j log := by
  simp [takenBy, itemsOf, Ne.symm other]

theorem takenBy_loaded : takenBy i (log ++ [.loaded choice]) = takenBy i log := by
  simp [takenBy, itemsOf]

/-- A customer's account after its own step. -/
theorem CustomerMove.paid (move : CustomerMove s i t events)
    (account : s.need i + takenBy i log = initial i + inHand (s.customer i)) :
    t.need i + takenBy i (log ++ events) = initial i + inHand (t.customer i) := by
  cases move with
  | writes choice minVal stored pc =>
    rw [pc] at account
    rw [setCustomer_customer, takenBy_taken_self]
    simp only [inHand, State.setCustomer, State.store] at account ⊢
    omega
  | pays choice minVal pc =>
    rw [pc] at account
    rw [setCustomer_customer, List.append_nil]
    have left : ((s.setNeed i (s.need i - minVal)).setCustomer i
        (.unlocking choice)).need i = s.need i - minVal := setNeed_need
    rw [left]
    simp only [inHand] at account ⊢
    omega
  | _ =>
    rename_i pc
    rw [pc] at account
    rw [setCustomer_customer, List.append_nil]
    exact account

/-- The stock after a write to one cell: the old value goes out of the sum and the new
one comes in. -/
theorem sum_store (cells : Cell → Int) (choice : Cell) (items : Int) :
    ∑ c, Function.update cells choice items c = ∑ c, cells c - cells choice + items := by
  have changed := sum_change cells (Function.update cells choice items) choice
    fun c other => Function.update_of_ne other ..
  rw [Function.update_self] at changed
  omega

variable [Fintype ι]

/-- What all customers have taken, after one of them has taken `items` more. -/
theorem sum_takenBy_taken :
    ∑ j, takenBy j (log ++ [.taken i items]) = ∑ j, takenBy j log + items := by
  have each : ∀ j, takenBy j (log ++ [.taken i items]) =
      takenBy j log + if i = j then items else 0 := by
    intro j
    simp [takenBy, itemsOf]
  simp [each, Finset.sum_add_distrib]

/-- A customer's step keeps the accounts: what its write takes off the stock is what the
log gains, and it is in the customer's hand until the need is paid. -/
theorem CustomerMove.accounted (move : CustomerMove s i t events) (known : Known s)
    (accounted : Accounted initial log s) : Accounted initial (log ++ events) t := by
  constructor
  · intro j
    by_cases own : j = i
    · exact own ▸ move.paid (accounted.paid i)
    · have same : takenBy j (log ++ events) = takenBy j log := by
        cases move with
        | writes choice minVal stored pc => exact takenBy_taken_ne own
        | _ => rw [List.append_nil]
      rw [move.customer_ne own, move.need_ne own, same]
      exact accounted.paid j
  · cases move with
    | writes choice minVal stored pc =>
      have knows := known.customers i
      rw [pc] at knows
      have stock := accounted.stock
      have stored_eq : stored = s.storedge choice := knows.1
      have sum : ∑ c, (s.store choice (stored - minVal)).storedge c =
          ∑ c, s.storedge c - s.storedge choice + (stored - minVal) := sum_store ..
      have same :
          ((s.store choice (stored - minVal)).setCustomer i (.paying choice minVal)).storedge =
          (s.store choice (stored - minVal)).storedge := rfl
      rw [same, sum, sum_takenBy_taken, loads_taken]
      omega
    | _ =>
      rw [List.append_nil]
      exact accounted.stock
  · intro c
    have bound := accounted.bounded c
    cases move with
    | writes choice minVal stored pc =>
      have knows := known.customers i
      rw [pc] at knows
      rw [loads_taken]
      by_cases here : c = choice
      · subst here
        have left : ((s.store c (stored - minVal)).setCustomer i (.paying c minVal)).storedge c =
            stored - minVal := Function.update_self ..
        have stored_eq : stored = s.storedge c := knows.1
        have taken := knows.2.1
        omega
      · exact (Int.le_of_eq (Function.update_of_ne here ..)).trans bound
    | _ =>
      rw [List.append_nil]
      exact bound

/-- A load adds 500 to the stock and one to the number of loads; the other steps of the
loader leave the accounts alone. -/
theorem LoaderMove.accounted (move : LoaderMove s t events) (known : Known s)
    (accounted : Accounted initial log s) : Accounted initial (log ++ events) t := by
  have stock := accounted.stock
  have loader := known.loader
  cases move with
  | writes choice stored pc =>
    rw [pc] at loader
    have stored_eq : stored = s.storedge choice := loader
    constructor
    · intro j
      rw [takenBy_loaded]
      exact accounted.paid j
    · have sum : ∑ c, ((s.store choice (stored + 500)).setLoader (.unlocking choice)).storedge c =
          ∑ c, s.storedge c - s.storedge choice + (stored + 500) := sum_store ..
      simp only [takenBy_loaded]
      rw [sum, loads_loaded]
      omega
    · intro c
      have bound := accounted.bounded c
      rw [loads_loaded]
      by_cases here : c = choice
      · subst here
        have more : ((s.store c (stored + 500)).setLoader (.unlocking c)).storedge c =
            stored + 500 := Function.update_self ..
        omega
      · have same : ((s.store choice (stored + 500)).setLoader (.unlocking choice)).storedge c =
            s.storedge c := Function.update_of_ne here ..
        omega
  | _ =>
    rw [List.append_nil]
    exact ⟨accounted.paid, stock, accounted.bounded⟩

/-- No package is added to a cell that it would take beyond the range of `int`. -/
def Fitting (s : State ι) : Action ι → Prop
  | .loader _ => loaderFits s.loader
  | .customer _ _ | .main => True

/-- A need that an `int` can hold. -/
def Payable (initial : ι → Int) : Prop := ∀ i, 0 ≤ initial i ∧ initial i ≤ 2147483647

structure Sound (initial : ι → Int) (log : List (Event ι)) (s : State ι) : Prop where
  locked : Locked s
  known : Known s
  bounded : Bounded s
  accounted : Accounted initial log s

/-- Before the first step all mutexes are free, each cell has its 500, nobody has paid,
and the log is empty. -/
theorem start_sound (payable : Payable initial) : Sound initial [] (start initial) := by
  refine ⟨start_locked initial,
    ⟨fun _ => trivial, trivial, fun _ => Int.natCast_nonneg 500, fun i => (payable i).1⟩,
    ⟨fun _ => ?_, fun i => (payable i).2⟩, ⟨fun _ => ?_, ?_, fun _ => Int.le_refl 500⟩⟩
  · show (500 : Int) ≤ 2147483647
    decide
  · rfl
  · simp [start, takenBy, loads]

/-- One step of any thread keeps all four parts. For the loader the condition of the
schedule comes in here, and only here. -/
theorem step_sound {a : Action ι} (sound : Sound initial log s) (fitting : Fitting s a)
    (stepped : warehouse.step s a = some t) :
    Sound initial (log ++ warehouse.emit s a) t := by
  cases a with
  | customer i rand =>
    have move := customerStep_move (sound.known.fits sound.bounded i) stepped
    exact ⟨move.locked sound.locked, move.known sound.locked sound.known,
      move.bounded sound.known sound.bounded, move.accounted sound.known sound.accounted⟩
  | loader rand =>
    have move := loaderStep_move fitting stepped
    exact ⟨move.locked sound.locked, move.known sound.locked sound.known,
      move.bounded fitting sound.bounded, move.accounted sound.known sound.accounted⟩
  | main =>
    simp only [warehouse, step] at stepped
    split at stepped
    · cases stepped
      rw [show warehouse.emit s .main = [] from rfl, List.append_nil]
      exact ⟨sound.locked, ⟨sound.known.customers, sound.known.loader, sound.known.cells,
        sound.known.needs⟩, ⟨sound.bounded.cells, sound.bounded.needs⟩,
        ⟨sound.accounted.paid, sound.accounted.stock, sound.accounted.bounded⟩⟩
    · cases stepped

theorem sound_of_reach (payable : Payable initial)
    (run : warehouse.Reach Fitting (start initial) log s) : Sound initial log s := by
  apply run.invariant (Sound initial)
  · exact start_sound payable
  · intro log s a t sound fitting stepped
    exact step_sound sound fitting stepped

/-- As long as no package is added to a cell that is too full for it: the stock and
what was taken make up what was there and what was loaded, at every moment when no
cell is locked; no cell and no need is negative, and no cell exceeds what has been
loaded at all; who stops has taken its initial need; and no customer's subtraction
leaves the range of `int`. -/
theorem stock_conserved (payable : Payable initial)
    (run : warehouse.Reach Fitting (start initial) log s) :
    ((∀ c, s.mutex c = 1) →
      ∑ c, s.storedge c + ∑ i, (initial i - s.need i) = 2500 + 500 * loads log ∧
      ∀ i, takenBy i log = initial i - s.need i) ∧
    (∀ c, 0 ≤ s.storedge c ∧ s.storedge c ≤ 500 + 500 * loads log) ∧
    (∀ i, 0 ≤ s.need i) ∧
    (∀ i, s.customer i = .stopped → s.need i = 0 ∧ takenBy i log = initial i) ∧
    ∀ i, customerFits (s.need i) (s.customer i) := by
  have sound := sound_of_reach payable run
  refine ⟨fun free => ?_, fun c => ⟨sound.known.cells c, sound.accounted.bounded c⟩,
    sound.known.needs, fun i stopped => ?_, sound.known.fits sound.bounded⟩
  · have taken : ∀ i, takenBy i log = initial i - s.need i := by
      intro i
      have paid := sound.accounted.paid i
      rw [sound.locked.inHand free i] at paid
      omega
    have stock := sound.accounted.stock
    simp only [taken] at stock
    exact ⟨stock, taken⟩
  · have knows := sound.known.customers i
    have paid := sound.accounted.paid i
    rw [stopped] at knows paid
    have zero : s.need i = 0 := knows
    simp only [Stock.inHand] at paid
    exact ⟨zero, by omega⟩

end Accounts

instance (s : State ι) : DecidablePred (Fitting s)
  | .loader _ => inferInstanceAs (Decidable (loaderFits s.loader))
  | .customer _ _ | .main => isTrue trivial

/-- One of two customers needs 700 and stops after a load and two visits. -/
theorem stock_conserved_visits : ∃ log s,
    warehouse.Reach Fitting (start fun i : Fin 2 => if i = 0 then 700 else 0) log s ∧
    takenBy 0 log = 700 ∧
      ∑ c, s.storedge c + ∑ i, ((if i = 0 then 700 else 0) - s.need i) = 3000 := by
  obtain ⟨log, s, run, visited⟩ := System.exists_reach warehouse Fitting
    (start fun i : Fin 2 => if i = 0 then 700 else 0)
    (List.flatten [List.replicate 8 (.customer 0 3), List.replicate 5 (.loader 3),
      List.replicate 9 (.customer 0 1)])
    (fun log s => s.customer 0 = .stopped ∧ (∀ c, s.mutex c = 1) ∧ loads log = 1) (by decide)
  have conserved := stock_conserved (show ∀ _, _ ∧ _ by decide) run
  have balance := (conserved.1 visited.2.1).1
  rw [visited.2.2] at balance
  exact ⟨log, s, run, (conserved.2.2.2.1 0 visited.1).2, balance⟩

section Full

variable [DecidableEq ι] [Fintype ι] {s t u : State ι} {choice : Cell}

/-- A mutex that is taken and given back is as it was. -/
theorem given_back {mutex : Cell → Nat} {choice : Cell} (one : mutex choice = 1) :
    Function.update (Function.update mutex choice (mutex choice - 1)) choice
      (Function.update mutex choice (mutex choice - 1) choice + 1) = mutex := by
  rw [Function.update_self, Function.update_idem, one, Nat.sub_self, Nat.zero_add, ← one,
    Function.update_eq_self]

/-- A load, one turn of the loop. -/
theorem leads_loaded {permitted : State ι → Action ι → Prop}
    (may : ∀ t : State ι, loaderFits t.loader ∨ t.loader = .writing choice (s.storedge choice) →
      permitted t (.loader choice))
    (pc : s.loader = .testing) (works : s.isLoaderWorking = true) (one : s.mutex choice = 1) :
    warehouse.Leads permitted s (s.store choice (asInt (s.storedge choice + 500))) := by
  let taken := Function.update s.mutex choice (s.mutex choice - 1)
  let full := s.store choice (asInt (s.storedge choice + 500))
  have given : Function.update taken choice (taken choice + 1) = s.mutex := given_back one
  have step {t u : State ι}
      (here : loaderFits t.loader ∨ t.loader = .writing choice (s.storedge choice))
      (stepped : loaderStep t choice = some u) : warehouse.Leads permitted t u :=
    .step (a := .loader choice) (may t here) stepped
  calc warehouse.Leads permitted s (s.setLoader (.locking choice)) :=
        step (.inl (pc ▸ trivial)) (by simp [loaderStep, pc, works])
    warehouse.Leads permitted _ ({ s with mutex := taken }.setLoader (.reading choice)) :=
        step (.inl (by trivial)) (by simp [loaderStep, State.setLoader, State.lock, one, taken])
    warehouse.Leads permitted _
        ({ s with mutex := taken }.setLoader (.writing choice (s.storedge choice))) :=
        step (.inl (by trivial)) (by simp [loaderStep, State.setLoader])
    warehouse.Leads permitted _ ({ full with mutex := taken }.setLoader (.unlocking choice)) :=
        step (.inr (by rfl)) (by simp [loaderStep, State.setLoader, State.store, full])
    warehouse.Leads permitted _ ({ full with mutex := s.mutex }.setLoader .testing) :=
        step (.inl (by trivial)) (by simp [loaderStep, State.setLoader, State.unlock, given])
    _ = s.store choice (asInt (s.storedge choice + 500)) := by
        simp [State.setLoader, State.store, pc, full]

/-- Loads into one cell, as long as the number stays in the range of `int`. -/
theorem leads_piled (initial : ι → Int) (n : Nat) (fits : 500 + 500 * n ≤ 2147483647) :
    warehouse.Leads System.Anything (start initial)
      ((start initial).store 0 (500 + 500 * n)) := by
  induction n with
  | zero =>
    rw [State.store, show (500 + 500 * (0 : Nat) : Int) = (start initial).storedge 0 from rfl,
      Function.update_eq_self]
    exact .refl _
  | succ n ih =>
    have onward := @leads_loaded ι _ _ ((start initial).store 0 (500 + 500 * n)) 0
      System.Anything (fun _ _ => trivial) rfl rfl rfl
    have held : ((start initial).store 0 (500 + 500 * n)).storedge 0 = 500 + 500 * n := by
      simp [State.store]
    have more : asInt (500 + 500 * n + 500 : Int) = 500 + 500 * (n + 1 : Nat) := by
      rw [asInt_eq ⟨by omega, by omega⟩]
      omega
    rw [held, more, State.store, State.store, Function.update_idem] at onward
    exact (ih (by omega)).trans onward

/-- The load that is one too many: the cell is negative, and the sum is lost. -/
theorem stock_lost_full : ∃ log s,
    warehouse.Reach System.Anything (start fun _ : Fin 1 => 10000) log s ∧ (∀ c, s.mutex c = 1) ∧
    s.storedge 0 < 0 ∧
    ∑ c, s.storedge c + ∑ i, ((10000 : Int) - s.need i) ≠ 2500 + 500 * loads log := by
  have piled := leads_piled (fun _ : Fin 1 => 10000) 4294966 (by decide)
  have held : ((start fun _ : Fin 1 => 10000).store 0 (500 + 500 * (4294966 : Nat))).storedge 0 =
      500 + 500 * (4294966 : Nat) := by simp [State.store]
  obtain ⟨log, run⟩ := piled.trans
    (@leads_loaded _ _ _ _ 0 _ (fun _ _ => trivial) rfl rfl rfl)
  rw [held, show asInt (500 + 500 * (4294966 : Nat) + 500) = -2147483296 by decide] at run
  refine ⟨log, _, run, fun _ => rfl, ?_, ?_⟩
  · decide
  · have sum : ∑ c, (((start fun _ : Fin 1 => 10000).store 0 (500 + 500 * (4294966 : Nat))).store 0
        (-2147483296)).storedge c + ∑ _i : Fin 1, ((10000 : Int) - 10000) = -2147481296 := by decide
    have positive : (0 : Int) ≤ 500 * loads log := by omega
    intro same
    have both := sum.symm.trans same
    omega

end Full

end EltexCourse.Guarantees.Warehouse.Stock
