import EltexCourse.Foundations.Completion
import EltexCourse.Guarantees.Warehouse.Stock

/-!
# task11.3: the customers can always still be served

Whatever has happened, the program can be brought to its end: those who are on
their way to a cell or at one finish there, and then one customer at a time is
sent to a cell that is not empty, which the loader fills if there is none.
-/

set_option autoImplicit false

namespace EltexCourse.Guarantees.Warehouse.Finish
open Foundations.Transition Foundations.Decimal Foundations.Semaphore Foundations.Custody
  Source.Warehouse Stock

variable {ι : Type}

/-- The cell that the loader is about to load. -/
def loading (choice : Cell) : LoaderPc → Prop
  | .locking c | .reading c | .writing c _ => choice = c
  | .testing | .unlocking _ | .stopped => False

/-- The package on its way stays in the range of `int`. -/
def Room (s : State ι) : Prop :=
  ∀ choice, loading choice s.loader → s.storedge choice + 500 ≤ 2147483647

/-- All threads have returned. -/
structure Finished (s : State ι) : Prop where
  customers : ∀ i, s.customer i = .stopped
  loader : s.loader = .stopped

structure Running (s : State ι) : Prop where
  locked : Locked s
  known : Known s
  bounded : Bounded s
  customers : s.isLoaderWorking = false → ∀ i, s.customer i = .stopped
  loader : s.loader = .stopped → s.isLoaderWorking = false

variable {s t : State ι} {i : ι} {rand : Cell} {events : List (Event ι)}

/-- The loader stops only when it is told to. -/
theorem loader_effects (stepped : loaderStep s rand = some t) :
    t.isLoaderWorking = s.isLoaderWorking ∧ (t.loader = .stopped → s.isLoaderWorking = false) := by
  unfold loaderStep at stepped
  split at stepped
  · cases stepped
    refine ⟨rfl, fun stopped => ?_⟩
    simpa [State.setLoader] using stopped
  · obtain ⟨locked, locks, rfl⟩ := Option.map_eq_some_iff.mp stepped
    obtain ⟨-, rfl⟩ := lock_eq_some locks
    exact ⟨rfl, fun stopped => by cases stopped⟩
  · cases stepped
    exact ⟨rfl, fun stopped => by cases stopped⟩
  · cases stepped
    exact ⟨rfl, fun stopped => by cases stopped⟩
  · cases stepped
    exact ⟨rfl, fun stopped => by cases stopped⟩
  · cases stepped

section

variable [DecidableEq ι]

/-- In a running state a customer's sums are those of arithmetic, so that its step is
one of those listed. -/
theorem Running.customerMove (running : Running s) (stepped : customerStep s i rand = some t) :
    CustomerMove s i t (emit s (.customer i rand)) :=
  customerStep_move (running.known.fits running.bounded i) stepped

theorem customer_isLoaderWorking (move : CustomerMove s i t events) :
    t.isLoaderWorking = s.isLoaderWorking := by
  cases move <;> rfl

theorem customer_not_stopped (move : CustomerMove s i t events) : s.customer i ≠ .stopped := by
  intro stopped
  cases move <;> simp_all

/-- A customer's step keeps the state running. `main` cannot have told the loader to
stop, as it has to join this customer first. -/
theorem customer_running (running : Running s) (stepped : customerStep s i rand = some t) :
    Running t := by
  have move := running.customerMove stepped
  have working := customer_isLoaderWorking move
  constructor
  · exact move.locked running.locked
  · exact move.known running.locked running.known
  · exact move.bounded running.known running.bounded
  · intro stopping
    exact absurd (running.customers (working ▸ stopping) i) (customer_not_stopped move)
  · intro stopped
    rw [move.loader] at stopped
    exact working.trans (running.loader stopped)

theorem loader_running (running : Running s) (fits : loaderFits s.loader)
    (stepped : loaderStep s rand = some t) : Running t := by
  have move := loaderStep_move fits stepped
  obtain ⟨working, stops⟩ := loader_effects stepped
  constructor
  · exact move.locked running.locked
  · exact move.known running.locked running.known
  · exact move.bounded fits running.bounded
  · exact fun stopping j => move.customer ▸ running.customers (working ▸ stopping) j
  · exact fun stopped => working.trans (stops stopped)

theorem step_running [Fintype ι] {a : Action ι} (running : Running s) (fitting : Fitting s a)
    (stepped : warehouse.step s a = some t) : Running t := by
  cases a with
  | customer i rand => exact customer_running running stepped
  | loader rand => exact loader_running running fitting stepped
  | main =>
    simp only [warehouse, step] at stepped
    split at stepped
    next all =>
      cases stepped
      exact ⟨running.locked, ⟨running.known.customers, running.known.loader, running.known.cells,
        running.known.needs⟩, ⟨running.bounded.cells, running.bounded.needs⟩, fun _ => all,
        fun _ => rfl⟩
    next => cases stepped

end

/-- The steps to the end of a visit. -/
def customerAway : CustomerPc → Nat
  | .testing | .stopped => 0
  | .locking _ => 7
  | .comparing _ => 6
  | .choosing _ _ => 5
  | .reading _ _ => 4
  | .writing _ _ _ => 3
  | .paying _ _ => 2
  | .unlocking _ => 1

def loaderAway : LoaderPc → Nat
  | .testing | .stopped => 0
  | .locking _ => 4
  | .reading _ => 3
  | .writing _ _ => 2
  | .unlocking _ => 1

def away [Fintype ι] (s : State ι) : Nat := ∑ i, customerAway (s.customer i) + loaderAway s.loader

/-- Nobody is on the way to a cell. -/
structure Quiet (s : State ι) : Prop where
  customers : ∀ i, s.customer i = .testing ∨ s.customer i = .stopped
  loader : s.loader = .testing ∨ s.loader = .stopped

/-- With no step left to the end of any visit, all threads are at the head of their
loops or have returned. -/
theorem quiet_of_away [Fintype ι] (arrived : away s = 0) : Quiet s := by
  have both : ∑ i, customerAway (s.customer i) = 0 ∧ loaderAway s.loader = 0 := by
    simp only [away] at arrived
    omega
  constructor
  · intro i
    have here : customerAway (s.customer i) = 0 :=
      Finset.sum_eq_zero_iff.mp both.1 i (Finset.mem_univ i)
    cases pc : s.customer i <;> simp_all [customerAway]
  · cases pc : s.loader <;> simp_all [loaderAway]

theorem loader_goesOn (onWay : 0 < loaderAway s.loader)
    (free : ∀ choice, s.loader = .locking choice → 0 < s.mutex choice) :
    ∃ t, loaderStep s 0 = some t := by
  unfold loaderStep
  cases pc : s.loader with
  | testing | stopped =>
    rw [pc] at onWay
    cases onWay
  | locking choice => simp [State.lock, free choice pc]
  | reading choice => exact ⟨_, rfl⟩
  | writing choice stored => exact ⟨_, rfl⟩
  | unlocking choice => exact ⟨_, rfl⟩

/-- There is room for the package on its way. -/
theorem Room.fits (room : Room s) (known : Known s) : loaderFits s.loader := by
  have knows := known.loader
  cases pc : s.loader with
  | writing choice stored =>
    rw [pc] at knows
    obtain rfl : stored = s.storedge choice := knows
    have positive := known.cells choice
    have bound := room choice (by rw [pc]; exact rfl)
    exact ⟨by omega, by omega⟩
  | _ => trivial

theorem Quiet.mutex (quiet : Quiet s) (running : Running s) (choice : Cell) :
    s.mutex choice = 1 := by
  cases running.locked choice with
  | free one => exact one
  | held _ holder inside =>
    cases holder with
    | some i =>
      have inside : customerInside choice (s.customer i) := inside
      rcases quiet.customers i with pc | pc <;> rw [pc] at inside <;> exact inside.elim
    | none =>
      have inside : loaderInside choice s.loader := inside
      rcases quiet.loader with pc | pc <;> rw [pc] at inside <;> exact inside.elim

section

variable [DecidableEq ι]

/-- Inside a visit only the lock can block, and it does not when the mutex is free. -/
theorem customer_goesOn (onWay : 0 < customerAway (s.customer i))
    (free : ∀ choice, s.customer i = .locking choice → 0 < s.mutex choice) :
    ∃ t, customerStep s i 0 = some t := by
  unfold customerStep
  cases pc : s.customer i with
  | testing | stopped =>
    rw [pc] at onWay
    cases onWay
  | locking choice => simp [State.lock, free choice pc]
  | comparing choice => exact ⟨_, rfl⟩
  | choosing choice less => exact ⟨_, rfl⟩
  | reading choice minVal => exact ⟨_, rfl⟩
  | writing choice minVal stored => exact ⟨_, rfl⟩
  | paying choice minVal => exact ⟨_, rfl⟩
  | unlocking choice => exact ⟨_, rfl⟩

theorem customer_nearer (move : CustomerMove s i t events)
    (onWay : 0 < customerAway (s.customer i)) :
    customerAway (t.customer i) + 1 = customerAway (s.customer i) := by
  cases move with
  | stops done pc | goes choice needs pc =>
    rw [pc] at onWay
    cases onWay
  | _ =>
    rename_i pc
    rw [pc, setCustomer_customer]
    rfl

/-- A step inside a load brings the loader one step nearer to its end. It keeps the cell
it goes to, so that the room found for its package is still the room it needs. -/
theorem loader_nearer (move : LoaderMove s t events) (onWay : 0 < loaderAway s.loader)
    (room : Room s) :
    loaderAway t.loader + 1 = loaderAway s.loader ∧ Room t := by
  cases move with
  | goesOn pc same outside =>
    rw [same] at onWay
    cases onWay
  | locks choice free pc =>
    rw [pc]
    refine ⟨rfl, fun c loads => room c ?_⟩
    rw [pc]
    exact loads
  | reads choice pc =>
    rw [pc]
    refine ⟨rfl, fun c loads => room c ?_⟩
    rw [pc]
    exact loads
  | writes choice stored pc =>
    rw [pc]
    exact ⟨rfl, fun c loads => loads.elim⟩
  | unlocks choice pc =>
    rw [pc]
    exact ⟨rfl, fun c loads => loads.elim⟩

/-- Customer `i` alone has gone on, to these values of what it shares. -/
def acting (s : State ι) (i : ι) (cells : Cell → Int) (mutex : Cell → Nat) (need : Int)
    (pc : CustomerPc) : State ι :=
  { s with
    storedge := cells
    mutex := mutex
    need := Function.update s.need i need
    customer := Function.update s.customer i pc }

/-- What the customer will get from the cell. -/
def share (s : State ι) (i : ι) (choice : Cell) : Int :=
  if s.storedge choice < s.need i then s.storedge choice else s.need i

def served (s : State ι) (i : ι) (choice : Cell) : State ι :=
  acting s i (Function.update s.storedge choice (s.storedge choice - share s i choice)) s.mutex
    (s.need i - share s i choice) .testing

def refilled (s : State ι) (choice : Cell) : State ι :=
  { s with storedge := Function.update s.storedge choice (s.storedge choice + 500) }

section

variable {cells : Cell → Int} {mutex : Cell → Nat} {need minVal stored : Int} {choice : Cell}
  {less : Bool}

theorem acting_goes (needs : need ≠ 0) :
    customerStep (acting s i cells mutex need .testing) i choice =
      some (acting s i cells mutex need (.locking choice)) := by
  simp [acting, customerStep, State.setCustomer, needs]

theorem acting_locks (free : 0 < mutex choice) :
    customerStep (acting s i cells mutex need (.locking choice)) i rand =
      some (acting s i cells (Function.update mutex choice (mutex choice - 1)) need
        (.comparing choice)) := by
  simp [acting, customerStep, State.setCustomer, State.lock, free]

theorem acting_compares :
    customerStep (acting s i cells mutex need (.comparing choice)) i rand =
      some (acting s i cells mutex need (.choosing choice (cells choice < need))) := by
  simp [acting, customerStep, State.setCustomer]

/-- The second reading of `MIN`: it takes the cell or the need according to the
comparison made before. -/
theorem acting_chooses :
    customerStep (acting s i cells mutex need (.choosing choice less)) i rand =
      some (acting s i cells mutex need
        (.reading choice (if less then cells choice else need))) := by
  simp [acting, customerStep, State.setCustomer]

theorem acting_reads :
    customerStep (acting s i cells mutex need (.reading choice minVal)) i rand =
      some (acting s i cells mutex need (.writing choice minVal (cells choice))) := by
  simp [acting, customerStep, State.setCustomer]

theorem acting_writes (fits : asInt (stored - minVal) = stored - minVal) :
    customerStep (acting s i cells mutex need (.writing choice minVal stored)) i rand =
      some (acting s i (Function.update cells choice (stored - minVal)) mutex need
        (.paying choice minVal)) := by
  simp [acting, customerStep, State.setCustomer, State.store, fits]

theorem acting_pays (fits : asInt (need - minVal) = need - minVal) :
    customerStep (acting s i cells mutex need (.paying choice minVal)) i rand =
      some (acting s i cells mutex (need - minVal) (.unlocking choice)) := by
  simp [acting, customerStep, State.setCustomer, State.setNeed, fits]

theorem acting_unlocks :
    customerStep (acting s i cells mutex need (.unlocking choice)) i rand =
      some (acting s i cells (Function.update mutex choice (mutex choice + 1)) need .testing) := by
  simp [acting, customerStep, State.setCustomer, State.unlock]

end

variable [Fintype ι]

/-- A customer's visit leaves no less room for the package on its way: it takes from a
cell and adds to none. -/
theorem customer_approaches (move : CustomerMove s i t events) (room : Room s)
    (known : Known s) (onWay : 0 < customerAway (s.customer i)) : Room t ∧ away t < away s := by
  constructor
  · intro choice loads
    rw [move.loader] at loads
    have less := move.storedge_le known choice
    have bound := room choice loads
    omega
  · have nearer := customer_nearer move onWay
    have sum :=
      sum_change (fun j => customerAway (s.customer j)) (fun j => customerAway (t.customer j)) i
      fun j other => by rw [move.customer_ne other]
    simp only [away, move.loader]
    omega

theorem loader_approaches (move : LoaderMove s t events) (room : Room s)
    (onWay : 0 < loaderAway s.loader) : Room t ∧ away t < away s := by
  obtain ⟨nearer, room'⟩ := loader_nearer move onWay room
  refine ⟨room', ?_⟩
  simp only [away, move.customer]
  omega

/-- Whoever has a mutex is on the way, and whoever waits for one can be let in
when nobody has it. -/
theorem approach (running : Running s) (room : Room s) :
    away s = 0 ∨ ∃ t, warehouse.Leads Fitting s t ∧ (Running t ∧ Room t) ∧ away t < away s := by
  have customer (i : ι) (onWay : 0 < customerAway (s.customer i))
      (free : ∀ choice, s.customer i = .locking choice → 0 < s.mutex choice) :
      ∃ t, warehouse.Leads Fitting s t ∧ (Running t ∧ Room t) ∧ away t < away s := by
    obtain ⟨t, stepped⟩ := customer_goesOn onWay free
    obtain ⟨room', nearer⟩ :=
      customer_approaches (running.customerMove stepped) room running.known onWay
    exact ⟨t, .step (a := .customer i 0) trivial stepped,
      ⟨customer_running running stepped, room'⟩, nearer⟩
  have loader (onWay : 0 < loaderAway s.loader)
      (free : ∀ choice, s.loader = .locking choice → 0 < s.mutex choice) :
      ∃ t, warehouse.Leads Fitting s t ∧ (Running t ∧ Room t) ∧ away t < away s := by
    obtain ⟨t, stepped⟩ := loader_goesOn onWay free
    have fits := room.fits running.known
    obtain ⟨room', nearer⟩ := loader_approaches (loaderStep_move fits stepped) room onWay
    exact ⟨t, .step (a := .loader 0) fits stepped,
      ⟨loader_running running fits stepped, room'⟩, nearer⟩
  by_cases held : ∃ choice party, holds s choice party
  · obtain ⟨choice, party, inside⟩ := held
    right
    cases party with
    | some i =>
      have inside : customerInside choice (s.customer i) := inside
      apply customer i
      · cases pc : s.customer i <;> simp_all [customerInside, customerAway]
      · intro c waits
        rw [waits] at inside
        exact inside.elim
    | none =>
      have inside : loaderInside choice s.loader := inside
      apply loader
      · cases pc : s.loader <;> simp_all [loaderInside, loaderAway]
      · intro c waits
        rw [waits] at inside
        exact inside.elim
  · have free (choice : Cell) : 0 < s.mutex choice := by
      cases running.locked choice with
      | free one => omega
      | held _ holder inside => exact absurd ⟨choice, holder, inside⟩ held
    by_cases waiting : ∃ i, 0 < customerAway (s.customer i)
    · obtain ⟨i, onWay⟩ := waiting
      exact .inr (customer i onWay fun choice _ => free choice)
    · by_cases onWay : 0 < loaderAway s.loader
      · exact .inr (loader onWay fun choice _ => free choice)
      · have nobody (i : ι) : customerAway (s.customer i) = 0 :=
          Nat.eq_zero_of_not_pos fun onWay => waiting ⟨i, onWay⟩
        left
        simp only [away, nobody, Finset.sum_const_zero]
        omega

/-- Whatever is going on, it can be brought to a state in which nobody is on the way to
a cell or at one. -/
theorem quiet_reachable (running : Running s) (room : Room s) :
    ∃ t, warehouse.Leads Fitting s t ∧ Running t ∧ Quiet t := by
  obtain ⟨t, leads, ⟨running', -⟩, arrived⟩ :=
    System.leads_of_rank (fun s => Running s ∧ Room s) (fun s => away s = 0) away
      (fun s both => approach both.1 both.2) ⟨running, room⟩
  exact ⟨t, leads, running', quiet_of_away arrived⟩

/-- A visit to a cell that nobody else is at. -/
theorem leads_served (running : Running s) (quiet : Quiet s) (choice : Cell)
    (pc : s.customer i = .testing) (needs : s.need i ≠ 0) :
    warehouse.Leads Fitting s (served s i choice) := by
  have one := quiet.mutex running choice
  have cell := running.known.cells choice
  have need := running.known.needs i
  have cellBound := running.bounded.cells choice
  have needBound := running.bounded.needs i
  have ranges : 0 ≤ share s i choice ∧ share s i choice ≤ s.storedge choice ∧
      share s i choice ≤ s.need i := by
    unfold share
    split <;> omega
  have stored := asInt_eq (n := s.storedge choice - share s i choice) ⟨by omega, by omega⟩
  have left := asInt_eq (n := s.need i - share s i choice) ⟨by omega, by omega⟩
  have begin : s = acting s i s.storedge s.mutex (s.need i) .testing := by
    rw [acting, Function.update_eq_self, ← pc, Function.update_eq_self]
  let taken := Function.update s.mutex choice (s.mutex choice - 1)
  have given : Function.update taken choice (taken choice + 1) = s.mutex := given_back one
  let cells := Function.update s.storedge choice (s.storedge choice - share s i choice)
  have less : (if decide (s.storedge choice < s.need i) then s.storedge choice else s.need i) =
      share s i choice := by
    simp [share]
  have step {t u : State ι} (stepped : customerStep t i choice = some u) :
    warehouse.Leads Fitting t u :=
    .step (a := .customer i choice) trivial stepped
  calc warehouse.Leads Fitting s (acting s i s.storedge s.mutex (s.need i) (.locking choice)) := by
        have goes := @acting_goes ι s i _ s.storedge s.mutex _ choice needs
        rw [← begin] at goes
        exact step goes
    warehouse.Leads Fitting _ (acting s i s.storedge taken (s.need i) (.comparing choice)) :=
        step (acting_locks (by omega))
    warehouse.Leads Fitting _ (acting s i s.storedge taken (s.need i)
        (.choosing choice (s.storedge choice < s.need i))) := step acting_compares
    warehouse.Leads Fitting _
      (acting s i s.storedge taken (s.need i) (.reading choice (share s i choice))) :=
        less ▸ step acting_chooses
    warehouse.Leads Fitting _ (acting s i s.storedge taken (s.need i)
        (.writing choice (share s i choice) (s.storedge choice))) := step acting_reads
    warehouse.Leads Fitting _
      (acting s i cells taken (s.need i) (.paying choice (share s i choice))) :=
        step (acting_writes stored)
    warehouse.Leads Fitting _
      (acting s i cells taken (s.need i - share s i choice) (.unlocking choice)) :=
        step (acting_pays left)
    warehouse.Leads Fitting _ (acting s i cells (Function.update taken choice (taken choice + 1))
        (s.need i - share s i choice) .testing) := step acting_unlocks
    _ = served s i choice := by rw [given]; rfl

/-- A load by a loader that still works, with nobody in the way and room in the cell. -/
theorem leads_refilled (running : Running s) (quiet : Quiet s) (choice : Cell)
    (pc : s.loader = .testing) (works : s.isLoaderWorking = true)
    (fits : s.storedge choice + 500 ≤ 2147483647) :
    warehouse.Leads Fitting s (refilled s choice) := by
  have cell := running.known.cells choice
  have range : IsInt (s.storedge choice + 500) := ⟨by omega, by omega⟩
  have may (t : State ι)
    (here : loaderFits t.loader ∨ t.loader = .writing choice (s.storedge choice)) :
      Fitting t (.loader choice) := by
    rcases here with fits | writes
    · exact fits
    · rw [Fitting, writes]
      exact range
  have loaded := leads_loaded may pc works (quiet.mutex running choice)
  rw [asInt_eq range] at loaded
  exact loaded

/-- The needs, and one for each customer that has not stopped. -/
def owing (s : State ι) : Nat :=
  ∑ i, ((s.need i).toNat + if s.customer i = .stopped then 0 else 1)

theorem owing_lt (others : ∀ j, j ≠ i → t.need j = s.need j ∧ t.customer j = s.customer j)
    (less : (t.need i).toNat + (if t.customer i = .stopped then 0 else 1) <
      (s.need i).toNat + if s.customer i = .stopped then 0 else 1) : owing t < owing s := by
  have sum := sum_change (fun j => (s.need j).toNat + if s.customer j = .stopped then 0 else 1)
    (fun j => (t.need j).toNat + if t.customer j = .stopped then 0 else 1) i fun j other => by
      rw [(others j other).1, (others j other).2]
  simp only [owing]
  omega

/-- A customer in need that is sent to a cell with something in it comes away with at
least one item, and owes less. -/
theorem serve_stocked (running : Running s) (quiet : Quiet s) (pc : s.customer i = .testing)
    (needs : s.need i ≠ 0) {choice : Cell} (stocked : 0 < s.storedge choice) :
    ∃ t, warehouse.Leads Fitting s t ∧ (Running t ∧ Quiet t) ∧ owing t < owing s := by
  have leads := leads_served running quiet choice pc needs
  have positive := running.known.needs i
  refine ⟨_, leads, ⟨leads.keeps Running running fun _ _ _ => step_running, ?_, quiet.loader⟩,
    owing_lt (i := i) (fun j other => ?_) ?_⟩
  · intro j
    by_cases own : j = i
    · subst own
      exact .inl (Function.update_self ..)
    · show Function.update s.customer i .testing j = _ ∨ Function.update s.customer i .testing j = _
      rw [Function.update_of_ne own]
      exact quiet.customers j
  · exact ⟨Function.update_of_ne other .., Function.update_of_ne other ..⟩
  · have need : (served s i choice).need i = s.need i - share s i choice := Function.update_self ..
    have here : (served s i choice).customer i = .testing := Function.update_self ..
    have gets : 0 < share s i choice := by
      unfold share
      split <;> omega
    rw [need, here, pc]
    omega

/-- Whoever is still there can be served, or has what it needs. -/
theorem serve (running : Running s) (quiet : Quiet s) (pc : s.customer i = .testing) :
    ∃ t, warehouse.Leads Fitting s t ∧ (Running t ∧ Quiet t) ∧ owing t < owing s := by
  by_cases needs : s.need i = 0
  · have stops : warehouse.step s (.customer i 0) = some (s.setCustomer i .stopped) := by
      simp [warehouse, step, customerStep, pc, needs]
    have may : Fitting s (.customer i 0) := trivial
    refine ⟨_, .step may stops, ⟨step_running running may stops, ?_, quiet.loader⟩,
      owing_lt (i := i) (fun j other => ⟨rfl, Function.update_of_ne other ..⟩) ?_⟩
    · intro j
      by_cases own : j = i
      · subst own
        exact .inr setCustomer_customer
      · show Function.update s.customer i .stopped j = _ ∨
          Function.update s.customer i .stopped j = _
        rw [Function.update_of_ne own]
        exact quiet.customers j
    · rw [setCustomer_customer, pc]
      exact Nat.lt_succ_self _
  · by_cases stocked : ∃ choice, 0 < s.storedge choice
    · obtain ⟨choice, stocked⟩ := stocked
      exact serve_stocked running quiet pc needs stocked
    · have empty : s.storedge 0 = 0 :=
        Int.le_antisymm (Int.not_lt.mp fun some => stocked ⟨0, some⟩) (running.known.cells 0)
      have works : s.isLoaderWorking = true := by
        refine Bool.eq_true_of_not_eq_false fun told => ?_
        rw [running.customers told i] at pc
        cases pc
      have atTest : s.loader = .testing := by
        refine quiet.loader.resolve_right fun stopped => ?_
        rw [running.loader stopped] at works
        cases works
      have leads := leads_refilled running quiet 0 atTest works (by omega)
      have refill : 0 < (refilled s 0).storedge 0 := by
        simp [refilled, empty]
      obtain ⟨t, onward, kept, lower⟩ := serve_stocked
        (leads.keeps Running running fun _ _ _ => step_running)
        (s := refilled s 0) ⟨quiet.customers, quiet.loader⟩ pc needs refill
      exact ⟨t, leads.trans onward, kept, lower⟩

/-- All customers can be brought to their return, one visit after the other: what is
owing goes down with each. -/
theorem all_served (running : Running s) (room : Room s) :
    ∃ t, warehouse.Leads Fitting s t ∧ (Running t ∧ Quiet t) ∧ ∀ i, t.customer i = .stopped := by
  obtain ⟨middle, leads, running, quiet⟩ := quiet_reachable running room
  obtain ⟨t, onward, kept, stopped⟩ := System.leads_of_rank
    (fun t : State ι => Running t ∧ Quiet t) (fun t => ∀ i, t.customer i = .stopped) owing
    (fun t both => by
      by_cases all : ∀ i, t.customer i = .stopped
      · exact .inl all
      · obtain ⟨i, there⟩ := Classical.not_forall.mp all
        exact .inr (serve both.1 both.2 ((both.2.customers i).resolve_right there)))
    ⟨running, quiet⟩
  exact ⟨t, leads.trans onward, kept, stopped⟩

/-- When all customers have returned, `main` has joined them and tells the loader, which
finds `is_loader_working` false at its next test. -/
theorem finished (running : Running s) (room : Room s) :
    ∃ t, warehouse.Leads Fitting s t ∧ Finished t := by
  obtain ⟨t, leads, ⟨-, quiet⟩, stopped⟩ := all_served running room
  have told : warehouse.step t .main = some { t with isLoaderWorking := false } := if_pos stopped
  rcases quiet.loader with pc | pc
  · have stops : warehouse.step { t with isLoaderWorking := false } (.loader 0) =
        some ({ t with isLoaderWorking := false }.setLoader .stopped) := by
      simp [warehouse, step, loaderStep, pc]
    have fits : Fitting { t with isLoaderWorking := false } (.loader 0) := by
      rw [Fitting, pc]
      trivial
    have may : Fitting t .main := trivial
    exact ⟨_, (leads.trans (.step may told)).trans (.step fits stops), stopped, rfl⟩
  · exact ⟨t, leads, stopped, pc⟩

theorem running_of_reach {initial : ι → Int} {log : List (Event ι)} (payable : Payable initial)
    (run : warehouse.Reach Fitting (start initial) log s) : Running s := by
  apply run.stateInvariant Running
  · have begin := start_sound payable
    exact ⟨begin.locked, begin.known, begin.bounded, nofun, nofun⟩
  · exact fun _ _ _ running fitting stepped => step_running running fitting stepped

/-- In every state that can be reached without a load that does not fit, unless the
package on its way is one, some order of steps makes all threads return, each
customer with what it came for. -/
theorem finish_reachable {initial : ι → Int} {log : List (Event ι)} (payable : Payable initial)
    (run : warehouse.Reach Fitting (start initial) log s) (room : Room s) :
    ∃ later t, warehouse.Reach Fitting s later t ∧ Finished t ∧
      ∀ i, takenBy i (log ++ later) = initial i := by
  obtain ⟨t, ⟨later, onward⟩, finished⟩ := finished (running_of_reach payable run) room
  refine ⟨later, t, onward, finished, fun i => ?_⟩
  have last := sound_of_reach payable (run.append onward)
  have knows := last.known.customers i
  have paid := last.accounted.paid i
  rw [finished.customers i] at knows paid
  have zero : t.need i = 0 := knows
  simp only [inHand] at paid
  omega

end

/-- The loader has the cell that a customer waits for. -/
theorem finish_reachable_waiting : ∃ log s later t,
    warehouse.Reach Fitting (start fun i : Fin 2 => if i = 0 then 700 else 0) log s ∧
    s.customer 0 = .locking 0 ∧ s.loader = .reading 0 ∧
    warehouse.Reach Fitting s later t ∧ Finished t := by
  obtain ⟨log, s, run, waits, loads, stored⟩ := warehouse.exists_reach Fitting
    (start fun i : Fin 2 => if i = 0 then 700 else 0) [.customer 0 0, .loader 0, .loader 0]
    (fun _ s => s.customer 0 = .locking 0 ∧ s.loader = .reading 0 ∧ s.storedge 0 = 500)
    (by decide)
  obtain ⟨later, t, onward, finished, -⟩ := finish_reachable (show ∀ _, _ ∧ _ by decide) run
    fun choice loading => by
    rw [loads] at loading
    obtain rfl : choice = 0 := loading
    omega
  exact ⟨log, s, later, t, run, waits, loads, onward, finished⟩

end EltexCourse.Guarantees.Warehouse.Finish
