import Mathlib.Data.List.Basic

/-!
# A register that lags behind its parties

Parties enter once and leave at most once afterwards. Each does so by a request,
and a register takes the requests of all parties from one queue, in order. The
register and a party disagree only by the party's own requests that are still
pending; `Enrolled` says so for every party, and from it follows what the
register can rely on when it takes a request.
-/

set_option autoImplicit false

namespace EltexCourse.Foundations.Enrolment

variable {ι : Type*}

inductive Request (ι : Type*) where
  | enter (who : ι)
  | leave (who : ι)
  deriving DecidableEq, Repr

def Request.who : Request ι → ι
  | .enter who => who
  | .leave who => who

/-- What the party has done. -/
inductive Phase where
  | outside
  | inside
  | departed
  deriving DecidableEq, Repr

/-- What the register has on the party. -/
inductive Presence where
  | unknown
  | present
  | former
  deriving DecidableEq, Repr

/-- A party's phase, its pending requests, and its place in the register. -/
inductive Standing (i : ι) : Phase → List (Request ι) → Presence → Prop where
  | outside : Standing i .outside [] .unknown
  | entering : Standing i .inside [.enter i] .unknown
  | inside : Standing i .inside [] .present
  | passing : Standing i .departed [.enter i, .leave i] .unknown
  | leaving : Standing i .departed [.leave i] .present
  | departed : Standing i .departed [] .former

section Standing

variable {i : ι} {phase : Phase} {requests : List (Request ι)} {place : Presence}

theorem Standing.outside_nothing (standing : Standing i .outside requests place) :
    requests = [] ∧ place = .unknown := by
  cases standing
  exact ⟨rfl, rfl⟩

theorem Standing.not_former (standing : Standing i .inside requests place) :
    place ≠ .former := by
  cases standing <;> simp

/-- A party outside may ask to enter: its request is then the only one of its own. -/
theorem Standing.submitEnter (standing : Standing i .outside requests place) :
    Standing i .inside (requests ++ [.enter i]) place := by
  cases standing
  exact .entering

/-- A party inside may ask to leave, behind its own entrance if that is still on its
way. -/
theorem Standing.submitLeave (standing : Standing i .inside requests place) :
    Standing i .departed (requests ++ [.leave i]) place := by
  cases standing
  · exact .passing
  · exact .leaving

/-- An entering party is new to the register. -/
theorem Standing.takeEnter (standing : Standing i phase (.enter i :: requests) place) :
    place = .unknown ∧ Standing i phase requests .present := by
  cases standing
  · exact ⟨rfl, .inside⟩
  · exact ⟨rfl, .leaving⟩

/-- A leaving party is present. -/
theorem Standing.takeLeave (standing : Standing i phase (.leave i :: requests) place) :
    place = .present ∧ Standing i phase requests .former := by
  cases standing
  exact ⟨rfl, .departed⟩

end Standing

variable [DecidableEq ι]

def own (i : ι) (pending : List (Request ι)) : List (Request ι) := pending.filter (·.who = i)

theorem own_append_self (pending : List (Request ι)) (r : Request ι) :
    own r.who (pending ++ [r]) = own r.who pending ++ [r] := by
  simp [own]

theorem own_append_of_ne {i : ι} {r : Request ι} (other : r.who ≠ i) (pending : List (Request ι)) :
    own i (pending ++ [r]) = own i pending := by
  simp [own, other]

theorem own_cons_self (pending : List (Request ι)) (r : Request ι) :
    own r.who (r :: pending) = r :: own r.who pending := by
  simp [own]

theorem own_cons_of_ne {i : ι} {r : Request ι} (other : r.who ≠ i) (pending : List (Request ι)) :
    own i (r :: pending) = own i pending := by
  simp [own, other]

def Enrolled (phase : ι → Phase) (pending : List (Request ι)) (presence : ι → Presence) : Prop :=
  ∀ i, Standing i (phase i) (own i pending) (presence i)

section Requests

variable {phase phase' : ι → Phase} {pending : List (Request ι)} {presence presence' : ι → Presence}
variable {i : ι}

/-- A party the register knows of has entered. -/
theorem Enrolled.entered (enrolled : Enrolled phase pending presence)
    (known : presence i ≠ .unknown) : phase i ≠ .outside := by
  intro outside
  have standing := enrolled i
  rw [outside] at standing
  exact known standing.outside_nothing.2

/-- So has one whose request is pending. -/
theorem Enrolled.requested (enrolled : Enrolled phase pending presence) {r : Request ι}
    (member : r ∈ pending) : phase r.who ≠ .outside := by
  intro outside
  have standing := enrolled r.who
  rw [outside] at standing
  have mine : r ∈ own r.who pending := by simp [own, member]
  rw [standing.outside_nothing.1] at mine
  exact absurd mine List.not_mem_nil

theorem Enrolled.submitEnter (enrolled : Enrolled phase pending presence)
    (outside : phase i = .outside) (entered : phase' i = .inside)
    (others : ∀ j, j ≠ i → phase' j = phase j) :
    Enrolled phase' (pending ++ [.enter i]) presence := by
  intro j
  have standing := enrolled j
  by_cases same : j = i
  · subst same
    rw [outside] at standing
    have added := own_append_self pending (.enter j)
    simp only [Request.who] at added
    rw [entered, added]
    exact standing.submitEnter
  · rwa [others j same, own_append_of_ne (Ne.symm same)]

theorem Enrolled.submitLeave (enrolled : Enrolled phase pending presence)
    (inside : phase i = .inside) (left : phase' i = .departed)
    (others : ∀ j, j ≠ i → phase' j = phase j) :
    Enrolled phase' (pending ++ [.leave i]) presence := by
  intro j
  have standing := enrolled j
  by_cases same : j = i
  · subst same
    rw [inside] at standing
    have added := own_append_self pending (.leave j)
    simp only [Request.who] at added
    rw [left, added]
    exact standing.submitLeave
  · rwa [others j same, own_append_of_ne (Ne.symm same)]

/-- The entrance at the front of the queue is of a party not known so far; once it is
listed as present, all is well with the rest of the queue. -/
theorem Enrolled.takeEnter (enrolled : Enrolled phase (.enter i :: pending) presence) :
    presence i = .unknown ∧ ∀ presence' : ι → Presence, presence' i = .present →
      (∀ j, j ≠ i → presence' j = presence j) → Enrolled phase pending presence' := by
  have head := own_cons_self pending (.enter i)
  simp only [Request.who] at head
  have first := enrolled i
  rw [head] at first
  refine ⟨first.takeEnter.1, fun presence' present others j => ?_⟩
  have standing := enrolled j
  by_cases same : j = i
  · subst same
    rw [present]
    exact first.takeEnter.2
  · rwa [others j same, ← own_cons_of_ne (r := .enter i) (Ne.symm same)]

/-- The leave at the front is of a party present; once it is listed as a former one, all
is well with the rest. -/
theorem Enrolled.takeLeave (enrolled : Enrolled phase (.leave i :: pending) presence) :
    presence i = .present ∧ ∀ presence' : ι → Presence, presence' i = .former →
      (∀ j, j ≠ i → presence' j = presence j) → Enrolled phase pending presence' := by
  have head := own_cons_self pending (.leave i)
  simp only [Request.who] at head
  have first := enrolled i
  rw [head] at first
  refine ⟨first.takeLeave.1, fun presence' former others j => ?_⟩
  have standing := enrolled j
  by_cases same : j = i
  · subst same
    rw [former]
    exact first.takeLeave.2
  · rwa [others j same, ← own_cons_of_ne (r := .leave i) (Ne.symm same)]

end Requests

end EltexCourse.Foundations.Enrolment
