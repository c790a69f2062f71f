import EltexCourse.Foundations.Tally
import EltexCourse.Guarantees.Chat.SlotOwner

/-!
# The while loop of `broadcast`

The loop is left when the sum of the flags equals `members_online`. Both sides
count the same clients as long as no two of them share a flag, no client that
is not counted sets one, and none is counted out whose flag is set. Each of the
three does happen, and then the loop is not left however many clients read.
-/

set_option autoImplicit false

namespace EltexCourse.Guarantees.Chat.Counting
open Foundations.CString Foundations.Transition Foundations.Tally
open Source.Chat Source.Chat.SharedMemory SlotOwner
open Mailbox (Handler)

/-- The flags have been cleared, and readers set them. -/
def GathersFlags : Duty → Prop
  | .broadcast .write _ | .broadcast .test _ | .broadcast (.post _) _ => True
  | _ => False

instance (d : Duty) : Decidable (GathersFlags d) := by
  unfold GathersFlags
  split <;> infer_instance

def Gathering (v : View) : Prop := ∃ h, GathersFlags (v.duty h)

/-- A handler is in the while loop. -/
def Looping (v : View) : Prop := ∃ h mtext pc, v.duty h = .broadcast pc mtext ∧ pc.Looping

instance (v : View) : Decidable (Gathering v) :=
  decidable_of_iff (GathersFlags (v.duty .members) ∨ GathersFlags (v.duty .messages))
    ⟨fun either => either.elim (⟨_, ·⟩) (⟨_, ·⟩), fun ⟨h, gathers⟩ => by
      cases h
      · exact .inl gathers
      · exact .inr gathers⟩

/-- A condition on the request that `members_handler` reads, if it reads one. -/
def OnRequest (join leave : Int → Prop) (raw : Text) : Prop :=
  match membersHandlerTokens raw with
  | some (.join _ id, _) => join id
  | some (.leave id, _) => leave id
  | none => True

instance (join leave : Int → Prop) [DecidablePred join] [DecidablePred leave] (raw : Text) :
    Decidable (OnRequest join leave raw) := by
  unfold OnRequest
  split <;> infer_instance

/-- The clients counted have flags of their own; a client that leaves is counted,
and has not yet read what is being broadcast; only clients counted read it. -/
def Separate (v : View) : Action → Prop
  | .request raw =>
    OnRequest (fun id => slot id ∉ v.counted.map slot)
      (fun id => id ∈ v.counted ∧ (Gathering v → v.shm.amIRead (slot id) ≠ 1)) raw
  | .poll pid => Gathering v → v.shm.amIRead (slot pid) ≠ 1 → pid ∈ v.counted
  | _ => True

instance (v : View) : (a : Action) → Decidable (Separate v a)
  | .request raw => inferInstanceAs (Decidable (OnRequest _ _ raw))
  | .poll _ => inferInstanceAs (Decidable (_ → _ → _))
  | .start _ | .quit _ | .write _ | .post _ | .release _ | .line _ | .skip | .members | .message =>
    inferInstanceAs (Decidable True)

variable {v w : View} {a : Action} {events log : List Event} {h : Handler} {d : Duty} {shm : Shared}
variable {pid : Int}

/-- While flags are gathered, those set belong to clients counted, and every
client that has polled since they were cleared has set its own. -/
structure Tallied (log : List Event) (v : View) : Prop where
  owned : Owned v
  online : v.membersOnline = v.counted.length
  distinct : (v.counted.map slot).Nodup
  within : Gathering v → Within v.shm.amIRead (v.counted.map slot)
  marked : Gathering v → ∀ p ∈ readersSinceFill log, v.shm.amIRead (slot p) = 1

theorem OnRequest.imp {join leave join' leave' : Int → Prop} {raw : Text}
    (request : OnRequest join leave raw) (joins : ∀ id, join id → join' id)
    (leaves : ∀ id, leave id → leave' id) : OnRequest join' leave' raw := by
  unfold OnRequest at request ⊢
  split at request
  · exact joins _ request
  · exact leaves _ request
  · trivial

theorem inside_of_gathers (gathers : GathersFlags d) : d.Inside := by
  unfold GathersFlags at gathers
  split at gathers
  · trivial
  · trivial
  · trivial
  · exact absurd gathers id

theorem not_gathers_of_entering (entering : d.Entering) : ¬ GathersFlags d := by
  unfold Duty.Entering at entering
  split at entering
  · exact id
  · exact id
  · exact absurd entering id

/-- In its checksum loop a broadcast is gathering, at the test as well as behind a post.
-/
theorem gathers_of_looping {pc : BroadcastPc} {mtext : Text} (looping : pc.Looping) :
    GathersFlags (.broadcast pc mtext) := by
  cases pc
  case test => trivial
  case post => trivial
  all_goals exact absurd looping id

/-- A turn that does not begin the gathering. -/
theorem gathering_turn (kept : GathersFlags d → GathersFlags (v.duty h))
    (gathering : Gathering (v.turn h d shm)) : Gathering v := by
  obtain ⟨h', gathers⟩ := gathering
  by_cases own : h' = h
  · subst own
    rw [View.turn_duty_self] at gathers
    exact ⟨h', kept gathers⟩
  · rw [View.turn_duty_of_ne own] at gathers
    exact ⟨h', gathers⟩

/-- While one handler is inside with something else, nobody gathers. -/
theorem not_gathering_turn (owned : Owned v) (inside : (v.duty h).Inside)
    (other : ¬ GathersFlags d) : ¬ Gathering (v.turn h d shm) := by
  rintro ⟨h', gathers⟩
  by_cases own : h' = h
  · subst own
    rw [View.turn_duty_self] at gathers
    exact other gathers
  · rw [View.turn_duty_of_ne own] at gathers
    exact owned.other_outside inside own (inside_of_gathers gathers)

theorem readersSinceFill_filled (log : List Event) :
    readersSinceFill (log ++ [.filled]) = [] := by
  simp [readersSinceFill]

@[simp] theorem readersSinceFill_polled (log : List Event) (pid : Int) (copy : Option Text) :
    readersSinceFill (log ++ [.polled pid copy]) = readersSinceFill log ++ [pid] := by
  simp [readersSinceFill]

/-- A step that leaves the flags and the count alone, and nobody polls. -/
theorem Tallied.keep (tallied : Tallied log v) (owned : Owned w)
    (readers : readersSinceFill (log ++ events) = readersSinceFill log)
    (counted : w.counted = v.counted) (online : w.membersOnline = v.membersOnline)
    (flags : w.shm.amIRead = v.shm.amIRead) (gathering : Gathering w → Gathering v) :
    Tallied (log ++ events) w := by
  refine ⟨owned, ?_, ?_, ?_, ?_⟩
  · rw [online, counted]
    exact tallied.online
  · rw [counted]
    exact tallied.distinct
  · intro gathers
    rw [flags, counted]
    exact tallied.within (gathering gathers)
  · intro gathers
    rw [flags, readers]
    exact tallied.marked (gathering gathers)

/-- A turn of a handler that is inside and does not gather. -/
theorem Tallied.keepOther (tallied : Tallied log v) (owned : Owned (v.turn h d shm))
    (inside : (v.duty h).Inside) (other : ¬ GathersFlags d) :
    Tallied (log ++ events) (v.turn h d shm) :=
  have idle := not_gathering_turn tallied.owned inside other
  ⟨owned, tallied.online, tallied.distinct, fun gathers => absurd gathers idle,
    fun gathers => absurd gathers idle⟩

/-- A join while flags are gathered: the counter goes up, and the newcomer's own flag is
still to come. -/
theorem Tallied.join (tallied : Tallied log v) {id : Int}
    (own : slot id ∉ v.counted.map slot) (owned : Owned w)
    (counted : w.counted = v.counted ++ [id]) (online : w.membersOnline = v.membersOnline + 1)
    (flags : w.shm.amIRead = v.shm.amIRead) (gathering : Gathering w → Gathering v) :
    Tallied log w := by
  refine ⟨owned, ?_, ?_, ?_, ?_⟩
  · rw [online, counted, tallied.online]
    simp
  · rw [counted, List.map_append]
    refine List.nodup_append.mpr ⟨tallied.distinct, by simp, fun i old j isNew => ?_⟩
    rintro rfl
    obtain rfl : i = slot id := by simpa using isNew
    exact own old
  · intro gathers
    rw [flags, counted, List.map_append]
    exact (tallied.within (gathering gathers)).shift fun i old _ => List.mem_append_left _ old
  · intro gathers
    rw [flags]
    exact tallied.marked (gathering gathers)

/-- A leave takes a client out of the count that has not read the text at hand, so that
no flag is lost with it. -/
theorem Tallied.depart (tallied : Tallied log v) {id : Int} (isCounted : id ∈ v.counted)
    (unread : Gathering v → v.shm.amIRead (slot id) ≠ 1) (owned : Owned w)
    (counted : w.counted = v.counted.erase id) (online : w.membersOnline = v.membersOnline - 1)
    (flags : w.shm.amIRead = v.shm.amIRead) (gathering : Gathering w → Gathering v) :
    Tallied log w := by
  have shorter := List.length_erase_of_mem isCounted
  have nonempty := List.length_pos_of_mem isCounted
  refine ⟨owned, ?_, ?_, ?_, ?_⟩
  · rw [online, counted, tallied.online]
    omega
  · rw [counted]
    exact tallied.distinct.sublist ((List.erase_sublist).map slot)
  · intro gathers
    rw [flags, counted]
    refine (tallied.within (gathering gathers)).shift fun i old set => ?_
    obtain ⟨p, inside, rfl⟩ := List.mem_map.mp old
    have stays : p ≠ id := by
      rintro rfl
      exact unread (gathering gathers) set
    exact List.mem_map_of_mem ((List.mem_erase_of_ne stays).mpr inside)
  · intro gathers
    rw [flags]
    exact tallied.marked (gathering gathers)

theorem messageHandler_amIRead (shm : Shared) (pid : Int) :
    (shm.messageHandler pid).1.amIRead = Function.update shm.amIRead (slot pid) 1 := by
  unfold Shared.messageHandler
  split <;> rfl

theorem Tallied.poll (tallied : Tallied log v) {copy : Option Text}
    (counted : Gathering v → v.shm.amIRead (slot pid) ≠ 1 → pid ∈ v.counted)
    (owned : Owned { v with shm := (v.shm.messageHandler pid).1 }) :
    Tallied (log ++ [.polled pid copy]) { v with shm := (v.shm.messageHandler pid).1 } := by
  refine ⟨owned, tallied.online, tallied.distinct, fun gathers => ?_, fun gathers => ?_⟩
  · change Within (v.shm.messageHandler pid).1.amIRead (v.counted.map slot)
    rw [messageHandler_amIRead]
    refine (tallied.within gathers).set ?_
    by_cases set : v.shm.amIRead (slot pid) = 1
    · exact (tallied.within gathers).covered _ set
    · exact List.mem_map_of_mem (counted gathers set)
  · intro p reader
    rw [readersSinceFill_polled] at reader
    change (v.shm.messageHandler pid).1.amIRead (slot p) = 1
    rw [messageHandler_amIRead]
    by_cases same : slot p = slot pid
    · simp [same]
    · rw [Function.update_of_ne same]
      rcases List.mem_append.mp reader with earlier | now
      · exact tallied.marked gathers p earlier
      · obtain rfl := List.mem_singleton.mp now
        exact absurd rfl same

/-- One step under the condition: the flags set are those of the clients that have
polled since the last clearing. -/
theorem tallied_step (tallied : Tallied log v) (allowed : Separate v a)
    (moved : Move v a events w) : Tallied (log ++ events) w := by
  have owned := owned_step tallied.owned moved
  have same : readersSinceFill (log ++ []) = readersSinceFill log := by rw [List.append_nil]
  cases moved with
  | start fresh => exact tallied.keep owned same rfl rfl rfl id
  | quit running guarded free => exact tallied.keep owned same rfl rfl rfl id
  | quitLow running low => exact tallied.keep owned same rfl rfl rfl id
  | write mtext writing => exact tallied.keep owned same rfl rfl rfl id
  | post posting => exact tallied.keep owned same rfl rfl rfl id
  | release posting guarded => exact tallied.keep owned same rfl rfl rfl id
  | releaseLow posting low => exact tallied.keep owned same rfl rfl rfl id
  | poll present => exact tallied.poll allowed owned
  | join tokens idle =>
    simp only [Separate, OnRequest, tokens] at allowed
    rw [List.append_nil]
    exact tallied.join allowed owned rfl rfl rfl (@gathering_turn v .members _ v.shm (absurd · id))
  | depart tokens idle =>
    simp only [Separate, OnRequest, tokens] at allowed
    rw [List.append_nil]
    exact tallied.depart allowed.1 allowed.2 owned rfl rfl rfl
      (@gathering_turn v .members _ v.shm (absurd · id))
  | aside outside remains =>
    refine tallied.keep owned same rfl rfl rfl (gathering_turn fun gathers => ?_)
    exact absurd (inside_of_gathers gathers) remains
  | enter outside entering free =>
    refine tallied.keep owned same rfl rfl rfl (gathering_turn fun gathers => ?_)
    exact absurd gathers (not_gathers_of_entering entering)
  | leave releasing => exact tallied.keepOther owned (inside_of_releasing releasing) id
  | clear duty =>
    refine ⟨owned, tallied.online, tallied.distinct, fun _ => within_clear fun _ => rfl, ?_⟩
    intro _ p reader
    rw [readersSinceFill_filled] at reader
    exact absurd reader List.not_mem_nil
  | publish duty =>
    exact tallied.keep owned same rfl rfl rfl (gathering_turn fun _ => duty ▸ trivial)
  | spin tokens duty before after =>
    exact tallied.keep owned same rfl rfl rfl
      (gathering_turn fun _ => duty ▸ gathers_of_looping before)
  | exit duty full => exact tallied.keepOther owned (by simp [duty, Duty.Inside]) id
  | refill duty => exact tallied.keepOther owned (by simp [duty, Duty.Inside]) id
  | arm duty => exact tallied.keepOther owned (by simp [duty, Duty.Inside]) id
  | skip duty => exact tallied.keepOther owned (by simp [duty, Duty.Inside]) id
  | finish duty => exact tallied.keepOther owned (by simp [duty, Duty.Inside]) id
  | offer mtext duty => exact tallied.keepOther owned (by simp [duty, Duty.Inside]) id
  | await tokens duty before after =>
    exact tallied.keepOther owned (duty ▸ inside_of_awaiting before) id
  | read duty set => exact tallied.keepOther owned (by simp [duty, Duty.Inside]) id

theorem tallied_initial (tokens : Nat) : Tallied [] (initial tokens).view := by
  have idle : ¬ Gathering (initial tokens).view := by
    rintro ⟨h, gathers⟩
    cases h <;> exact gathers
  exact ⟨owned_initial tokens, rfl, List.nodup_nil, fun gathers => absurd gathers idle,
    fun gathers => absurd gathers idle⟩

/-- The invariant of whole runs: while flags are gathered their sum counts the readers
among the clients counted. -/
theorem tallied_of_reach {tokens : Nat} {s : State}
    (run : system.Reach (fun s a => Separate s.view a) (initial tokens) log s) :
    Tallied log s.view :=
  run.invariant (fun log s => Tallied log s.view) (tallied_initial tokens)
    fun _ _ _ _ tallied allowed stepped => tallied_step tallied allowed (step_move stepped)

/-- The flags of all clients counted are set exactly when the sum is `members_online`. -/
theorem Tallied.full_iff (tallied : Tallied log v) (gathering : Gathering v) :
    checksum v.shm.amIRead = v.membersOnline ↔ ∀ p ∈ v.counted, v.shm.amIRead (slot p) = 1 := by
  have length : v.membersOnline = (v.counted.map slot).length := by
    rw [tallied.online, List.length_map]
  rw [checksum, length, (tallied.within gathering).sum_eq_length_iff tallied.distinct]
  simp

/-- In every run in which counted clients keep to themselves in the flags, the
loop is left once every client counted has read. -/
theorem loop_left {tokens : Nat} {s : State}
    (run : system.Reach (fun s a => Separate s.view a) (initial tokens) log s)
    (looping : Looping s.view)
    (allRead : ∀ p ∈ s.server.counted, p ∈ readersSinceFill log) :
    checksum s.shm.amIRead = s.server.accounts.membersOnline ∧
      ∀ mtext, broadcast s.shm s.server.accounts.membersOnline mtext .test =
        some (s.shm, some .release) := by
  have tallied := tallied_of_reach run
  obtain ⟨h, mtext, pc, duty, inLoop⟩ := looping
  have gathering : Gathering s.view := ⟨h, duty ▸ gathers_of_looping inLoop⟩
  have full : checksum s.shm.amIRead = s.server.accounts.membersOnline :=
    (tallied.full_iff gathering).mpr fun p isCounted =>
      tallied.marked gathering p (allRead p isCounted)
  exact ⟨full, fun mtext => by simp [broadcast, full]⟩

def turns (n : Nat) : List Action := List.replicate n .members

/-- Two clients join one after the other, and both read the broadcast of the
second join. -/
def twoJoinSchedule (first second : Int) : List Action :=
  .start first :: .start second :: .request (wordText 1 ['a'] first) :: turns 13 ++
    .poll first :: turns 3 ++ .request (wordText 1 ['b'] second) :: turns 10 ++
    .poll second :: turns 11 ++ [.poll first, .poll second]

/-- Where `members_handler` then is. -/
def secondBroadcast (second : Int) : MembersPc :=
  .broadcast (.post 0) (wordText 1 ['b'] second)

theorem looping_secondBroadcast {s : State} {second : Int}
    (isPc : s.server.membersPc = secondBroadcast second) : Looping s.view :=
  ⟨.members, _, .post 0, by simp only [State.view, Server.duty, isPc]; rfl, trivial⟩

theorem loop_left_apart :
    ∃ log s, system.Reach (fun s a => Separate s.view a) (initial 0) log s ∧
      s.server.counted = [1203, 1204] ∧ Looping s.view ∧
      checksum s.shm.amIRead = s.server.accounts.membersOnline := by
  obtain ⟨log, s, run, counted, isPc, allRead⟩ := system.exists_reach
    (fun s a => Separate s.view a) (initial 0) (twoJoinSchedule 1203 1204)
    (fun log s => s.server.counted = [1203, 1204] ∧ s.server.membersPc = secondBroadcast 1204 ∧
      ∀ p ∈ s.server.counted, p ∈ readersSinceFill log) (by decide)
  have looping := looping_secondBroadcast isPc
  exact ⟨log, s, run, counted, looping, (loop_left run looping allRead).1⟩

/-- 1203 and 1233 share flag 3: both have read, and the sum stays at 1. -/
theorem loop_stuck :
    ∃ log s, system.Reach System.Anything (initial 0) log s ∧ s.server.counted = [1203, 1233] ∧
      Looping s.view ∧ (∀ p ∈ s.server.counted, p ∈ readersSinceFill log) ∧
      checksum s.shm.amIRead ≠ s.server.accounts.membersOnline := by
  obtain ⟨log, s, run, counted, isPc, allRead, short⟩ := system.exists_reach System.Anything
    (initial 0) (twoJoinSchedule 1203 1233)
    (fun log s => s.server.counted = [1203, 1233] ∧ s.server.membersPc = secondBroadcast 1233 ∧
      (∀ p ∈ s.server.counted, p ∈ readersSinceFill log) ∧
      checksum s.shm.amIRead ≠ s.server.accounts.membersOnline) (by decide)
  exact ⟨log, s, run, counted, looping_secondBroadcast isPc, allRead, short⟩

end EltexCourse.Guarantees.Chat.Counting
