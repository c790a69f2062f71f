import EltexCourse.Guarantees.Chat.Counting

/-!
# From a publication to its copies

Where nobody leaves and flags are not shared, a client that polls only while its
flag is set or a text is on offer to it copies each text published to it, once,
in order. The server arms the flags before it writes the text, and posts more
tokens than are taken; a client that uses such a token in between copies the
text before, and the new one never.
-/

set_option autoImplicit false

namespace EltexCourse.Guarantees.Chat.Publication
open Foundations.CString Foundations.Transition Foundations.Tally
open Source.Chat Source.Chat.SharedMemory SlotOwner Counting
open Mailbox (Handler)

/-- The text a handler waits to see copied, and by whom. -/
def offer (counted : List Int) : Duty → Option (Text × List Int)
  | .share (.await _ mtext) pid | .share (.post _ mtext _) pid => some (mtext, [pid])
  | .broadcast .test mtext | .broadcast (.post _) mtext => some (mtext, counted)
  | _ => none

def OffersTo (counted : List Int) (pid : Int) (d : Duty) : Prop :=
  match offer counted d with
  | some (_, readers) => pid ∈ readers
  | none => False

instance (counted : List Int) (pid : Int) (d : Duty) : Decidable (OffersTo counted pid d) := by
  unfold OffersTo
  split <;> infer_instance

/-- Nobody leaves, joining clients have flags of their own, and a client whose
flag is not set polls only while a text is on offer to it. -/
def Timely (v : View) : Action → Prop
  | .request raw => OnRequest (fun id => slot id ∉ v.counted.map slot) (fun _ => False) raw
  | .quit _ => False
  | .poll pid =>
    v.shm.amIRead (slot pid) = 1 ∨ OffersTo v.counted pid (v.duty .members) ∨
      OffersTo v.counted pid (v.duty .messages)
  | _ => True

instance (v : View) : (a : Action) → Decidable (Timely v a)
  | .request raw => inferInstanceAs (Decidable (OnRequest _ _ raw))
  | .quit _ => inferInstanceAs (Decidable False)
  | .poll _ => inferInstanceAs (Decidable (_ ∨ _ ∨ _))
  | .start _ | .write _ | .post _ | .release _ | .line _ | .skip | .members | .message =>
    inferInstanceAs (Decidable True)

/-- What a client has copied of the text a handler has on offer. -/
def taken (counted : List Int) (flags : Fin 50 → Int) (pid : Int) (d : Duty) : List Text :=
  match offer counted d with
  | some (mtext, readers) => if pid ∈ readers ∧ flags (slot pid) = 1 then [mtext] else []
  | none => []

/-- The text that is on offer, if the client has copied it. -/
def underway (v : View) (pid : Int) : List Text :=
  taken v.counted v.shm.amIRead pid (v.duty .members) ++
    taken v.counted v.shm.amIRead pid (v.duty .messages)

/-- The slot is as the handler's place in its loop needs it. -/
def Prepared (shm : Shared) : Duty → Prop
  | .share (.pick _) pid => shm.amIRead (slot pid) ≠ 1
  | .share (.await _ mtext) _ | .share (.post _ mtext _) _ => shm.mtext = mtext
  | .broadcast .write _ => ∀ i, shm.amIRead i = 0
  | .broadcast .test mtext | .broadcast (.post _) mtext => shm.mtext = mtext
  | _ => True

structure Followed (log : List Event) (v : View) : Prop where
  tallied : Tallied log v
  stay : ∀ pid, v.client pid = .absent ∨ v.client pid = .running
  prepared : ∀ h, Prepared v.shm (v.duty h)
  copied : ∀ pid, copies pid log = publications pid log ++ underway v pid

variable {v w : View} {a : Action} {events log : List Event} {h : Handler} {d : Duty} {shm : Shared}
variable {counted readers : List Int} {flags : Fin 50 → Int} {mtext : Text} {pid : Int}

theorem inside_of_offer (offers : offer counted d = some (mtext, readers)) : d.Inside := by
  unfold offer at offers
  split at offers
  · trivial
  · trivial
  · trivial
  · trivial
  · cases offers

theorem offer_outside (outside : ¬ d.Inside) : offer counted d = none := by
  cases offers : offer counted d with
  | none => rfl
  | some made => exact absurd (inside_of_offer offers) outside

theorem taken_outside (outside : ¬ d.Inside) : taken counted flags pid d = [] := by
  unfold taken
  split
  next offers => exact absurd (inside_of_offer offers) outside
  · rfl

theorem prepared_outside (outside : ¬ d.Inside) : Prepared shm d := by
  unfold Prepared
  split
  case h_7 => trivial
  all_goals exact absurd trivial outside

theorem offer_entering (entering : d.Entering) : offer counted d = none := by
  unfold Duty.Entering at entering
  split at entering
  · rfl
  · rfl
  · exact absurd entering id

theorem prepared_entering (entering : d.Entering) : Prepared shm d := by
  unfold Duty.Entering at entering
  split at entering
  · trivial
  · trivial
  · exact absurd entering id

theorem offer_releasing (releasing : d.Releasing) : offer counted d = none := by
  unfold Duty.Releasing at releasing
  split at releasing
  · rfl
  · rfl
  · exact absurd releasing id

/-- The broadcast offers its text to all clients counted, from the write to the end of
its loop. -/
theorem offer_looping {pc : BroadcastPc} (looping : pc.Looping) :
    offer counted (.broadcast pc mtext) = some (mtext, counted) := by
  cases pc
  case test => rfl
  case post => rfl
  all_goals exact absurd looping id

theorem offer_awaiting {pc : SharePc} (waiting : pc.Awaiting mtext) :
    offer counted (.share pc pid) = some (mtext, [pid]) := by
  cases pc
  case await =>
    cases waiting
    rfl
  case post =>
    cases waiting
    rfl
  all_goals exact absurd waiting id

/-- An offer is made to the clients counted, or to one client. -/
theorem offer_readers (offers : offer counted d = some (mtext, readers)) :
    readers = counted ∨ ∃ p, readers = [p] := by
  unfold offer at offers
  split at offers
  · cases offers
    exact .inr ⟨_, rfl⟩
  · cases offers
    exact .inr ⟨_, rfl⟩
  · cases offers
    exact .inl rfl
  · cases offers
    exact .inl rfl
  · cases offers

theorem prepared_offer (offers : offer counted d = some (mtext, readers)) :
    Prepared shm d ↔ shm.mtext = mtext := by
  unfold offer at offers
  split at offers <;> cases offers <;> rfl

theorem taken_none (nothing : offer counted d = none) : taken counted flags pid d = [] := by
  simp [taken, nothing]

theorem taken_some (offers : offer counted d = some (mtext, readers)) :
    taken counted flags pid d = if pid ∈ readers ∧ flags (slot pid) = 1 then [mtext] else [] := by
  simp [taken, offers]

theorem underway_congr
    (same : ∀ h, taken w.counted w.shm.amIRead pid (w.duty h) =
      taken v.counted v.shm.amIRead pid (v.duty h)) : underway w pid = underway v pid := by
  simp only [underway, same]

/-- Only the handler inside has anything underway. -/
theorem underway_alone (alone : ∀ h', h' ≠ h → ¬ (v.duty h').Inside) :
    underway v pid = taken v.counted v.shm.amIRead pid (v.duty h) := by
  cases h with
  | members => simp [underway, taken_outside (alone .messages (by decide))]
  | messages => simp [underway, taken_outside (alone .members (by decide))]

theorem underway_turn (owned : Owned v) (inside : (v.duty h).Inside) :
    underway (v.turn h d shm) pid = taken v.counted shm.amIRead pid d := by
  have alone : ∀ h', h' ≠ h → ¬ ((v.turn h d shm).duty h').Inside := by
    intro h' other
    rw [View.turn_duty_of_ne other]
    exact owned.other_outside inside other
  rw [underway_alone alone, View.turn_duty_self]
  rfl

theorem prepared_congr (text : shm.mtext = v.shm.mtext) (flags : shm.amIRead = v.shm.amIRead) :
    Prepared shm d ↔ Prepared v.shm d := by
  unfold Prepared
  split <;> simp only [text, flags]

theorem prepared_turn (owned : Owned v) (inside : (v.duty h).Inside) (ready : Prepared shm d)
    (h' : Handler) : Prepared shm ((v.turn h d shm).duty h') := by
  by_cases own : h' = h
  · subst own
    rwa [View.turn_duty_self]
  · rw [View.turn_duty_of_ne own]
    exact prepared_outside (owned.other_outside inside own)

/-- A step that offers nothing new and copies nothing. -/
theorem Followed.keep (followed : Followed log v) (tallied : Tallied (log ++ []) w)
    (stay : ∀ pid, w.client pid = .absent ∨ w.client pid = .running)
    (prepared : ∀ h, Prepared w.shm (w.duty h))
    (same : ∀ pid h, taken w.counted w.shm.amIRead pid (w.duty h) =
      taken v.counted v.shm.amIRead pid (v.duty h)) : Followed (log ++ []) w := by
  refine ⟨tallied, stay, prepared, fun pid => ?_⟩
  rw [List.append_nil, underway_congr (same pid)]
  exact followed.copied pid

/-- A turn of a handler that stays without an offer. -/
theorem Followed.outside (followed : Followed log v)
    (tallied : Tallied (log ++ []) (v.turn h d shm))
    (before : offer v.counted (v.duty h) = none) (after : offer v.counted d = none)
    (ready : Prepared shm d) (text : shm.mtext = v.shm.mtext)
    (flags : shm.amIRead = v.shm.amIRead) : Followed (log ++ []) (v.turn h d shm) := by
  refine followed.keep tallied followed.stay (fun h' => ?_) fun pid h' => ?_
  · by_cases own : h' = h
    · subst own
      rwa [View.turn_duty_self]
    · rw [View.turn_duty_of_ne own]
      exact (prepared_congr text flags).mpr (followed.prepared h')
  · by_cases own : h' = h
    · subst own
      rw [View.turn_duty_self, View.turn_counted, View.turn_shm, taken_none before,
        taken_none after]
    · rw [View.turn_duty_of_ne own, View.turn_counted, View.turn_shm, flags]

/-- A turn of the handler inside: what was underway is published, or still underway. -/
theorem Followed.turn (followed : Followed log v)
    (tallied : Tallied (log ++ events) (v.turn h d shm))
    (inside : (v.duty h).Inside) (ready : Prepared shm d) (silent : ∀ pid, copies pid events = [])
    (balance : ∀ pid, taken v.counted v.shm.amIRead pid (v.duty h) =
      publications pid events ++ taken v.counted shm.amIRead pid d) :
    Followed (log ++ events) (v.turn h d shm) := by
  have owned := followed.tallied.owned
  refine ⟨tallied, followed.stay, prepared_turn owned inside ready, fun pid => ?_⟩
  have before : underway v pid = taken v.counted v.shm.amIRead pid (v.duty h) :=
    underway_alone fun h' other => owned.other_outside inside other
  calc copies pid (log ++ events)
      = publications pid log ++ taken v.counted v.shm.amIRead pid (v.duty h) := by
        rw [copies_append, silent, List.append_nil, followed.copied, before]
    _ = publications pid (log ++ events) ++ underway (v.turn h d shm) pid := by
        rw [balance, underway_turn owned inside, publications_append, List.append_assoc]

/-- A turn of the handler inside that has nothing on offer before or after it. -/
theorem Followed.busy (followed : Followed log v)
    (tallied : Tallied (log ++ events) (v.turn h d shm)) (inside : (v.duty h).Inside)
    (before : offer v.counted (v.duty h) = none) (after : offer v.counted d = none)
    (ready : Prepared shm d) (silent : ∀ pid, copies pid events = [])
    (nothing : ∀ pid, publications pid events = []) :
    Followed (log ++ events) (v.turn h d shm) := by
  refine followed.turn tallied inside ready silent fun pid => ?_
  rw [taken_none before, taken_none after, nothing]
  rfl

/-- A text comes on offer while the flags of its readers are clear: none has copied it. -/
theorem Followed.opens (followed : Followed log v)
    (tallied : Tallied (log ++ []) (v.turn h d { v.shm with mtext })) (inside : (v.duty h).Inside)
    (before : offer v.counted (v.duty h) = none)
    (offers : offer v.counted d = some (mtext, readers))
    (clear : ∀ pid ∈ readers, v.shm.amIRead (slot pid) ≠ 1) :
    Followed (log ++ []) (v.turn h d { v.shm with mtext }) := by
  refine followed.turn tallied inside ((prepared_offer offers).mpr rfl) (fun _ => rfl) fun pid => ?_
  rw [taken_none before, taken_some offers, if_neg fun copied => clear pid copied.1 copied.2]
  rfl

/-- An offer goes on over a post of tokens: text and flags stay. -/
theorem Followed.goesOn (followed : Followed log v) {tokens : Nat}
    (tallied : Tallied (log ++ []) (v.turn h d { v.shm with tokens }))
    (before : offer v.counted (v.duty h) = some (mtext, readers))
    (after : offer v.counted d = some (mtext, readers)) :
    Followed (log ++ []) (v.turn h d { v.shm with tokens }) := by
  have isText := (prepared_offer before).mp (followed.prepared h)
  refine followed.turn tallied (inside_of_offer before) ((prepared_offer after).mpr isText)
    (fun _ => rfl) fun pid => ?_
  rw [taken_some before, taken_some after]
  rfl

/-- An offer is over when all its readers have set their flags: what they have
copied counts as published to them from then on. -/
theorem Followed.closes (followed : Followed log v)
    (tallied : Tallied (log ++ [.published mtext readers]) (v.turn h d v.shm))
    (before : offer v.counted (v.duty h) = some (mtext, readers))
    (after : offer v.counted d = none) (ready : Prepared v.shm d)
    (allSet : ∀ pid ∈ readers, v.shm.amIRead (slot pid) = 1) :
    Followed (log ++ [.published mtext readers]) (v.turn h d v.shm) := by
  refine followed.turn tallied (inside_of_offer before) ready (fun _ => rfl) fun pid => ?_
  rw [taken_some before, taken_none after]
  by_cases reads : pid ∈ readers
  · simp [publications, reads, allSet pid reads]
  · simp [publications, reads]

/-- A client counted in the middle of a broadcast has copied nothing of it. -/
theorem taken_join {id : Int} (unset : GathersFlags d → flags (slot id) ≠ 1) :
    taken (counted ++ [id]) flags pid d = taken counted flags pid d := by
  have same (unset : flags (slot id) ≠ 1) :
      (pid ∈ counted ++ [id] ∧ flags (slot pid) = 1) ↔ (pid ∈ counted ∧ flags (slot pid) = 1) := by
    refine and_congr_left fun set => ?_
    have other : pid ≠ id := by
      rintro rfl
      exact unset set
    simp [other]
  cases d with
  | none => rfl
  | share pc p => cases pc <;> rfl
  | broadcast pc mtext =>
    cases pc
    case test => simp only [taken, offer, same (unset trivial)]
    case post => simp only [taken, offer, same (unset trivial)]
    all_goals rfl

/-- A join while the other handler has a text on offer: the newcomer has a flag of its
own, which is not set. -/
theorem Followed.join (followed : Followed log v) {id : Int}
    (tallied : Tallied (log ++ []) { v.turn .members (.share .wait id) v.shm with
      counted := v.counted ++ [id], membersOnline := v.membersOnline + 1 })
    (idle : v.duty .members = .none) (own : slot id ∉ v.counted.map slot) :
    Followed (log ++ []) { v.turn .members (.share .wait id) v.shm with
      counted := v.counted ++ [id], membersOnline := v.membersOnline + 1 } := by
  refine followed.keep tallied followed.stay (fun h => ?_) fun pid h => ?_
  · cases h with
    | members => trivial
    | messages => exact followed.prepared .messages
  · cases h with
    | members => simp [taken, offer, idle]
    | messages =>
      exact taken_join fun gathers set =>
        own ((followed.tallied.within ⟨.messages, gathers⟩).covered _ set)

/-- No other reader of an offer has the flag of one. -/
theorem Followed.slot_ne (followed : Followed log v)
    (offers : offer v.counted (v.duty h) = some (mtext, readers)) (isReader : pid ∈ readers)
    {q : Int} (reads : q ∈ readers) (other : q ≠ pid) : slot q ≠ slot pid := by
  intro same
  rcases offer_readers offers with rfl | ⟨p, rfl⟩
  · exact other (List.inj_on_of_nodup_map followed.tallied.distinct reads isReader same)
  · rw [List.mem_singleton] at reads isReader
    exact other (reads.trans isReader.symm)

theorem exists_offer
    (offered : OffersTo v.counted pid (v.duty .members) ∨
    OffersTo v.counted pid (v.duty .messages)) :
    ∃ h mtext readers, offer v.counted (v.duty h) = some (mtext, readers) ∧ pid ∈ readers := by
  have found (h : Handler) (offers : OffersTo v.counted pid (v.duty h)) :
      ∃ h mtext readers, offer v.counted (v.duty h) = some (mtext, readers) ∧ pid ∈ readers := by
    unfold OffersTo at offers
    split at offers
    next mtext readers isOffer => exact ⟨h, mtext, readers, isOffer, offers⟩
    · exact absurd offers id
  exact offered.elim (found _) (found _)

/-- A poll of a client whose flag is set changes nothing. -/
theorem Followed.pollAgain (followed : Followed log v) (set : v.shm.amIRead (slot pid) = 1)
    (tallied : Tallied (log ++ [.polled pid (v.shm.messageHandler pid).2])
      { v with shm := (v.shm.messageHandler pid).1 }) :
    Followed (log ++ [.polled pid (v.shm.messageHandler pid).2])
      { v with shm := (v.shm.messageHandler pid).1 } := by
  have copy : (v.shm.messageHandler pid).2 = none := by simp [Shared.messageHandler, set]
  have text : (v.shm.messageHandler pid).1.mtext = v.shm.mtext := by
    simp [Shared.messageHandler, set, Shared.setFlag]
  have flags : (v.shm.messageHandler pid).1.amIRead = v.shm.amIRead := by
    rw [messageHandler_amIRead, ← set, Function.update_eq_self]
  refine ⟨tallied, followed.stay, fun h => ?_, fun q => ?_⟩
  · exact (prepared_congr text flags).mpr (followed.prepared h)
  · have same : underway { v with shm := (v.shm.messageHandler pid).1 } q = underway v q :=
      underway_congr fun h => by rw [flags]
    rw [same, copy, copies_append, publications_append, followed.copied q]
    simp [copies, publications]

/-- A poll of a client to which a text is on offer copies this text. -/
theorem Followed.pollOffer (followed : Followed log v) (unset : v.shm.amIRead (slot pid) ≠ 1)
    (offers : offer v.counted (v.duty h) = some (mtext, readers)) (isReader : pid ∈ readers)
    (tallied : Tallied (log ++ [.polled pid (v.shm.messageHandler pid).2])
      { v with shm := (v.shm.messageHandler pid).1 }) :
    Followed (log ++ [.polled pid (v.shm.messageHandler pid).2])
      { v with shm := (v.shm.messageHandler pid).1 } := by
  have inside := inside_of_offer offers
  have alone : ∀ h', h' ≠ h → ¬ (v.duty h').Inside := fun h' other =>
    followed.tallied.owned.other_outside inside other
  have isText : v.shm.mtext = mtext := (prepared_offer offers).mp (followed.prepared h)
  have copy : (v.shm.messageHandler pid).2 = some mtext := by
    simp [Shared.messageHandler, unset, isText]
  have text : (v.shm.messageHandler pid).1.mtext = mtext := by
    simp [Shared.messageHandler, unset, Shared.setFlag, isText]
  refine ⟨tallied, followed.stay, fun h' => ?_, fun q => ?_⟩
  · by_cases own : h' = h
    · subst own
      exact (prepared_offer offers).mpr text
    · exact prepared_outside (alone h' own)
  · have before := followed.copied q
    rw [underway_alone alone, taken_some offers] at before
    have after : underway { v with shm := (v.shm.messageHandler pid).1 } q = _ :=
      underway_alone alone
    rw [after, taken_some offers, messageHandler_amIRead, copy, copies_append, publications_append,
      before]
    by_cases own : q = pid
    · subst own
      simp [copies, publications, unset, isReader]
    · have kept : (q ∈ readers ∧ Function.update v.shm.amIRead (slot pid) 1 (slot q) = 1) ↔
          (q ∈ readers ∧ v.shm.amIRead (slot q) = 1) := by
        refine and_congr_right fun reads => ?_
        rw [Function.update_of_ne (followed.slot_ne offers isReader reads own)]
      simp [copies, publications, kept, Ne.symm own]

/-- What the flags are gathered for is on offer to the clients counted. -/
theorem readers_of_gathers (gathers : GathersFlags d)
    (offers : offer counted d = some (mtext, readers)) : readers = counted := by
  unfold GathersFlags at gathers
  split at gathers
  · cases offers
  · cases offers
    rfl
  · cases offers
    rfl
  · exact absurd gathers id

theorem separate_of_timely (followed : Followed log v) (timely : Timely v a) : Separate v a := by
  cases a with
  | request raw =>
    have request : OnRequest (fun id => slot id ∉ v.counted.map slot) (fun _ => False) raw := timely
    exact request.imp (fun _ own => own) fun _ never => absurd never id
  | poll pid =>
    rintro ⟨h, gathers⟩ unset
    rcases timely with set | offered
    · exact absurd set unset
    · obtain ⟨h', mtext, readers, offers, isReader⟩ := exists_offer offered
      have same : h' = h := by
        by_contra other
        exact followed.tallied.owned.other_outside (inside_of_gathers gathers) other
          (inside_of_offer offers)
      subst same
      exact readers_of_gathers gathers offers ▸ isReader
  | quit pid => exact absurd timely id
  | _ => trivial

/-- One step under the condition, one case for each; the texts move from on offer to
published, and no copy is without one of them. -/
theorem followed_step (followed : Followed log v) (timely : Timely v a)
    (moved : Move v a events w) : Followed (log ++ events) w := by
  have tallied := tallied_step followed.tallied (separate_of_timely followed timely) moved
  have silent (pid : Int) : copies pid [] = [] := rfl
  have nothing (pid : Int) : publications pid [] = [] := rfl
  cases moved with
  | @start pid fresh =>
    refine followed.keep tallied (fun p => ?_) followed.prepared fun _ _ => rfl
    by_cases own : p = pid
    · simp [View.setClient, own]
    · simpa [View.setClient, own] using followed.stay p
  | quit running guarded free => exact absurd timely id
  | quitLow running low => exact absurd timely id
  | @write pid mtext writing => cases followed.stay pid <;> simp_all
  | @post pid posting => cases followed.stay pid <;> simp_all
  | @release pid posting guarded => cases followed.stay pid <;> simp_all
  | @releaseLow pid posting low => cases followed.stay pid <;> simp_all
  | @poll pid present =>
    by_cases set : v.shm.amIRead (slot pid) = 1
    · exact followed.pollAgain set tallied
    · obtain ⟨h, mtext, readers, offers, isReader⟩ := exists_offer (timely.resolve_left set)
      exact followed.pollOffer set offers isReader tallied
  | join tokens idle =>
    simp only [Timely, OnRequest, tokens] at timely
    exact followed.join tallied idle timely
  | depart tokens idle =>
    simp only [Timely, OnRequest, tokens] at timely
  | aside outside remains =>
    refine followed.outside tallied ?_ ?_ (prepared_outside remains) rfl rfl
    · exact offer_outside outside
    · exact offer_outside remains
  | enter outside entering free =>
    refine followed.outside tallied (offer_outside outside) (offer_entering entering) ?_ rfl rfl
    exact prepared_entering entering
  | leave releasing =>
    exact followed.busy tallied (inside_of_releasing releasing) (offer_releasing releasing) rfl
      trivial silent nothing
  | clear duty =>
    exact followed.busy tallied (duty ▸ trivial) (duty ▸ rfl) rfl (fun _ => rfl) (fun _ => rfl)
      fun _ => rfl
  | @publish _ h mtext duty =>
    have clear : ∀ i, v.shm.amIRead i = 0 := by simpa [duty, Prepared] using followed.prepared h
    exact followed.opens tallied (duty ▸ trivial) (duty ▸ rfl) rfl fun pid _ => by simp [clear]
  | spin tokens duty before after =>
    exact followed.goesOn tallied (duty ▸ offer_looping before) (offer_looping after)
  | @exit _ h mtext duty full =>
    have allSet := (followed.tallied.full_iff ⟨h, duty ▸ trivial⟩).mp full
    exact followed.closes tallied (duty ▸ rfl) rfl trivial allSet
  | refill duty =>
    exact followed.busy tallied (duty ▸ trivial) (duty ▸ rfl) rfl trivial silent nothing
  | arm duty =>
    refine followed.busy tallied (duty ▸ trivial) (duty ▸ rfl) rfl ?_ silent nothing
    simp [Prepared, Shared.setFlag]
  | @skip _ h item item' pid duty =>
    refine followed.busy tallied (duty ▸ trivial) (duty ▸ rfl) rfl ?_ silent nothing
    simpa [duty, Prepared] using followed.prepared h
  | finish duty =>
    exact followed.busy tallied (duty ▸ trivial) (duty ▸ rfl) rfl trivial silent nothing
  | @offer _ h item pid mtext duty =>
    have unset : v.shm.amIRead (slot pid) ≠ 1 := by simpa [duty, Prepared] using followed.prepared h
    exact followed.opens tallied (duty ▸ trivial) (duty ▸ rfl) rfl fun p reader =>
      List.mem_singleton.mp reader ▸ unset
  | await tokens duty before after =>
    exact followed.goesOn tallied (duty ▸ offer_awaiting before) (offer_awaiting after)
  | @read _ h item item' mtext pid duty set =>
    exact followed.closes tallied (duty ▸ rfl) rfl trivial fun p reader =>
      List.mem_singleton.mp reader ▸ set

theorem followed_initial (tokens : Nat) : Followed [] (initial tokens).view :=
  ⟨tallied_initial tokens, fun _ => .inl rfl, fun h => by cases h <;> trivial, fun _ => rfl⟩

/-- Of one offer a client takes one copy at most, as its flag is set then. -/
theorem taken_length (counted : List Int) (flags : Fin 50 → Int) (pid : Int) (d : Duty) :
    (taken counted flags pid d).length ≤ 1 := by
  unfold taken
  split
  · split <;> simp
  · simp

/-- At most one text is on offer. -/
theorem Followed.underway_length (followed : Followed log v) (pid : Int) :
    (underway v pid).length ≤ 1 := by
  by_cases inside : (v.duty .members).Inside
  · have alone : ∀ h', h' ≠ .members → ¬ (v.duty h').Inside := fun h' other =>
      followed.tallied.owned.other_outside inside other
    rw [underway_alone alone]
    exact taken_length ..
  · rw [underway, taken_outside inside]
    exact taken_length ..

/-- In every run of timely polls, with whatever tokens semaphore 3 is left with,
each client has copied the texts published to it, each once and in order, and
beyond these at most the one that is on offer. -/
theorem copies_follow_publications {tokens : Nat} {s : State}
    (run : system.Reach (fun s a => Timely s.view a) (initial tokens) log s) (pid : Int) :
    copies pid log = publications pid log ++ underway s.view pid ∧
      (underway s.view pid).length ≤ 1 := by
  have followed := run.invariant (fun log s => Followed log s.view) (followed_initial tokens)
    fun _ _ _ _ followed timely stepped => followed_step followed timely (step_move stepped)
  exact ⟨followed.copied pid, followed.underway_length pid⟩

theorem taken_not_offered (notOffered : ¬ OffersTo counted pid d) :
    taken counted flags pid d = [] := by
  unfold OffersTo at notOffered
  unfold taken
  split at notOffered
  · simp [notOffered]
  · rfl

/-- An untimely poll never goes well: the client has copied a text too many. -/
theorem untimely_poll {s t : State} (followed : Followed log s.view)
    (unset : s.shm.amIRead (slot pid) ≠ 1)
    (notOffered : ∀ h, ¬ OffersTo s.server.counted pid (s.view.duty h))
    (stepped : step s (.poll pid) = some t) :
    copies pid (log ++ emit s (.poll pid)) ≠
      publications pid (log ++ emit s (.poll pid)) ++ underway t.view pid := by
  have nothing (v : View) (counted : v.counted = s.server.counted) (duty : v.duty = s.view.duty) :
      underway v pid = [] := by
    simp only [underway, counted, duty, taken_not_offered (notOffered _), List.append_nil]
  have before : copies pid log = publications pid log := by
    rw [followed.copied pid, nothing s.view rfl rfl, List.append_nil]
  have copy : (s.shm.messageHandler pid).2 = some s.shm.mtext := by
    simp [Shared.messageHandler, unset]
  have after : underway t.view pid = [] := by
    simp only [step] at stepped
    split at stepped <;> cases stepped
    exact nothing _ rfl rfl
  rw [after, copies_append, publications_append, before]
  simp [emit, copy, copies, publications]

/-- What 1203 and 1204 publish to each other when they join one after the other. -/
theorem copies_follow_publications_joins :
    ∃ log s, system.Reach (fun s a => Timely s.view a) (initial 7) log s ∧
      publications 1204 log = [wordText 1 ['a'] 1203, wordText 1 ['b'] 1204] ∧
      copies 1204 log = publications 1204 log ++ underway s.view 1204 ∧
      (underway s.view 1204).length ≤ 1 := by
  obtain ⟨log, s, run, published⟩ := system.exists_reach (fun s a => Timely s.view a) (initial 7)
    (twoJoinSchedule 1203 1204 ++ turns 4)
    (fun log _ => publications 1204 log = [wordText 1 ['a'] 1203, wordText 1 ['b'] 1204])
    (by decide)
  exact ⟨log, s, run, published, copies_follow_publications run 1204⟩

/-- 1203 joins alone and copies its own join; a token is left. It types a line, and
uses the token between the `fill` and the `strcpy` of the broadcast. -/
def staleSchedule : List Action :=
  .start 1203 :: .request (wordText 1 ['a'] 1203) :: turns 16 ++ .poll 1203 :: turns 3 ++
    [.message, .line (lineText 3 ['h', 'i'] 1203), .message, .message, .poll 1203, .message,
      .message]

/-- It copies its join a second time, and the line never. -/
theorem stale_copy :
    ∃ log s, system.Reach System.Anything (initial 0) log s ∧ s.server.counted = [1203] ∧
      publications 1203 log = [wordText 1 ['a'] 1203, lineText 3 ['h', 'i'] 1203] ∧
      copies 1203 log = [wordText 1 ['a'] 1203, wordText 1 ['a'] 1203] := by
  obtain ⟨log, s, run, counted, published, copied⟩ := system.exists_reach System.Anything
    (initial 0) staleSchedule
    (fun log s => s.server.counted = [1203] ∧
      publications 1203 log = [wordText 1 ['a'] 1203, lineText 3 ['h', 'i'] 1203] ∧
      copies 1203 log = [wordText 1 ['a'] 1203, wordText 1 ['a'] 1203]) (by decide)
  exact ⟨log, s, run, counted, published, copied⟩

end EltexCourse.Guarantees.Chat.Publication
