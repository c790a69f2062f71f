import EltexCourse.Source.Echo.Feedback
import EltexCourse.Guarantees.Echo.Datagrams

/-!
# task_echo: replies to the server's own replies

A reply goes to the port its datagram came from, and the server answers whatever
is for its own port. So a datagram that names port 8080 of the server's host as
its source starts a chain of replies, each the answer to the one before. From
anywhere else a reply that comes back is for another port and is left alone.
-/

set_option autoImplicit false

namespace EltexCourse.Guarantees.Echo.SelfReplies
open Foundations.CString Foundations.CBuffer Foundations.Transition Source.Echo Datagrams

/-- The replies sent on account of an external datagram. -/
def repliesFor (n : Nat) (log : List Answer) : Nat := log.countP (·.origin = n)

theorem repliesFor_append (n : Nat) (log more : List Answer) :
    repliesFor n (log ++ more) = repliesFor n log + repliesFor n more := List.countP_append

/-- At most one reply to an external datagram, none to a reply. -/
structure AnsweredOnce (log : List Answer) : Prop where
  once : ∀ n, repliesFor n log ≤ 1
  unheard : ∀ r ∈ log, r.toCopy = false

/-- A first answer. -/
theorem AnsweredOnce.append {log : List Answer} {n : Nat} (answered : AnsweredOnce log)
    (first : ∀ r ∈ log, r.origin ≠ n) : AnsweredOnce (log ++ [⟨n, false⟩]) := by
  constructor
  · intro k
    rw [repliesFor_append]
    by_cases same : k = n
    · have before : repliesFor k log = 0 := by
        rw [repliesFor, List.countP_eq_zero]
        exact fun r inside isOrigin => first r inside (same ▸ of_decide_eq_true isOrigin)
      rw [before, Nat.zero_add]
      exact List.countP_le_length
    · have other : repliesFor k [⟨n, false⟩] = 0 := by simp [repliesFor, Ne.symm same]
      rw [other]
      exact answered.once k
  · intro r inside
    rcases List.mem_append.mp inside with earlier | now
    · exact answered.unheard r earlier
    · obtain rfl := List.mem_singleton.mp now
      rfl

/-- A message, not "!exit", from the server's port on its own host. -/
def Looping (own : Int → Bool) (buff datagram : Text) : Prop :=
  ∃ udph ∈ headerSize (recvfrom buff datagram),
    dest (recvfrom buff datagram) udph = some serverPort ∧
    isExit (recvfrom buff datagram) (udph + udpSize) = false ∧
    (source (recvfrom buff datagram) udph).map swap16 = some serverPort ∧
    (saddr datagram).any own = true

instance (own : Int → Bool) (buff datagram : Text) : Decidable (Looping own buff datagram) := by
  unfold Looping
  infer_instance

/-- No external datagram is such a message. -/
def Outside {Addr : Type} (own : Int → Bool) (s : Feedback Addr) : Arrival Addr → Prop
  | .external datagram _ => ¬ Looping own s.server.buff datagram
  | .copy _ _ _ => True

instance {Addr : Type} (own : Int → Bool) (s : Feedback Addr) :
    ∀ a : Arrival Addr, Decidable (Outside own s a)
  | .external datagram _ => inferInstanceAs (Decidable (¬ Looping own s.server.buff datagram))
  | .copy _ _ _ => isTrue trivial

theorem load16_bytes16_mod (n : Nat) (rest : Text) :
    load16 (bytes16 n ++ rest) 0 = some (n % 65536) := by
  have same : bytes16 n = bytes16 (n % 65536) := by
    have low : n % 65536 % 256 = n % 256 := by omega
    have high : n % 65536 / 256 % 256 = n / 256 % 256 := by omega
    rw [bytes16, bytes16, low, high]
  rw [same]
  exact load16_bytes16 (Nat.mod_lt _ (by decide)) rest

/-- A reply is for the port its datagram came from. -/
theorem dest_replyBytes (port : Nat) (response rest : Text) :
    dest (replyBytes port response ++ rest) 0 = some (swap16 port) := by
  have same : swap16 (port % 65536) = swap16 port := by
    unfold swap16
    omega
  have found := (load16_behind (bytes16 (swap16 serverPort)) (bytes16 port ++ _) 0).trans
    (load16_bytes16_mod port (bytes16 (swap16 (udpSize + response.length + 1)) ++ bytes16 0 ++
      response ++ [nul] ++ rest))
  rw [dest, replyBytes, udpHeader]
  simp only [List.append_assoc] at found ⊢
  exact (congrArg (Option.map swap16) found).trans (congrArg some same)

/-- The text of a reply. It has the space before the counter in it, unless it is
so long that it was cut off. -/
structure Response (response : Text) : Prop where
  noNul : nul ∉ response
  fits : 20 + udpSize + response.length + 1 ≤ buffSize
  spaced : ' ' ∈ response ∨ exitText.length < response.length

theorem Response.notExit {response : Text} (text : Response response) : response ≠ exitText := by
  rintro rfl
  rcases text.spaced with space | long
  · exact absurd space (by decide)
  · exact absurd long (Nat.lt_irrefl _)

/-- An answer has a blank in it or is as long as there was room. -/
theorem spaced_takeWhile {text : Text} (noNul : nul ∉ text) (c : Char) (n : Nat) :
    ' ' ∈ ((text ++ [' ', c]).take n).takeWhile (· ≠ nul) ∨
      (((text ++ [' ', c]).take n).takeWhile (· ≠ nul)).length = n := by
  have passes {front : Text} (part : front ⊆ text) (d : Char) (inside : d ∈ front) :
      decide (d ≠ nul) = true := by
    simpa using fun (same : d = nul) => noNul (same ▸ part inside)
  by_cases cut : n ≤ text.length
  · right
    have front : (text ++ [' ', c]).take n = text.take n := List.take_append_of_le_length cut
    rw [front, List.takeWhile_eq_self_iff.mpr (passes (List.take_subset _ _)), List.length_take]
    omega
  · left
    obtain ⟨k, rfl⟩ : ∃ k, n = text.length + (k + 1) := ⟨n - text.length - 1, by omega⟩
    rw [List.take_length_add_append, List.takeWhile_append_of_pos (passes (List.Subset.refl _)),
      List.take_succ_cons, List.takeWhile_cons_of_pos (by decide)]
    exact List.mem_append_right _ List.mem_cons_self

/-- A reply that is sent has the form of an answer, in a buffer of the same size. -/
theorem reply_some {buff buff' sent : Text} {udph port : Nat} {count : Int}
    (size : buff.length = buffSize) (low : 20 ≤ udph) (high : udph ≤ 60)
    (replied : reply buff udph port count = some (buff', sent)) :
    buff'.length = buffSize ∧
      ∃ response, sent = replyBytes port response ∧ Response response := by
  simp only [reply, Option.bind_eq_bind, Option.bind_eq_some_iff, Option.some.injEq,
    Prod.mk.injEq] at replied
  obtain ⟨length, -, stored, isStored, text, isText, response, isResponse, first, isFirst, second,
    isSecond, rfl, rfl⟩ := replied
  have storedSize := store_length isStored
  have firstSize := memcpy_length isFirst
  have secondSize := memcpy_length isSecond
  obtain ⟨headerFits, firstEq⟩ := memcpy_some isFirst
  obtain ⟨fits, secondEq⟩ := memcpy_some isSecond
  rw [List.length_append, List.length_singleton] at fits
  refine ⟨by omega, response, ?_, ?_⟩
  · generalize header_eq :
      udpHeader (swap16 serverPort) port (udpSize + response.length + 1) = header
      at headerFits firstEq
    have headerLength : header.length = udpSize := by rw [← header_eq, udpHeader_length]
    have place : (stored.take udph).length = udph := by
      rw [List.length_take]
      omega
    have front : first.take (udph + udpSize) = stored.take udph ++ header := by
      rw [firstEq]
      exact List.take_left' (by rw [List.length_append, place, headerLength])
    have length : (header ++ response ++ [nul]).length = udpSize + response.length + 1 := by
      rw [List.length_append, List.length_append, headerLength, List.length_singleton]
    rw [secondEq, front, replyBytes, header_eq, List.append_assoc, List.append_assoc,
      List.drop_left' place, ← List.append_assoc, ← List.append_assoc, List.take_left' length]
  · rw [stringAt_snprintf] at isResponse
    obtain rfl := Option.some.inj isResponse
    constructor
    · exact nul_notMem_takeWhile _
    · omega
    · rcases spaced_takeWhile (stringAt_noNul isText) (countChar count)
        (buffSize - (udph + udpSize) - 1) with space | whole
      · exact Or.inl space
      · have long : exitText.length < buffSize - (udph + udpSize) - 1 := by
          simp only [exitText, udpSize, buffSize, List.length_cons, List.length_nil]
          omega
        exact Or.inr (Nat.lt_of_lt_of_eq long whole.symm)

section
variable {Addr : Type}

/-- The header that the kernel hands over is read as it came. -/
theorem headerSize_recvfrom {datagram : Text} (header : WholeHeader datagram) (buff : Text) :
    ∃ n, headerSize (recvfrom buff datagram) = some n ∧ 20 ≤ n ∧ n ≤ 60 := by
  obtain ⟨n, found, low, -⟩ := header
  obtain ⟨first, atStart, rfl⟩ := Option.map_eq_some_iff.mp found
  have taken : headerSize (datagram.take buffSize) = some (first % 16 * 4) := by
    rw [headerSize, load, List.getElem?_take_of_lt (by decide)]
    exact found
  exact ⟨_, headerSize_append taken _, low, by omega⟩

/-- A datagram that the server has to answer. -/
def IsMessage (buff datagram : Text) : Prop :=
  ∃ udph ∈ headerSize (recvfrom buff datagram),
    dest (recvfrom buff datagram) udph = some serverPort ∧
    isExit (recvfrom buff datagram) (udph + udpSize) = false

/-- What a turn does: nothing is sent, or a message for the server is answered. -/
inductive Served (s : Server Addr) (datagram : Text) : Server Addr × Option Text → Prop where
  | quiet (list : ClientList Addr) (other : ¬ IsMessage s.buff datagram) :
      Served s datagram (⟨list, recvfrom s.buff datagram⟩, none)
  | answered {udph port : Nat} {response : Text} (list : ClientList Addr) {buff : Text}
      (header : headerSize (recvfrom s.buff datagram) = some udph)
      (toServer : dest (recvfrom s.buff datagram) udph = some serverPort)
      (message : isExit (recvfrom s.buff datagram) (udph + udpSize) = false)
      (sender : source (recvfrom s.buff datagram) udph = some port)
      (size : buff.length = buffSize) (text : Response response) :
      Served s datagram (⟨list, buff⟩, some (replyBytes port response))

theorem Served.size {s : Server Addr} {datagram : Text} {result : Server Addr × Option Text}
    (served : Served s datagram result) (size : s.buff.length = buffSize) :
    result.1.buff.length = buffSize := by
  cases served with
  | quiet => exact recvfrom_length size datagram
  | answered _ _ _ _ _ whole => exact whole

variable [DecidableEq Addr]

theorem serve_served {s : Server Addr} {datagram : Text} {malloc : Addr}
    {result : Server Addr × Option Text} (size : s.buff.length = buffSize)
    (whole : WholeHeader datagram)
    (served : serve s datagram malloc = some result) : Served s datagram result := by
  simp only [serve, Option.bind_eq_bind, Option.bind_eq_some_iff] at served
  obtain ⟨udph, header, port, toServer, served⟩ := served
  split at served
  next isServer =>
    simp only [Option.bind_eq_some_iff] at served
    obtain ⟨ip, -, sender, readsPort, served⟩ := served
    split at served
    next exits =>
      simp only [Option.bind_eq_some_iff, Option.some.injEq] at served
      obtain ⟨list, -, rfl⟩ := served
      refine .quiet list ?_
      rintro ⟨place, same, -, message⟩
      obtain rfl : udph = place := Option.some.inj (header.symm.trans same)
      simp [exits] at message
    next message =>
      simp only [Option.bind_eq_some_iff, Option.some.injEq] at served
      obtain ⟨added, -, sent, replied, rfl⟩ := served
      obtain ⟨n, same, low, high⟩ := headerSize_recvfrom whole s.buff
      obtain rfl : n = udph := Option.some.inj (same.symm.trans header)
      obtain ⟨kept, response, isReply, text⟩ :=
        reply_some (recvfrom_length size datagram) low high replied
      rw [isReply]
      exact .answered added.1 header (isServer ▸ toServer) (by simpa using message) readsPort kept
        text
  next notServer =>
    cases served
    refine .quiet s.list ?_
    rintro ⟨place, same, forServer, -⟩
    obtain rfl : udph = place := Option.some.inj (header.symm.trans same)
    exact notServer (Option.some.inj (toServer.symm.trans forServer))

theorem whole_of_kernel {own : Int → Bool} {ip : Text} (kernel : KernelHeader own ip)
    (bytes : Text) : WholeHeader (ip ++ bytes) := by
  obtain ⟨length, header, -⟩ := kernel
  refine ⟨20, headerSize_append header bytes, Nat.le_refl _, ?_⟩
  rw [List.length_append, length]
  exact Nat.le_add_right _ _

theorem copy_fits {own : Int → Bool} {ip response : Text} (kernel : KernelHeader own ip)
    (text : Response response) (port : Nat) :
    (ip ++ replyBytes port response).length ≤ buffSize := by
  have bound := text.fits
  simp only [replyBytes, List.length_append, udpHeader_length, kernel.1, List.length_singleton]
  omega

/-- A copy goes to the port of the datagram it answered. -/
theorem dest_copy {own : Int → Bool} {ip response : Text} (kernel : KernelHeader own ip)
    (text : Response response) (buff : Text) (port : Nat) :
    headerSize (recvfrom buff (ip ++ replyBytes port response)) = some 20 ∧
      dest (recvfrom buff (ip ++ replyBytes port response)) 20 = some (swap16 port) := by
  have found := load16_behind ip (replyBytes port response ++
    buff.drop (ip ++ replyBytes port response).length) 2
  rw [recvfrom_fits (copy_fits kernel text port), List.append_assoc]
  refine ⟨headerSize_append kernel.2.1 _, ?_⟩
  rw [kernel.1] at found
  rw [dest, found]
  exact dest_replyBytes port response _

/-- Unless that is the server's own port, it is not answered. -/
theorem serve_copy_elsewhere {own : Int → Bool} {ip response : Text} {port : Nat}
    (kernel : KernelHeader own ip) (text : Response response) (other : swap16 port ≠ serverPort)
    (s : Server Addr) (malloc : Addr) :
    serve s (ip ++ replyBytes port response) malloc =
      some (⟨s.list, recvfrom s.buff (ip ++ replyBytes port response)⟩, none) := by
  obtain ⟨header, port⟩ := dest_copy kernel text s.buff port
  simp only [serve, header, port, Option.bind_eq_bind, Option.bind_some, other, if_false]

variable {own : Int → Bool} {s t : Feedback Addr}

/-- What an arrival does, from what the loop does with the datagram. -/
inductive Moved (own : Int → Bool) (s : Feedback Addr) :
    Arrival Addr → Feedback Addr → List Answer → Prop where
  | external {datagram : Text} {malloc : Addr} {served : Server Addr × Option Text}
      (turn : serve s.server datagram malloc = some served) (whole : WholeHeader datagram) :
      Moved own s (.external datagram malloc)
        ⟨served.1, s.arrived + 1, s.copies ++ copied own s.arrived datagram served.2⟩
        (answers s.arrived false served.2)
  | copy {i : Nat} {c : Copy} {ip : Text} {malloc : Addr} {served : Server Addr × Option Text}
      (found : s.copies[i]? = some c) (kernel : KernelHeader own ip)
      (turn : serve s.server (ip ++ c.bytes) malloc = some served) :
      Moved own s (.copy i ip malloc)
        ⟨served.1, s.arrived, s.copies.eraseIdx i ++ copied own c.origin (ip ++ c.bytes) served.2⟩
        (answers c.origin true served.2)

theorem step_moved {a : Arrival Addr} (stepped : (feedback own).step s a = some t) :
    Moved own s a t ((feedback own).emit s a) := by
  obtain ⟨result, arrived, rfl⟩ := Option.map_eq_some_iff.mp stepped
  have shown : (feedback own).emit s a = result.2 := by
    show ((arrive own s a).map Prod.snd).getD [] = result.2
    rw [arrived]
    rfl
  rw [shown]
  unfold arrive at arrived
  split at arrived
  next datagram malloc =>
    split at arrived
    next whole =>
      obtain ⟨served, turn, rfl⟩ := Option.map_eq_some_iff.mp arrived
      exact .external turn whole
    · cases arrived
  next i ip malloc =>
    split at arrived
    · cases arrived
    next c found =>
      split at arrived
      next kernel =>
        obtain ⟨served, turn, rfl⟩ := Option.map_eq_some_iff.mp arrived
        exact .copy found kernel turn
      · cases arrived

theorem Moved.size {a : Arrival Addr} {shown : List Answer} (moved : Moved own s a t shown)
    (size : s.server.buff.length = buffSize) : t.server.buff.length = buffSize := by
  cases moved with
  | external turn whole => exact (serve_served size whole turn).size size
  | copy found kernel turn =>
    exact (serve_served size (whole_of_kernel kernel _) turn).size size

/-- What a reply leaves on its way back, if it is for another port. -/
def Harmless (c : Copy) : Prop :=
  ∃ port response, c.bytes = replyBytes port response ∧ Response response ∧
    swap16 port ≠ serverPort

structure Quiet (log : List Answer) (s : Feedback Addr) : Prop where
  size : s.server.buff.length = buffSize
  copies : ∀ c ∈ s.copies, Harmless c
  past : ∀ r ∈ log, r.origin < s.arrived
  answered : AnsweredOnce log

/-- A datagram that is no looping message leads to no copy that the server would answer. -/
theorem quiet_step {log : List Answer} {a : Arrival Addr} (quiet : Quiet log s)
    (outside : Outside own s a) (stepped : (feedback own).step s a = some t) :
    Quiet (log ++ (feedback own).emit s a) t := by
  have moved := step_moved stepped
  have size := moved.size quiet.size
  generalize (feedback own).emit s a = shown at moved
  cases moved with
  | @external datagram malloc served turn whole =>
    cases serve_served quiet.size whole turn with
    | quiet =>
      simp only [copied, answers, List.append_nil]
      exact ⟨size, quiet.copies, fun r inside => Nat.lt_succ_of_lt (quiet.past r inside),
        quiet.answered⟩
    | @answered udph port response list buff header toServer message sender whole text =>
      refine ⟨size, ?_, ?_, ?_⟩
      · intro c inside
        rcases List.mem_append.mp inside with earlier | now
        · exact quiet.copies c earlier
        · simp only [copied] at now
          split at now
          next isOwn =>
            obtain rfl := List.mem_singleton.mp now
            refine ⟨port, response, rfl, text, fun same => outside ?_⟩
            exact ⟨udph, header, toServer, message, by rw [sender, Option.map_some, same], isOwn⟩
          · exact absurd now List.not_mem_nil
      · intro r inside
        rcases List.mem_append.mp inside with earlier | now
        · exact Nat.lt_succ_of_lt (quiet.past r earlier)
        · obtain rfl := List.mem_singleton.mp now
          exact Nat.lt_succ_self _
      · exact quiet.answered.append fun r inside => Nat.ne_of_lt (quiet.past r inside)
  | @copy i c ip malloc served found kernel turn =>
    obtain ⟨port, response, bytes, text, other⟩ := quiet.copies c (List.mem_of_getElem? found)
    rw [bytes, serve_copy_elsewhere kernel text other] at turn
    obtain rfl := Option.some.inj turn
    simp only [copied, answers, List.append_nil]
    exact ⟨size, fun c inside => quiet.copies c (List.mem_of_mem_eraseIdx inside), quiet.past,
      quiet.answered⟩

/-- A reply to the server's own port is a message when it comes back. -/
theorem copy_isMessage {ip response : Text} {port : Nat} (kernel : KernelHeader own ip)
    (text : Response response) (same : swap16 port = serverPort) (buff : Text) :
    IsMessage buff (ip ++ replyBytes port response) := by
  obtain ⟨header, forServer⟩ := dest_copy kernel text buff port
  refine ⟨20, header, same ▸ forServer, ?_⟩
  generalize header_eq : udpHeader (swap16 serverPort) port (udpSize + response.length + 1) = udp
  have front : (ip ++ udp).length = 20 + udpSize := by
    rw [List.length_append, kernel.1, ← header_eq, udpHeader_length]
  have exit := isExit_iff text.noNul (ip ++ udp)
    (buff.drop (ip ++ replyBytes port response).length)
  rw [front] at exit
  have place : recvfrom buff (ip ++ replyBytes port response) =
      ip ++ udp ++ (response ++ nul :: buff.drop (ip ++ replyBytes port response).length) := by
    rw [recvfrom_fits (copy_fits kernel text port)]
    simp [replyBytes, header_eq]
  rw [place, Bool.eq_false_iff]
  exact fun exits => text.notExit (exit.mp exits)

/-- The reply to such a message comes back, and is answered when it does. -/
theorem looping_answered {datagram : Text} {malloc : Addr} (size : s.server.buff.length = buffSize)
    (looping : Looping own s.server.buff datagram)
    (stepped : (feedback own).step s (.external datagram malloc) = some t) :
    (feedback own).emit s (.external datagram malloc) = [⟨s.arrived, false⟩] ∧
      ∃ c, t.copies = s.copies ++ [c] ∧ c.origin = s.arrived ∧
        ∀ ip malloc' u, (feedback own).step t (.copy s.copies.length ip malloc') = some u →
          (feedback own).emit t (.copy s.copies.length ip malloc') = [⟨s.arrived, true⟩] := by
  obtain ⟨udph, header, toServer, message, sender, isOwn⟩ := looping
  have moved := step_moved stepped
  generalize (feedback own).emit s (.external datagram malloc) = shown at moved
  cases moved with
  | @external _ _ served turn whole =>
    have kept := (serve_served size whole turn).size size
    cases serve_served size whole turn with
    | quiet list other => exact absurd ⟨udph, header, toServer, message⟩ other
    | @answered place port response list buff header' _ _ readsPort _ text =>
      obtain rfl : place = udph := Option.some.inj (header'.symm.trans header)
      have same : swap16 port = serverPort := by
        rw [readsPort] at sender
        exact Option.some.inj sender
      refine ⟨rfl, ⟨s.arrived, replyBytes port response⟩, by simp [copied, isOwn], rfl, ?_⟩
      intro ip malloc' u returned
      have moved := step_moved returned
      generalize (feedback own).emit _ (.copy s.copies.length ip malloc') = shown at moved
      cases moved with
      | @copy _ c _ _ served found kernel turn =>
        obtain rfl : ⟨s.arrived, replyBytes port response⟩ = c := by
          simpa [copied, isOwn] using found
        cases serve_served kept (whole_of_kernel kernel _) turn with
        | quiet list other => exact absurd (copy_isMessage kernel text same _) other
        | answered => rfl

/-- Where no message comes from the server's own port on its own host, every
datagram has at most one reply and no reply has any. After such a message the
return of its reply is enough for a second one. -/
theorem own_replies_unanswered {buff : Text} (size : buff.length = buffSize) {log : List Answer}
    (run : (feedback own).Reach System.Anything (feedbackInit buff) log s) :
    ((feedback own).Reach (Outside own) (feedbackInit buff) log s → AnsweredOnce log) ∧
      ∀ datagram malloc, ¬ Outside own s (.external datagram malloc) →
        ∀ t, (feedback own).step s (.external datagram malloc) = some t →
        ∀ ip malloc' u, (feedback own).step t (.copy s.copies.length ip malloc') = some u →
          ¬ AnsweredOnce (log ++ (feedback own).emit s (.external datagram malloc) ++
            (feedback own).emit t (.copy s.copies.length ip malloc')) := by
  constructor
  · intro outside
    have quiet := outside.invariant Quiet
      ⟨size, fun _ inside => absurd inside List.not_mem_nil,
        fun _ inside => absurd inside List.not_mem_nil, ⟨fun _ => Nat.zero_le _,
          fun _ inside => absurd inside List.not_mem_nil⟩⟩
      fun _ _ _ _ quiet allowed stepped => quiet_step quiet allowed stepped
    exact quiet.answered
  · intro datagram malloc looping t stepped ip malloc' u returned answered
    have kept := run.stateInvariant (fun s => s.server.buff.length = buffSize) size
      fun _ _ _ size _ stepped => (step_moved stepped).size size
    obtain ⟨-, c, -, -, again⟩ := looping_answered kept (Decidable.not_not.mp looping) stepped
    have heard := answered.unheard ⟨s.arrived, true⟩
      (List.mem_append_right _ (by rw [again ip malloc' u returned]; simp))
    cases heard

end

/-- 127.0.0.1 is the host's only address. -/
def onlyLocal (address : Int) : Bool := address = 16777343

/-- "h" from a port of this host. -/
def localDatagram (port : Nat) : Text :=
  localIp ++ udpHeader (swap16 port) (swap16 serverPort) (udpSize + 3) ++ ['h', '\n', nul]

theorem own_replies_unanswered_client : ∃ log s,
    (feedback onlyLocal).Reach (Outside onlyLocal)
      (feedbackInit (List.replicate buffSize nul) : Feedback Nat) log s ∧
    s.arrived = 1 ∧ s.copies = [] ∧ log = [⟨0, false⟩] ∧ AnsweredOnce log := by
  obtain ⟨log, s, run, arrived, copies, shown⟩ := System.exists_reach (feedback onlyLocal)
    (Outside onlyLocal) (feedbackInit (List.replicate buffSize nul) : Feedback Nat)
    [.external (localDatagram 8081) 0, .copy 0 localIp 1]
    (fun log s => s.arrived = 1 ∧ s.copies = [] ∧ log = [⟨0, false⟩]) (by decide +kernel)
  have anyRun := run.mono fun _ _ _ => trivial
  exact ⟨log, s, run, arrived, copies, shown,
    (own_replies_unanswered List.length_replicate anyRun).1 run⟩

/-- One datagram from port 8080: four replies, and the next one is on its way back. -/
theorem self_answered : ∃ log s,
    (feedback onlyLocal).Reach System.Anything
      (feedbackInit (List.replicate buffSize nul) : Feedback Nat) log s ∧
    s.arrived = 1 ∧ s.copies.length = 1 ∧ repliesFor 0 log = 4 ∧ ¬ AnsweredOnce log := by
  obtain ⟨log, s, run, arrived, copies, shown⟩ := System.exists_reach (feedback onlyLocal)
    System.Anything (feedbackInit (List.replicate buffSize nul) : Feedback Nat)
    [.external (localDatagram serverPort) 0, .copy 0 localIp 1, .copy 0 localIp 1,
      .copy 0 localIp 1]
    (fun log s => s.arrived = 1 ∧ s.copies.length = 1 ∧ repliesFor 0 log = 4) (by decide +kernel)
  refine ⟨log, s, run, arrived, copies, shown, fun answered => ?_⟩
  have once := answered.once 0
  omega

end EltexCourse.Guarantees.Echo.SelfReplies
