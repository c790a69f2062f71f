import EltexCourse.Foundations.Ownership
import EltexCourse.Source.TimeServer.Parallel

/-!
# The blocks of parallel

`main` allocates two blocks for each round and hands them to a thread, or frees
them when it leaves its loop; the thread frees them when it has answered. They
have one owner at any time, whatever addresses `malloc` gives again, so nobody
touches a block that has been freed and none is left behind.
-/

set_option autoImplicit false

namespace EltexCourse.Guarantees.TimeServer.Blocks
open Foundations.CString Foundations.Ownership Foundations.Transition Source.TimeServer
open Source.TimeServer.Parallel

variable {Client : Type} {s t : State Client} {n a : Nat} {known : List (Request Client)}

inductive Owner where
  | main
  | handler (n : Nat)
  deriving DecidableEq

def mainBlocks : MainPc → List Nat
  | .mallocData => []
  | .mallocClient data => [data]
  | .receiving data client => [data, client]
  | .storingClient data client => [data, client]
  | .storingFd data client => [data, client]
  | .creating data client => [data, client]
  | .freeing blocks _ => blocks
  | .returning _ => []

def handlerBlocks (s : State Client) : HandlerPc → List Nat
  | .absent => []
  | .sending args => args :: (s.clientOf args).toList
  | .closing args => args :: (s.clientOf args).toList
  | .freeingClient args _ => args :: (s.clientOf args).toList
  | .freeingData args _ => [args]
  | .done _ => []

/-- What `main`, and each thread, has still to free. -/
def blocks (s : State Client) : Owner → List Nat
  | .main => mainBlocks s.main
  | .handler n => handlerBlocks s (s.handler n)

def Live (s : State Client) (a : Nat) : Prop := s.heap a ≠ none

/-- The address of the client whose request has the number, one of those known. -/
def Addressed (known : List (Request Client)) (heap : Nat → Option (Block Client))
    (n client : Nat) : Prop :=
  ∃ request ∈ known, heap client = some (.sockaddr (some request)) ∧ request.arrival = n

/-- The two blocks of a thread that has not freed any. -/
def Prepared (known : List (Request Client)) (heap : Nat → Option (Block Client))
    (n args : Nat) : Prop :=
  ∃ client, heap args = some (.data (some client) true) ∧ Addressed known heap n client

def HandlerHas (known : List (Request Client)) (heap : Nat → Option (Block Client)) (n : Nat) :
    HandlerPc → Prop
  | .sending args => Prepared known heap n args
  | .closing args => Prepared known heap n args
  | .freeingClient args _ => Prepared known heap n args
  | _ => True

def MainHas (known : List (Request Client)) (heap : Nat → Option (Block Client))
    (threads : Nat) : MainPc → Prop
  | .mallocClient data => ∃ client fd, heap data = some (.data client fd)
  | .receiving data client => (∃ stored fd, heap data = some (.data stored fd)) ∧
      ∃ request, heap client = some (.sockaddr request)
  | .storingClient data client => (∃ stored fd, heap data = some (.data stored fd)) ∧
      Addressed known heap threads client
  | .storingFd data client => (∃ fd, heap data = some (.data (some client) fd)) ∧
      Addressed known heap threads client
  | .creating data client => heap data = some (.data (some client) true) ∧
      Addressed known heap threads client
  | _ => True

/-- `known` are the requests received. -/
structure Sound (known : List (Request Client)) (s : State Client) : Prop where
  owned : Owned (Live s) (blocks s)
  main : MainHas known s.heap s.threads s.main
  handler : ∀ n, HandlerHas known s.heap n (s.handler n)
  absent : ∀ n, s.handler n = .absent ↔ s.threads ≤ n
  intact : s.corrupt = false

theorem sound_start (junk : Text) : Sound [] (start junk : State Client) :=
  ⟨Owned.start (fun _ live => live rfl) (fun k => by cases k <;> rfl), trivial, fun _ => trivial,
    fun n => iff_of_true rfl (Nat.zero_le n), rfl⟩

theorem Addressed.frame {heap heap' : Nat → Option (Block Client)} {client : Nat}
    (addressed : Addressed known heap n client) (same : heap' client = heap client) :
    Addressed known heap' n client := by
  obtain ⟨request, received, sockaddr, number⟩ := addressed
  exact ⟨request, received, same.trans sockaddr, number⟩

/-- Arguments are read at their own block and at the one they point to; whatever else is
written leaves them. -/
theorem Prepared.frame {heap heap' : Nat → Option (Block Client)} {args : Nat}
    (prepared : Prepared known heap n args)
    (frame : ∀ b, b = args ∨ (∃ fd, heap args = some (.data (some b) fd)) → heap' b = heap b) :
    Prepared known heap' n args := by
  obtain ⟨client, data, addressed⟩ := prepared
  exact ⟨client, (frame args (Or.inl rfl)).trans data,
    addressed.frame (frame client (Or.inr ⟨true, data⟩))⟩

theorem clientOf_data {args client : Nat} {fd : Bool}
    (data : s.heap args = some (.data (some client) fd)) : s.clientOf args = some client := by
  simp [State.clientOf, data]

theorem clientOf_congr {args : Nat} (same : t.heap args = s.heap args) :
    t.clientOf args = s.clientOf args := by
  simp [State.clientOf, same]

/-- A thread whose blocks stay as they are has what it had. -/
theorem handler_frame (known : List (Request Client)) (pc : t.handler n = s.handler n)
    (frame : ∀ b ∈ blocks s (.handler n), t.heap b = s.heap b) :
    blocks t (.handler n) = blocks s (.handler n) ∧
      (HandlerHas known s.heap n (s.handler n) → HandlerHas known t.heap n (t.handler n)) := by
  have prepared {args : Nat} (mine : blocks s (.handler n) = args :: (s.clientOf args).toList)
      (has : Prepared known s.heap n args) : Prepared known t.heap n args := by
    refine has.frame fun b place => frame b ?_
    rw [mine]
    rcases place with rfl | ⟨fd, data⟩
    · exact List.mem_cons_self
    · rw [clientOf_data data]
      exact List.mem_cons_of_mem _ List.mem_cons_self
  cases at_pc : s.handler n with
  | absent =>
    exact ⟨by simp [blocks, pc, at_pc, handlerBlocks], fun _ => by rw [pc, at_pc]; trivial⟩
  | sending args | closing args | freeingClient args status =>
    have mine : blocks s (.handler n) = args :: (s.clientOf args).toList := by
      simp [blocks, at_pc, handlerBlocks]
    have same : t.heap args = s.heap args := frame args (mine ▸ List.mem_cons_self)
    refine ⟨?_, fun has => ?_⟩
    · rw [mine, ← clientOf_congr same]
      simp [blocks, pc, at_pc, handlerBlocks]
    · rw [pc, at_pc]
      exact prepared mine has
  | freeingData args status =>
    exact ⟨by simp [blocks, pc, at_pc, handlerBlocks], fun _ => by rw [pc, at_pc]; trivial⟩
  | done status =>
    exact ⟨by simp [blocks, pc, at_pc, handlerBlocks], fun _ => by rw [pc, at_pc]; trivial⟩

/-- `main` has what it had when its blocks stay as they are. -/
theorem mainHas_frame {heap heap' : Nat → Option (Block Client)} {threads : Nat} {pc : MainPc}
    (frame : ∀ b ∈ mainBlocks pc, heap' b = heap b) (has : MainHas known heap threads pc) :
    MainHas known heap' threads pc := by
  cases pc with
  | mallocClient data =>
    rw [MainHas, frame data (by simp [mainBlocks])]
    exact has
  | receiving data client =>
    rw [MainHas, frame data (by simp [mainBlocks]), frame client (by simp [mainBlocks])]
    exact has
  | storingClient data client | storingFd data client | creating data client =>
    rw [MainHas, frame data (by simp [mainBlocks])]
    exact ⟨has.1, has.2.frame (frame client (by simp [mainBlocks]))⟩
  | _ => trivial

/-- A step of `main` that leaves the blocks of the threads as they are. -/
theorem Sound.mainGoes (sound : Sound known s) (handler : t.handler = s.handler)
    (threads : t.threads = s.threads) (corrupt : t.corrupt = s.corrupt)
    (frame : ∀ n, ∀ b ∈ blocks s (.handler n), t.heap b = s.heap b)
    (owned : (∀ k, k ≠ .main → blocks t k = blocks s k) → Owned (Live t) (blocks t))
    (has : MainHas known t.heap t.threads t.main) : Sound known t := by
  have same (n : Nat) : t.handler n = s.handler n := congrFun handler n
  refine ⟨owned fun k other => ?_, has, fun n => ?_, fun n => ?_, corrupt.trans sound.intact⟩
  · cases k with
    | main => exact absurd rfl other
    | handler n => exact (handler_frame known (same n) (frame n)).1
  · exact (handler_frame known (same n) (frame n)).2 (sound.handler n)
  · rw [same, threads]
    exact sound.absent n

/-- The heap changes at one address that no thread has. -/
theorem frame_at (apart : ∀ n, a ∉ blocks s (.handler n)) {block : Option (Block Client)}
    (n b : Nat)
    (inside : b ∈ blocks s (.handler n)) : Function.update s.heap a block b = s.heap b :=
  Function.update_of_ne (fun same : b = a => apart n (same ▸ inside)) ..

theorem Sound.apart_main (sound : Sound known s) (mine : a ∈ blocks s .main) (n : Nat) :
    a ∉ blocks s (.handler n) := by
  intro inside
  cases sound.owned.apart .main (.handler n) a mine inside

theorem Sound.apart_handler (sound : Sound known s) (mine : a ∈ blocks s (.handler n)) :
    a ∉ blocks s .main ∧ ∀ m, m ≠ n → a ∉ blocks s (.handler m) := by
  constructor
  · intro inside
    cases sound.owned.apart .main (.handler n) a inside mine
  · intro m other inside
    exact other (Owner.handler.inj (sound.owned.apart (.handler m) (.handler n) a inside mine))

theorem live_update (s : State Client) (a b : Nat) (block : Block Client) :
    Function.update s.heap a (some block) b ≠ none ↔ s.heap b ≠ none ∨ b = a := by
  by_cases own : b = a
  · simp [own]
  · simp [own]

theorem live_free (s : State Client) (a b : Nat) :
    Function.update s.heap a none b ≠ none ↔ s.heap b ≠ none ∧ b ≠ a := by
  by_cases own : b = a
  · simp [own]
  · simp [own]

/-- What a step of `main` does not change. -/
structure ThreadsKept (s t : State Client) : Prop where
  handler : t.handler = s.handler
  threads : t.threads = s.threads
  corrupt : t.corrupt = s.corrupt

/-- `malloc` hands main a block that was nobody's. The block is new, so that nothing any
thread reads has changed. -/
theorem Sound.mallocs (sound : Sound known s) {block : Block Client} (kept : ThreadsKept s t)
    (free : s.heap a = none) (heap : t.heap = Function.update s.heap a (some block))
    (takes : mainBlocks t.main = mainBlocks s.main ++ [a])
    (has : MainHas known t.heap t.threads t.main) : Sound known t := by
  have notLive : ¬ Live s a := fun live => live free
  refine sound.mainGoes kept.handler kept.threads kept.corrupt (fun n b inside => ?_)
    (fun others => ?_) has
  · rw [heap]
    exact frame_at (fun n => sound.owned.fresh notLive (.handler n)) n b inside
  · refine sound.owned.take (k := .main) notLive (fun b => ?_) takes others
    show t.heap b ≠ none ↔ _
    rw [heap]
    exact live_update s a b block

/-- Main writes to a block of its own. The handlers read other blocks, and keep what
they have. -/
theorem Sound.stores (sound : Sound known s) {block : Block Client} (kept : ThreadsKept s t)
    (mine : a ∈ mainBlocks s.main) (heap : t.heap = Function.update s.heap a (some block))
    (same : mainBlocks t.main = mainBlocks s.main)
    (has : MainHas known t.heap t.threads t.main) : Sound known t := by
  have live : Live s a := sound.owned.isLive .main a mine
  refine sound.mainGoes kept.handler kept.threads kept.corrupt (fun n b inside => ?_)
    (fun others => ?_) has
  · rw [heap]
    exact frame_at (sound.apart_main mine) n b inside
  · refine sound.owned.congr (fun b => ?_) fun k => ?_
    · show t.heap b ≠ none ↔ _
      rw [heap, live_update]
      exact or_iff_left_of_imp fun own => own ▸ live
    · cases k with
      | main => exact same
      | handler n => exact others (.handler n) nofun

/-- `main` goes on with the same blocks. -/
theorem Sound.keeps (sound : Sound known s) (kept : ThreadsKept s t) (heap : t.heap = s.heap)
    (same : mainBlocks t.main = mainBlocks s.main)
    (has : MainHas known t.heap t.threads t.main) : Sound known t := by
  refine sound.mainGoes kept.handler kept.threads kept.corrupt (fun n b _ => by rw [heap])
    (fun others => ?_) has
  refine sound.owned.congr (fun b => by rw [Live, heap]; rfl) fun k => ?_
  cases k with
  | main => exact same
  | handler n => exact others (.handler n) nofun

theorem free_live (live : s.heap a ≠ none) :
    s.free a = { s with heap := Function.update s.heap a none } := by
  obtain ⟨block, there⟩ := Option.ne_none_iff_exists'.mp live
  simp [State.free, there]

/-- Main frees the first of the blocks on its list; they are main's own, so that no
handler reads them. -/
theorem Sound.mainFrees (sound : Sound known s) {rest : List Nat} {status : Nat}
    (pc : s.main = .freeing (a :: rest) status) :
    Sound known ((s.free a).setMain (.freeing rest status)) := by
  have mine : a ∈ blocks s .main := by simp [blocks, pc, mainBlocks]
  rw [free_live (sound.owned.isLive .main a mine)]
  refine sound.mainGoes rfl rfl rfl (frame_at (sound.apart_main mine)) (fun others => ?_) trivial
  refine sound.owned.release (k := .main) (live_free s a) ?_ others
  simp [blocks, pc, mainBlocks, State.setMain]

/-- The thread gets what `main` has. -/
theorem Sound.creates (sound : Sound known s) {data client : Nat}
    (pc : s.main = .creating data client) :
    Sound known { (s.setHandler s.threads (.sending data)).setMain .mallocData with
      threads := s.threads + 1 } := by
  have has := sound.main
  rw [pc] at has
  obtain ⟨stored, addressed⟩ := has
  have newcomer : s.handler s.threads = .absent := (sound.absent _).mpr (Nat.le_refl _)
  have now : Function.update s.handler s.threads (.sending data) s.threads = .sending data :=
    Function.update_self ..
  have others (m : Nat) (other : m ≠ s.threads) :
      Function.update s.handler s.threads (.sending data) m = s.handler m :=
    Function.update_of_ne other ..
  refine ⟨?_, trivial, fun m => ?_, fun m => ?_, sound.intact⟩
  · refine sound.owned.handOver (k := .main) (l := .handler s.threads) nofun ?_ rfl ?_
      fun k notMain notNew => ?_
    · simp [blocks, newcomer, handlerBlocks]
    · have handed : s.clientOf data = some client := clientOf_data stored
      show handlerBlocks s (Function.update s.handler s.threads (.sending data) s.threads) = _
      rw [now]
      simp [blocks, pc, mainBlocks, handlerBlocks, handed]
    · cases k with
      | main => exact absurd rfl notMain
      | handler m =>
        show handlerBlocks s (Function.update s.handler s.threads (.sending data) m) = _
        rw [others m fun same => notNew (congrArg Owner.handler same)]
        rfl
  · show HandlerHas known s.heap m (Function.update s.handler s.threads (.sending data) m)
    by_cases own : m = s.threads
    · rw [own, now]
      exact ⟨client, stored, addressed⟩
    · rw [others m own]
      exact sound.handler m
  · show Function.update s.handler s.threads (.sending data) m = .absent ↔ s.threads + 1 ≤ m
    by_cases own : m = s.threads
    · rw [own, now]
      exact iff_of_false nofun (by omega)
    · rw [others m own, sound.absent m]
      omega

/-- Blocks of the two kinds are two blocks. -/
theorem different {b : Nat} {stored : Option Nat} {fd : Bool} {request : Option (Request Client)}
    (data : s.heap a = some (.data stored fd)) (sockaddr : s.heap b = some (.sockaddr request)) :
    a ≠ b := by
  rintro rfl
  cases data.symm.trans sockaddr

theorem Addressed.apart {client data : Nat} {stored : Option Nat} {fd : Bool}
    (addressed : Addressed known s.heap n client) (block : s.heap data = some (.data stored fd)) :
    client ≠ data := by
  obtain ⟨request, -, sockaddr, -⟩ := addressed
  exact (different block sockaddr).symm

theorem malloc_some {block : Block Client} (given : s.malloc a block = some t) :
    s.heap a = none ∧ t = s.store a block := by
  unfold State.malloc at given
  split at given
  · cases given
  · next free =>
    cases given
    exact ⟨free, rfl⟩

/-- `recvfrom` writes the sender's address to the second block; behind a "kill" both
blocks are to be freed. -/
theorem Sound.receives (sound : Sound known s) {data client : Nat} {sender : Client} {bytes : Text}
    (pc : s.main = .receiving data client)
    (received : ¬ isKill (overlay s.buff bytes) = true → ⟨s.threads, sender⟩ ∈ known) :
    Sound known ({ s.store client (.sockaddr (some ⟨s.threads, sender⟩)) with
      buff := overlay s.buff bytes }.setMain (if isKill (overlay s.buff bytes)
        then .freeing [data, client] 0 else .storingClient data client)) := by
  have has := sound.main
  rw [pc] at has
  obtain ⟨⟨stored, fd, block⟩, old, sockaddr⟩ := has
  have apart : data ≠ client := different block sockaddr
  have mine : client ∈ mainBlocks s.main := by simp [pc, mainBlocks]
  have there : Function.update s.heap client
      (some (.sockaddr (some ⟨s.threads, sender⟩))) data = some (.data stored fd) :=
    (Function.update_of_ne apart ..).trans block
  refine sound.stores ⟨rfl, rfl, rfl⟩ mine rfl ?_ ?_
  · rw [pc, State.setMain]
    split <;> rfl
  · show MainHas known _ _ (if _ then _ else _)
    split
    · trivial
    · next goesOn =>
      exact ⟨⟨stored, fd, there⟩, ⟨s.threads, sender⟩, received goesOn, Function.update_self ..,
        rfl⟩

theorem Sound.storesClient (sound : Sound known s) {data client : Nat} {stored : Option Nat}
    {fd : Bool} (pc : s.main = .storingClient data client)
    (block : s.heap data = some (.data stored fd)) :
    Sound known ((s.store data (.data (some client) fd)).setMain (.storingFd data client)) := by
  have has := sound.main
  rw [pc] at has
  have apart : client ≠ data := has.2.apart block
  have mine : data ∈ mainBlocks s.main := by simp [pc, mainBlocks]
  exact sound.stores ⟨rfl, rfl, rfl⟩ mine rfl (by rw [pc]; rfl)
    ⟨⟨fd, Function.update_self ..⟩, has.2.frame (Function.update_of_ne apart ..)⟩

theorem Sound.storesFd (sound : Sound known s) {data client : Nat} {fd : Bool}
    (pc : s.main = .storingFd data client)
    (block : s.heap data = some (.data (some client) fd)) :
    Sound known ((s.store data (.data (some client) true)).setMain (.creating data client)) := by
  have has := sound.main
  rw [pc] at has
  have apart : client ≠ data := has.2.apart block
  have mine : data ∈ mainBlocks s.main := by simp [pc, mainBlocks]
  exact sound.stores ⟨rfl, rfl, rfl⟩ mine rfl (by rw [pc]; rfl)
    ⟨Function.update_self .., has.2.frame (Function.update_of_ne apart ..)⟩

/-- Every step of main keeps the ownership, the hand-over of both blocks to the new
thread included. -/
theorem Sound.mainKept (sound : Sound known s) {supply : Supply Client}
    (received : ∀ request ∈ requests (mainEvents s supply), request ∈ known)
    (stepped : mainStep s supply = some t) : Sound known t := by
  have has := sound.main
  unfold mainStep at stepped
  split at stepped
  · next pc =>
    split at stepped
    · cases stepped
      exact sound.keeps ⟨rfl, rfl, rfl⟩ rfl (by rw [pc]; rfl) trivial
    · next a supplied =>
      obtain ⟨u, given, rfl⟩ := Option.map_eq_some_iff.mp stepped
      obtain ⟨free, rfl⟩ := malloc_some given
      exact sound.mallocs ⟨rfl, rfl, rfl⟩ free rfl (by rw [pc]; rfl)
        ⟨none, false, Function.update_self ..⟩
  · next data pc =>
    rw [pc] at has
    split at stepped
    · cases stepped
      exact sound.keeps ⟨rfl, rfl, rfl⟩ rfl (by rw [pc]; rfl) trivial
    · next a supplied =>
      obtain ⟨u, given, rfl⟩ := Option.map_eq_some_iff.mp stepped
      obtain ⟨free, rfl⟩ := malloc_some given
      obtain ⟨stored, fd, block⟩ := has
      have other : data ≠ a := fun same => by
        rw [same, free] at block
        cases block
      refine sound.mallocs ⟨rfl, rfl, rfl⟩ free rfl (by rw [pc]; rfl)
        ⟨⟨stored, fd, ?_⟩, none, Function.update_self ..⟩
      exact (Function.update_of_ne other ..).trans block
  · next data client pc =>
    rw [pc] at has
    obtain ⟨-, old, sockaddr⟩ := has
    split at stepped
    · cases stepped
      exact sound.keeps ⟨rfl, rfl, rfl⟩ rfl (by rw [pc]; rfl) trivial
    · next sender bytes supplied =>
      rw [sockaddr] at stepped
      cases stepped
      refine sound.receives pc fun goesOn => received _ ?_
      simp only [mainEvents, pc, supplied]
      rw [if_neg goesOn]
      simp [requests, Event.request?]
  · next data client pc =>
    rw [pc] at has
    obtain ⟨⟨stored, fd, block⟩, -⟩ := has
    rw [block] at stepped
    cases stepped
    exact sound.storesClient pc block
  · next data client pc =>
    rw [pc] at has
    obtain ⟨⟨fd, block⟩, -⟩ := has
    rw [block] at stepped
    cases stepped
    exact sound.storesFd pc block
  · next data client pc =>
    cases stepped
    exact sound.creates pc
  · next a rest status pc =>
    cases stepped
    exact sound.mainFrees pc
  · next status pc =>
    cases stepped
    exact sound.keeps ⟨rfl, rfl, rfl⟩ rfl (by rw [pc]; rfl) trivial
  · next status pc =>
    cases stepped
    exact sound.keeps ⟨rfl, rfl, rfl⟩ rfl rfl (by simpa [pc] using has)

/-- A step of thread `n` that leaves the blocks of the others as they are. -/
theorem Sound.handlerGoes (sound : Sound known s) {pc : HandlerPc} {u : State Client}
    (frame : ∀ k, k ≠ .handler n → ∀ b ∈ blocks s k, u.heap b = s.heap b)
    (others : u.main = s.main ∧ u.handler = s.handler ∧ u.threads = s.threads ∧
      u.corrupt = s.corrupt)
    (present : s.handler n ≠ .absent) (still : pc ≠ .absent)
    (owned : (∀ k, k ≠ .handler n → blocks (u.setHandler n pc) k = blocks s k) →
      Owned (Live (u.setHandler n pc)) (blocks (u.setHandler n pc)))
    (has : HandlerHas known u.heap n pc) : Sound known (u.setHandler n pc) := by
  obtain ⟨main, handler, threads, corrupt⟩ := others
  have now : (u.setHandler n pc).handler n = pc := Function.update_self ..
  have same (m : Nat) (other : m ≠ n) : (u.setHandler n pc).handler m = s.handler m :=
    (Function.update_of_ne other ..).trans (congrFun handler m)
  have kept (m : Nat) (other : m ≠ n) :=
    handler_frame (t := u.setHandler n pc) known (same m other)
      (frame (.handler m) fun equal => other (Owner.handler.inj equal))
  refine ⟨owned fun k other => ?_, ?_, fun m => ?_, fun m => ?_, corrupt.trans sound.intact⟩
  · cases k with
    | main => exact congrArg mainBlocks main
    | handler m => exact (kept m fun equal => other (congrArg Owner.handler equal)).1
  · show MainHas known u.heap u.threads u.main
    rw [main, threads]
    exact mainHas_frame (frame .main nofun) sound.main
  · by_cases own : m = n
    · rw [own, now]
      exact has
    · exact (kept m own).2 (sound.handler m)
  · show (u.setHandler n pc).handler m = .absent ↔ u.threads ≤ m
    rw [threads]
    by_cases own : m = n
    · rw [own, now]
      exact iff_of_false still fun beyond => present ((sound.absent n).mpr beyond)
    · rw [same m own]
      exact sound.absent m

/-- It goes on with the blocks that it has. -/
theorem Sound.handlerGoesOn (sound : Sound known s) {pc : HandlerPc} {u : State Client}
    (heap : u.heap = s.heap)
    (others : u.main = s.main ∧ u.handler = s.handler ∧ u.threads = s.threads ∧
      u.corrupt = s.corrupt)
    (present : s.handler n ≠ .absent) (still : pc ≠ .absent)
    (same : handlerBlocks s pc = blocks s (.handler n)) (has : HandlerHas known s.heap n pc) :
    Sound known (u.setHandler n pc) := by
  refine sound.handlerGoes (fun _ _ _ _ => by rw [heap]) others present still (fun kept => ?_)
    (by rw [heap]; exact has)
  refine sound.owned.congr (fun a => by rw [Live, Live, State.setHandler, heap]) fun k => ?_
  by_cases own : k = .handler n
  · have now : (u.setHandler n pc).handler n = pc := Function.update_self ..
    have stands (args : Nat) : (u.setHandler n pc).clientOf args = s.clientOf args :=
      clientOf_congr (congrFun heap args)
    rw [own, ← same, blocks, now]
    cases pc <;> simp only [handlerBlocks, stands]
  · exact kept k own

/-- It frees one of its own. -/
theorem Sound.handlerFrees (sound : Sound known s) {pc : HandlerPc}
    (mine : a ∈ blocks s (.handler n))
    (present : s.handler n ≠ .absent) (still : pc ≠ .absent)
    (gives : (blocks s (.handler n)).Perm (a :: blocks ((s.free a).setHandler n pc) (.handler n)))
    (has : ∀ heap : Nat → Option (Block Client), HandlerHas known heap n pc) :
    Sound known ((s.free a).setHandler n pc) := by
  have live : s.heap a ≠ none := sound.owned.isLive _ a mine
  obtain ⟨notMain, notOthers⟩ := sound.apart_handler mine
  rw [free_live live] at gives ⊢
  refine sound.handlerGoes (fun k other b inside => ?_) ⟨rfl, rfl, rfl, rfl⟩ present still
    (fun others => ?_) (has _)
  · have different : b ≠ a := by
      rintro rfl
      cases k with
      | main => exact notMain inside
      | handler m => exact notOthers m (fun equal => other (congrArg Owner.handler equal)) inside
    exact Function.update_of_ne different ..
  · exact sound.owned.release (live_free s a) gives others

theorem Sound.handlerKept (sound : Sound known s) {sent : Bool}
    (stepped : handlerStep s n sent = some t) : Sound known t := by
  have has := sound.handler n
  unfold handlerStep at stepped
  split at stepped
  · cases stepped
  · next args pc =>
    rw [pc] at has
    obtain ⟨client, data, request, received, sockaddr, number⟩ := has
    have message : s.message args = some request := by simp [State.message, data, sockaddr]
    rw [message] at stepped
    cases stepped
    split
    · exact sound.handlerGoesOn rfl ⟨rfl, rfl, rfl, rfl⟩ (by simp [pc]) (by simp)
        (by simp [blocks, pc, handlerBlocks]) ⟨client, data, request, received, sockaddr, number⟩
    · exact sound.handlerGoesOn rfl ⟨rfl, rfl, rfl, rfl⟩ (by simp [pc]) (by simp)
        (by simp [blocks, pc, handlerBlocks]) ⟨client, data, request, received, sockaddr, number⟩
  · next args pc =>
    rw [pc] at has
    cases stepped
    exact sound.handlerGoesOn (u := { s with socket := false }) rfl ⟨rfl, rfl, rfl, rfl⟩
      (by simp [pc]) (by simp) (by simp [blocks, pc, handlerBlocks]) has
  · next args status pc =>
    rw [pc] at has
    obtain ⟨client, data, -⟩ := has
    have pointer := clientOf_data data
    have mine : blocks s (.handler n) = [args, client] := by
      simp [blocks, pc, handlerBlocks, pointer]
    rw [pointer] at stepped
    cases stepped
    refine sound.handlerFrees (by simp [mine]) (by simp [pc]) (by simp) ?_ fun _ => trivial
    have left : blocks ((s.free client).setHandler n (.freeingData args status)) (.handler n) =
        [args] := by
      show handlerBlocks _ (Function.update (s.free client).handler n _ n) = _
      rw [Function.update_self]
      rfl
    rw [mine, left]
    exact List.Perm.swap ..
  · next args status pc =>
    cases stepped
    have mine : blocks s (.handler n) = [args] := by simp [blocks, pc, handlerBlocks]
    have freed : Sound known ((s.free args).setHandler n (.done status)) := by
      refine sound.handlerFrees (by simp [mine]) (by simp [pc]) (by simp) ?_ fun _ => trivial
      have left : blocks ((s.free args).setHandler n (.done status)) (.handler n) = [] := by
        show handlerBlocks _ (Function.update (s.free args).handler n _ n) = _
        rw [Function.update_self]
        rfl
      rw [mine, left]
    exact ⟨freed.owned, freed.main, freed.handler, freed.absent, freed.intact⟩
  · cases stepped

theorem Addressed.mono {more : List (Request Client)} {heap : Nat → Option (Block Client)}
    {client : Nat} (addressed : Addressed known heap n client) :
    Addressed (known ++ more) heap n client := by
  obtain ⟨request, received, rest⟩ := addressed
  exact ⟨request, List.mem_append_left more received, rest⟩

/-- More requests may be known. -/
theorem Sound.mono (sound : Sound known s) (more : List (Request Client)) :
    Sound (known ++ more) s := by
  refine ⟨sound.owned, ?_, fun n => ?_, sound.absent, sound.intact⟩
  · have has := sound.main
    cases pc : s.main with
    | storingClient data client | storingFd data client | creating data client =>
      rw [pc] at has
      exact ⟨has.1, has.2.mono⟩
    | _ =>
      rw [pc] at has
      exact has
  · have has := sound.handler n
    cases pc : s.handler n with
    | sending args | closing args | freeingClient args status =>
      rw [pc] at has
      obtain ⟨client, data, addressed⟩ := has
      exact ⟨client, data, addressed.mono⟩
    | _ => trivial

theorem step_cases {action : Action Client} (stepped : server.step s action = some t) :
    (∃ supply, action = .main supply ∧ mainStep s supply = some t) ∨
      ∃ n sent, action = .handler n sent ∧ handlerStep s n sent = some t := by
  cases action with
  | main supply =>
    have stepped : (if s.ended = none then mainStep s supply else none) = some t := stepped
    split at stepped
    · exact Or.inl ⟨supply, rfl, stepped⟩
    · cases stepped
  | handler n sent =>
    have stepped : (if s.ended = none then handlerStep s n sent else none) = some t := stepped
    split at stepped
    · exact Or.inr ⟨n, sent, rfl, stepped⟩
    · cases stepped

theorem Sound.kept {log : List (Event Client Text)} (sound : Sound (requests log) s)
    {action : Action Client} (stepped : server.step s action = some t) :
    Sound (requests (log ++ server.emit s action)) t := by
  rw [requests_append]
  have wider := sound.mono (requests (server.emit s action))
  rcases step_cases stepped with ⟨supply, rfl, moved⟩ | ⟨n, sent, rfl, moved⟩
  · exact wider.mainKept (fun request inside => List.mem_append_right _ inside) moved
  · exact wider.handlerKept moved

/-- In every state of every run each block has one owner, and whoever reads a block owns
it. -/
theorem sound_of_reach {junk : Text} {log : List (Event Client Text)}
    (run : server.Reach System.Anything (start junk) log s) : Sound (requests log) s :=
  run.invariant (fun log s => Sound (requests log) s) (sound_start junk)
    fun _ _ _ _ sound _ stepped => sound.kept stepped

/-- In every order of the steps and with every choice of addresses: no thread
uses or frees a block that it does not own, and the blocks in use are those that
`main` or some thread has still to free, each with one of them. -/
theorem blocks_owned {junk : Text} {log : List (Event Client Text)}
    (run : server.Reach System.Anything (start junk) log s) :
    s.corrupt = false ∧ Owned (Live s) (blocks s) :=
  have sound := sound_of_reach run
  ⟨sound.intact, sound.owned⟩

def mainGets (address : Nat) : Action Char :=
  .main { address := some address, datagram := some ('a', ['t', 'i', 'm', 'e', '?']) }

/-- A thread has answered and freed its blocks, and `main` gets them again. -/
def reuse : List (Action Char) :=
  [mainGets 1, mainGets 2, mainGets 0, mainGets 0, mainGets 0, mainGets 0, .handler 0 true,
    .handler 0 true, .handler 0 true, mainGets 2, mainGets 1]

theorem blocks_owned_reuse :
    ∃ log s, server.Reach System.Anything (start (List.replicate 16 'x') : State Char) log s ∧
      s.main = .receiving 2 1 ∧ s.corrupt = false ∧ Owned (Live s) (blocks s) := by
  obtain ⟨log, s, run, again⟩ :=
    System.exists_reach server System.Anything (start (List.replicate 16 'x') : State Char) reuse
      (fun _ s => s.main = .receiving 2 1) (by decide)
  exact ⟨log, s, run, again, blocks_owned run⟩

end EltexCourse.Guarantees.TimeServer.Blocks
