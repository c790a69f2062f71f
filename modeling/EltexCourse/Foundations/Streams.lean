import EltexCourse.Foundations.InputLines

/-!
# The input stream of a process, and of the children it forks

stdio reads a block at a time and keeps what has not been taken; a reader of the
stream sees the lines of `InputLines`. The offset of the file belongs to the open
file, which a child shares. A child that calls `exit` closes its copy of the stream
and gives back what is left in it: where `lseek` works, the parent's next block
begins where its own copy stood.
-/

set_option autoImplicit false

namespace EltexCourse.Foundations.Streams
open CString CBuffer InputLines

structure Device where
  text : Text
  /-- Of a block. -/
  size : Nat
  positive : 0 < size
  /-- A file, and not a pipe or a terminal. -/
  seekable : Bool

variable {device : Device}

/-- After the end of the file has been seen, nothing more is read of it. -/
structure Reader (device : Device) where
  offset : Nat
  buffered : Text
  ended : Bool
  /-- Where in the text what is buffered was found, which nothing looks at. -/
  place : Nat
  deriving DecidableEq, Repr

namespace Reader

def start (device : Device) : Reader device := ⟨0, [], false, 0⟩

/-- What is still to be read if nobody moves the offset. -/
def ahead (r : Reader device) : Text :=
  r.buffered ++ if r.ended then [] else device.text.drop r.offset

/-- `read`, when nothing is buffered. -/
def fill (r : Reader device) : Reader device :=
  if r.buffered = [] ∧ r.ended = false then
    let block := (device.text.drop r.offset).take device.size
    ⟨r.offset + block.length, block, block.isEmpty, r.offset⟩
  else r

/-- What one call of `fgets` takes with room for so many characters. -/
def take : Nat → Reader device → Text × Reader device
  | 0, r => ([], r)
  | room + 1, r =>
    match r.fill.buffered with
    | [] => ([], r.fill)
    | c :: rest =>
      let left := { r.fill with buffered := rest, place := r.fill.place + 1 }
      if c = '\n' then ([c], left)
      else
        let later := take room left
        (c :: later.1, later.2)

/-- `fgets(block, size, stdin)`, with NULL as `none`. -/
def fgets (block : Text) (size : Nat) (r : Reader device) :
    Option (Option Text × Reader device) :=
  let taken := r.take (size - 1)
  if taken.1 = [] then some (none, taken.2)
  else (writeString block taken.1).map fun block => (some block, taken.2)

/-- `exit` in a child. An `lseek` to a place before the file fails. -/
def giveBack (r : Reader device) : Reader device :=
  if device.seekable ∧ r.buffered.length ≤ r.offset then
    { r with offset := r.offset - r.buffered.length }
  else r

variable {r : Reader device} {room : Nat}

theorem fill_ahead (r : Reader device) : r.fill.ahead = r.ahead := by
  unfold fill
  split
  · next empty =>
    obtain ⟨nothing, goesOn⟩ := empty
    have split := List.take_append_drop device.size (device.text.drop r.offset)
    have after :
      device.text.drop (r.offset + ((device.text.drop r.offset).take device.size).length) =
        (device.text.drop r.offset).drop device.size := by
      rw [List.drop_drop, List.length_take, List.length_drop]
      rcases Nat.le_total device.size (device.text.length - r.offset) with short | long
      · rw [Nat.min_eq_left short]
      · rw [Nat.min_eq_right long, List.drop_eq_nil_of_le (by omega),
          List.drop_eq_nil_of_le (by omega)]
    simp only [ahead, nothing, goesOn, List.nil_append, Bool.false_eq_true, if_false, after]
    split
    · next last =>
      rw [List.isEmpty_iff] at last
      rw [last, List.nil_append] at split
      have none := List.take_eq_nil_iff.mp last
      rw [last, List.nil_append]
      exact (none.resolve_left (Nat.ne_of_gt device.positive)).symm
    · exact split
  · rfl

/-- Where something is ahead, a block is there to take it from. -/
theorem fill_nil (r : Reader device) : r.fill.buffered = [] ↔ r.ahead = [] := by
  constructor
  · intro nothing
    rw [← fill_ahead, ahead, nothing, List.nil_append]
    unfold fill at nothing ⊢
    split at nothing
    · next empty =>
      have last : ((device.text.drop r.offset).take device.size).isEmpty = true := by
        simpa using nothing
      simp [empty, last]
    · next other =>
      rw [if_neg other]
      have ended : r.ended = true := by
        simpa [nothing] using other
      rw [if_pos ended]
  · intro nothing
    rw [← fill_ahead] at nothing
    exact (List.append_eq_nil_iff.mp nothing).1

/-- A reader takes what `fgets` takes of what is ahead, and the rest stays ahead. -/
theorem take_eq (room : Nat) (r : Reader device) :
    (r.take room).1 = (fgetsTake room r.ahead).1 ∧
      (r.take room).2.ahead = (fgetsTake room r.ahead).2 := by
  induction room generalizing r with
  | zero => exact ⟨rfl, rfl⟩
  | succ room ih =>
    rw [take]
    cases filled : r.fill.buffered with
    | nil =>
      have nothing := (fill_nil r).mp filled
      rw [nothing]
      exact ⟨rfl, (fill_ahead r).trans nothing⟩
    | cons c rest =>
      let left : Reader device := { r.fill with buffered := rest, place := r.fill.place + 1 }
      have here : r.ahead = c :: left.ahead := by
        rw [← fill_ahead, ahead, filled]
        rfl
      rw [here, fgetsTake]
      by_cases newline : c = '\n'
      · simp [newline, left]
      · obtain ⟨taken, later⟩ := ih left
        simp [newline, taken, later, left]

theorem take_shorter (hasRoom : 0 < room) (more : r.ahead ≠ []) :
    (r.take room).2.ahead.length < r.ahead.length := by
  rw [(take_eq room r).2]
  exact fgetsTake_shorter hasRoom more

/-- `fgets` on the stream is `fgets` on what is ahead. -/
theorem fgets_some {block : Text} {size : Nat} (positive : 1 < size) (fits : size ≤ block.length)
    (more : r.ahead ≠ []) :
    ∃ junk, r.fgets block size =
        some (some ((fgetsTake (size - 1) r.ahead).1 ++ nul :: junk), (r.take (size - 1)).2) ∧
      ((fgetsTake (size - 1) r.ahead).1 ++ nul :: junk).length = block.length := by
  obtain ⟨junk, got, length⟩ := InputLines.fgets_some (Nat.lt_of_succ_lt positive) fits more
  refine ⟨junk, ?_, length⟩
  have shorter := fgetsTake_shorter (show 0 < size - 1 by omega) more
  have taken : (r.take (size - 1)).1 ≠ [] := by
    rw [(take_eq _ r).1]
    intro nothing
    have whole := congrArg List.length (fgetsTake_append (size - 1) r.ahead)
    rw [List.length_append, nothing, List.length_nil] at whole
    omega
  rw [InputLines.fgets, if_neg more] at got
  obtain ⟨written, writes, same⟩ := Option.bind_eq_some_iff.mp got
  obtain ⟨rfl, -⟩ := Prod.mk.inj (Option.some.inj (Option.some.inj same))
  rw [fgets, if_neg taken, (take_eq _ r).1, writes]
  rfl

theorem fgets_ended {block : Text} {size : Nat} (ended : r.ahead = []) :
    r.fgets block size = some (none, (r.take (size - 1)).2) ∧
      (r.take (size - 1)).2.ahead = [] := by
  obtain ⟨taken, left⟩ := take_eq (size - 1) r
  rw [ended] at taken left
  have nothing : fgetsTake (size - 1) [] = ([], []) := by
    cases size - 1 <;> rfl
  rw [nothing] at taken left
  exact ⟨by rw [fgets, if_pos taken], left⟩

/-- The file is not moved where nothing is left to give back. -/
theorem giveBack_empty (empty : r.buffered = []) : r.giveBack = r := by
  unfold giveBack
  split
  · rw [empty, List.length_nil, Nat.sub_zero, ← empty]
  · rfl

theorem giveBack_fixed (fixed : device.seekable = false) : r.giveBack = r := by
  simp [giveBack, fixed]

@[simp] theorem giveBack_buffered (r : Reader device) : r.giveBack.buffered = r.buffered := by
  unfold giveBack
  split <;> rfl

@[simp] theorem giveBack_place (r : Reader device) : r.giveBack.place = r.place := by
  unfold giveBack
  split <;> rfl

/-- The text that ends the reading is in the buffer as a piece of its own. -/
def Within (room : Nat) (stop : Text) (r : Reader device) : Prop := stop ∈ reads room r.buffered

/-- No block is read behind a place that a child has moved the file to. `gives` says
for which pieces a child calls `exit`. -/
inductive Calm (room : Nat) (stop : Text) (gives : Text → Bool) : Reader device → Prop where
  | ended {r : Reader device} (nothing : r.ahead = []) : Calm room stop gives r
  | within {r : Reader device} (found : r.Within room stop) : Calm room stop gives r
  | stops {r : Reader device} (found : (r.take room).1 = stop) : Calm room stop gives r
  | goesOn {r : Reader device}
      (quiet : device.seekable = true → gives (r.take room).1 = true →
        (r.take room).2.buffered = [] ∨ (r.take room).2.Within room stop)
      (later : Calm room stop gives (r.take room).2) : Calm room stop gives r

variable {stop : Text} {gives : Text → Bool}

/-- Nothing moves a pipe or a terminal. -/
theorem calm_fixed (hasRoom : 0 < room) (fixed : device.seekable = false) (r : Reader device) :
    Calm room stop gives r := by
  induction length : r.ahead.length using Nat.strong_induction_on generalizing r with
  | h size ih =>
    subst length
    by_cases more : r.ahead = []
    · exact .ended more
    · refine .goesOn (fun seekable => ?_) (ih _ (take_shorter hasRoom more) _ rfl)
      rw [fixed] at seekable
      cases seekable

/-- The offset is the place behind what is buffered. -/
def Standing (place : Nat) (r : Reader device) : Prop :=
  r.offset = place + r.buffered.length ∧ (r.buffered ≠ [] → r.place = place)

/-- The reading goes as if the stream were `text`, up to the text that ends it. -/
inductive Follows (room : Nat) (stop : Text) (gives : Text → Bool) (r : Reader device)
    (place : Nat) (text : Text) : Prop where
  | calm (there : r.Standing place) (same : r.ahead = text) (calm : Calm room stop gives r)
  | within (there : r.place = place) (found : r.Within room stop) (more : Text)
      (same : text = r.buffered ++ more)

theorem Standing.fill {place : Nat} (there : r.Standing place) : r.fill.Standing place := by
  unfold Reader.fill
  split
  · next empty =>
    obtain ⟨offset, -⟩ := there
    rw [empty.1, List.length_nil, Nat.add_zero] at offset
    exact ⟨by rw [offset], fun _ => offset⟩
  · exact there

/-- Where a block is there, or is read, what is taken next begins at its place. -/
theorem Standing.fill_place {place : Nat} (there : r.Standing place) (more : r.ahead ≠ []) :
    r.fill.place = place := there.fill.2 (mt (fill_nil r).mp more)

theorem Standing.take {place : Nat} (there : r.Standing place) (room : Nat) :
    (r.take room).2.Standing (place + (r.take room).1.length) := by
  induction room generalizing r place with
  | zero => exact there
  | succ room ih =>
    have filled := there.fill
    rw [Reader.take]
    cases held : r.fill.buffered with
    | nil => exact filled
    | cons c rest =>
      obtain ⟨offset, here⟩ := filled
      rw [held, List.length_cons] at offset
      let left : Reader device := { r.fill with buffered := rest, place := r.fill.place + 1 }
      have next : left.Standing (place + 1) := by
        refine ⟨?_, fun _ => congrArg (· + 1) (here (by rw [held]; exact List.cons_ne_nil c rest))⟩
        simp only [left, offset, Nat.add_assoc, Nat.add_comm 1]
      by_cases newline : c = '\n'
      · simp only [if_pos newline]
        exact next
      · simp only [if_neg newline, List.length_cons]
        rw [Nat.add_comm _ 1, ← Nat.add_assoc]
        exact ih next

theorem fgetsTake_within {text : Text} (newline : '\n' ∈ text) (room : Nat) (more : Text) :
    fgetsTake room (text ++ more) =
      ((fgetsTake room text).1, (fgetsTake room text).2 ++ more) := by
  induction text generalizing room with
  | nil => cases newline
  | cons c text ih =>
    cases room with
    | zero => rfl
    | succ room =>
      rw [List.cons_append, fgetsTake, fgetsTake]
      by_cases here : c = '\n'
      · simp [here]
      · rw [ih ((List.mem_cons.mp newline).resolve_left (Ne.symm here)) room]
        simp [here]

/-- The reader behind so much of what is buffered. -/
def past (r : Reader device) (room : Nat) : Reader device :=
  { r with
    buffered := (fgetsTake room r.buffered).2
    place := r.place + (fgetsTake room r.buffered).1.length }

/-- A piece that is complete in the buffer is taken from there. -/
theorem take_within (newline : '\n' ∈ r.buffered) (room : Nat) :
    r.take room = ((fgetsTake room r.buffered).1, r.past room) := by
  induction room generalizing r with
  | zero => rfl
  | succ room ih =>
    have full : r.fill = r := by
      rw [fill, if_neg]
      rintro ⟨empty, -⟩
      rw [empty] at newline
      cases newline
    rw [take, full]
    cases held : r.buffered with
    | nil =>
      rw [held] at newline
      cases newline
    | cons c rest =>
      by_cases here : c = '\n'
      · simp [here, past, held, fgetsTake]
      · rw [held] at newline
        have later := ih (r := { r with buffered := rest, place := r.place + 1 })
          ((List.mem_cons.mp newline).resolve_left (Ne.symm here))
        simp [here, later, past, held, fgetsTake, Nat.add_assoc, Nat.add_comm 1]

theorem mem_of_mem_reads {c : Char} {piece stream : Text} (hasRoom : 0 < room)
    (member : piece ∈ reads room stream) (inside : c ∈ piece) : c ∈ stream := by
  induction length : stream.length using Nat.strong_induction_on generalizing stream with
  | h size ih =>
    subst length
    by_cases more : stream = []
    · rw [more, reads_nil] at member
      cases member
    · rw [← fgetsTake_append room stream, List.mem_append]
      rw [reads_cons hasRoom more] at member
      rcases List.mem_cons.mp member with rfl | later
      · exact .inl inside
      · exact .inr (ih _ (fgetsTake_shorter hasRoom more) later rfl)

/-- The next piece is complete, and it is the last or the last is behind it. -/
theorem Within.take (hasRoom : 0 < room) (line : '\n' ∈ stop) (found : r.Within room stop) :
    r.take room = ((fgetsTake room r.buffered).1, r.past room) ∧
      (r.take room).1 = (fgetsTake room r.ahead).1 ∧
      ((r.take room).1 = stop ∨ (r.take room).2.Within room stop) := by
  have newline := mem_of_mem_reads hasRoom found line
  have taken := take_within newline room
  refine ⟨taken, (take_eq room r).1, ?_⟩
  have more : r.buffered ≠ [] := List.ne_nil_of_mem newline
  have pieces : stop ∈ reads room r.buffered := found
  rw [reads_cons hasRoom more] at pieces
  rw [taken]
  exact (List.mem_cons.mp pieces).imp Eq.symm id

theorem take_fill (r : Reader device) (positive : 0 < room) : r.fill.take room = r.take room := by
  obtain ⟨room, rfl⟩ := Nat.exists_eq_add_one.mpr positive
  have again : r.fill.fill = r.fill := by
    by_cases empty : r.buffered = [] ∧ r.ended = false
    · have filled : r.fill.ended = r.fill.buffered.isEmpty := by
        simp [fill, empty]
      rw [fill, if_neg]
      rintro ⟨none, goesOn⟩
      rw [filled, none] at goesOn
      cases goesOn
    · have same : r.fill = r := if_neg empty
      rw [same, same]
  rw [take, take, again]

/-- The reading ends within the first block. -/
theorem calm_block (hasRoom : 0 < room) (line : '\n' ∈ stop)
    (found : stop ∈ reads room (device.text.take device.size)) :
    Calm room stop gives (start device) := by
  have filled : (start device).fill.Within room stop := found
  obtain ⟨-, -, next⟩ := filled.take hasRoom line
  rw [take_fill _ hasRoom] at next
  rcases next with last | later
  · exact .stops last
  · exact .goesOn (fun _ _ => .inr later) (.within later)

theorem Follows.nil_iff {place : Nat} {text : Text} (hasRoom : 0 < room) (line : '\n' ∈ stop)
    (follows : Follows room stop gives r place text) : r.ahead = [] ↔ text = [] := by
  cases follows with
  | calm there same calm => rw [same]
  | within there found more same =>
    have held : r.buffered ≠ [] := List.ne_nil_of_mem (mem_of_mem_reads hasRoom found line)
    exact iff_of_false (fun none => held (List.append_eq_nil_iff.mp none).1)
      fun none => held (List.append_eq_nil_iff.mp (same ▸ none)).1

/-- A piece begins where the stream stands. -/
theorem Follows.fill_place {place : Nat} {text : Text} (hasRoom : 0 < room) (line : '\n' ∈ stop)
    (follows : Follows room stop gives r place text) (nonempty : text ≠ []) :
    r.fill.place = place := by
  cases follows with
  | calm there same calm => exact there.fill_place (same ▸ nonempty)
  | within there found more same =>
    rw [fill, if_neg]
    · exact there
    · rintro ⟨empty, -⟩
      have newline := mem_of_mem_reads hasRoom found line
      rw [empty] at newline
      cases newline

/-- What the next piece of `text` leaves to be followed: nothing behind the text that
ends the reading, and else the rest, wherever a child has moved the file to. -/
def Onward (room : Nat) (stop : Text) (gives : Text → Bool) (r : Reader device) (place : Nat)
    (text : Text) : Prop :=
  (fgetsTake room text).1 = stop ∨ ∀ r', r' = (r.take room).2 ∨
    gives (fgetsTake room text).1 = true ∧ r' = (r.take room).2.giveBack →
    Follows room stop gives r' (place + (fgetsTake room text).1.length) (fgetsTake room text).2

/-- With the last piece in the buffer the file is not read again. -/
theorem Within.onward {place : Nat} {more : Text} (hasRoom : 0 < room) (line : '\n' ∈ stop)
    (found : r.Within room stop) (there : r.place = place) :
    (fgetsTake room r.ahead).1 = (fgetsTake room (r.buffered ++ more)).1 ∧
      Onward room stop gives r place (r.buffered ++ more) := by
  obtain ⟨taken, first, next⟩ := found.take hasRoom line
  have newline := mem_of_mem_reads hasRoom found line
  rw [Onward, fgetsTake_within newline room more, ← first]
  rw [taken] at next ⊢
  refine ⟨rfl, next.imp id fun later r' goesOn => ?_⟩
  have place' : (r.past room).place = place + (fgetsTake room r.buffered).1.length :=
    congrArg (· + (fgetsTake room r.buffered).1.length) there
  rcases goesOn with rfl | ⟨-, rfl⟩
  · exact .within place' later more rfl
  · refine .within ?_ ?_ more (by rw [giveBack_buffered]; rfl)
    · rw [giveBack_place]
      exact place'
    · rw [Within, giveBack_buffered]
      exact later

/-- One piece, and what a child does behind it. -/
theorem Follows.step {place : Nat} {text : Text} (hasRoom : 0 < room) (line : '\n' ∈ stop)
    (follows : Follows room stop gives r place text) (nonempty : text ≠ []) :
    (fgetsTake room r.ahead).1 = (fgetsTake room text).1 ∧
      Onward room stop gives r place text := by
  cases follows with
  | within there found more same =>
    subst same
    exact found.onward hasRoom line there
  | calm there same calm =>
    cases calm with
    | ended nothing => exact absurd (same.symm.trans nothing) nonempty
    | within found =>
      have newline := mem_of_mem_reads hasRoom found line
      subst same
      exact found.onward hasRoom line (there.2 (List.ne_nil_of_mem newline))
    | stops found =>
      rw [(take_eq room r).1, same] at found
      exact ⟨by rw [same], .inl found⟩
    | goesOn quiet later =>
      obtain ⟨taken, left⟩ := take_eq room r
      rw [same] at taken left
      have there' := there.take room
      rw [taken] at there'
      refine ⟨by rw [same], .inr fun r' goesOn => ?_⟩
      rcases goesOn with rfl | ⟨gone, rfl⟩
      · exact .calm there' left later
      · by_cases seekable : device.seekable = true
        · rcases quiet seekable (taken ▸ gone) with empty | found
          · rw [giveBack_empty empty]
            exact .calm there' left later
          · have newline := mem_of_mem_reads hasRoom found line
            refine .within ?_ ?_ _ (left.symm.trans (by rw [giveBack_buffered]; rfl))
            · rw [giveBack_place]
              exact there'.2 (List.ne_nil_of_mem newline)
            · rw [Within, giveBack_buffered]
              exact found
        · rw [giveBack_fixed (Bool.eq_false_iff.mpr seekable)]
          exact .calm there' left later

end Reader

end EltexCourse.Foundations.Streams
