import EltexCourse.Foundations.CString

/-!
# Strings in memory and `strtok_r`

An allocated block is the list of its elements; an access outside it has no
defined result. A C string at `i` ends at the first NUL from `i` on. `strtokR`
is `strtok_r` on such a block: it writes a terminator behind the token it finds
and returns the block with the place to go on from. `Scanned` says what a call
leaves, in terms of the pieces of a plain split.
-/

set_option autoImplicit false

namespace EltexCourse.Foundations.CBuffer
open CString

abbrev nul : Char := '\x00'

def store {α : Type*} (block : List α) (i : Nat) (x : α) : Option (List α) :=
  if i < block.length then some (block.set i x) else none

/-- The first place from `i` on whose character fails `p`. -/
def skip (p : Char → Bool) (block : Text) (i : Nat) : Option Nat :=
  let passed := ((block.drop i).takeWhile p).length
  if i + passed < block.length then some (i + passed) else none

def strlen (block : Text) (i : Nat) : Option Nat :=
  (skip (· ≠ nul) block i).map (· - i)

/-- What `strdup` copies. -/
def stringAt (block : Text) (i : Nat) : Option Text :=
  (strlen block i).map fun n => (block.drop i).take n

/-- A string and its terminator, written to the start of a block. -/
def writeString (place s : Text) : Option Text :=
  if s.length < place.length then some (s ++ nul :: place.drop (s.length + 1)) else none

/-- `strcpy(place, data)`. -/
def strcpy (place data : Text) : Option Text := (stringAt data 0).bind (writeString place)

/-- `memcpy` to place `i` of a block. -/
def memcpy (block : Text) (i : Nat) (bytes : Text) : Option Text :=
  if i + bytes.length ≤ block.length then
    some (block.take i ++ bytes ++ block.drop (i + bytes.length))
  else none

/-- `strtok_r(s, delims, &save)`: the token or NULL, the block, and `save`. -/
def strtokR (delims : Text) (block : Text) (s : Nat) : Option (Option Nat × Text × Nat) := do
  let start ← skip (· ∈ delims) block s
  let first ← block[start]?
  if first = nul then some (none, block, start)
  else
    let stop ← skip (fun c => c ∉ delims ∧ c ≠ nul) block start
    let last ← block[stop]?
    if last = nul then some (some start, block, stop)
    else (store block stop nul).map fun block => (some start, block, stop + 1)

/-- The nonempty pieces between delimiters. -/
def tokens (delims s : Text) : List Text := (s.splitOnP (· ∈ delims)).filter (· ≠ [])

variable {delims : Text}

@[simp] theorem tokens_nil : tokens delims [] = [] := rfl

/-- A delimiter separates: the tokens before it and the tokens behind it do not touch.
-/
theorem tokens_append_delim {d : Char} (isDelim : d ∈ delims) (s tail : Text) :
    tokens delims (s ++ d :: tail) = tokens delims s ++ tokens delims tail := by
  rw [tokens, List.splitOnP_append_cons _ _ (by simpa using isDelim), List.filter_append]
  rfl

theorem tokens_lead {lead : Text} (skipped : ∀ c ∈ lead, c ∈ delims) (s : Text) :
    tokens delims (lead ++ s) = tokens delims s := by
  induction lead with
  | nil => rfl
  | cons d lead ih =>
    have first := tokens_append_delim (skipped d (by simp)) [] (lead ++ s)
    rw [List.nil_append, tokens_nil, List.nil_append] at first
    rw [List.cons_append, first, ih fun c inside => skipped c (by simp [inside])]

theorem tokens_trail {trail : Text} (skipped : ∀ c ∈ trail, c ∈ delims) (s : Text) :
    tokens delims (s ++ trail) = tokens delims s := by
  cases trail with
  | nil => rw [List.append_nil]
  | cons d trail =>
    have behind : ∀ c ∈ trail, c ∈ delims := fun c inside => skipped c (by simp [inside])
    have rest := tokens_lead behind []
    rw [List.append_nil, tokens_nil] at rest
    rw [tokens_append_delim (skipped d (by simp)), rest, List.append_nil]

theorem tokens_word {word : Text} (nonempty : word ≠ []) (outside : ∀ c ∈ word, c ∉ delims) :
    tokens delims word = [word] := by
  rw [tokens, List.splitOnP_eq_singleton fun c inside => by simpa using outside c inside]
  simp [nonempty]

theorem tokens_word_delim {word : Text} (nonempty : word ≠ []) (outside : ∀ c ∈ word, c ∉ delims)
    {d : Char} (isDelim : d ∈ delims) (tail : Text) :
    tokens delims (word ++ d :: tail) = word :: tokens delims tail := by
  rw [tokens_append_delim isDelim, tokens_word nonempty outside, List.singleton_append]

/-- A string all of one kind, or the first character that is not. -/
theorem exists_first (p : Char → Bool) (s : Text) : (∀ c ∈ s, p c = true) ∨
    ∃ before c after, s = before ++ c :: after ∧ (∀ d ∈ before, p d = true) ∧ p c = false := by
  induction s with
  | nil => exact Or.inl fun c inside => absurd inside List.not_mem_nil
  | cons c s ih =>
    by_cases passes : p c = true
    · rcases ih with all | ⟨before, d, after, rfl, all, fails⟩
      · exact Or.inl (by simpa using ⟨passes, all⟩)
      · exact Or.inr ⟨c :: before, d, after, rfl, by simpa using ⟨passes, all⟩, fails⟩
    · exact Or.inr ⟨[], c, s, rfl, by simp, by simpa using passes⟩

/-- A string has no token, one at its end, or one with a delimiter behind it. -/
inductive Parts (delims : Text) : Text → Prop where
  | none {s : Text} (only : ∀ c ∈ s, c ∈ delims) : Parts delims s
  | last {lead word : Text} (skipped : ∀ c ∈ lead, c ∈ delims) (nonempty : word ≠ [])
      (outside : ∀ c ∈ word, c ∉ delims) : Parts delims (lead ++ word)
  | more {lead word tail : Text} {d : Char} (skipped : ∀ c ∈ lead, c ∈ delims)
      (nonempty : word ≠ []) (outside : ∀ c ∈ word, c ∉ delims) (isDelim : d ∈ delims) :
      Parts delims (lead ++ (word ++ d :: tail))

/-- Every text has the form `strtok` looks for: delimiters, then perhaps a word, then
perhaps a delimiter and more. -/
theorem parts (delims s : Text) : Parts delims s := by
  rcases exists_first (· ∈ delims) s with only | ⟨lead, c, after, rfl, skipped, stops⟩
  · exact .none fun c inside => by simpa using only c inside
  · have skipped (d : Char) (inside : d ∈ lead) : d ∈ delims := by simpa using skipped d inside
    rcases exists_first (· ∉ delims) (c :: after) with only | ⟨word, d, tail, split, only, ends⟩
    · exact .last skipped (by simp) fun d inside => by simpa using only d inside
    · have nonempty : word ≠ [] := by
        rintro rfl
        simp_all
      rw [split]
      exact .more skipped nonempty (fun c inside => by simpa using only c inside)
        (by simpa using ends)

theorem tokens_only {s : Text} (only : ∀ c ∈ s, c ∈ delims) : tokens delims s = [] := by
  simpa using tokens_lead only []

theorem tokens_last {lead word : Text} (skipped : ∀ c ∈ lead, c ∈ delims) (nonempty : word ≠ [])
    (outside : ∀ c ∈ word, c ∉ delims) : tokens delims (lead ++ word) = [word] := by
  rw [tokens_lead skipped, tokens_word nonempty outside]

theorem tokens_more {lead word : Text} {d : Char} (skipped : ∀ c ∈ lead, c ∈ delims)
    (nonempty : word ≠ []) (outside : ∀ c ∈ word, c ∉ delims) (isDelim : d ∈ delims)
    (tail : Text) :
    tokens delims (lead ++ (word ++ d :: tail)) = word :: tokens delims tail := by
  rw [tokens_lead skipped, tokens_word_delim nonempty outside isDelim]

theorem tokens_eq_nil {s : Text} (nothing : tokens delims s = []) : ∀ c ∈ s, c ∈ delims := by
  cases parts delims s with
  | none only => exact only
  | last skipped nonempty outside =>
    rw [tokens_last skipped nonempty outside] at nothing
    cases nothing
  | more skipped nonempty outside isDelim =>
    rw [tokens_more skipped nonempty outside isDelim] at nothing
    cases nothing

theorem tokens_length_le (delims s : Text) : (tokens delims s).length ≤ s.length := by
  induction length : s.length using Nat.strong_induction_on generalizing s with
  | h size ih =>
    subst length
    cases parts delims s with
    | none only =>
      rw [tokens_only only]
      exact Nat.zero_le _
    | last skipped nonempty outside =>
      have positive := List.length_pos_iff.mpr nonempty
      rw [tokens_last skipped nonempty outside, List.length_singleton, List.length_append]
      omega
    | @more lead word tail d skipped nonempty outside isDelim =>
      have rest := ih tail.length (by simp only [List.length_append, List.length_cons]; omega)
        tail rfl
      rw [tokens_more skipped nonempty outside isDelim]
      simp only [List.length_append, List.length_cons]
      omega

theorem store_at {α : Type*} (pre post : List α) (old x : α) :
    store (pre ++ old :: post) pre.length x = some (pre ++ x :: post) := by
  simp [store]

theorem memcpy_at (pre post : Text) {old bytes : Text} (same : bytes.length = old.length) :
    memcpy (pre ++ old ++ post) pre.length bytes = some (pre ++ bytes ++ post) := by
  have front : (pre ++ old ++ post).take pre.length = pre := by
    rw [List.append_assoc, List.take_left]
  have back : (pre ++ old ++ post).drop (pre.length + bytes.length) = post := by
    rw [same, ← List.length_append, List.drop_left]
  rw [memcpy, if_pos (by simp [same]), front, back]

/-- A copy over the front of what lies behind `pre`. -/
theorem memcpy_within (pre : Text) {block bytes : Text} (fits : bytes.length ≤ block.length) :
    memcpy (pre ++ block) pre.length bytes = some (pre ++ bytes ++ block.drop bytes.length) := by
  have same : bytes.length = (block.take bytes.length).length := by
    rw [List.length_take, Nat.min_eq_left fits]
  have copied := memcpy_at pre (block.drop bytes.length) same
  rwa [List.append_assoc pre, List.take_append_drop] at copied

/-- A copy that stays inside the block replaces as many bytes as it has, and leaves the
rest. -/
theorem memcpy_some {block bytes result : Text} {i : Nat}
    (copied : memcpy block i bytes = some result) :
    i + bytes.length ≤ block.length ∧
      result = block.take i ++ bytes ++ block.drop (i + bytes.length) := by
  unfold memcpy at copied
  split at copied
  next fits => exact ⟨fits, (Option.some.inj copied).symm⟩
  · cases copied

theorem memcpy_length {block bytes result : Text} {i : Nat}
    (copied : memcpy block i bytes = some result) : result.length = block.length := by
  obtain ⟨fits, rfl⟩ := memcpy_some copied
  simp only [List.length_append, List.length_take, List.length_drop]
  omega

theorem store_length {α : Type*} {block result : List α} {i : Nat} {x : α}
    (stored : store block i x = some result) : result.length = block.length := by
  unfold store at stored
  split at stored
  · cases stored
    exact List.length_set
  · cases stored

theorem getElem?_at {α : Type*} (pre post : List α) (x : α) :
    (pre ++ x :: post)[pre.length]? = some x := by
  simp

/-- A scan that stops at the first character that fails comes out right there. -/
theorem skip_at {p : Char → Bool} {xs : Text} (passes : ∀ c ∈ xs, p c = true) {c : Char}
    (fails : p c = false) (pre post : Text) :
    skip p (pre ++ (xs ++ c :: post)) pre.length = some (pre.length + xs.length) := by
  have passed : (xs ++ c :: post).takeWhile p = xs := by
    rw [List.takeWhile_append_of_pos passes, List.takeWhile_cons, fails]
    simp
  simp [skip, passed]

/-- `strlen` counts to the terminator of the string at its place, whatever stands before
and behind. -/
theorem strlen_at {s : Text} (noNul : nul ∉ s) (pre post : Text) :
    strlen (pre ++ (s ++ nul :: post)) pre.length = some s.length := by
  have passes (c : Char) (inside : c ∈ s) : decide (c ≠ nul) = true := by
    simpa using fun (same : c = nul) => noNul (same ▸ inside)
  rw [strlen, skip_at passes (by simp)]
  simp

/-- A string with its terminator, anywhere in a block, is the string at that place. -/
theorem stringAt_at {s : Text} (noNul : nul ∉ s) (pre post : Text) :
    stringAt (pre ++ (s ++ nul :: post)) pre.length = some s := by
  rw [stringAt, strlen_at noNul]
  simp

/-- A token just found is a C string of its own. -/
theorem stringAt_token {word sep next : Text} (noNul : nul ∉ word)
    (ended : sep = [nul] ∨ sep = [] ∧ next = []) (pre post : Text) :
    stringAt (pre ++ word ++ sep ++ next ++ nul :: post) pre.length = some word := by
  rcases ended with rfl | ⟨rfl, rfl⟩
  · simpa using stringAt_at noNul pre (next ++ nul :: post)
  · simpa using stringAt_at noNul pre post

/-- The string of a block, whatever lies behind its terminator. -/
theorem stringAt_start {s : Text} (noNul : nul ∉ s) (post : Text) :
    stringAt (s ++ nul :: post) 0 = some s :=
  stringAt_at noNul [] post

/-- The C string that bytes start with when a terminator follows them. -/
theorem exists_terminated (bytes rest : Text) :
    ∃ post, bytes ++ nul :: rest = bytes.takeWhile (· ≠ nul) ++ nul :: post := by
  rcases exists_first (· ≠ nul) bytes with only | ⟨before, c, post, rfl, passes, fails⟩
  · exact ⟨rest, by rw [List.takeWhile_eq_self_iff.mpr only]⟩
  · obtain rfl : c = nul := by simpa using fails
    refine ⟨post ++ nul :: rest, ?_⟩
    rw [List.takeWhile_append_of_pos passes, List.takeWhile_cons_of_neg (by simp)]
    simp

theorem nul_notMem_takeWhile (bytes : Text) : nul ∉ bytes.takeWhile (· ≠ nul) := by
  intro inside
  simpa using List.mem_takeWhile_imp inside

theorem takeWhile_noNul {bytes : Text} (noNul : nul ∉ bytes) : bytes.takeWhile (· ≠ nul) = bytes :=
  List.takeWhile_eq_self_iff.mpr fun c inside => by
    simpa using fun same : c = nul => noNul (same ▸ inside)

theorem stringAt_noNul {block text : Text} {i : Nat} (found : stringAt block i = some text) :
    nul ∉ text := by
  obtain ⟨n, length, rfl⟩ := Option.map_eq_some_iff.mp found
  obtain ⟨stop, skipped, rfl⟩ := Option.map_eq_some_iff.mp length
  have passed : stop = i + ((block.drop i).takeWhile (· ≠ nul)).length := by
    simp only [skip] at skipped
    split at skipped
    · exact (Option.some.inj skipped).symm
    · cases skipped
  have whole : (block.drop i).take (stop - i) = (block.drop i).takeWhile (· ≠ nul) := by
    rw [passed, Nat.add_sub_cancel_left]
    exact (List.prefix_iff_eq_take.mp (List.takeWhile_prefix _)).symm
  rw [whole]
  exact nul_notMem_takeWhile _

/-- The block keeps its size and now holds what is written, up to its own first NUL. -/
theorem writeString_cut {place bytes : Text} (fits : bytes.length < place.length) :
    ∃ place', writeString place bytes = some place' ∧ place'.length = place.length ∧
      stringAt place' 0 = some (bytes.takeWhile (· ≠ nul)) := by
  obtain ⟨post, terminated⟩ := exists_terminated bytes (place.drop (bytes.length + 1))
  refine ⟨_, if_pos fits, ?_, ?_⟩
  · simp only [List.length_append, List.length_cons, List.length_drop]
    omega
  · rw [terminated]
    exact stringAt_start (nul_notMem_takeWhile bytes) post

/-- A string that fits with its terminator is written and reads back; the place keeps
its size. -/
theorem writeString_spec {place s : Text} (fits : s.length < place.length) (noNul : nul ∉ s) :
    ∃ place', writeString place s = some place' ∧ place'.length = place.length ∧
      stringAt place' 0 = some s := by
  have whole := writeString_cut fits
  rwa [takeWhile_noNul noNul] at whole

/-- A block that holds a string has a terminator in it. -/
theorem stringAt_parts {block s : Text} (found : stringAt block 0 = some s) :
    nul ∉ s ∧ ∃ post, block = s ++ nul :: post := by
  rcases exists_first (· ≠ nul) block with only | ⟨before, c, post, rfl, passes, fails⟩
  · have whole : block.takeWhile (· ≠ nul) = block := List.takeWhile_eq_self_iff.mpr only
    simp only [stringAt, strlen, skip, List.drop_zero, whole, Nat.zero_add, Nat.lt_irrefl, if_false,
      Option.map_none] at found
    cases found
  · have noNul : nul ∉ before := fun inside => by simpa using passes _ inside
    obtain rfl : c = nul := by simpa using fails
    rw [stringAt_start noNul] at found
    cases found
    exact ⟨noNul, post, rfl⟩

/-- What a call leaves of the string `s` behind `pre`: either all was
delimiters, or its first token stands terminated and `next` is still to be
scanned. At the end of `s` the terminator that ends the token is that of `s`. -/
inductive Scanned (delims pre s post : Text) : Option (Option Nat × Text × Nat) → Prop where
  | none (nothing : tokens delims s = []) (save : Nat) :
      Scanned delims pre s post (some (.none, pre ++ s ++ nul :: post, save))
  | token {lead word sep next : Text} (split : tokens delims s = word :: tokens delims next)
      (length : lead.length + word.length + sep.length + next.length = s.length)
      (nonempty : word ≠ []) (noNul : nul ∉ word ++ next)
      (ended : sep = [nul] ∨ sep = [] ∧ next = []) :
      Scanned delims pre s post (some (some (pre ++ lead).length,
        pre ++ lead ++ word ++ sep ++ next ++ nul :: post, (pre ++ lead ++ word ++ sep).length))

theorem skip_delims {lead : Text} (skipped : ∀ c ∈ lead, c ∈ delims) {c : Char} (stops : c ∉ delims)
    (pre post : Text) :
    skip (· ∈ delims) (pre ++ (lead ++ c :: post)) pre.length = some (pre.length + lead.length) :=
  skip_at (fun c inside => by simpa using skipped c inside) (by simpa using stops) pre post

/-- The scan over a word stops at the delimiter or at the terminator behind it. -/
theorem skip_word {word : Text} (outside : ∀ c ∈ word, c ∉ delims) (noNul : nul ∉ word) {c : Char}
    (stops : c ∈ delims ∨ c = nul) (pre post : Text) :
    skip (fun c => c ∉ delims ∧ c ≠ nul) (pre ++ (word ++ c :: post)) pre.length =
      some (pre.length + word.length) := by
  refine skip_at (fun c inside => ?_) (by simpa [imp_iff_not_or] using stops) pre post
  simpa using And.intro (outside c inside) fun (same : c = nul) => noNul (same ▸ inside)

/-- A token with the terminator of the string behind it. -/
theorem strtokR_last {lead word : Text} (skipped : ∀ c ∈ lead, c ∈ delims) (nonempty : word ≠ [])
    (outside : ∀ c ∈ word, c ∉ delims) (noNul : nul ∉ word) (pre post : Text) :
    strtokR delims (pre ++ (lead ++ word) ++ nul :: post) pre.length =
      some (some (pre ++ lead).length, pre ++ lead ++ word ++ nul :: post,
        (pre ++ lead ++ word).length) := by
  obtain ⟨c, cs, rfl⟩ := List.exists_cons_of_ne_nil nonempty
  have start := skip_delims skipped (outside c (by simp)) pre (cs ++ nul :: post)
  have stop := skip_word outside noNul (Or.inr rfl) (pre ++ lead) post
  have first := getElem?_at (pre ++ lead) (cs ++ nul :: post) c
  have last := getElem?_at (pre ++ lead ++ c :: cs) post nul
  have notNul : c ≠ nul := fun same => noNul (by simp [same])
  simp only [List.append_assoc, List.cons_append, List.length_append] at start stop first last ⊢
  simp only [strtokR, start, stop, first, last, notNul, Option.bind_eq_bind, Option.bind_some,
    if_true, if_false, Nat.add_assoc]

/-- A token with a delimiter behind it, which is overwritten. -/
theorem strtokR_delim {lead word tail : Text} {d : Char} (pureDelims : nul ∉ delims)
    (skipped : ∀ c ∈ lead, c ∈ delims) (nonempty : word ≠ []) (outside : ∀ c ∈ word, c ∉ delims)
    (noNul : nul ∉ word) (isDelim : d ∈ delims) (pre post : Text) :
    strtokR delims (pre ++ (lead ++ (word ++ d :: tail)) ++ nul :: post) pre.length =
      some (some (pre ++ lead).length, pre ++ lead ++ word ++ [nul] ++ tail ++ nul :: post,
        (pre ++ lead ++ word ++ [nul]).length) := by
  obtain ⟨c, cs, rfl⟩ := List.exists_cons_of_ne_nil nonempty
  have start := skip_delims skipped (outside c (by simp)) pre (cs ++ d :: (tail ++ nul :: post))
  have stop := skip_word outside noNul (Or.inl isDelim) (pre ++ lead) (tail ++ nul :: post)
  have first := getElem?_at (pre ++ lead) (cs ++ d :: (tail ++ nul :: post)) c
  have last := getElem?_at (pre ++ lead ++ c :: cs) (tail ++ nul :: post) d
  have stored := store_at (pre ++ lead ++ c :: cs) (tail ++ nul :: post) d nul
  have notNul : c ≠ nul := fun same => noNul (by simp [same])
  have delimNotNul : d ≠ nul := fun same => pureDelims (same ▸ isDelim)
  simp only [List.append_assoc, List.cons_append, List.nil_append, List.length_append,
    Nat.add_assoc] at start stop first last stored ⊢
  simp only [strtokR, start, stop, first, last, stored, notNul, delimNotNul, Option.bind_eq_bind,
    Option.bind_some, Option.map_some, if_false, Nat.add_assoc]
  simp

/-- Nothing but delimiters: no token, and the cursor is left on the terminator. -/
theorem strtokR_none {s : Text} (pureDelims : nul ∉ delims) (only : ∀ c ∈ s, c ∈ delims)
    (pre post : Text) :
    strtokR delims (pre ++ s ++ nul :: post) pre.length =
      some (none, pre ++ s ++ nul :: post, (pre ++ s).length) := by
  have start := skip_delims only pureDelims pre post
  have first := getElem?_at (pre ++ s) post nul
  simp only [List.append_assoc, List.length_append] at start first ⊢
  simp only [strtokR, start, first, Option.bind_eq_bind, Option.bind_some, if_true]

/-- One call of `strtok_r` on a string in a block, by the form of the string: what is
returned, which byte is overwritten and where the cursor is left. -/
theorem strtokR_scanned {s : Text} (pureDelims : nul ∉ delims) (noNul : nul ∉ s) (pre post : Text) :
    Scanned delims pre s post (strtokR delims (pre ++ s ++ nul :: post) pre.length) := by
  cases parts delims s with
  | none only =>
    rw [strtokR_none pureDelims only]
    exact .none (tokens_only only) _
  | @last lead word skipped nonempty outside =>
    have noNul : nul ∉ word := fun inside => noNul (List.mem_append_right _ inside)
    have split : tokens delims (lead ++ word) = word :: tokens delims [] :=
      tokens_last skipped nonempty outside
    rw [strtokR_last skipped nonempty outside noNul]
    have clean : nul ∉ word ++ [] := by simpa using noNul
    have found := @Scanned.token delims pre (lead ++ word) post lead word [] [] split (by simp)
      nonempty clean (Or.inr ⟨rfl, rfl⟩)
    simpa using found
  | @more lead word tail d skipped nonempty outside isDelim =>
    have noNul : nul ∉ word ++ tail := by
      simp only [List.mem_append, List.mem_cons, not_or] at noNul ⊢
      exact ⟨noNul.2.1, noNul.2.2.2⟩
    rw [strtokR_delim pureDelims skipped nonempty outside
      (fun inside => noNul (List.mem_append_left _ inside)) isDelim]
    exact .token (tokens_more skipped nonempty outside isDelim tail) (by simp; omega) nonempty noNul
      (Or.inl rfl)

end EltexCourse.Foundations.CBuffer
