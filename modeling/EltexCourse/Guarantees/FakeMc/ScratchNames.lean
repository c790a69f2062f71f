import EltexCourse.Guarantees.FakeMc.PathBuffer

/-!
# task9/fake_mc: room for the name of an entry

`size` is the sum of the lengths of all path texts so far, so what it exceeds
the length of the path by grows with every call, and so does the length of the
names for which the buffer has room.
-/

set_option autoImplicit false

namespace EltexCourse.Guarantees.FakeMc.ScratchNames
open Foundations.CString Foundations.CBuffer Foundations.Cells Foundations.Decimal
  Foundations.Transition Source.FakeMc PathBuffer

/-- The lengths of so many texts. -/
def total (texts : List Text) : Int := (texts.map List.length).sum

/-- The path texts so far. -/
def texts (log : List Text) : List Text := ['/'] :: log

/-- What `size` has lost by wrapping: a multiple of 2^32, and 0 below 2^31. -/
def wrapped (log : List Text) : Int := total (texts log) - asInt (total (texts log))

/-- The name has at most 28 characters more than the earlier path texts have. -/
structure Fits (log : List Text) (name : Text) : Prop where
  bound : name.length + wrapped log ≤ 28 + total (texts log).dropLast
  size : total (texts log) - wrapped log + 30 < 2 ^ 31

variable {realpath : Text → Option Text} {p : PATH} {text name : Text} {names : List Text}
  {block filename : Block Char} {log : List Text}

theorem fillFilename_fits (string : stringIn p.path = some text)
    (fits : text.length + name.length + 2 ≤ filename.length) :
    ∃ filled, fillFilename p filename name = some filled ∧ filled.length = filename.length := by
  have noNul := (stringIn_parts string).1
  obtain ⟨copy, copied, length⟩ := strcpy_fits (show text.length < filename.length by omega)
  have string₁ := stringIn_strcpy copied noNul
  obtain ⟨separated, separates, length₁⟩ :=
    strcat_fits (s := ['/']) string₁ (by rw [List.length_singleton]; omega)
  have string₂ := stringIn_strcat separates string₁ (by decide)
  have slash : (text ++ ['/']).length = text.length + 1 := List.length_append
  obtain ⟨joined, joins, length₂⟩ := strcat_fits (s := name) string₂ (by omega)
  refine ⟨joined, ?_, length₂.trans (length₁.trans length)⟩
  simp only [fillFilename, string, copied, separates, joins, Option.bind_eq_bind, Option.bind_some]

theorem fits_of_fillFilename (string : stringIn p.path = some text) {filled : Block Char}
    (fills : fillFilename p filename name = some filled) :
    text.length + name.length + 2 ≤ filename.length := by
  have noNul := (stringIn_parts string).1
  rw [fillFilename, string, Option.bind_eq_bind, Option.bind_some] at fills
  obtain ⟨copy, copied, fills⟩ := Option.bind_eq_some_iff.mp fills
  obtain ⟨separated, separates, joined⟩ := Option.bind_eq_some_iff.mp fills
  have string' := stringIn_strcat separates (stringIn_strcpy copied noNul) (by decide)
  rw [strcat_eq string'] at joined
  have bound := (strcpy_iff.mp joined).1
  rw [strcat_length separates, strcpy_length copied, List.length_append, List.length_append,
    List.length_singleton] at bound
  omega

/-- One buffer for the names of several entries. -/
theorem fillFilenames_iff (string : stringIn p.path = some text) :
    (names.foldlM (fillFilename p) filename).isSome ↔
      ∀ name ∈ names, text.length + name.length + 2 ≤ filename.length := by
  induction names generalizing filename with
  | nil => simp
  | cons name names ih =>
    rw [List.foldlM_cons, List.forall_mem_cons]
    by_cases fits : text.length + name.length + 2 ≤ filename.length
    · obtain ⟨filled, fills, length⟩ := fillFilename_fits string fits
      rw [fills, Option.bind_eq_bind, Option.bind_some, ih, length, and_iff_right fits]
    · cases fills : fillFilename p filename name with
      | none => simp [fits]
      | some filled => exact absurd (fits_of_fillFilename string fills) fits

theorem mallocFilename_length (made : mallocFilename p = some filename) :
    (filename.length : Int) = p.size + 30 ∧ IsInt (p.size + 30) := by
  obtain ⟨bytes, computed, made⟩ := Option.bind_eq_some_iff.mp made
  obtain ⟨rfl, fits⟩ := int_eq_some.mp computed
  split at made
  · cases made
    exact ⟨by rw [malloc_length]; omega, fits⟩
  · cases made

/-- The buffer has `size + 30` bytes, if there are as many. -/
theorem printDirsFilenames_iff (string : stringIn p.path = some text) (nonempty : names ≠ []) :
    (printDirsFilenames p names).isSome ↔ ∀ name ∈ names,
      (text.length + name.length + 2 : Int) ≤ p.size + 30 ∧ IsInt (p.size + 30) := by
  obtain ⟨first, rest, rfl⟩ := List.exists_cons_of_ne_nil nonempty
  rw [printDirsFilenames]
  cases made : mallocFilename p with
  | some filename =>
    obtain ⟨length, fits⟩ := mallocFilename_length made
    rw [Option.bind_eq_bind, Option.bind_some, fillFilenames_iff string]
    refine forall₂_congr fun name _ => ?_
    rw [and_iff_left fits, ← length]
    omega
  | none =>
    rw [Option.bind_eq_bind, Option.bind_none]
    refine iff_of_false Bool.false_ne_true fun all => ?_
    obtain ⟨room, fits⟩ := all first List.mem_cons_self
    simp only [mallocFilename, int_of_isInt fits, Option.bind_eq_bind, Option.bind_some] at made
    rw [if_pos (by omega)] at made
    cases made

/-- `open_dir` does with one name what `print_dirs` does with each. -/
theorem openDir_eq_printDirs : openDirFilename p name = printDirsFilenames p [name] := by
  simp [openDirFilename, printDirsFilenames]

/-- The path is the last text, and `size` counts them all. -/
structure Counts (log : List Text) (p : PATH) : Prop where
  string : stringIn p.path = (texts log).getLast?
  size : p.size = asInt (total (texts log))

theorem total_append (front : List Text) (text : Text) :
    total (front ++ [text]) = total front + text.length := by
  simp [total]

theorem counts_init (made : pathInit ['/'] block = some p) : Counts [] p := by
  obtain ⟨copied, size, -⟩ := pathInit_some made
  exact ⟨stringIn_strcpy copied (by decide), size⟩

theorem asInt_add (n m : Int) : asInt (asInt n + m) = asInt (n + m) := Int.bmod_add_bmod

theorem counts_add (counts : Counts log p) {call : AddCall} {p' : PATH}
    (added : (pathCalls realpath).step p call = some p') :
    Counts (log ++ (pathCalls realpath).emit p call) p' := by
  obtain ⟨-, -, -, text, -, -, -, -, string, size⟩ := pathAdd_steps added
  have emitted : (pathCalls realpath).emit p call = [text] := by
    have added : pathAdd realpath p call = some p' := added
    simp only [pathCalls, added, string, Option.bind_some, Option.toList_some]
  rw [emitted]
  have split : texts (log ++ [text]) = texts log ++ [text] := rfl
  constructor
  · rw [split, List.getLast?_concat, string]
  · rw [split, total_append, size, counts.size, asInt_add]

/-- What the fields say of the room for a name, by the texts of the run. -/
theorem fits_iff (counts : Counts log p) (string : stringIn p.path = some text) :
    (text.length + name.length + 2 : Int) ≤ p.size + 30 ∧ IsInt (p.size + 30) ↔ Fits log name := by
  have last : (texts log).getLast? = some text := counts.string.symm.trans string
  have whole := List.dropLast_append_getLast? text last
  have sum := total_append (texts log).dropLast text
  rw [whole] at sum
  have size := counts.size
  have low := asInt_isInt (total (texts log))
  have wraps : wrapped log = total (texts log) - p.size := by rw [wrapped, size]
  rw [← size] at low
  unfold IsInt at low ⊢
  constructor
  · intro ⟨bound, _, high⟩
    exact ⟨by omega, by omega⟩
  · intro ⟨bound, high⟩
    omega

/-- For every path that calls of `path_add` lead to from "/", `open_dir` and
`print_dirs` stay in their buffer exactly if each name fits in this sense. -/
theorem filenames_fit_iff (realpath : Text → Option Text) (block : Block Char) (start : PATH)
    (made : pathInit ['/'] block = some start) (log : List Text) (p : PATH)
    (run : (pathCalls realpath).Reach System.Anything start log p) :
    (∀ name, (openDirFilename p name).isSome ↔ Fits log name) ∧
      ∀ names ≠ [], (printDirsFilenames p names).isSome ↔ ∀ name ∈ names, Fits log name := by
  have counts : Counts log p := run.invariant Counts (counts_init made)
    fun _ _ _ _ counts _ added => counts_add counts added
  obtain ⟨text, last⟩ : ∃ text, (texts log).getLast? = some text :=
    ⟨_, List.getLast?_eq_some_getLast (List.cons_ne_nil _ _)⟩
  have string := counts.string.trans last
  have printed (names : List Text) (nonempty : names ≠ []) :
      (printDirsFilenames p names).isSome ↔ ∀ name ∈ names, Fits log name := by
    rw [printDirsFilenames_iff string nonempty]
    exact forall₂_congr fun name _ => fits_iff counts string
  refine ⟨fun name => ?_, printed⟩
  rw [openDir_eq_printDirs, printed [name] (List.cons_ne_nil name [])]
  exact List.forall_mem_singleton

/-- The path after `path_init("/")`. -/
def atRoot : PATH := ⟨some '/' :: some nul :: malloc 99, 1, 101⟩

/-- In "/usr" a name may have 29 characters: the text "/" before it counts too. -/
theorem filenames_fit_usr : ∃ log p, pathInit ['/'] (malloc 101) = some atRoot ∧
    (pathCalls fun _ => none).Reach System.Anything atRoot log p ∧ log = [['/', 'u', 's', 'r']] ∧
    (openDirFilename p (List.replicate 29 'a')).isSome := by
  have made : pathInit ['/'] (malloc 101) = some atRoot := by decide +kernel
  obtain ⟨log, p, run, rfl⟩ := (pathCalls fun _ => none).exists_reach System.Anything atRoot
    [⟨['u', 's', 'r'], [], []⟩] (fun log _ => log = [['/', 'u', 's', 'r']]) (by decide +kernel)
  have fits := (filenames_fit_iff (fun _ => none) (malloc 101) atRoot made _ p run).1
  exact ⟨_, p, made, run, rfl, (fits _).mpr ⟨by decide, by decide⟩⟩

/-- A name of 29 characters in the root. -/
theorem root_overflow :
    (enterAll []).bind (openDirFilename · (List.replicate 29 'a')) = none ∧
      ((enterAll []).bind (openDirFilename · (List.replicate 28 'a'))).isSome := by
  decide +kernel

end EltexCourse.Guarantees.FakeMc.ScratchNames
