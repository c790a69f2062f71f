import EltexCourse.Source.FakeMc.Path

/-!
# task9/fake_mc: the fields of a path and its block

`path_add` adds the length of the whole new path to `size`, which was the length
of the old one, so one call is enough to part them.
-/

set_option autoImplicit false

namespace EltexCourse.Guarantees.FakeMc.PathBuffer
open Foundations.CString Foundations.CBuffer Foundations.Cells Foundations.Decimal
  Foundations.Transition Source.FakeMc

/-- `size` is the length of the string, and `capacity` that of the block, which
has more than `size` bytes. -/
structure Sound (p : PATH) : Prop where
  string : ∃ text, stringIn p.path = some text ∧ p.size = text.length
  room : p.size < p.path.length
  capacity : p.capacity = p.path.length

variable {realpath : Text → Option Text} {start text : Text} {block : Block Char} {p p' : PATH}
  {call : AddCall}

theorem asSize_eq {n : Int} (low : 0 ≤ n) (fits : IsInt n) : asSize n = n.toNat := by
  unfold IsInt at fits
  rw [asSize, Int.emod_eq_of_lt low (by omega)]

/-- A path that has been made holds its text and its size, with a hundred bytes to
spare. -/
theorem pathInit_sound (noNul : nul ∉ start) (short : (start.length : Int) + 100 < 2 ^ 31)
    (allocated : block.length = asSize (asInt start.length + 100)) :
    ∃ p, pathInit start block = some p ∧ Sound p ∧ stringIn p.path = some start := by
  have size : asInt start.length = start.length := asInt_eq (by unfold IsInt; omega)
  have fits : IsInt ((start.length : Int) + 100) := by
    unfold IsInt
    omega
  rw [size, asSize_eq (by omega) fits] at allocated
  have copied := strcpy_iff.mpr ⟨show start.length < block.length by omega, rfl⟩
  have string := stringIn_strcpy copied noNul
  have length := strcpy_length copied
  refine ⟨⟨_, start.length, start.length + 100⟩, ?_, ⟨⟨start, string, rfl⟩, ?_, ?_⟩, string⟩
  · simp only [pathInit, size, int_of_isInt fits, copied, Option.bind_eq_bind, Option.bind_some]
  · show (start.length : Int) < _
    rw [length]
    omega
  · show (start.length : Int) + 100 = _
    rw [length]
    omega

theorem pathInit_some (made : pathInit start block = some p) :
    strcpy block start = some p.path ∧ p.size = asInt start.length ∧
      IsInt (asInt start.length + 100) := by
  simp only [pathInit, Option.bind_eq_bind] at made
  obtain ⟨capacity, computed, copies⟩ := Option.bind_eq_some_iff.mp made
  obtain ⟨path, copied, same⟩ := Option.bind_eq_some_iff.mp copies
  cases same
  refine ⟨copied, ?_, (int_eq_some.mp computed).2⟩
  dsimp only

/-- A path that does not fit the fields is not sound at the start. -/
theorem pathInit_short (noNul : nul ∉ start) (made : pathInit start block = some p)
    (sound : Sound p) : (start.length : Int) + 100 < 2 ^ 31 := by
  obtain ⟨copied, size, fits⟩ := pathInit_some made
  obtain ⟨text, string, size'⟩ := sound.string
  cases string.symm.trans (stringIn_strcpy copied noNul)
  rw [← size, size'] at fits
  exact fits.2

theorem grow_some {fresh : Block Char} (grown : p.grow fresh = some p') :
    p'.size = p.size ∧ p'.capacity = p.capacity := by
  unfold PATH.grow at grown
  split at grown
  · obtain ⟨bytes, -, same⟩ := Option.bind_eq_some_iff.mp grown
    cases same
    exact ⟨rfl, rfl⟩
  · cases grown
    exact ⟨rfl, rfl⟩

/-- The steps of a call. -/
theorem pathAdd_steps (added : pathAdd realpath p call = some p') :
    ∃ q separated joined text, p.grow call.fresh = some q ∧ q.separate = some separated ∧
      strcat separated call.newPart = some joined ∧
      resolveParent realpath call joined = some p'.path ∧ stringIn p'.path = some text ∧
      p'.size = asInt (p.size + text.length) := by
  obtain ⟨q, grown, added⟩ := Option.bind_eq_some_iff.mp added
  obtain ⟨separated, separates, added⟩ := Option.bind_eq_some_iff.mp added
  obtain ⟨joined, joins, added⟩ := Option.bind_eq_some_iff.mp added
  obtain ⟨path, resolved, added⟩ := Option.bind_eq_some_iff.mp added
  obtain ⟨text, string, same⟩ := Option.bind_eq_some_iff.mp added
  cases same
  refine ⟨q, separated, joined, text, grown, separates, joins, resolved, string, ?_⟩
  rw [(grow_some grown).1]

/-- Whether a separator is written depends on the byte at `size - 1`, which has been
read by then. -/
theorem separate_reads {separated : Block Char} (separates : p.separate = some separated) :
    ∃ c, read p.path (p.size - 1) = some c := by
  obtain ⟨last, computed, separates⟩ := Option.bind_eq_some_iff.mp separates
  obtain ⟨c, at_last, -⟩ := Option.bind_eq_some_iff.mp separates
  rw [(int_eq_some.mp computed).1] at at_last
  exact ⟨c, at_last⟩

theorem separate_positive {separated : Block Char} (separates : p.separate = some separated) :
    0 < p.size := by
  obtain ⟨c, at_last⟩ := separate_reads separates
  by_contra low
  rw [read_before (by omega)] at at_last
  cases at_last

theorem pathAdd_isInt (added : pathAdd realpath p call = some p') : IsInt p'.size := by
  obtain ⟨-, -, -, text, -, -, -, -, -, size⟩ := pathAdd_steps added
  rw [size]
  exact asInt_isInt _

theorem pathInit_isInt (made : pathInit start block = some p) : IsInt p.size := by
  rw [(pathInit_some made).2.1]
  exact asInt_isInt _

/-- No call leaves the fields right: it adds the length of the whole new path to a size
that was the old one's. -/
theorem pathAdd_unsound (fits : IsInt p.size) (added : pathAdd realpath p call = some p') :
    ¬ Sound p' := by
  intro sound
  obtain ⟨q, separated, joined, text, grown, separates, -, -, string, size⟩ := pathAdd_steps added
  have positive : 0 < q.size := separate_positive separates
  have same : q.size = p.size := (grow_some grown).1
  obtain ⟨text', string', size'⟩ := sound.string
  cases string.symm.trans string'
  have drift : asInt (p.size + text.length) = text.length := size.symm.trans size'
  have wraps := Int.dvd_self_sub_of_bmod_eq drift
  rw [Int.add_sub_cancel] at wraps
  have large := Int.le_of_dvd (same ▸ positive) wraps
  unfold IsInt at fits
  omega

/-- The fields describe the block after `path_init` and every call of a sequence
exactly if the start is short enough for them and there is no call. -/
theorem path_sound_iff (realpath : Text → Option Text) (start : Text) (noNul : nul ∉ start)
    (block : Block Char) (allocated : block.length = asSize (asInt start.length + 100))
    (calls : List AddCall) :
    (∃ p, pathInit start block = some p ∧
        (pathCalls realpath).Keeps (fun _ p => Sound p) [] p calls) ↔
      (start.length : Int) + 100 < 2 ^ 31 ∧ calls = [] := by
  constructor
  · intro ⟨p, made, keeps⟩
    refine ⟨pathInit_short noNul made keeps.good, ?_⟩
    cases calls with
    | nil => rfl
    | cons call calls =>
      obtain ⟨sound, p', added, later⟩ := keeps
      exact absurd later.good (pathAdd_unsound (pathInit_isInt made) added)
  · intro ⟨short, noCalls⟩
    subst noCalls
    obtain ⟨p, made, sound, -⟩ := pathInit_sound noNul short allocated
    exact ⟨p, made, sound⟩

theorem path_sound_root : ∃ p, pathInit ['/'] (malloc 101) = some p ∧
    (pathCalls fun _ => none).Keeps (fun _ p => Sound p) [] p [] :=
  (path_sound_iff (fun _ => none) ['/'] (by decide) (malloc 101) (by decide) []).mpr
    ⟨by decide, rfl⟩

/-- A call in which `realloc` and `realpath` have no part. -/
def enter (name : Text) : AddCall := ⟨name, [], []⟩

/-- From "/", entry by entry. -/
def enterAll (names : List Text) : Option PATH :=
  (pathInit ['/'] (malloc 101)).bind fun p =>
    names.foldlM (fun p name => pathAdd (fun _ => none) p (enter name)) p

/-- After "usr" the size is 5, a name of 100 bytes does not fit the block, and a
third call reads a byte that has not been written. -/
theorem usr_unsound :
    (¬ ∃ p, pathInit ['/'] (malloc 101) = some p ∧ (pathCalls fun _ => none).Keeps
      (fun _ p => Sound p) [] p [enter ['u', 's', 'r']]) ∧
    (enterAll [['u', 's', 'r']]).map (fun p => (stringIn p.path, p.size)) =
      some (some ['/', 'u', 's', 'r'], 5) ∧
    enterAll [List.replicate 100 'a'] = none ∧
    (enterAll [['a'], ['b']]).isSome ∧ enterAll [['a'], ['b'], ['c']] = none := by
  refine ⟨fun ⟨p, made, _, p', added, sound⟩ => ?_, by decide +kernel, by decide +kernel,
    by decide +kernel, by decide +kernel⟩
  exact pathAdd_unsound (pathInit_isInt made) added sound

end EltexCourse.Guarantees.FakeMc.PathBuffer
