import EltexCourse.Foundations.Pathnames
import EltexCourse.Guarantees.FakeMc.PathBuffer

/-!
# task9/fake_mc: the text of a path

`path_add` decides about the slash by the byte at `size - 1`. Only in the first
call is that the last of the path, since `size` is never its length again. What
the byte has to be, and that this is enough, is shown here for the text that a
call makes of a directory's canonical name.
-/

set_option autoImplicit false

namespace EltexCourse.Guarantees.FakeMc.PathText
open Foundations.CString Foundations.CBuffer Foundations.Cells Foundations.Decimal
  Foundations.Pathnames Foundations.Transition Source.FakeMc PathBuffer

/-- The calls when `realpath` takes ".." to undo the name before it. -/
def lexicalCalls : System PATH AddCall Text := pathCalls fun text => some (resolve text)

/-- Where the names lead from the root. -/
def walked (calls : List AddCall) : List Text := (calls.map AddCall.newPart).foldl walk []

/-- The path is the canonical name of where the calls lead. -/
def Canonical (calls : List AddCall) (p : PATH) : Prop :=
  stringIn p.path = some (canonical (walked calls))

/-- The byte that decides about the slash. -/
def lastByte (p : PATH) (call : AddCall) : Option Char :=
  (p.grow call.fresh).bind fun q => read q.path (q.size - 1)

def separator (c : Char) : Text := if c = '/' then [] else ['/']

/-- What a directory may be called, "." apart. -/
structure DirectoryName (name : Text) : Prop where
  nonempty : name ≠ []
  noSlash : '/' ∉ name
  notDot : name ≠ ['.']
  noNul : nul ∉ name

/-- The buffer is large enough for what is written. -/
structure Allowed (p : PATH) (call : AddCall) : Prop where
  name : DirectoryName call.newPart
  room : ∃ q, p.grow call.fresh = some q ∧ stringIn q.path = stringIn p.path ∧
    ∀ text c, stringIn p.path = some text → read q.path (q.size - 1) = some c →
      (text ++ separator c ++ call.newPart).length < q.path.length

/-- The byte is a slash exactly in the root, where ".." needs none. -/
def Separates (p : PATH) (call : AddCall) : Prop := ∃ c, lastByte p call = some c ∧
  ((c = '/' ↔ stringIn p.path = some ['/']) ∨
    stringIn p.path = some ['/'] ∧ call.newPart = dotDot)

/-- What becomes of the path text. -/
def added (text : Text) (c : Char) (name : Text) : Text :=
  if name = dotDot then resolve (text ++ separator c ++ name) else text ++ separator c ++ name

variable {directory : List Text} {name text : Text} {c : Char} {p p' : PATH} {call : AddCall}

theorem canonical_root_iff (proper : ∀ name ∈ directory, Proper name) :
    canonical directory = ['/'] ↔ directory = [] := by
  constructor
  · intro root
    exact canonical_injective proper (List.forall_mem_nil Proper) root
  · rintro rfl
    rfl

/-- The right separator puts one slash before the name. -/
theorem joined_right (right : c = '/' ↔ directory = []) :
    canonical directory ++ separator c ++ name = behindRoot directory ++ '/' :: name := by
  by_cases root : directory = []
  · rw [separator, if_pos (right.mpr root), root]
    rfl
  · rw [separator, if_neg fun slash => root (right.mp slash), canonical, if_neg root,
      List.append_assoc, List.singleton_append]

/-- No separator behind a name makes the two one. -/
theorem joined_missing (directory : List Text) (last name : Text) :
    canonical (directory ++ [last]) ++ separator '/' ++ name =
      canonical (directory ++ [last ++ name]) := by
  rw [canonical_concat, canonical_concat, separator, if_pos rfl, List.append_nil,
    List.append_assoc, List.cons_append]

theorem DirectoryName.proper (isName : DirectoryName name) (down : name ≠ dotDot) : Proper name :=
  ⟨isName.nonempty, isName.noSlash, isName.notDot, down⟩

/-- With the separator that belongs there the text is that of the new directory. -/
theorem added_right (proper : ∀ name ∈ directory, Proper name) (isName : DirectoryName name)
    (right : (c = '/' ↔ directory = []) ∨ directory = [] ∧ name = dotDot) :
    added (canonical directory) c name = canonical (walk directory name) := by
  rcases right with right | ⟨rfl, rfl⟩
  · unfold added
    rw [joined_right right]
    split
    next up => rw [resolve, target_slash _ isName.noSlash, target_behindRoot proper]
    next down => rw [walk_proper (isName.proper down), canonical_concat]
  · unfold added separator
    rw [if_pos rfl]
    split <;> rfl

/-- In the root a second slash stays. -/
theorem added_root (isName : DirectoryName name) (down : name ≠ dotDot) (notSlash : c ≠ '/') :
    added (canonical []) c name ≠ canonical (walk [] name) := by
  rw [added, if_neg down, separator, if_neg notSlash, walk_proper (isName.proper down),
    canonical_concat]
  intro same
  have length := congrArg List.length same
  simp [canonical, behindRoot] at length

/-- Without a slash the name becomes part of the one before, and ".." as well. -/
theorem added_below (proper : ∀ name ∈ directory, Proper name) {last : Text} (here : Proper last)
    (isName : DirectoryName name) :
    added (canonical (directory ++ [last])) '/' name ≠
      canonical (walk (directory ++ [last]) name) := by
  have merged : ∀ name' ∈ directory ++ [last ++ name], Proper name' :=
    List.forall_mem_append.mpr ⟨proper,
      List.forall_mem_singleton.mpr (here.append isName.nonempty isName.noSlash)⟩
  have text : added (canonical (directory ++ [last])) '/' name =
      canonical (directory ++ [last ++ name]) := by
    unfold added
    rw [joined_missing, resolve, target_canonical merged, ite_self]
  have length : (directory ++ [last ++ name]).length = directory.length + 1 := List.length_append
  rw [text]
  intro same
  by_cases up : name = dotDot
  · rw [up, walk_dotDot, List.dropLast_concat, ← up] at same
    rw [canonical_injective merged proper same] at length
    omega
  · have below : ∀ name' ∈ directory ++ [last] ++ [name], Proper name' := by
      rw [List.forall_mem_append, List.forall_mem_append, List.forall_mem_singleton,
        List.forall_mem_singleton]
      exact ⟨⟨proper, here⟩, isName.proper up⟩
    rw [walk_proper (isName.proper up)] at same
    rw [canonical_injective merged below same, List.length_append, List.length_append] at length
    simp only [List.length_singleton] at length
    omega

/-- With the other separator it is the text of no step to that directory. -/
theorem added_wrong (proper : ∀ name ∈ directory, Proper name) (isName : DirectoryName name)
    (wrong : ¬ ((c = '/' ↔ directory = []) ∨ directory = [] ∧ name = dotDot)) :
    added (canonical directory) c name ≠ canonical (walk directory name) := by
  obtain ⟨mismatch, notUp⟩ := not_or.mp wrong
  cases directory using List.reverseRecOn with
  | nil =>
    exact added_root isName (fun up => notUp ⟨rfl, up⟩) fun slash =>
      mismatch (iff_of_true slash rfl)
  | append_singleton front last =>
    have slash : c = '/' := by
      by_contra notSlash
      exact mismatch (iff_of_false notSlash (List.concat_ne_nil _ _))
    rw [List.forall_mem_append, List.forall_mem_singleton] at proper
    rw [slash]
    exact added_below proper.1 proper.2 isName

theorem separate_spec (fits : IsInt p.size) (string : stringIn p.path = some text)
    (at_last : read p.path (p.size - 1) = some c)
    (room : (text ++ separator c).length < p.path.length) :
    ∃ path, p.separate = some path ∧ stringIn path = some (text ++ separator c) ∧
      path.length = p.path.length := by
  have positive : 0 ≤ p.size - 1 := by
    by_contra low
    rw [read_before (by omega)] at at_last
    cases at_last
  have isInt : IsInt (p.size - 1) := by
    unfold IsInt at fits ⊢
    omega
  simp only [PATH.separate, int_of_isInt isInt, at_last, Option.bind_eq_bind, Option.bind_some]
  unfold separator at room ⊢
  split at room
  next slash =>
    rw [if_pos slash, if_pos slash, List.append_nil]
    exact ⟨p.path, rfl, string, rfl⟩
  next notSlash =>
    rw [if_neg notSlash, if_neg notSlash]
    obtain ⟨path, joined, length⟩ := strcat_fits string (by rwa [List.length_append] at room)
    exact ⟨path, joined, stringIn_strcat joined string (by decide), length⟩

theorem parent_eq : parent = dotDot := rfl

theorem resolveParent_spec (call : AddCall) {joined : Block Char}
    (string : stringIn joined = some text)
    (noNul : nul ∉ resolve text) :
    ∃ path, resolveParent (fun text => some (resolve text)) call joined = some path ∧
      stringIn path = some (if call.newPart = dotDot then resolve text else text) := by
  unfold resolveParent
  rw [parent_eq]
  by_cases up : call.newPart = dotDot
  · rw [if_pos up, string, if_pos up]
    exact ⟨_, rfl, stringIn_text noNul call.spare⟩
  · rw [if_neg up, if_neg up]
    exact ⟨joined, rfl, string⟩

/-- A call with a buffer large enough and a byte that has been written. -/
theorem pathAdd_text (fits : IsInt p.size) (string : stringIn p.path = some text)
    (allowed : Allowed p call) (last : lastByte p call = some c) :
    ∃ p', lexicalCalls.step p call = some p' ∧
      stringIn p'.path = some (added text c call.newPart) := by
  obtain ⟨q, grown, same, room⟩ := allowed.room
  rw [lastByte, grown, Option.bind_some] at last
  have room := room text c string last
  rw [← same] at string
  rw [← (grow_some grown).1] at fits
  obtain ⟨separated, separates, string₁, length⟩ :=
    separate_spec fits string last (by rw [List.length_append] at room; omega)
  obtain ⟨joined, joins, -⟩ := strcat_fits (s := call.newPart) string₁ (by
    rwa [length, ← List.length_append])
  have string₂ := stringIn_strcat joins string₁ allowed.name.noNul
  have noNul : nul ∉ resolve (text ++ separator c ++ call.newPart) := by
    intro inside
    rcases mem_resolve inside with slash | within
    · exact absurd slash (by decide)
    · exact (stringIn_parts string₂).1 within
  obtain ⟨path, resolved, string₃⟩ := resolveParent_spec call string₂ noNul
  refine ⟨{ q with path, size := asInt (q.size + (added text c call.newPart).length) }, ?_, string₃⟩
  show pathAdd _ p call = _
  simp only [pathAdd, grown, separates, joins, resolved, string₃, added, Option.bind_eq_bind,
    Option.bind_some]

/-- One reading of string and byte settles what a buffer has to hold. -/
theorem Allowed.of_reads {q : PATH} (isName : DirectoryName call.newPart)
    (grown : p.grow call.fresh = some q) (string : stringIn p.path = some text)
    (string' : stringIn q.path = some text) (at_last : read q.path (q.size - 1) = some c)
    (room : (text ++ separator c ++ call.newPart).length < q.path.length) : Allowed p call := by
  refine ⟨isName, q, grown, string'.trans string.symm, fun text' c' found at_last' => ?_⟩
  cases string.symm.trans found
  cases at_last.symm.trans at_last'
  exact room

/-- The path so far, which leads through proper names. -/
structure Walked (calls : List AddCall) (p : PATH) : Prop where
  text : Canonical calls p
  proper : ∀ name ∈ walked calls, Proper name
  size : IsInt p.size

theorem walked_append (calls : List AddCall) (call : AddCall) :
    walked (calls ++ [call]) = walk (walked calls) call.newPart := by
  rw [walked, List.map_append, List.map_singleton, List.foldl_append, List.foldl_cons,
    List.foldl_nil, walked]

theorem proper_walk (proper : ∀ name ∈ directory, Proper name) (isName : DirectoryName name) :
    ∀ name' ∈ walk directory name, Proper name' := by
  by_cases up : name = dotDot
  · rw [up, walk_dotDot]
    exact fun name' listed => proper name' (List.dropLast_subset _ listed)
  · rw [walk_proper (isName.proper up), List.forall_mem_append, List.forall_mem_singleton]
    exact ⟨proper, isName.proper up⟩

theorem walked_init {block : Block Char} (made : pathInit ['/'] block = some p) : Walked [] p := by
  obtain ⟨copied, -, -⟩ := pathInit_some made
  exact ⟨stringIn_strcpy copied (by decide), List.forall_mem_nil _, pathInit_isInt made⟩

variable {calls : List AddCall}

/-- What the byte has to be, by where the path leads. -/
theorem separates_iff (invariant : Walked calls p) : Separates p call ↔
    ∃ c, lastByte p call = some c ∧
      ((c = '/' ↔ walked calls = []) ∨ walked calls = [] ∧ call.newPart = dotDot) := by
  have root : stringIn p.path = some ['/'] ↔ walked calls = [] := by
    rw [invariant.text, Option.some_inj, canonical_root_iff invariant.proper]
  rw [Separates, root]

theorem walked_add (invariant : Walked calls p) (allowed : Allowed p call)
    (right : Separates p call) :
    ∃ p', lexicalCalls.step p call = some p' ∧ Walked (calls ++ [call]) p' := by
  obtain ⟨c, last, right⟩ := (separates_iff invariant).mp right
  obtain ⟨p', stepped, string⟩ := pathAdd_text invariant.size invariant.text allowed last
  rw [added_right invariant.proper allowed.name right, ← walked_append] at string
  refine ⟨p', stepped, string, ?_, pathAdd_isInt stepped⟩
  rw [walked_append]
  exact proper_walk invariant.proper allowed.name

/-- The byte that a call has read. -/
theorem lastByte_of_pathAdd {realpath : Text → Option Text}
    (stepped : pathAdd realpath p call = some p') : ∃ c, lastByte p call = some c := by
  obtain ⟨q, _, _, _, grown, separates, -, -, -, -⟩ := pathAdd_steps stepped
  obtain ⟨c, at_last⟩ := separate_reads separates
  exact ⟨c, by rw [lastByte, grown, Option.bind_some, at_last]⟩

theorem canonical_lost (invariant : Walked calls p) (allowed : Allowed p call)
    (wrong : ¬ Separates p call) (stepped : lexicalCalls.step p call = some p') :
    ¬ Canonical (calls ++ [call]) p' := by
  obtain ⟨c, last⟩ := lastByte_of_pathAdd stepped
  obtain ⟨p'', stepped', string⟩ := pathAdd_text invariant.size invariant.text allowed last
  cases stepped.symm.trans stepped'
  rw [separates_iff invariant] at wrong
  rw [Canonical, walked_append, string, Option.some_inj]
  exact added_wrong invariant.proper allowed.name fun right => wrong ⟨c, last, right⟩

/-- Into a directory and back: the text is what it was. -/
theorem restored (invariant : Walked calls p) {down up : AddCall} {q r : PATH}
    (allowed : Allowed p down) (right : Separates p down)
    (entered : lexicalCalls.step p down = some q) (notUp : down.newPart ≠ dotDot)
    (allowed' : Allowed q up) (right' : Separates q up)
    (left : lexicalCalls.step q up = some r) (isUp : up.newPart = dotDot) :
    stringIn r.path = stringIn p.path := by
  obtain ⟨q', entered', below⟩ := walked_add invariant allowed right
  cases entered.symm.trans entered'
  obtain ⟨r', left', back⟩ := walked_add below allowed' right'
  cases left.symm.trans left'
  have same : walked (calls ++ [down] ++ [up]) = walked calls := by
    rw [walked_append, walked_append, isUp, walk_back (allowed.name.proper notUp)]
  rw [back.text, invariant.text, same]

/-- For calls with names of directories and buffers large enough, each path is the
canonical name of the directory walked to exactly if each call finds a slash at
`size - 1` in the root, unless it is for "..", and none elsewhere. -/
theorem path_text_iff (block : Block Char) (start : PATH)
    (made : pathInit ['/'] block = some start) (calls : List AddCall)
    (valid : lexicalCalls.Meets Allowed start calls) :
    lexicalCalls.Keeps Canonical [] start calls ↔ lexicalCalls.Meets Separates start calls :=
  System.keeps_iff Walked (fun _ _ invariant => invariant.text)
    (fun _ _ _ invariant allowed right => walked_add invariant allowed right)
    (fun _ _ _ _ invariant allowed wrong stepped => canonical_lost invariant allowed wrong stepped)
    (walked_init made) valid

/-- The path after `path_init("/")`. -/
def rootPath : PATH := ⟨some '/' :: some nul :: malloc 99, 1, 101⟩

def toUsr : AddCall := ⟨['u', 's', 'r'], [], []⟩

theorem rootPath_reads : stringIn rootPath.path = some ['/'] ∧
    read rootPath.path (rootPath.size - 1) = some '/' := by
  decide

/-- The path "/usr", with its terminator at `size - 1`. -/
def usrPath : PATH := ⟨['/', 'u', 's', 'r', nul].map some ++ malloc 96, 5, 101⟩

/-- ".." from there, with room behind the "/" that `realpath` returns. -/
def back : AddCall := ⟨dotDot, [], malloc 99⟩

theorem usrPath_reads : stringIn usrPath.path = some ['/', 'u', 's', 'r'] ∧
    read usrPath.path (usrPath.size - 1) = some nul := by
  decide

/-- "/usr" and back to "/". -/
theorem path_text_usr : pathInit ['/'] (malloc 101) = some rootPath ∧
    lexicalCalls.Keeps Canonical [] rootPath [toUsr, back] := by
  have made : pathInit ['/'] (malloc 101) = some rootPath := by decide +kernel
  have entered : lexicalCalls.step rootPath toUsr = some usrPath := by decide +kernel
  have grown : rootPath.grow toUsr.fresh = some rootPath := by decide +kernel
  have grown' : usrPath.grow back.fresh = some usrPath := by decide +kernel
  obtain ⟨string, last⟩ := rootPath_reads
  obtain ⟨string', last'⟩ := usrPath_reads
  have allowed : Allowed rootPath toUsr :=
    .of_reads (by constructor <;> decide) grown string string last (by decide)
  have allowed' : Allowed usrPath back :=
    .of_reads (by constructor <;> decide) grown' string' string' last' (by decide)
  have right : Separates rootPath toUsr :=
    ⟨'/', by rw [lastByte, grown, Option.bind_some, last], Or.inl (iff_of_true rfl string)⟩
  have right' : Separates usrPath back := by
    refine ⟨nul, by rw [lastByte, grown', Option.bind_some, last'], Or.inl ?_⟩
    rw [string']
    exact iff_of_false (by decide) (by decide)
  have valid : lexicalCalls.Meets Allowed rootPath [toUsr, back] :=
    .cons entered allowed (.cons rfl allowed' trivial)
  refine ⟨made, (path_text_iff (malloc 101) rootPath made [toUsr, back] valid).mpr ?_⟩
  exact .cons entered right (.cons rfl right' trivial)

/-- ".." in the root, with room behind the "/" that `realpath` returns. -/
def upFromRoot : AddCall := ⟨dotDot, [], malloc 98⟩

/-- The size is now 2. -/
def rootAgain : PATH := ⟨some '/' :: some nul :: malloc 98, 2, 101⟩

def toEtc : AddCall := ⟨['e', 't', 'c'], [], []⟩

/-- After ".." in the root the byte at `size - 1` is the terminator: "//etc". -/
theorem etc_doubled : lexicalCalls.Meets Allowed rootPath [upFromRoot, toEtc] ∧
    ((lexicalCalls.step rootPath upFromRoot).bind fun p => (lexicalCalls.step p toEtc).bind fun p =>
      stringIn p.path) = some ['/', '/', 'e', 't', 'c'] ∧
    ¬ lexicalCalls.Keeps Canonical [] rootPath [upFromRoot, toEtc] := by
  have stepped : lexicalCalls.step rootPath upFromRoot = some rootAgain := by decide +kernel
  have doubled : (lexicalCalls.step rootAgain toEtc).bind (fun p => stringIn p.path) =
      some ['/', '/', 'e', 't', 'c'] := by decide +kernel
  have first : Allowed rootPath upFromRoot := by
    have grown : rootPath.grow upFromRoot.fresh = some rootPath := by decide +kernel
    have isName : DirectoryName upFromRoot.newPart := by constructor <;> decide
    obtain ⟨string, last⟩ := rootPath_reads
    exact .of_reads isName grown string string last (by decide)
  have second : Allowed rootAgain toEtc := by
    have grown : rootAgain.grow toEtc.fresh = some rootAgain := by decide +kernel
    have isName : DirectoryName toEtc.newPart := by constructor <;> decide
    have string : stringIn rootAgain.path = some ['/'] := by decide
    have last : read rootAgain.path (rootAgain.size - 1) = some nul := by decide
    exact .of_reads isName grown string string last (by decide)
  refine ⟨.cons stepped first ⟨second, fun _ _ => trivial⟩, ?_, ?_⟩
  · rw [stepped]
    exact doubled
  · rintro ⟨-, p, again, -, p', stepped', text⟩
    cases stepped.symm.trans again
    rw [stepped', Option.bind_some, text] at doubled
    exact absurd doubled (by decide)

end EltexCourse.Guarantees.FakeMc.PathText
