import EltexCourse.Foundations.CBuffer

/-!
# Maximal runs

`starts p s` lists the places at which a run of elements with `p` begins: the
element there has `p` and the one before it, if there is one, has not. A run
goes on as far as its elements have `p`. For characters that are no delimiters
the runs are the tokens of the string.
-/

set_option autoImplicit false

namespace EltexCourse.Foundations.Runs
open CString CBuffer

section Lists

variable {α : Type*} {p : α → Bool} {front s lead word tail : List α} {d : α}

def startsRun (p : α → Bool) (s : List α) (i : Nat) : Bool :=
  s[i]?.any p && (i = 0 || !(s[i - 1]?.any p))

def starts (p : α → Bool) (s : List α) : List Nat := (List.range s.length).filter (startsRun p s)

def run (p : α → Bool) (s : List α) (i : Nat) : List α := (s.drop i).takeWhile p

theorem startsRun_front {i : Nat} (inside : i < front.length) (s : List α) :
    startsRun p (front ++ s) i = startsRun p front i := by
  rw [startsRun, startsRun, List.getElem?_append_left inside,
    List.getElem?_append_left (Nat.lt_of_le_of_lt (Nat.sub_le i 1) inside)]

/-- No run goes over the end of `front`. -/
theorem starts_append (ends : ∀ c ∈ front.getLast?, p c = false) (s : List α) :
    starts p (front ++ s) = starts p front ++ (starts p s).map (front.length + ·) := by
  have before : ∀ i ∈ List.range front.length, startsRun p (front ++ s) i = startsRun p front i :=
    fun i mem => startsRun_front (List.mem_range.mp mem) s
  have behind : ∀ i ∈ List.range s.length,
      (startsRun p (front ++ s) ∘ (front.length + ·)) i = startsRun p s i := by
    intro i _
    show startsRun p (front ++ s) (front.length + i) = _
    have here : (front ++ s)[front.length + i]? = s[i]? := by
      rw [List.getElem?_append_right (Nat.le_add_right _ _), Nat.add_sub_cancel_left]
    rw [startsRun, startsRun, here]
    congr 1
    cases i with
    | zero =>
      cases front with
      | nil => rfl
      | cons c front =>
        have last : ((c :: front) ++ s)[(c :: front).length + 0 - 1]? = (c :: front).getLast? := by
          rw [Nat.add_zero, List.getElem?_append_left (by simp), List.getLast?_eq_getElem?]
        have fails : ((c :: front).getLast?).any p = false := by
          rw [Option.any_eq_false]
          exact fun e last => by rw [ends e last]
        rw [last, fails]
        simp
    | succ i =>
      have previous : (front ++ s)[front.length + (i + 1) - 1]? = s[i]? := by
        rw [Nat.add_succ_sub_one, List.getElem?_append_right (Nat.le_add_right _ _),
          Nat.add_sub_cancel_left]
      rw [previous]
      simp
  rw [starts, List.length_append, List.range_add, List.filter_append, List.filter_congr before,
    List.filter_map, List.filter_congr behind]
  rfl

theorem starts_none (none : ∀ c ∈ s, p c = false) : starts p s = [] := by
  rw [starts, List.filter_eq_nil_iff]
  intro i mem begins
  have inside := List.mem_range.mp mem
  rw [startsRun, List.getElem?_eq_getElem inside, Option.any_some,
    none _ (List.getElem_mem inside)] at begins
  simp at begins

theorem starts_word (nonempty : word ≠ []) (all : ∀ c ∈ word, p c = true) :
    starts p word = [0] := by
  obtain ⟨c, cs, rfl⟩ := List.exists_cons_of_ne_nil nonempty
  rw [starts, List.length_cons, List.range_succ_eq_map, List.filter_cons]
  have first : startsRun p (c :: cs) 0 = true := by
    simp [startsRun, all c List.mem_cons_self]
  have later : ((List.range cs.length).map Nat.succ).filter (startsRun p (c :: cs)) = [] := by
    rw [List.filter_eq_nil_iff]
    intro i mem begins
    obtain ⟨j, inside, rfl⟩ := List.mem_map.mp mem
    have inside := List.mem_range.mp inside
    have bound : j < (c :: cs).length := Nat.lt_succ_of_lt inside
    have previous : (c :: cs)[j]?.any p = true := by
      rw [List.getElem?_eq_getElem bound, Option.any_some]
      exact all _ (List.getElem_mem bound)
    simp [startsRun, previous] at begins
  rw [if_pos first, later]

/-- What belongs to no run moves the runs behind it. -/
theorem starts_lead (skipped : ∀ c ∈ lead, p c = false) (s : List α) :
    starts p (lead ++ s) = (starts p s).map (lead.length + ·) := by
  rw [starts_append (fun c last => skipped c (List.mem_of_getLast? last)), starts_none skipped,
    List.nil_append]

/-- An element at the end that begins no run ends the last one. -/
theorem starts_concat (stops : p d = false) (s : List α) : starts p (s ++ [d]) = starts p s := by
  have before : ∀ i ∈ List.range s.length, startsRun p (s ++ [d]) i = startsRun p s i :=
    fun i mem => startsRun_front (List.mem_range.mp mem) [d]
  have last : startsRun p (s ++ [d]) s.length = false := by
    rw [startsRun, List.getElem?_append_right (Nat.le_refl _), Nat.sub_self]
    simp [stops]
  rw [starts, List.length_append, List.length_singleton, List.range_succ, List.filter_append,
    List.filter_congr before, List.filter_cons_of_neg (by rw [last]; exact Bool.false_ne_true)]
  exact List.append_nil _

/-- A word with something else behind it is the first run, and the others follow. -/
theorem starts_more (nonempty : word ≠ []) (all : ∀ c ∈ word, p c = true) (stops : p d = false)
    (tail : List α) :
    starts p (word ++ d :: tail) = 0 :: (starts p tail).map (word.length + 1 + ·) := by
  rw [List.append_cons, starts_append (by simpa using stops), starts_concat stops,
    starts_word nonempty all, List.length_append]
  rfl

/-- A run is the same wherever the text stands. -/
theorem run_behind (front s : List α) (i : Nat) :
    run p (front ++ s) (front.length + i) = run p s i := by
  rw [run, run, List.drop_append, List.drop_eq_nil_of_le (Nat.le_add_right _ _), List.nil_append,
    Nat.add_sub_cancel_left]

theorem run_word (all : ∀ c ∈ word, p c = true) : run p word 0 = word :=
  List.takeWhile_eq_self_iff.mpr all

theorem run_more (all : ∀ c ∈ word, p c = true) (stops : p d = false) (tail : List α) :
    run p (word ++ d :: tail) 0 = word := by
  rw [run, List.drop_zero, List.takeWhile_append_of_pos all, List.takeWhile_cons, stops]
  exact List.append_nil word

end Lists

variable {delims : Text}

/-- The characters that tokens are made of. -/
def solid (delims : Text) (c : Char) : Bool := c ∉ delims

theorem solid_word {word : Text} (outside : ∀ c ∈ word, c ∉ delims) :
    ∀ c ∈ word, solid delims c = true := fun c mem => decide_eq_true (outside c mem)

theorem solid_delim {d : Char} (isDelim : d ∈ delims) : solid delims d = false :=
  decide_eq_false (not_not.mpr isDelim)

theorem solid_delims {lead : Text} (skipped : ∀ c ∈ lead, c ∈ delims) :
    ∀ c ∈ lead, solid delims c = false := fun c mem => solid_delim (skipped c mem)

/-- Delimiters and a word: one run, behind the delimiters. -/
theorem starts_parts_last {lead word : Text} (skipped : ∀ c ∈ lead, c ∈ delims)
    (nonempty : word ≠ [])
    (outside : ∀ c ∈ word, c ∉ delims) : starts (solid delims) (lead ++ word) = [lead.length] := by
  rw [starts_lead (solid_delims skipped), starts_word nonempty (solid_word outside)]
  rfl

/-- Delimiters, a word and a delimiter: the first run, with those of the rest behind it.
-/
theorem starts_parts_more {lead word : Text} {d : Char} (skipped : ∀ c ∈ lead, c ∈ delims)
    (nonempty : word ≠ []) (outside : ∀ c ∈ word, c ∉ delims) (isDelim : d ∈ delims)
    (tail : Text) :
    starts (solid delims) (lead ++ (word ++ d :: tail)) =
      lead.length :: (starts (solid delims) tail).map ((lead ++ word ++ [d]).length + ·) := by
  rw [starts_lead (solid_delims skipped), starts_more nonempty (solid_word outside)
    (solid_delim isDelim), List.map_cons, List.map_map]
  congr 1
  refine List.map_congr_left fun i _ => ?_
  simp only [Function.comp_apply, List.length_append, List.length_singleton]
  omega

/-- The tokens of a string are its runs. -/
theorem tokens_runs (delims s : Text) :
    tokens delims s = (starts (solid delims) s).map (run (solid delims) s) := by
  induction length : s.length using Nat.strong_induction_on generalizing s with
  | h size ih =>
    subst length
    cases parts delims s with
    | none only =>
      rw [tokens_only only, starts_none (solid_delims only)]
      rfl
    | @last lead word skipped nonempty outside =>
      have whole := run_behind (p := solid delims) lead word 0
      rw [Nat.add_zero, run_word (solid_word outside)] at whole
      rw [tokens_last skipped nonempty outside, starts_parts_last skipped nonempty outside,
        List.map_singleton, whole]
    | @more lead word tail d skipped nonempty outside isDelim =>
      have shorter : tail.length < (lead ++ (word ++ d :: tail)).length := by
        simp only [List.length_append, List.length_cons]
        omega
      have first := run_behind (p := solid delims) lead (word ++ d :: tail) 0
      rw [Nat.add_zero, run_more (solid_word outside) (solid_delim isDelim)] at first
      rw [tokens_more skipped nonempty outside isDelim, ih tail.length shorter tail rfl,
        starts_parts_more skipped nonempty outside isDelim, List.map_cons, first, List.map_map]
      congr 1
      refine List.map_congr_left fun i _ => ?_
      have behind := run_behind (p := solid delims) (lead ++ word ++ [d]) tail i
      rw [List.append_assoc, List.append_assoc, List.singleton_append] at behind
      exact behind.symm

end EltexCourse.Foundations.Runs
