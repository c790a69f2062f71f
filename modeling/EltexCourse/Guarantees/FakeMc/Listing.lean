import EltexCourse.Guarantees.FakeMc.Windows

/-!
# What task9/fake_mc reads of a listing

A target belongs to its panel and a listing to the scan made last. They fit as
long as a tab finds more entries than the target of the panel it goes to;
`open_dir`, which scans too, resets the target.
-/

set_option autoImplicit false

namespace EltexCourse.Guarantees.FakeMc.Listing
open Foundations.Transition Foundations.Decimal Source.FakeMc Windows

/-- The loop of `print_dirs` ends, and what is read is in the listing. -/
def Inside : Access → Prop
  | .entry i ndirs => 0 ≤ i ∧ i < ndirs
  | .print shown ndirs ind =>
    ∃ turns reads, printDirs shown ndirs ind turns = some reads ∧ ∀ i ∈ reads, 0 ≤ i ∧ i < ndirs

section Loop

variable {shown : Int → Bool} {i stop ndirs : Int} {ind : Index}

/-- The loop of `print` ends, and reads only entries from its first index up to the last
one exclusive. -/
theorem printLoop_ends (shown : Int → Bool) (order : i ≤ stop) :
    ∃ turns reads, printLoop shown i stop turns = some reads ∧ ∀ j ∈ reads, i ≤ j ∧ j < stop := by
  obtain ⟨n, rfl⟩ : ∃ n : Nat, stop = i + n := ⟨(stop - i).toNat, by omega⟩
  induction n generalizing i with
  | zero => exact ⟨1, [], by simp [printLoop], by simp⟩
  | succ n ih =>
    have different : i ≠ i + (n + 1 : Nat) := by omega
    by_cases stat : shown i = true
    · obtain ⟨turns, reads, ends, inside⟩ := @ih (i + 1) (by omega)
      have next : i + 1 + (n : Int) = i + (n + 1 : Nat) := by omega
      rw [next] at ends inside
      refine ⟨turns + 1, i :: reads, ?_, fun j read => ?_⟩
      · rw [printLoop, if_neg different, if_pos stat, ends]
        rfl
      · rcases List.mem_cons.mp read with rfl | later
        · omega
        · have bounds := inside j later
          omega
    · refine ⟨1, [i], ?_, fun j read => ?_⟩
      · rw [printLoop, if_neg different, if_neg stat]
      · rw [List.mem_singleton.mp read]
        omega

/-- Past its stop the loop does not meet it again. -/
theorem printLoop_never (past : stop < i) (turns : Nat) :
    printLoop (fun _ => true) i stop turns = none := by
  induction turns generalizing i with
  | zero => rfl
  | succ turns ih =>
    rw [printLoop, if_neg (by omega), if_pos rfl, ih (by omega)]
    rfl

theorem print_inside (shown : Int → Bool) (top : 0 ≤ ind.up) (tall : ind.up ≤ ind.down)
    (within : ind.up ≤ ndirs) : Inside (.print shown ndirs ind) := by
  have order : ind.up ≤ if ndirs < ind.down then ndirs else ind.down := by
    split <;> omega
  obtain ⟨turns, reads, ends, bounds⟩ := printLoop_ends shown order
  refine ⟨turns, reads, ends, fun i read => ?_⟩
  have bound := bounds i read
  split at bound <;> omega

end Loop

/-- A tab finds more entries than the target of the panel it goes to. -/
def Covered (s : State) (p : Press) : Prop :=
  Scanned s p ∧ (p.key = .tab → (s.panel s.cnd.other).target < p.answers.scan)

/-- Also with no row of text, where a window contains nothing, `up` stays next
to the target. -/
structure Framed (rows : Int) (panel : Panel) : Prop where
  nonneg : 0 ≤ panel.target
  top : 0 ≤ panel.ind.up
  above : panel.ind.up ≤ panel.target + 1
  height : panel.ind.down - panel.ind.up = rows - 2

section Runs

variable {rows ndirs : Int} {panel moved : Panel} {s t : State} {p : Press} {access : Access}
  {log : List (List Access)}

theorem Framed.shift (framed : Framed rows panel) (tall : 2 ≤ rows) (shift : Shift panel moved) :
    Framed rows moved := by
  have nonneg := shift.nonneg framed.nonneg
  have top := framed.top
  have height := framed.height
  rcases refreshIndex_cases shift.refreshed with ⟨higher, up, down⟩ | ⟨under, atEnd, up, down⟩ |
    ⟨under, inside, same⟩
  · constructor <;> omega
  · constructor <;> omega
  · rw [← same] at top height under
    constructor <;> omega

theorem Framed.print (framed : Framed rows panel) (tall : 2 ≤ rows) (shown : Int → Bool)
    (listed : panel.target < ndirs) : Inside (.print shown ndirs panel.ind) := by
  have above := framed.above
  have height := framed.height
  apply print_inside shown framed.top <;> omega

/-- Both panels are framed, and the listing has the target of the one in use. -/
structure Fitting (rows : Int) (s : State) : Prop where
  framed : ∀ side, Framed rows (s.panel side)
  listed : s.focused.target < s.ndirs

theorem start_fitting (listed : 1 ≤ ndirs) : Fitting rows (start rows ndirs) := by
  constructor
  · intro side
    constructor
    · exact Int.le_refl 0
    · exact Int.le_refl 0
    · exact Int.zero_le_ofNat 1
    · exact Int.sub_zero _
  · exact Int.lt_of_lt_of_le Int.zero_lt_one listed

/-- What moving the target within the listing leads to. -/
theorem Fitting.moveDown (fitting : Fitting rows s)
    (down : moveDown s.ndirs s.focused = some moved) : moved.target < s.ndirs := by
  have listed := fitting.listed
  rcases (moveDown_cases down).2 with ⟨atLast, same⟩ | ⟨before, next⟩ <;> omega

theorem Fitting.moveUp (fitting : Fitting rows s) (up : moveUp s.focused = some moved) :
    moved.target < s.ndirs :=
  Int.lt_of_le_of_lt (moveUp_cases up).2 fitting.listed

theorem focused_setFocused : (s.setFocused panel).focused = panel := Function.update_self ..

/-- A key keeps both windows in their frames and the target of the focused panel in the
listing, if a tab finds enough entries. -/
theorem Fitting.press (fitting : Fitting rows s) (tall : 2 ≤ rows) (covered : Covered s p)
    (pressed : press s p = some t) : Fitting rows t := by
  constructor
  · intro side
    rcases press_panel pressed side with same | shift
    · exact same ▸ fitting.framed side
    · exact (fitting.framed side).shift tall shift
  · obtain ⟨-, ⟨-, moved, down, rfl⟩ | ⟨-, moved, up, rfl⟩ | ⟨-, opened, opens, rfl⟩ |
      ⟨key, rfl⟩ | ⟨-, rfl⟩ | ⟨-, rfl⟩⟩ := press_cases pressed
    · rw [focused_setFocused]
      exact fitting.moveDown down
    · rw [focused_setFocused]
      exact fitting.moveUp up
    · cases opened with
      | failed => exact fitting.listed
      | unchanged => exact fitting.listed
      | entered ndirs moved =>
        obtain ⟨-, top, rfl, -⟩ := openDir_entered opens
        have focused : (s.afterOpen (.entered p.answers.scan moved)).focused = moved :=
          Function.update_self ..
        rw [focused, top]
        exact covered.1.1
    · exact covered.2 key
    · exact fitting.listed
    · exact fitting.listed

theorem Fitting.accesses (fitting : Fitting rows s) (tall : 2 ≤ rows) (scanned : Scanned s p)
    (used : access ∈ accesses s p) : Inside access := by
  have framed := fitting.framed s.cnd
  unfold Source.FakeMc.accesses at used
  split at used
  · simp only [List.mem_map, Option.mem_toList] at used
    obtain ⟨moved, down, rfl⟩ := used
    exact (framed.shift tall (moveDown_cases down).1).print tall _ (fitting.moveDown down)
  · simp only [List.mem_map, Option.mem_toList] at used
    obtain ⟨moved, up, rfl⟩ := used
    exact (framed.shift tall (moveUp_cases up).1).print tall _ (fitting.moveUp up)
  · simp only [List.mem_cons, List.mem_flatMap, Option.mem_toList] at used
    rcases used with rfl | ⟨opened, opens, printed⟩
    · exact ⟨framed.nonneg, fitting.listed⟩
    · cases opened with
      | failed => cases printed
      | unchanged => cases printed
      | entered ndirs moved =>
        obtain ⟨shift, top, rfl, -⟩ := openDir_entered opens
        rw [Opened.accesses, List.mem_singleton] at printed
        subst printed
        have listed := scanned.1
        exact (framed.shift tall shift).print tall _ (by omega)
  · cases used
  · cases used
  · cases used

theorem run_fitting (tall : 2 ≤ rows) (listed : 1 ≤ ndirs)
    (run : mainCycle.Reach Covered (start rows ndirs) log s) :
    Fitting rows s ∧ ∀ access ∈ log.flatten, Inside access := by
  apply run.invariant (fun log s => Fitting rows s ∧ ∀ access ∈ log.flatten, Inside access)
  · exact ⟨start_fitting listed, by simp⟩
  · rintro log s p t ⟨fitting, inside⟩ covered pressed
    refine ⟨fitting.press tall covered pressed, fun access used => ?_⟩
    rw [List.flatten_append, List.mem_append] at used
    rcases used with before | new
    · exact inside access before
    · apply fitting.accesses tall covered.1
      simpa [mainCycle] using new

/-- Before the first key. -/
theorem startAccesses_inside_iff (listed : 1 ≤ ndirs) :
    (∀ shown, ∀ access ∈ startAccesses shown rows ndirs, Inside access) ↔ 2 ≤ rows := by
  constructor
  · intro inside
    by_contra short
    obtain ⟨turns, reads, ends, -⟩ := inside (fun _ _ => true) _ List.mem_cons_self
    have past : (if ndirs < rows - 2 then ndirs else rows - 2) < 0 := by
      split <;> omega
    cases (printLoop_never past turns).symm.trans ends
  · intro tall shown access used
    have printed : ∀ side,
        Inside (.print (shown side) ndirs ((start rows ndirs).panel side).ind) := by
      intro side
      have fitting : Fitting rows (start rows ndirs) := start_fitting listed
      exact (fitting.framed side).print tall _ fitting.listed
    simp only [startAccesses, List.mem_cons, List.not_mem_nil, or_false] at used
    rcases used with rfl | rfl
    · exact printed .left
    · exact printed .right

/-- After a tab that finds too little, Enter reads outside the listing. -/
theorem uncovered_tab (scanned : Scanned s p) (key : p.key = .tab) (uncovered : ¬ Covered s p)
    (pressed : press s p = some t) :
    ∃ next u, press t next = some u ∧ ∃ access ∈ accesses t next, ¬ Inside access := by
  have behind : p.answers.scan ≤ (s.panel s.cnd.other).target := by
    by_contra found
    exact uncovered ⟨scanned, fun _ => by omega⟩
  have running := (press_cases pressed).1
  rw [press, if_pos running, key, Option.some.injEq] at pressed
  subst pressed
  have goesOn : (s.rescan p.answers.scan).running = true :=
    decide_eq_true (Int.le_of_lt scanned.1)
  refine ⟨⟨.enter, some false, 1, fun _ => true⟩, _, if_pos goesOn, _, List.mem_cons_self, ?_⟩
  rintro ⟨-, inside⟩
  exact absurd behind (by simpa [State.rescan, State.focused] using inside)

/-- The calls before the main cycle are right from two rows on. After that
every access is, as long as each tab finds more entries than the target of the
panel it goes to; a tab that does not leaves a panel on which Enter reads
outside the listing. -/
theorem reads_inside (listed : 1 ≤ ndirs) :
    ((∀ shown, ∀ access ∈ startAccesses shown rows ndirs, Inside access) ↔ 2 ≤ rows) ∧
    (2 ≤ rows → ∀ log s, mainCycle.Reach Covered (start rows ndirs) log s →
      (∀ access ∈ log.flatten, Inside access) ∧
      ∀ p t, Scanned s p → p.key = .tab → ¬ Covered s p → mainCycle.step s p = some t →
        ∃ next u, mainCycle.step t next = some u ∧
          ∃ access ∈ accesses t next, ¬ Inside access) := by
  refine ⟨startAccesses_inside_iff listed, fun tall log s run => ?_⟩
  refine ⟨(run_fitting tall listed run).2, fun p t scanned key uncovered pressed => ?_⟩
  exact uncovered_tab scanned key uncovered pressed

end Runs

instance (s : State) (p : Press) : Decidable (Covered s p) := inferInstanceAs (Decidable (_ ∧ _))

/-- There and back with one entry more than the target. -/
theorem reads_inside_back : ∃ log s, mainCycle.Reach Covered (start 24 3) log s ∧
    log.flatten.length = 4 ∧ ∀ access ∈ log.flatten, Inside access := by
  obtain ⟨log, s, run, used⟩ := System.exists_reach mainCycle Covered (start 24 3)
    [pressOn 3 .down, pressOn 3 .down, pressOn 1 .tab, pressOn 3 .tab, pressOn 3 .enter]
    (fun log _ => log.flatten.length = 4) (by decide)
  exact ⟨log, s, run, used, (((reads_inside (by decide)).2 (by decide)) log s run).1⟩

/-- A read of one entry behind the last. -/
def pastEnd : Access → Bool
  | .entry i ndirs => ndirs ≤ i
  | .print .. => false

theorem not_inside_of_pastEnd : ∀ {access : Access}, pastEnd access = true → ¬ Inside access
  | .entry _ _, past => fun inside => absurd inside.2 (Int.not_lt.mpr (of_decide_eq_true past))
  | .print .., past => Bool.noConfusion past

/-- The directory of the left panel has three entries, then one: Enter reads
the third. -/
theorem stale_target : ∃ log s, mainCycle.Reach Scanned (start 24 3) log s ∧
    ∃ access ∈ log.flatten, ¬ Inside access := by
  obtain ⟨log, s, run, found⟩ := System.exists_reach mainCycle Scanned (start 24 3)
    [pressOn 3 .down, pressOn 3 .down, pressOn 3 .tab, pressOn 1 .tab, pressOn 3 .enter]
    (fun log _ => log.flatten.any pastEnd = true) (by decide)
  obtain ⟨access, used, past⟩ := List.any_eq_true.mp found
  exact ⟨log, s, run, access, used, not_inside_of_pastEnd past⟩

end EltexCourse.Guarantees.FakeMc.Listing
