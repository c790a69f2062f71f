import EltexCourse.Source.FakeMc.MainCycle

/-!
# The scrolling window of task9/fake_mc

A key changes the target of one panel by at most one row down, or anywhere up to
row 0, and `refresh_index` follows it. This is said once, as `Shift`; that the
window keeps its height and contains the target follows for every run.
-/

set_option autoImplicit false

namespace EltexCourse.Guarantees.FakeMc.Windows
open Foundations.Transition Foundations.Decimal Source.FakeMc

section Operations

variable {target ndirs : Int} {ind after : Index} {panel moved : Panel} {answers : Answers}

/-- The three ways through `refresh_index`. -/
theorem refreshIndex_cases (refreshed : refreshIndex ind target = some after) :
    (target < ind.up ∧ after.up = target ∧ after.down = ind.down - (ind.up - target)) ∨
    (ind.up ≤ target ∧ target = ind.down ∧ after.up = ind.up + 1 ∧ after.down = ind.down + 1) ∨
    (ind.up ≤ target ∧ target ≠ ind.down ∧ after = ind) := by
  unfold refreshIndex at refreshed
  split at refreshed
  · next above =>
    simp only [Option.bind_eq_bind, Option.bind_eq_some_iff, int_eq_some, Option.some.injEq]
      at refreshed
    obtain ⟨gap, ⟨rfl, -⟩, down, ⟨rfl, -⟩, rfl⟩ := refreshed
    exact .inl ⟨above, rfl, rfl⟩
  · next notAbove =>
    split at refreshed
    · next below =>
      simp only [Option.bind_eq_bind, Option.bind_eq_some_iff, int_eq_some, Option.some.injEq]
        at refreshed
      obtain ⟨down, ⟨rfl, -⟩, up, ⟨rfl, -⟩, rfl⟩ := refreshed
      exact .inr (.inl ⟨by omega, below, rfl, rfl⟩)
    · next notBelow =>
      cases refreshed
      exact .inr (.inr ⟨by omega, notBelow, rfl⟩)

/-- What a key does to the panel it is for. -/
structure Shift (panel moved : Panel) : Prop where
  nonneg : 0 ≤ panel.target → 0 ≤ moved.target
  step : 0 ≤ panel.target → moved.target ≤ panel.target + 1
  refreshed : refreshIndex panel.ind moved.target = some moved.ind

theorem moveDown_cases (down : moveDown ndirs panel = some moved) :
    Shift panel moved ∧
      (panel.target = ndirs - 1 ∧ moved.target = panel.target ∨
        panel.target ≠ ndirs - 1 ∧ moved.target = panel.target + 1) := by
  simp only [moveDown, Option.bind_eq_bind, Option.bind_eq_some_iff, int_eq_some,
    Option.some.injEq] at down
  obtain ⟨last, ⟨isLast, -⟩, target, ⟨sum, -⟩, ind, refreshed, rfl⟩ := down
  split at sum
  · next atLast =>
    have same : target = panel.target := by omega
    refine ⟨⟨fun nonneg => ?_, fun _ => ?_, refreshed⟩, .inl ⟨by omega, same⟩⟩
    · exact same ▸ nonneg
    · exact Int.le_trans (Int.le_of_eq same) (by omega)
  · next before =>
    refine ⟨⟨fun nonneg => ?_, fun _ => Int.le_of_eq sum, refreshed⟩, .inr ⟨by omega, sum⟩⟩
    exact Int.le_trans (by omega) (Int.le_of_eq sum.symm)

theorem moveUp_cases (up : moveUp panel = some moved) :
    Shift panel moved ∧ moved.target ≤ panel.target := by
  simp only [moveUp, Option.bind_eq_bind, Option.bind_eq_some_iff, int_eq_some,
    Option.some.injEq] at up
  obtain ⟨target, ⟨difference, -⟩, ind, refreshed, rfl⟩ := up
  have notBelow : target ≤ panel.target := by
    split at difference <;> omega
  refine ⟨⟨fun nonneg => ?_, fun _ => ?_, refreshed⟩, notBelow⟩
  · have inside : 0 ≤ target := by
      split at difference <;> omega
    exact inside
  · exact Int.le_trans notBelow (by omega)

theorem openDir_entered (opened : openDir panel answers = some (.entered ndirs moved)) :
    Shift panel moved ∧ moved.target = 0 ∧ ndirs = answers.scan ∧ 0 ≤ answers.scan := by
  unfold openDir at opened
  split at opened
  · cases opened
  · cases opened
  · split at opened
    · cases opened
    · next scanned =>
      simp only [Option.bind_eq_bind, Option.bind_eq_some_iff, Option.some.injEq,
        Opened.entered.injEq] at opened
      obtain ⟨ind, refreshed, rfl, rfl⟩ := opened
      refine ⟨⟨fun _ => Int.le_refl 0, fun nonneg => ?_, refreshed⟩, rfl, rfl, by omega⟩
      exact Int.le_add_one nonneg

end Operations

section Keys

variable {s t : State} {p : Press} {panel : Panel} {side : Side}

/-- What one key can do. -/
theorem press_cases (pressed : press s p = some t) :
    s.running = true ∧
    ((p.key = .down ∧ ∃ panel, moveDown s.ndirs s.focused = some panel ∧ t = s.setFocused panel) ∨
     (p.key = .up ∧ ∃ panel, moveUp s.focused = some panel ∧ t = s.setFocused panel) ∨
     (p.key = .enter ∧ ∃ opened, openDir s.focused p.answers = some opened ∧
        t = s.afterOpen opened) ∨
     (p.key = .tab ∧ t = s.rescan p.answers.scan) ∨
     (p.key = .quit ∧ t = { s with running := false }) ∨
     (p.key = .other ∧ t = s)) := by
  unfold press at pressed
  split at pressed
  · next running =>
    refine ⟨running, ?_⟩
    split at pressed
    · next key =>
      obtain ⟨panel, moved, rfl⟩ := Option.map_eq_some_iff.mp pressed
      exact .inl ⟨key, panel, moved, rfl⟩
    · next key =>
      obtain ⟨panel, moved, rfl⟩ := Option.map_eq_some_iff.mp pressed
      exact .inr (.inl ⟨key, panel, moved, rfl⟩)
    · next key =>
      obtain ⟨opened, opens, rfl⟩ := Option.map_eq_some_iff.mp pressed
      exact .inr (.inr (.inl ⟨key, opened, opens, rfl⟩))
    · next key =>
      cases pressed
      exact .inr (.inr (.inr (.inl ⟨key, rfl⟩)))
    · next key =>
      cases pressed
      exact .inr (.inr (.inr (.inr (.inl ⟨key, rfl⟩))))
    · next key =>
      cases pressed
      exact .inr (.inr (.inr (.inr (.inr ⟨key, rfl⟩))))
  · cases pressed

/-- The other panel stays as it is. -/
theorem setFocused_panel :
    (s.setFocused panel).panel side = s.panel side ∨
      side = s.cnd ∧ (s.setFocused panel).panel side = panel := by
  by_cases own : side = s.cnd
  · subst own
    exact .inr ⟨rfl, Function.update_self ..⟩
  · exact .inl (Function.update_of_ne own ..)

/-- A panel that a key changes is shifted. -/
theorem press_panel (pressed : press s p = some t) (side : Side) :
    t.panel side = s.panel side ∨ Shift (s.panel side) (t.panel side) := by
  have shifted : ∀ moved, Shift s.focused moved →
      (s.setFocused moved).panel side = s.panel side ∨
        Shift (s.panel side) ((s.setFocused moved).panel side) := by
    intro moved shift
    have chosen : (s.setFocused moved).panel side = s.panel side ∨
        side = s.cnd ∧ (s.setFocused moved).panel side = moved := setFocused_panel
    rcases chosen with same | ⟨rfl, new⟩
    · exact .inl same
    · rw [new]
      exact .inr shift
  obtain ⟨-, ⟨-, moved, down, rfl⟩ | ⟨-, moved, up, rfl⟩ | ⟨-, opened, opens, rfl⟩ | ⟨-, rfl⟩ |
    ⟨-, rfl⟩ | ⟨-, rfl⟩⟩ := press_cases pressed
  · exact shifted moved (moveDown_cases down).1
  · exact shifted moved (moveUp_cases up).1
  · cases opened with
    | failed => exact .inl rfl
    | unchanged => exact .inl rfl
    | entered ndirs moved => exact shifted moved (openDir_entered opens).1
  · exact .inl rfl
  · exact .inl rfl
  · exact .inl rfl

end Keys

/-- The window contains the target and keeps its height. -/
structure Window (rows : Int) (panel : Panel) : Prop where
  top : 0 ≤ panel.ind.up
  above : panel.ind.up ≤ panel.target
  below : panel.target < panel.ind.down
  height : panel.ind.down - panel.ind.up = rows - 2

section Runs

variable {rows ndirs target : Int} {panel moved : Panel} {s t : State} {p : Press}
  {log : List (List Access)}

theorem start_window (tall : 1 ≤ rows - 2) (side : Side) :
    Window rows ((start rows ndirs).panel side) := by
  constructor
  · exact Int.le_refl 0
  · exact Int.le_refl 0
  · exact Int.lt_of_lt_of_le Int.zero_lt_one tall
  · exact Int.sub_zero _

theorem Window.shift (window : Window rows panel) (tall : 1 ≤ rows - 2)
    (shift : Shift panel moved) : Window rows moved := by
  have above := window.above
  have below := window.below
  have height := window.height
  have top := window.top
  have nonneg := shift.nonneg (by omega)
  have step := shift.step (by omega)
  rcases refreshIndex_cases shift.refreshed with ⟨higher, up, down⟩ | ⟨under, atEnd, up, down⟩ |
    ⟨under, inside, same⟩
  · constructor <;> omega
  · constructor <;> omega
  · rw [← same] at above below height top under inside
    constructor <;> omega

/-- No `int` leaves its range while the target is small. -/
theorem Window.refreshIndex_defined (window : Window rows panel) (tall : 1 ≤ rows - 2)
    (nonneg : 0 ≤ target) (step : target ≤ panel.target + 1)
    (few : panel.target + rows < 2 ^ 31) : ∃ after, refreshIndex panel.ind target = some after := by
  have above := window.above
  have below := window.below
  have height := window.height
  have top := window.top
  unfold refreshIndex
  split
  · next higher =>
    rw [int_of_isInt (by unfold IsInt; omega)]
    simp only [Option.bind_eq_bind, Option.bind_some]
    rw [int_of_isInt (by unfold IsInt; omega)]
    exact ⟨_, rfl⟩
  · split
    · rw [int_of_isInt (by unfold IsInt; omega), int_of_isInt (by unfold IsInt; omega)]
      exact ⟨_, rfl⟩
    · exact ⟨_, rfl⟩

theorem Window.moveDown_defined (window : Window rows panel) (tall : 1 ≤ rows - 2)
    (listed : 1 ≤ ndirs) (fits : IsInt ndirs) (few : panel.target + rows < 2 ^ 31) :
    ∃ moved, moveDown ndirs panel = some moved := by
  have inside := window.top.trans window.above
  unfold IsInt at fits
  unfold moveDown
  rw [int_of_isInt (by unfold IsInt; omega)]
  simp only [Option.bind_eq_bind, Option.bind_some]
  rw [int_of_isInt (by unfold IsInt; split <;> omega)]
  obtain ⟨after, refreshed⟩ := window.refreshIndex_defined tall
    (show 0 ≤ panel.target + if panel.target = ndirs - 1 then 0 else 1 by split <;> omega)
    (by split <;> omega) few
  rw [Option.bind_some, refreshed]
  exact ⟨_, rfl⟩

theorem Window.moveUp_defined (window : Window rows panel) (tall : 1 ≤ rows - 2)
    (few : panel.target + rows < 2 ^ 31) : ∃ moved, moveUp panel = some moved := by
  have inside := window.top.trans window.above
  unfold moveUp
  rw [int_of_isInt (by unfold IsInt; split <;> omega)]
  obtain ⟨after, refreshed⟩ := window.refreshIndex_defined tall
    (show 0 ≤ panel.target - if panel.target = 0 then 0 else 1 by split <;> omega)
    (by split <;> omega) few
  simp only [Option.bind_eq_bind, Option.bind_some]
  rw [refreshed]
  exact ⟨_, rfl⟩

theorem Window.openDir_defined (window : Window rows panel) (tall : 1 ≤ rows - 2)
    (few : panel.target + rows < 2 ^ 31) (answers : Answers) :
    ∃ opened, openDir panel answers = some opened := by
  have inside := window.top.trans window.above
  obtain ⟨after, refreshed⟩ := window.refreshIndex_defined tall (Int.le_refl 0) (by omega) few
  unfold openDir
  split
  · exact ⟨_, rfl⟩
  · exact ⟨_, rfl⟩
  · split
    · exact ⟨_, rfl⟩
    · rw [refreshed]
      exact ⟨_, rfl⟩

theorem Window.press_defined (window : Window rows s.focused) (tall : 1 ≤ rows - 2)
    (running : s.running = true) (listed : 1 ≤ s.ndirs) (fits : IsInt s.ndirs)
    (few : s.focused.target + rows < 2 ^ 31) (p : Press) : ∃ t, press s p = some t := by
  obtain ⟨down, movesDown⟩ := window.moveDown_defined tall listed fits few
  obtain ⟨up, movesUp⟩ := window.moveUp_defined tall few
  obtain ⟨opened, opens⟩ := window.openDir_defined tall few p.answers
  unfold press
  rw [if_pos running]
  split
  · rw [movesDown]
    exact ⟨_, rfl⟩
  · rw [movesUp]
    exact ⟨_, rfl⟩
  · rw [opens]
    exact ⟨_, rfl⟩
  · exact ⟨_, rfl⟩
  · exact ⟨_, rfl⟩
  · exact ⟨_, rfl⟩

/-- What `ndirs` can become. -/
theorem press_ndirs (pressed : press s p = some t) :
    t.ndirs = s.ndirs ∨ t.ndirs = p.answers.scan := by
  obtain ⟨-, ⟨-, moved, down, rfl⟩ | ⟨-, moved, up, rfl⟩ | ⟨-, opened, opens, rfl⟩ | ⟨-, rfl⟩ |
    ⟨-, rfl⟩ | ⟨-, rfl⟩⟩ := press_cases pressed
  · exact .inl rfl
  · exact .inl rfl
  · cases opened with
    | failed => exact .inl rfl
    | unchanged => exact .inl rfl
    | entered ndirs moved => exact .inr (openDir_entered opens).2.2.1
  · exact .inr rfl
  · exact .inl rfl
  · exact .inl rfl

/-- The listing has entries, and no target is below the keys pressed. -/
structure Kept (rows : Int) (log : List (List Access)) (s : State) : Prop where
  window : ∀ side, Window rows (s.panel side)
  pressed : ∀ side, (s.panel side).target ≤ log.length
  listed : 1 ≤ s.ndirs ∧ IsInt s.ndirs

theorem run_kept (tall : 1 ≤ rows - 2) (listed : 1 ≤ ndirs ∧ IsInt ndirs)
    (run : mainCycle.Reach Scanned (start rows ndirs) log s) : Kept rows log s := by
  apply run.invariant (Kept rows)
  · exact ⟨start_window tall, fun _ => Int.le_refl 0, listed⟩
  · intro log s p t kept scanned pressed
    constructor
    · intro side
      rcases press_panel pressed side with same | shift
      · rw [same]
        exact kept.window side
      · exact (kept.window side).shift tall shift
    · intro side
      have before := kept.pressed side
      have grown : ((log ++ mainCycle.emit s p).length : Int) = log.length + 1 := by
        rw [List.length_append]
        exact Int.natCast_add ..
      rcases press_panel pressed side with same | shift
      · rw [same]
        omega
      · have step := shift.step ((kept.window side).top.trans (kept.window side).above)
        omega
    · rcases press_ndirs pressed with same | new
      · exact same ▸ kept.listed
      · exact new ▸ scanned

/-- Both windows contain their target and keep their height in every run, and
no key is without a result as long as the keys pressed and the rows together
stay below the range of `int`. -/
theorem window_kept (tall : 1 ≤ rows - 2) (listed : 1 ≤ ndirs ∧ IsInt ndirs)
    (run : mainCycle.Reach Scanned (start rows ndirs) log s) :
    (∀ side, Window rows (s.panel side)) ∧
      (s.running = true → log.length + rows < 2 ^ 31 → ∀ p, ∃ t, mainCycle.step s p = some t) := by
  have kept := run_kept tall listed run
  refine ⟨kept.window, fun running few p => ?_⟩
  have small := kept.pressed s.cnd
  apply (kept.window s.cnd).press_defined tall running kept.listed.1 kept.listed.2
  exact Int.lt_of_le_of_lt (Int.add_le_add_right small rows) few

/-- Every `scandir` finds so many entries. -/
def pressOn (scan : Int) (key : Key) : Press := ⟨key, some true, scan, fun _ => true⟩

/-- Two rows of text: the right panel is scrolled down by a row, then the left
one gets a listing of two entries. -/
theorem window_kept_scrolled : ∃ log s, mainCycle.Reach Scanned (start 4 3) log s ∧
    (s.panel .right = ⟨2, 1, 3⟩ ∧ s.ndirs = 2) ∧ (∀ side, Window 4 (s.panel side)) ∧
    ∃ t, mainCycle.step s (pressOn 7 .enter) = some t := by
  obtain ⟨log, s, run, scrolled⟩ := System.exists_reach mainCycle Scanned (start 4 3)
    [pressOn 5 .tab, pressOn 5 .down, pressOn 5 .down, pressOn 2 .tab]
    (fun log s => log.length = 4 ∧ s.running = true ∧ s.panel .right = ⟨2, 1, 3⟩ ∧ s.ndirs = 2)
    (by decide)
  have kept := window_kept (by decide) (by decide) run
  refine ⟨log, s, run, scrolled.2.2, kept.1, kept.2 scrolled.2.1 ?_ _⟩
  rw [scrolled.1]
  decide

end Runs

end EltexCourse.Guarantees.FakeMc.Windows
