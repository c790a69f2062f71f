import Mathlib.Data.Finset.Prod
import Mathlib.Data.Int.Interval
import Mathlib.Tactic.Linarith
import EltexCourse.Foundations.Walks
import EltexCourse.Source.Matrix.Snail

/-!
# task2: the filled matrix

The four borders are what the loop knows of the matrix: an element has been
assigned if it is not between them. A side is a straight line along one border,
which is then moved; the next one starts where it ended, in the direction
clockwise. As long as the borders make a square, none of the sides goes over
elements that have been assigned, in the last turn of an odd size neither.
-/

set_option autoImplicit false

namespace EltexCourse.Guarantees.Matrix.Snail
open Foundations.Looping Foundations.Walks Source.Matrix

def Inside (n : Int) (c : Cell) : Prop := 0 ≤ c.1 ∧ c.1 < n ∧ 0 ≤ c.2 ∧ c.2 < n

def row (n : Int) : List Cell := (upTo 0 (n - 1)).map fun j => (0, j)

/-- The elements have been assigned once each with 1, 2, … along the walk that
winds inwards from the upper left corner. -/
structure Spiral (n : Int) (s : Snail) : Prop where
  once : s.assigned.Nodup
  all : ∀ c, c ∈ s.assigned ↔ Inside n c
  length : (s.assigned.length : Int) = n * n
  values : ∀ (m : Nat) c, s.assigned[m]? = some c → s.matrix c = some ((m : Int) + 1)
  adjacent : s.assigned.IsChain Adjacent
  winds : ∃ c d, Winds (Inside n) (0, -1) .right s.assigned c d
  first : ∀ j, 0 ≤ j → j < n → s.matrix (0, j) = some (j + 1)

variable {n : Int} {s : Snail} {c : Cell} {d : Direction}

theorem mem_upTo {first last i : Int} : i ∈ upTo first last ↔ first ≤ i ∧ i ≤ last := by
  rw [upTo, List.mem_map]
  constructor
  · rintro ⟨turn, inside, rfl⟩
    have bound := List.mem_range.mp inside
    omega
  · rintro ⟨low, high⟩
    exact ⟨(i - first).toNat, List.mem_range.mpr (by omega), by omega⟩

theorem mem_downTo {first last i : Int} : i ∈ downTo first last ↔ last ≤ i ∧ i ≤ first := by
  rw [downTo, List.mem_map]
  constructor
  · rintro ⟨turn, inside, rfl⟩
    have bound := List.mem_range.mp inside
    omega
  · rintro ⟨low, high⟩
    exact ⟨(first - i).toNat, List.mem_range.mpr (by omega), by omega⟩

/-- Elements that lie one ahead of the other make a straight line, however the loop has
written their indices. -/
theorem map_range_line (d : Direction) (c : Cell) (count : Nat) (cell : Nat → Cell)
    (places : ∀ m, cell m = (c.1 + (m + 1) * d.rows, c.2 + (m + 1) * d.columns)) :
    (List.range count).map cell = List.iterate d.ahead (d.ahead c) count := by
  rw [← List.range_map_iterate]
  refine List.map_congr_left fun m _ => ?_
  rw [← Function.iterate_succ_apply, Direction.iterate_ahead, places, Int.natCast_succ]

/-- The loop over the upper row goes to the right from the element in front of it; the
other three sides are alike. -/
theorem line_right (first last i : Int) : (upTo first last).map (fun j => (i, j)) =
    List.iterate Direction.right.ahead (Direction.right.ahead (i, first - 1))
      (last + 1 - first).toNat := by
  rw [upTo, List.map_map]
  refine map_range_line _ _ _ _ fun m => Prod.ext ?_ ?_ <;>
    simp only [Function.comp_apply, Direction.rows, Direction.columns] <;> omega

theorem line_down (first last j : Int) : (upTo first last).map (fun i => (i, j)) =
    List.iterate Direction.down.ahead (Direction.down.ahead (first - 1, j))
      (last + 1 - first).toNat := by
  rw [upTo, List.map_map]
  refine map_range_line _ _ _ _ fun m => Prod.ext ?_ ?_ <;>
    simp only [Function.comp_apply, Direction.rows, Direction.columns] <;> omega

theorem line_left (first last i : Int) : (downTo first last).map (fun j => (i, j)) =
    List.iterate Direction.left.ahead (Direction.left.ahead (i, first + 1))
      (first + 1 - last).toNat := by
  rw [downTo, List.map_map]
  refine map_range_line _ _ _ _ fun m => Prod.ext ?_ ?_ <;>
    simp only [Function.comp_apply, Direction.rows, Direction.columns] <;> omega

theorem line_up (first last j : Int) : (downTo first last).map (fun i => (i, j)) =
    List.iterate Direction.up.ahead (Direction.up.ahead (first + 1, j))
      (first + 1 - last).toNat := by
  rw [downTo, List.map_map]
  refine map_range_line _ _ _ _ fun m => Prod.ext ?_ ?_ <;>
    simp only [Function.comp_apply, Direction.rows, Direction.columns] <;> omega

/-- The counter and the elements, by the list of those that have been assigned. -/
structure Filled (s : Snail) : Prop where
  cnt : s.cnt = s.assigned.length + 1
  values : ∀ (m : Nat) c, s.assigned[m]? = some c → s.matrix c = some ((m : Int) + 1)

theorem length_le {cells : List Cell} (once : cells.Nodup) (inside : ∀ c ∈ cells, Inside n c) :
    (cells.length : Int) ≤ n.toNat * n.toNat := by
  have part : cells.toFinset ⊆ Finset.Ico 0 n ×ˢ Finset.Ico 0 n := by
    intro c mem
    obtain ⟨low, high, low', high'⟩ := inside c (List.mem_toFinset.mp mem)
    rw [Finset.mem_product, Finset.mem_Ico, Finset.mem_Ico]
    exact ⟨⟨low, high⟩, low', high'⟩
  have card := Finset.card_le_card part
  rw [List.toFinset_card_of_nodup once, Finset.card_product, Int.card_Ico, Int.sub_zero] at card
  exact_mod_cast card

/-- The counter stays within an `int`: a square below 2^31 is below 2^31 - 2. -/
theorem cnt_fits (positive : 1 ≤ n) (fits : n * n < 2 ^ 31) {cells : List Cell}
    (once : cells.Nodup) (inside : ∀ c ∈ cells, Inside n c) :
    (cells.length : Int) + 1 < 2 ^ 31 := by
  have bound := length_le once inside
  rw [Int.toNat_of_nonneg (by omega)] at bound
  have root : n ≤ 46340 := by
    by_contra large
    have low : 46341 ≤ n := by omega
    have square := mul_le_mul low low (by decide) (by omega)
    omega
  have square := mul_le_mul root root (by omega) (by decide)
  omega

/-- An assignment to an element that has none yet is within the matrix and within `int`,
and keeps the order of the values. -/
theorem assign_free (filled : Filled s) (inside : Inside n c) (new : c ∉ s.assigned)
    (fits : (s.assigned.length : Int) + 2 < 2 ^ 31) :
    ∃ matrix,
      assign n s c = some { s with matrix, cnt := s.cnt + 1, assigned := s.assigned ++ [c] } ∧
      Filled { s with matrix, cnt := s.cnt + 1, assigned := s.assigned ++ [c] } := by
  have counts := filled.cnt
  refine ⟨_, if_pos ⟨inside.1, inside.2.1, inside.2.2.1, inside.2.2.2, by omega⟩, ?_, ?_⟩
  · show s.cnt + 1 = ((s.assigned ++ [c]).length : Int) + 1
    rw [counts, List.length_append, List.length_singleton, Int.natCast_add]
    rfl
  · intro m b place
    show (if b.1 = c.1 ∧ b.2 = c.2 then some s.cnt else s.matrix b) = _
    rcases Nat.lt_or_ge m s.assigned.length with before | behind
    · have earlier : s.assigned[m]? = some b := by
        rw [← List.getElem?_append_left before]
        exact place
      rw [if_neg, filled.values m b earlier]
      rintro ⟨sameRow, sameColumn⟩
      exact new (Prod.ext sameRow sameColumn ▸ List.mem_of_getElem? earlier)
    · have last : (s.assigned ++ [c])[m]? = some b := place
      rw [List.getElem?_append_right behind, List.getElem?_singleton] at last
      have isLast : m - s.assigned.length = 0 := by
        by_contra later
        simp [later] at last
      rw [if_pos isLast] at last
      have same : m = s.assigned.length := by omega
      rw [← Option.some.inj last, if_pos ⟨rfl, rfl⟩, counts, same]

/-- A side over elements of the matrix that have not been assigned yet is filled to its
end. -/
theorem fill_free {cells : List Cell} (positive : 1 ≤ n) (fits : n * n < 2 ^ 31)
    (filled : Filled s) (once : (s.assigned ++ cells).Nodup)
    (inside : ∀ c ∈ s.assigned ++ cells, Inside n c) :
    ∃ matrix cnt,
      fill n s cells = some { s with matrix, cnt, assigned := s.assigned ++ cells } ∧
      Filled { s with matrix, cnt, assigned := s.assigned ++ cells } := by
  induction cells generalizing s with
  | nil =>
    rw [List.append_nil]
    exact ⟨s.matrix, s.cnt, rfl, filled⟩
  | cons c cells ih =>
    rw [List.append_cons] at once inside
    have onceNow := once.sublist (List.sublist_append_left (s.assigned ++ [c]) cells)
    have insideNow : ∀ b ∈ s.assigned ++ [c], Inside n b := fun b mem =>
      inside b (List.mem_append_left cells mem)
    have new : c ∉ s.assigned := by
      rw [← List.concat_eq_append, List.nodup_concat] at onceNow
      exact onceNow.1
    have counts := cnt_fits positive fits onceNow insideNow
    rw [List.length_append, List.length_singleton] at counts
    obtain ⟨_, assigned, filledNow⟩ := assign_free filled
      (insideNow c (List.mem_append_right _ (List.mem_singleton_self c))) new (by omega)
    obtain ⟨matrix, cnt, rest, filledThen⟩ := ih filledNow once inside
    refine ⟨matrix, cnt, ?_, ?_⟩
    · rw [fill, List.foldlM_cons, assigned]
      show fill n _ cells = _
      rw [rest, List.append_cons s.assigned c cells]
    · rw [List.append_cons s.assigned c cells]
      exact filledThen

/-- Between the borders. -/
def Remaining (s : Snail) (c : Cell) : Prop :=
  s.top ≤ c.1 ∧ c.1 ≤ s.buttom ∧ s.left ≤ c.2 ∧ c.2 ≤ s.right

/-- The borders are in the matrix, what is not between them has been assigned,
and the walk has come to `c` and looks to `d`. -/
structure Framed (n : Int) (s : Snail) (c : Cell) (d : Direction) : Prop where
  top : 0 ≤ s.top
  buttom : s.buttom < n
  left : 0 ≤ s.left
  right : s.right < n
  filled : Filled s
  assigned : ∀ b, b ∈ s.assigned ↔ Inside n b ∧ ¬ Remaining s b
  winds : Winds (Inside n) (0, -1) .right s.assigned c d

theorem Framed.turn (framed : Framed n s c d) (blocked : ¬ Remaining s (d.ahead c)) :
    Framed n s c d.turn := by
  refine { framed with winds := framed.winds.turn ?_ }
  rintro ⟨inside, new⟩
  exact new ((framed.assigned _).mpr ⟨inside, blocked⟩)

/-- A side is a straight line of what is between the borders and will not be when
one of them has been moved. -/
theorem Framed.side (positive : 1 ≤ n) (fits : n * n < 2 ^ 31) (framed : Framed n s c d)
    {cells : List Cell} {count : Nat} (line : cells = List.iterate d.ahead (d.ahead c) count)
    (top buttom left right : Int)
    (moved : s.top ≤ top ∧ buttom ≤ s.buttom ∧ s.left ≤ left ∧ right ≤ s.right)
    (between : ∀ b, b ∈ cells ↔
      Remaining s b ∧ ¬ Remaining { s with top, buttom, left, right } b) :
    ∃ matrix cnt,
      fill n s cells = some { s with matrix, cnt, assigned := s.assigned ++ cells } ∧
      Framed n { s with matrix, cnt, top, buttom, left, right, assigned := s.assigned ++ cells }
        (d.ahead^[count] c) d := by
  have low := framed.top
  have high := framed.buttom
  have low' := framed.left
  have high' := framed.right
  have inside : ∀ b, Remaining s b → Inside n b := by
    unfold Remaining Inside
    omega
  have winds := framed.winds.straight fun b mem => by
    have here := ((between b).mp (line ▸ mem)).1
    exact ⟨inside b here, fun visited => ((framed.assigned b).mp visited).2 here⟩
  rw [← line] at winds
  obtain ⟨matrix, cnt, fills, filled⟩ :=
    fill_free positive fits framed.filled winds.nodup winds.inside
  refine ⟨matrix, cnt, fills, by dsimp only; omega, by dsimp only; omega, by dsimp only; omega,
    by dsimp only; omega, ⟨filled.cnt, filled.values⟩, fun b => ?_, winds⟩
  have fewer : Remaining { s with top, buttom, left, right } b → Remaining s b := by
    unfold Remaining
    dsimp only
    omega
  have within := inside b
  show b ∈ s.assigned ++ cells ↔
    Inside n b ∧ ¬ Remaining { s with top, buttom, left, right } b
  rw [List.mem_append, framed.assigned, between]
  constructor
  · rintro (⟨inside, outside⟩ | ⟨here, left⟩)
    · exact ⟨inside, fun still => outside (fewer still)⟩
    · exact ⟨within here, left⟩
  · rintro ⟨inside, left⟩
    by_cases here : Remaining s b
    · exact Or.inr ⟨here, left⟩
    · exact Or.inl ⟨inside, here⟩

theorem mem_row {i : Int} {columns : List Int} :
    c ∈ columns.map (fun j => (i, j)) ↔ c.1 = i ∧ c.2 ∈ columns := by
  rw [List.mem_map]
  constructor
  · rintro ⟨j, mem, rfl⟩
    exact ⟨rfl, mem⟩
  · rintro ⟨same, mem⟩
    exact ⟨c.2, mem, Prod.ext same.symm rfl⟩

theorem mem_column {j : Int} {rows : List Int} :
    c ∈ rows.map (fun i => (i, j)) ↔ c.2 = j ∧ c.1 ∈ rows := by
  rw [List.mem_map]
  constructor
  · rintro ⟨i, mem, rfl⟩
    exact ⟨rfl, mem⟩
  · rintro ⟨same, mem⟩
    exact ⟨c.1, mem, Prod.ext rfl same.symm⟩

/-- The first side of a turn. It leaves the walk at the upper right corner, looking
down, with the upper border one lower. -/
theorem topRow_framed (positive : 1 ≤ n) (fits : n * n < 2 ^ 31)
    (framed : Framed n s (s.top, s.left - 1) .right) (rows : s.top ≤ s.buttom)
    (columns : s.left ≤ s.right) :
    ∃ t, topRow n s = some t ∧ Framed n t (t.top - 1, t.right) .down ∧ t.top = s.top + 1 ∧
      t.buttom = s.buttom ∧ t.left = s.left ∧ t.right = s.right ∧
      t.assigned = s.assigned ++ (upTo s.left s.right).map fun j => (s.top, j) := by
  obtain ⟨matrix, cnt, fills, after⟩ := framed.side positive fits
    (line_right s.left s.right s.top) (s.top + 1) s.buttom s.left s.right (by omega) fun b => by
      rw [mem_row, mem_upTo]
      unfold Remaining
      dsimp only
      omega
  have place : Direction.right.ahead^[(s.right + 1 - s.left).toNat] (s.top, s.left - 1) =
      (s.top + 1 - 1, s.right) := by
    rw [Direction.iterate_ahead]
    refine Prod.ext ?_ ?_ <;> simp only [Direction.rows, Direction.columns] <;> omega
  rw [place] at after
  refine ⟨_, by rw [topRow, fills]; rfl, after.turn ?_, rfl, rfl, rfl, rfl, rfl⟩
  unfold Remaining Direction.ahead
  simp only [Direction.rows, Direction.columns]
  omega

theorem rightColumn_framed (positive : 1 ≤ n) (fits : n * n < 2 ^ 31)
    (framed : Framed n s (s.top - 1, s.right) .down) (rows : s.top ≤ s.buttom + 1)
    (columns : s.left ≤ s.right) :
    ∃ t, rightColumn n s = some t ∧ Framed n t (t.buttom, t.right + 1) .left ∧ t.top = s.top ∧
      t.buttom = s.buttom ∧ t.left = s.left ∧ t.right = s.right - 1 ∧
      s.assigned <+: t.assigned := by
  obtain ⟨matrix, cnt, fills, after⟩ := framed.side positive fits
    (line_down s.top s.buttom s.right) s.top s.buttom s.left (s.right - 1) (by omega) fun b => by
      rw [mem_column, mem_upTo]
      unfold Remaining
      dsimp only
      omega
  have place : Direction.down.ahead^[(s.buttom + 1 - s.top).toNat] (s.top - 1, s.right) =
      (s.buttom, s.right - 1 + 1) := by
    rw [Direction.iterate_ahead]
    refine Prod.ext ?_ ?_ <;> simp only [Direction.rows, Direction.columns] <;> omega
  rw [place] at after
  refine ⟨_, by rw [rightColumn, fills]; rfl, after.turn ?_, rfl, rfl, rfl, rfl,
    List.prefix_append _ _⟩
  unfold Remaining Direction.ahead
  simp only [Direction.rows, Direction.columns]
  omega

/-- If nothing is left of the rows, nothing is left of the columns. -/
theorem buttomRow_framed (positive : 1 ≤ n) (fits : n * n < 2 ^ 31)
    (framed : Framed n s (s.buttom, s.right + 1) .left)
    (square : s.buttom - s.top = s.right - s.left) (columns : s.left ≤ s.right + 1) :
    ∃ t, buttomRow n s = some t ∧ Framed n t (t.buttom + 1, t.left) .up ∧ t.top = s.top ∧
      t.buttom = s.buttom - 1 ∧ t.left = s.left ∧ t.right = s.right ∧
      s.assigned <+: t.assigned := by
  obtain ⟨matrix, cnt, fills, after⟩ := framed.side positive fits
    (line_left s.right s.left s.buttom) s.top (s.buttom - 1) s.left s.right (by omega) fun b => by
      rw [mem_row, mem_downTo]
      unfold Remaining
      dsimp only
      omega
  have place : Direction.left.ahead^[(s.right + 1 - s.left).toNat] (s.buttom, s.right + 1) =
      (s.buttom - 1 + 1, s.left) := by
    rw [Direction.iterate_ahead]
    refine Prod.ext ?_ ?_ <;> simp only [Direction.rows, Direction.columns] <;> omega
  rw [place] at after
  refine ⟨_, by rw [buttomRow, fills]; rfl, after.turn ?_, rfl, rfl, rfl, rfl,
    List.prefix_append _ _⟩
  unfold Remaining Direction.ahead
  simp only [Direction.rows, Direction.columns]
  omega

/-- The walk is where the next turn begins, if there is one. -/
theorem leftColumn_framed (positive : 1 ≤ n) (fits : n * n < 2 ^ 31)
    (framed : Framed n s (s.buttom + 1, s.left) .up)
    (square : s.buttom - s.top + 1 = s.right - s.left) :
    ∃ t e, leftColumn n s = some t ∧ Framed n t e .right ∧
      (t.top ≤ t.buttom → e = (t.top, t.left - 1)) ∧ t.top = s.top ∧
      t.buttom = s.buttom ∧ t.left = s.left + 1 ∧ t.right = s.right ∧
      s.assigned <+: t.assigned := by
  obtain ⟨matrix, cnt, fills, after⟩ := framed.side positive fits
    (line_up s.buttom s.top s.left) s.top s.buttom (s.left + 1) s.right (by omega) fun b => by
      rw [mem_column, mem_downTo]
      unfold Remaining
      dsimp only
      omega
  refine ⟨_, _, by rw [leftColumn, fills]; rfl, after.turn ?_, fun goesOn => ?_, rfl, rfl, rfl, rfl,
    List.prefix_append _ _⟩
  · rw [Direction.iterate_ahead]
    unfold Remaining Direction.ahead
    simp only [Direction.rows, Direction.columns]
    omega
  · dsimp only at goesOn ⊢
    rw [Direction.iterate_ahead]
    refine Prod.ext ?_ ?_ <;> simp only [Direction.rows, Direction.columns] <;> omega

/-- The state in which the condition of the loop is evaluated. -/
structure Ready (n : Int) (s : Snail) : Prop where
  square : s.buttom - s.top = s.right - s.left
  framed : ∃ c, Framed n s c .right ∧ (s.top ≤ s.buttom → c = (s.top, s.left - 1))
  first : s = start n ∨ row n <+: s.assigned

/-- Before the first turn nothing has been assigned, everything is between the borders,
and the walk stands in front of the first element. -/
theorem ready_start (n : Int) : Ready n (start n) := by
  refine ⟨rfl, ⟨(0, -1), ⟨Int.le_refl 0, ?_, Int.le_refl 0, ?_, ⟨rfl, ?_⟩, fun b => ?_, .enter⟩,
    fun _ => rfl⟩, Or.inl rfl⟩
  · show n - 1 < n
    omega
  · show n - 1 < n
    omega
  · intro m c none
    cases none
  · refine iff_of_false List.not_mem_nil fun outside => outside.2 ?_
    unfold Inside at outside
    unfold Remaining start
    dsimp only
    omega

/-- A turn fills its four sides and ends where the next begins, with the borders closer.
The first one has filled row 0, which stays in front. -/
theorem ready_turn (positive : 1 ≤ n) (fits : n * n < 2 ^ 31) (ready : Ready n s)
    (goesOn : s.top ≤ s.buttom) :
    ∃ t, turn n s = some (.next t) ∧ Ready n t ∧ t.buttom - t.top < s.buttom - s.top := by
  have square := ready.square
  obtain ⟨c, framed, place⟩ := ready.framed
  rw [place goesOn] at framed
  obtain ⟨a, atTop, framed, top, buttom, left, right, assigned⟩ :=
    topRow_framed positive fits framed goesOn (by omega)
  obtain ⟨b, atRight, framed, top', buttom', left', right', kept⟩ :=
    rightColumn_framed positive fits framed (by omega) (by omega)
  obtain ⟨e, atButtom, framed, top'', buttom'', left'', right'', kept'⟩ :=
    buttomRow_framed positive fits framed (by omega) (by omega)
  obtain ⟨t, came, atLeft, framed, place, top₃, buttom₃, left₃, right₃, kept''⟩ :=
    leftColumn_framed positive fits framed (by omega)
  refine ⟨t, ?_, ⟨by omega, ⟨came, framed, place⟩, Or.inr ?_⟩, by omega⟩
  · rw [turn, if_pos ⟨goesOn, by omega⟩, atTop]
    show (rightColumn n a).bind _ = _
    rw [atRight]
    show (buttomRow n b).bind _ = _
    rw [atButtom]
    show (leftColumn n e).bind _ = _
    rw [atLeft]
    rfl
  · refine List.IsPrefix.trans ?_ (kept.trans (kept'.trans kept''))
    rw [assigned]
    rcases ready.first with isStart | before
    · rw [isStart]
      exact List.prefix_rfl
    · exact before.trans (List.prefix_append _ _)

theorem turn_past (past : s.buttom < s.top) : turn n s = some (.stop s) := by
  rw [turn, if_neg (by omega)]

/-- The borders come closer in every turn. -/
theorem ends (positive : 1 ≤ n) (fits : n * n < 2 ^ 31) (ready : Ready n s) :
    ∃ t, (∀ other, Ends (turn n) s other ↔ other = t) ∧ Ready n t ∧ t.buttom < t.top := by
  obtain ⟨turns, bound⟩ : ∃ turns : Nat, s.buttom - s.top < turns :=
    ⟨(s.buttom - s.top + 1).toNat, by omega⟩
  induction turns generalizing s with
  | zero =>
    have past : s.buttom < s.top := by omega
    exact ⟨s, fun other => ends_stop (turn_past past), ready, past⟩
  | succ turns ih =>
    rcases lt_or_ge s.buttom s.top with past | goesOn
    · exact ⟨s, fun other => ends_stop (turn_past past), ready, past⟩
    · obtain ⟨next, takes, readyNext, closer⟩ := ready_turn positive fits ready goesOn
      obtain ⟨t, only, holds⟩ := ih readyNext (by omega)
      exact ⟨t, fun other => (ends_next takes).trans (only other), holds⟩

theorem getElem?_row {m : Nat} (inside : m < n) : (row n)[m]? = some (0, (m : Int)) := by
  rw [row, upTo, List.map_map, List.getElem?_map, List.getElem?_range (by omega)]
  simp

/-- With nothing left between the borders, what has been assigned is the whole matrix,
and the walk to it is the spiral. -/
theorem Ready.spiral (positive : 1 ≤ n) (ready : Ready n s) (past : s.buttom < s.top) :
    Spiral n s := by
  obtain ⟨c, framed, _⟩ := ready.framed
  have all : ∀ b, b ∈ s.assigned ↔ Inside n b := by
    intro b
    rw [framed.assigned, and_iff_left]
    unfold Remaining
    omega
  have once := framed.winds.nodup
  refine ⟨once, all, ?_, framed.filled.values, framed.winds.adjacent, ⟨c, .right, framed.winds⟩, ?_⟩
  · have whole : s.assigned.toFinset = Finset.Ico 0 n ×ˢ Finset.Ico 0 n := by
      ext b
      rw [List.mem_toFinset, all, Finset.mem_product, Finset.mem_Ico, Finset.mem_Ico, and_assoc]
      rfl
    rw [← List.toFinset_card_of_nodup once, whole, Finset.card_product, Int.card_Ico, Int.sub_zero,
      Nat.cast_mul, Int.toNat_of_nonneg (by omega)]
  · intro j low high
    rcases ready.first with rfl | ⟨rest, split⟩
    · unfold start at past
      dsimp only at past
      omega
    · have place : s.assigned[j.toNat]? = some (0, j) := by
        rw [← split]
        have inside := getElem?_row (n := n) (m := j.toNat) (by omega)
        rw [Int.toNat_of_nonneg low] at inside
        exact List.getElem?_append_left (List.getElem?_eq_some_iff.mp inside).1 |>.trans inside
      have value := framed.filled.values _ _ place
      rwa [Int.toNat_of_nonneg low] at value

/-- For every size whose square is within an `int`, the loop ends, and what it
leaves is the spiral. -/
theorem snail_matrix_spiral (n : Int) (positive : 1 ≤ n) (fits : n * n < 2 ^ 31) :
    ∃ s, (∀ other, Ends (turn n) (start n) other ↔ other = s) ∧ Spiral n s := by
  obtain ⟨s, only, ready, past⟩ := ends positive fits (ready_start n)
  exact ⟨s, only, ready.spiral positive past⟩

theorem snail_matrix_spiral_five :
    ∃ s, (∀ other, Ends (turn 5) (start 5) other ↔ other = s) ∧ Spiral 5 s :=
  snail_matrix_spiral 5 (by decide) (by decide)

end EltexCourse.Guarantees.Matrix.Snail
