import EltexCourse.Source.Substr.FindSubbstr

/-!
# task3: what `find_subbstr` finds

When the loop is at the `i`-th character nothing has been found before it and
the block is what it was. A terminator behind as many characters as the pattern
has makes them a C string, which is compared with the pattern; if it is not the
same, the terminator gives way to what was there. Nothing is said of the bytes
behind the text, of which there may be none.
-/

set_option autoImplicit false

namespace EltexCourse.Guarantees.Substr.Occurrence
open Foundations.CString Foundations.CBuffer Foundations.Looping Source.Substr

/-- The pattern stands in the text at place `k`. -/
def Occurs (pattern text : Text) (k : Nat) : Prop := pattern <+: text.drop k

/-- What is returned and left for a text in its block. -/
structure Outcome (pattern text block : Text) (found : Found) : Prop where
  nowhere : found.1 = none → (∀ k, ¬ Occurs pattern text k) ∧ found.2 = block
  first : ∀ k, found.1 = some k → Occurs pattern text k ∧ (∀ j < k, ¬ Occurs pattern text j) ∧
    found.2 = block.set (k + pattern.length) nul ∧ stringAt found.2 k = some pattern

variable {text pattern post post' front window tail : Text} {k : Nat} {c : Char}

theorem occurs_length (occurs : Occurs pattern text k) (nonempty : pattern ≠ []) :
    k + pattern.length ≤ text.length := by
  have bound := occurs.length_le
  have positive := List.length_pos_iff.mpr nonempty
  rw [List.length_drop] at bound
  omega

theorem occurs_iff (length : window.length = pattern.length) :
    Occurs pattern (front ++ window ++ tail) front.length ↔ window = pattern := by
  rw [Occurs, List.append_assoc, List.drop_left]
  constructor
  · intro occurs
    have part := List.prefix_of_prefix_length_le occurs (List.prefix_append window tail) length.ge
    exact (part.eq_of_length length.symm).symm
  · rintro rfl
    exact List.prefix_append _ _

/-- The characters the pattern is compared with, if there are enough. -/
theorem exists_window (enough : k + pattern.length ≤ text.length) :
    ∃ front window tail, text = front ++ window ++ tail ∧ front.length = k ∧
      window.length = pattern.length := by
  refine ⟨text.take k, (text.drop k).take pattern.length, (text.drop k).drop pattern.length, ?_,
    List.length_take_of_le (by omega), List.length_take_of_le (by rw [List.length_drop]; omega)⟩
  rw [List.append_assoc, List.take_append_drop, List.take_append_drop]

/-- The comparison with `b` behind the window. -/
theorem compared_window (noNul : nul ∉ window) (noNul' : nul ∉ pattern)
    (length : window.length = pattern.length) (b : Char) (rest : Text) :
    compared (pattern ++ nul :: post') pattern.length
      ⟨front ++ window ++ b :: rest, k, front.length⟩ =
      some (if window = pattern then .stop (some front.length, front ++ window ++ nul :: rest)
        else .next ⟨front ++ window ++ b :: rest, k + 1, front.length + 1⟩) := by
  have border : ((front.length : Int) + pattern.length).toNat? = some (front ++ window).length := by
    rw [List.length_append, length]
    rfl
  have string : stringAt (front ++ window ++ nul :: rest) front.length = some window := by
    rw [List.append_assoc]
    exact stringAt_at noNul front rest
  rw [compared]
  simp only [border, getElem?_at, store_at, same, string, stringAt_start noNul',
    Option.bind_eq_bind, Option.bind_some, decide_eq_true_eq]
  split <;> rfl

/-- One turn, on the characters `c :: cs` and with `b` behind them. -/
theorem searchTurn_window {cs : Text} {size : Int} (front post' : Text) (noNul : nul ∉ c :: cs)
    (noNul' : nul ∉ pattern) (length : (c :: cs).length = pattern.length)
    (goesOn : (front.length : Int) ≤ size - pattern.length) (b : Char) (rest : Text) :
    searchTurn (pattern ++ nul :: post') size pattern.length
        ⟨front ++ c :: cs ++ b :: rest, front.length, front.length⟩ =
      some (if c :: cs = pattern then
          .stop (some front.length, front ++ c :: cs ++ nul :: rest)
        else .next ⟨front ++ c :: cs ++ b :: rest, front.length + 1, front.length + 1⟩) := by
  obtain ⟨w, ws, rfl⟩ := List.exists_cons_of_length_pos (by rw [← length]; exact Nat.succ_pos _)
  have first : (front ++ c :: cs ++ b :: rest)[front.length]? = some c := by
    rw [List.append_assoc]
    exact getElem?_at front (cs ++ b :: rest) c
  have wanted : (w :: ws ++ nul :: post')[0]? = some w := rfl
  rw [searchTurn, if_pos goesOn]
  simp only [first, wanted, Option.bind_eq_bind, Option.bind_some]
  by_cases agrees : c = w
  · rw [if_pos agrees]
    exact compared_window noNul noNul' length b rest
  · have differs : c :: cs ≠ w :: ws := fun equal => agrees (List.cons_eq_cons.mp equal).1
    rw [if_neg agrees, if_neg differs]

theorem searchTurn_at (noNul : nul ∉ text) (noNul' : nul ∉ pattern) (nonempty : pattern ≠ [])
    (enough : k + pattern.length ≤ text.length) (post post' : Text) :
    (Occurs pattern text k ∧ ∃ block,
        searchTurn (pattern ++ nul :: post') text.length pattern.length
          ⟨text ++ nul :: post, k, k⟩ = some (.stop (some k, block)) ∧
        block = (text ++ nul :: post).set (k + pattern.length) nul ∧
        stringAt block k = some pattern) ∨
      (¬ Occurs pattern text k ∧
        searchTurn (pattern ++ nul :: post') text.length pattern.length
          ⟨text ++ nul :: post, k, k⟩ = some (.next ⟨text ++ nul :: post, k + 1, k + 1⟩)) := by
  obtain ⟨front, window, tail, rfl, rfl, length⟩ := exists_window enough
  obtain ⟨b, rest, behind⟩ : ∃ b rest, tail ++ nul :: post = b :: rest :=
    List.exists_cons_of_ne_nil (by simp)
  have positive := List.length_pos_iff.mpr nonempty
  obtain ⟨c, cs, rfl⟩ := List.exists_cons_of_length_pos (l := window) (by omega)
  have noNulHere : nul ∉ c :: cs := fun inside =>
    noNul (List.mem_append_left tail (List.mem_append_right front inside))
  have goesOn : (front.length : Int) ≤ (front ++ c :: cs ++ tail).length - pattern.length := by
    omega
  have turn := searchTurn_window front post' noNulHere noNul' length goesOn b rest
  rw [← behind, ← List.append_assoc] at turn
  rw [turn]
  by_cases equal : c :: cs = pattern
  · refine Or.inl ⟨(occurs_iff length).mpr equal, _, by rw [if_pos equal], ?_, ?_⟩
    · rw [List.append_assoc (front ++ c :: cs), behind, ← length, ← List.length_append,
        List.set_append_right _ _ (Nat.le_refl _), Nat.sub_self, List.set_cons_zero]
    · rw [List.append_assoc, ← equal]
      exact stringAt_at noNulHere front rest
  · exact Or.inr ⟨mt (occurs_iff length).mp equal, by rw [if_neg equal]⟩

theorem searchTurn_past (past : text.length < k + pattern.length) (sstr block : Text) :
    searchTurn sstr text.length pattern.length ⟨block, k, k⟩ = some (.stop (none, block)) := by
  rw [searchTurn, if_neg (by dsimp only; omega)]

/-- Nothing occurs where less than the pattern is left. -/
theorem search_past (nonempty : pattern ≠ []) (past : text.length < k + pattern.length)
    (before : ∀ j < k, ¬ Occurs pattern text j) (sstr block : Text) :
    ∃ found, (∀ other, Ends (searchTurn sstr text.length pattern.length) ⟨block, k, k⟩ other ↔
        other = found) ∧
      Outcome pattern text block found := by
  refine ⟨_, fun other => ends_stop (searchTurn_past past _ _), fun _ => ⟨?_, rfl⟩,
    fun _ found => absurd found (by simp)⟩
  intro j occurs
  have fits := occurs_length occurs nonempty
  exact before j (by omega) occurs

/-- What the loop ends with from place `k` on, when nothing occurs before it. -/
theorem search_from (noNul : nul ∉ text) (noNul' : nul ∉ pattern) (nonempty : pattern ≠ [])
    (post post' : Text) (before : ∀ j < k, ¬ Occurs pattern text j) :
    ∃ found, (∀ other, Ends (searchTurn (pattern ++ nul :: post') text.length pattern.length)
        ⟨text ++ nul :: post, k, k⟩ other ↔ other = found) ∧
      Outcome pattern text (text ++ nul :: post) found := by
  obtain ⟨turns, bound⟩ : ∃ turns, text.length < k + pattern.length + turns :=
    ⟨text.length + 1, by omega⟩
  induction turns generalizing k with
  | zero => exact search_past nonempty bound before _ _
  | succ turns ih =>
    rcases Nat.lt_or_ge text.length (k + pattern.length) with past | enough
    · exact search_past nonempty past before _ _
    · rcases searchTurn_at noNul noNul' nonempty enough post post' with
        ⟨occurs, block, stops, changed, string⟩ | ⟨fails, goesOn⟩
      · refine ⟨_, fun other => ends_stop stops, fun found => absurd found (by simp), ?_⟩
        rintro j found
        cases found
        exact ⟨occurs, before, changed, string⟩
      · have beforeNext : ∀ j < k + 1, ¬ Occurs pattern text j := by
          intro j earlier
          rcases Nat.lt_succ_iff_lt_or_eq.mp earlier with earlier | rfl
          · exact before j earlier
          · exact fails
        obtain ⟨found, only, outcome⟩ := ih beforeNext (by omega)
        exact ⟨found, fun other => (ends_next goesOn).trans (only other), outcome⟩

/-- For every text and every pattern, the first occurrence of the pattern or NULL. -/
theorem find_subbstr_first (text pattern post post' : Text) (noNul : nul ∉ text)
    (noNul' : nul ∉ pattern) (nonempty : pattern ≠ []) :
    ∃ found, (∀ other, findSubbstr (text ++ nul :: post) (pattern ++ nul :: post') text.length
        pattern.length other ↔ other = found) ∧
      Outcome pattern text (text ++ nul :: post) found :=
  search_from noNul noNul' nonempty post post' fun j earlier => absurd earlier (Nat.not_lt_zero j)

/-- With nothing behind the terminators. -/
theorem find_subbstr_first_cab :
    ∃ found, (∀ other, findSubbstr (['c', 'a', 'b'] ++ [nul]) (['a', 'b'] ++ [nul]) 3 2 other ↔
        other = found) ∧
      Outcome ['a', 'b'] ['c', 'a', 'b'] (['c', 'a', 'b'] ++ [nul]) found :=
  find_subbstr_first ['c', 'a', 'b'] ['a', 'b'] [] [] (by decide) (by decide) (by decide)

end EltexCourse.Guarantees.Substr.Occurrence
