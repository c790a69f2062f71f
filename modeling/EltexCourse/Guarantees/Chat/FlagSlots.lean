import EltexCourse.Source.Chat.FlagSlots

/-!
# task14/chat: whose flag `broadcast` marks

The constant is 1 more than a multiple of 30, so the slot of a client is the
remainder of its pid. `broadcast` computes the remainder of what is left of the
product in 32 bits: a multiple of 2^32 has been taken away, which is no multiple
of 30 unless it is one of 15 * 2^32, and what is left may be negative.
-/

set_option autoImplicit false

namespace EltexCourse.Guarantees.Chat.FlagSlots
open Source.Chat.FlagSlots Source.Chat.SharedMemory

/-- One slot of `am_i_read`, computed in all three places. -/
def SlotsAgree (pid : Int) : Prop :=
  ∃ i, messageHandlerId pid = some i ∧ shairDatabaseId pid = some i ∧
    broadcastId pid = some i ∧ 0 ≤ i ∧ i < 50

/-- The product lies behind a multiple of 15 * 2^32, by less than 2^31; or in
front of one, by at most that, for a pid that is a multiple of 30. -/
def NearMultiple (pid : Int) : Prop :=
  (∃ m : Int, 15 * 2 ^ 32 * m ≤ pid * 2654435761 ∧ pid * 2654435761 < 15 * 2 ^ 32 * m + 2 ^ 31) ∨
    (30 ∣ pid ∧
      ∃ m : Int, 15 * 2 ^ 32 * m - 2 ^ 31 ≤ pid * 2654435761 ∧ pid * 2654435761 < 15 * 2 ^ 32 * m)

variable {pid : Int}

theorem product_pid (low : 1 ≤ pid) (high : pid < 2 ^ 31) :
    product pid = some (pid * 2654435761) := by
  rw [product, if_pos (by omega)]

theorem slotIndex_pid (low : 1 ≤ pid) : slotIndex pid = pid % 30 := by
  rw [slotIndex, Int.tmod_eq_emod_of_nonneg (by omega)]
  omega

/-- The client and `shair_database` use the same slot, which exists. -/
theorem wideId_pid (low : 1 ≤ pid) (high : pid < 2 ^ 31) : wideId pid = some (slotIndex pid) := by
  rw [wideId, product_pid low high, Option.map_some, slotIndex]

/-- A multiple of 2^32 has been taken away. -/
theorem bmod_cases (n : Int) : ∃ k : Int,
    n.bmod (2 ^ 32) = n - 2 ^ 32 * k ∧ -2 ^ 31 ≤ n - 2 ^ 32 * k ∧ n - 2 ^ 32 * k < 2 ^ 31 := by
  have split := Int.bmod_eq_self_sub_mul_bdiv n (2 ^ 32)
  have low := Int.le_bmod (x := n) (m := 2 ^ 32) (by decide)
  have high := Int.bmod_lt (x := n) (m := 2 ^ 32) (by decide)
  exact ⟨n.bdiv (2 ^ 32), split, by omega, by omega⟩

theorem tmod_negative {n : Int} (negative : n < 0) : n.tmod 30 = -((-n) % 30) := by
  have positive := Int.tmod_eq_emod_of_nonneg (b := 30) (show 0 ≤ -n by omega)
  rw [Int.neg_tmod] at positive
  omega

/-- The constant and 2^32 leave 1 and 16. -/
theorem left_emod (pid k : Int) : (pid * 2654435761 - 2 ^ 32 * k) % 30 = (pid - 16 * k) % 30 := by
  have split : pid * 2654435761 - 2 ^ 32 * k =
      pid - 16 * k + 30 * (88481192 * pid - 143165576 * k) := by ring
  rw [split, Int.add_mul_emod_self_left]

/-- A product cut to an int that stays positive: the remainders agree when the multiple
of 2^32 taken away is one of 15. -/
theorem positive_iff {k : Int} (positive : 0 ≤ pid * 2654435761 - 2 ^ 32 * k) :
    (pid * 2654435761 - 2 ^ 32 * k).tmod 30 = pid % 30 ↔ 15 ∣ k := by
  rw [Int.tmod_eq_emod_of_nonneg positive, left_emod]
  omega

theorem negative_iff {k : Int} (negative : pid * 2654435761 - 2 ^ 32 * k < 0) :
    (pid * 2654435761 - 2 ^ 32 * k).tmod 30 = pid % 30 ↔ 30 ∣ pid ∧ 15 ∣ k := by
  have left := left_emod pid k
  rw [tmod_negative negative]
  generalize pid * 2654435761 - 2 ^ 32 * k = t at left
  omega

/-- The index `broadcast` computes with an int is the one the client computes with 64
bits exactly near the multiples named. -/
theorem broadcastId_iff (low : 1 ≤ pid) (high : pid < 2 ^ 31) :
    broadcastId pid = some (slotIndex pid) ↔ NearMultiple pid := by
  obtain ⟨k, left, above, below⟩ := bmod_cases (pid * 2654435761)
  rw [broadcastId, product_pid low high, Option.map_some, left, slotIndex_pid low,
    Option.some.injEq, NearMultiple]
  rcases lt_or_ge (pid * 2654435761 - 2 ^ 32 * k) 0 with negative | positive
  · rw [negative_iff negative]
    generalize pid * 2654435761 = wide at above below negative
    constructor
    · rintro ⟨divides, m, rfl⟩
      exact Or.inr ⟨divides, m, by omega, by omega⟩
    · rintro (⟨m, behind, before⟩ | ⟨divides, m, behind, before⟩)
      · omega
      · exact ⟨divides, m, by omega⟩
  · rw [positive_iff positive]
    generalize pid * 2654435761 = wide at above below positive
    constructor
    · rintro ⟨m, rfl⟩
      exact Or.inl ⟨m, by omega, by omega⟩
    · rintro (⟨m, behind, before⟩ | ⟨-, m, behind, before⟩)
      · exact ⟨m, by omega⟩
      · omega

/-- The client and `shair_database` always use the same slot of the array, and
`broadcast` uses it too exactly for the pids near a multiple. -/
theorem flag_slots_agree (pid : Int) (low : 1 ≤ pid) (high : pid < 2 ^ 31) :
    (messageHandlerId pid = some (slotIndex pid) ∧ shairDatabaseId pid = some (slotIndex pid) ∧
        0 ≤ slotIndex pid ∧ slotIndex pid < 50) ∧
      (SlotsAgree pid ↔ NearMultiple pid) := by
  have client := wideId_pid low high
  have slot := slotIndex_pid low
  have range : 0 ≤ slotIndex pid ∧ slotIndex pid < 50 := by omega
  refine ⟨⟨client, client, range⟩, ?_⟩
  rw [← broadcastId_iff low high]
  constructor
  · rintro ⟨i, same, -, marked, -⟩
    rw [messageHandlerId, client, Option.some.injEq] at same
    rw [marked, same]
  · intro marked
    exact ⟨slotIndex pid, client, client, marked, range⟩

theorem flag_slots_agree_thirty :
    (messageHandlerId 30 = some 0 ∧ shairDatabaseId 30 = some 0 ∧
        (0 : Int) ≤ 0 ∧ (0 : Int) < 50) ∧
      (SlotsAgree 30 ↔ NearMultiple 30) :=
  flag_slots_agree 30 (by decide) (by decide)

/-- For pid 1 the index is negative. -/
theorem flag_slots_agree_one : messageHandlerId 1 = some 1 ∧ broadcastId 1 = some (-15) ∧
    ¬ SlotsAgree 1 := by
  have marked : broadcastId 1 = some (-15) := by decide
  refine ⟨by decide, marked, ?_⟩
  rintro ⟨i, -, -, same, positive, -⟩
  rw [marked] at same
  cases same
  exact absurd positive (by decide)

end EltexCourse.Guarantees.Chat.FlagSlots
