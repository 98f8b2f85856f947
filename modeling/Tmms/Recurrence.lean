import Mathlib.Algebra.Order.Group.Nat
import Mathlib.Data.Bool.Basic
import Mathlib.Data.List.Perm.Subperm

/-! Events that recur: each one, an interval after the one before. They are counted by the time
of their announcement and of their occurrence. -/
namespace Recurrence

/-- An interval later is a multiple as well, and no longer the start. -/
theorem multiple_later_iff {start interval t : Nat} (positive : 0 < interval) :
    (start ≤ t ∧ interval ∣ t - start) ↔ (start < t + interval ∧ interval ∣ t + interval - start) := by
  constructor
  · rintro ⟨reached,whole⟩
    refine ⟨by omega,?_⟩
    rw [show t + interval - start = t - start + interval by omega]
    exact Nat.dvd_add_self_right.mpr whole
  · rintro ⟨reached,whole⟩
    have further : interval ≤ t + interval - start := Nat.le_of_dvd (by omega) whole
    refine ⟨by omega,?_⟩
    rw [show t + interval - start = t - start + interval by omega] at whole
    exact Nat.dvd_add_self_right.mp whole

/-- What is announced at each time: the first event at its start, the others when the one before
occurs. -/
theorem steps_of_balance {ins rel : Nat → Nat} {start interval tick : Nat} (positive : 0 < interval)
    (balance : ∀ t, t < tick → ins t = rel t + (t == start).toNat)
    (early : ∀ t, t < interval → rel t = 0)
    (before : ∀ t, t + interval < tick → rel (t + interval) = ins t) (t : Nat) (past : t < tick) :
    ins t = (decide (start ≤ t ∧ interval ∣ t - start)).toNat := by
  induction t using Nat.strongRecOn with
  | ind t ih =>
    rw [balance t past]
    by_cases first : t < interval
    · rw [early t first,Nat.zero_add]
      congr 1
      rw [Bool.eq_iff_iff,beq_iff_eq,decide_eq_true_eq]
      constructor
      · rintro rfl
        simp
      · rintro ⟨reached,whole⟩
        have none := Nat.eq_zero_of_dvd_of_lt whole (by omega)
        omega
    · obtain ⟨t,rfl⟩ := Nat.exists_eq_add_of_le' (Nat.le_of_not_lt first)
      rw [before t past,ih t (by omega) (by omega)]
      by_cases same : t + interval = start
      · subst same
        have not_yet : ¬t + interval ≤ t := by omega
        simp [not_yet]
      · rw [beq_false_of_ne same,Bool.toNat_false,Nat.add_zero]
        congr 1
        rw [decide_eq_decide,multiple_later_iff positive]
        exact and_congr_left' ⟨Nat.le_of_lt,fun reached => by omega⟩

theorem exists_multiple_iff {start interval n t : Nat} (positive : 0 < interval) :
    (∃ k < n, t = start + (k + 1) * interval) ↔
      start < t ∧ interval ∣ t - start ∧ t ≤ start + n * interval := by
  constructor
  · rintro ⟨k,less,rfl⟩
    refine ⟨Nat.lt_add_of_pos_right (Nat.mul_pos (Nat.succ_pos k) positive),?_,?_⟩
    · rw [Nat.add_sub_cancel_left]
      exact Nat.dvd_mul_left _ _
    · exact Nat.add_le_add_left (Nat.mul_le_mul_right _ less) _
  · rintro ⟨after,⟨m,multiple⟩,bound⟩
    have some : m ≠ 0 := by
      rintro rfl
      omega
    obtain ⟨k,rfl⟩ := Nat.exists_eq_succ_of_ne_zero some
    rw [Nat.mul_comm] at multiple
    have equal : t = start + (k + 1) * interval := by
      change t - start = (k + 1) * interval at multiple
      omega
    refine ⟨k,?_,equal⟩
    rw [equal] at bound
    exact Nat.le_of_mul_le_mul_right (Nat.le_of_add_le_add_left bound) positive

/-- Before the multiple after the `n`-th there are the first `n`. -/
theorem multiple_iff {start interval n t : Nat} (positive : 0 < interval) (past : t < start + (n + 1) * interval) :
    (start < t ∧ interval ∣ t - start) ↔ ∃ k < n, t = start + (k + 1) * interval := by
  rw [exists_multiple_iff positive]
  refine ⟨?_,fun multiple => ⟨multiple.1,multiple.2.1⟩⟩
  rintro ⟨after,whole⟩
  obtain ⟨m,multiple⟩ := whole
  rw [Nat.mul_comm] at multiple
  have fewer : m < n + 1 := by
    apply Nat.lt_of_mul_lt_mul_right (a := interval)
    omega
  have bound := Nat.mul_le_mul_right interval (Nat.le_of_lt_succ fewer)
  exact ⟨after,⟨m,by rw [multiple,Nat.mul_comm]⟩,by omega⟩

/-- The first `n` events occur, and none beyond `tick`. -/
theorem occurrences_until {rel : Nat → Nat} {start interval tick n : Nat} (positive : 0 < interval)
    (before : ∀ t, t < tick → rel t = (decide (start < t ∧ interval ∣ t - start)).toNat)
    (now : rel tick = (decide (∃ k < n, tick = start + (k + 1) * interval)).toNat)
    (late : ∀ t, tick < t → rel t = 0) (low : start + n * interval ≤ tick)
    (high : tick ≤ start + (n + 1) * interval) (t : Nat) :
    rel t = (decide (∃ k < n, t = start + (k + 1) * interval)).toNat := by
  rcases Nat.lt_trichotomy t tick with past | rfl | beyond
  · rw [before t past]
    congr 1
    rw [decide_eq_decide]
    exact multiple_iff positive (by omega)
  · exact now
  · rw [late t beyond,eq_comm,Bool.toNat_eq_zero,decide_eq_false_iff_not,exists_multiple_iff positive]
    omega

/-- Before `tick` the multiples of the interval have occurred. -/
theorem released_of_balance {ins rel : Nat → Nat} {start interval tick : Nat} (positive : 0 < interval)
    (balance : ∀ t, t < tick → ins t = rel t + (t == start).toNat)
    (early : ∀ t, t < interval → rel t = 0)
    (before : ∀ t, t + interval < tick → rel (t + interval) = ins t) (t : Nat) (past : t < tick) :
    rel t = (decide (start < t ∧ interval ∣ t - start)).toNat := by
  have count := balance t past
  rw [steps_of_balance positive balance early before t past] at count
  by_cases same : t = start
  · subst same
    simp at count ⊢
    omega
  · rw [beq_false_of_ne same,Bool.toNat_false,Nat.add_zero] at count
    rw [← count]
    congr 1
    rw [decide_eq_decide]
    exact and_congr_left' ⟨fun h => by omega,fun h => by omega⟩

theorem exists_between_multiples {start interval tick : Nat} (positive : 0 < interval) (reached : start ≤ tick) :
    ∃ n, start + n * interval ≤ tick ∧ tick < start + (n + 1) * interval := by
  have below := Nat.div_mul_le_self (tick - start) interval
  have above := Nat.lt_mul_div_succ (tick - start) positive
  rw [Nat.mul_comm] at above
  exact ⟨(tick - start) / interval,by omega,by omega⟩

/-- Once the start is reached, the multiples of the interval occur, the one due at `tick` itself
perhaps not yet. -/
theorem occurrences_of_balance {ins rel : Nat → Nat} {start interval tick : Nat} (positive : 0 < interval)
    (balance : ∀ t, t < tick → ins t = rel t + (t == start).toNat)
    (early : ∀ t, t < interval → rel t = 0)
    (before : ∀ t, t + interval < tick → rel (t + interval) = ins t)
    (now : ∀ t, t + interval = tick → rel tick ≤ ins t) (late : ∀ t, tick < t → rel t = 0)
    (reached : start ≤ tick) :
    ∃ n, (∀ t, rel t = (decide (∃ k < n, t = start + (k + 1) * interval)).toNat) ∧
      start + n * interval ≤ tick ∧ tick ≤ start + (n + 1) * interval ∧
      ((∀ t, t + interval = tick → rel tick = ins t) → tick < start + (n + 1) * interval) := by
  have inserted := steps_of_balance positive balance early before
  have released := released_of_balance positive balance early before
  have due : ∀ t, t + interval = tick →
      ins t = (decide (start < tick ∧ interval ∣ tick - start)).toNat := by
    rintro t rfl
    rw [inserted t (by omega)]
    congr 1
    rw [decide_eq_decide]
    exact multiple_later_iff positive
  obtain ⟨q,low,high⟩ := exists_between_multiples positive reached
  by_cases done : rel tick = (decide (start < tick ∧ interval ∣ tick - start)).toNat
  · refine ⟨q,occurrences_until positive released ?_ late low (Nat.le_of_lt high),low,Nat.le_of_lt high,fun _ => high⟩
    rw [done]
    congr 1
    rw [decide_eq_decide]
    exact multiple_iff positive high
  · have at_most : rel tick ≤ (decide (start < tick ∧ interval ∣ tick - start)).toNat := by
      by_cases first : tick < interval
      · rw [early tick first]
        exact Nat.zero_le _
      · obtain ⟨t,same⟩ := Nat.exists_eq_add_of_le' (Nat.le_of_not_lt first)
        rw [← due t same.symm]
        exact now t same.symm
    have occurs : start < tick ∧ interval ∣ tick - start := by
      by_contra never
      rw [decide_eq_false never] at done at_most
      exact done (Nat.le_zero.mp at_most)
    have none : rel tick = 0 := by
      rw [decide_eq_true occurs] at done at_most
      simp only [Bool.toNat_true] at done at_most
      omega
    obtain ⟨k,_,same⟩ := (multiple_iff positive high).mp occurs
    have next : (k + 1) * interval = k * interval + interval := Nat.succ_mul k interval
    refine ⟨k,occurrences_until positive released ?_ late (by omega) (by omega),by omega,by omega,fun all => ?_⟩
    · rw [none,eq_comm,Bool.toNat_eq_zero,decide_eq_false_iff_not,exists_multiple_iff positive]
      omega
    · obtain ⟨t,later⟩ := Nat.exists_eq_add_of_le' (show interval ≤ tick by omega)
      rw [all t later.symm,due t later.symm,decide_eq_true occurs] at none
      cases none

/-- A list in order is known by how often each time is in it. -/
theorem eq_multiples {list : List Nat} {start interval n : Nat} (positive : 0 < interval)
    (ordered : list.Pairwise (· ≤ ·))
    (count : ∀ t, list.count t = (decide (∃ k < n, t = start + (k + 1) * interval)).toNat) :
    list = (List.range n).map fun k => start + (k + 1) * interval := by
  have increasing : ((List.range n).map fun k => start + (k + 1) * interval).Pairwise (· < ·) := by
    rw [List.pairwise_map]
    refine List.pairwise_lt_range.imp fun less => ?_
    exact Nat.add_lt_add_left (Nat.mul_lt_mul_of_pos_right (Nat.succ_lt_succ less) positive) start
  have nodup : ((List.range n).map fun k => start + (k + 1) * interval).Nodup :=
    increasing.imp fun less => Nat.ne_of_lt less
  have perm : list.Perm ((List.range n).map fun k => start + (k + 1) * interval) := by
    rw [List.perm_iff_count]
    intro t
    rw [count,nodup.count]
    by_cases among : ∃ k < n, t = start + (k + 1) * interval
    · rw [decide_eq_true among,if_pos]
      · rfl
      · obtain ⟨k,less,rfl⟩ := among
        exact List.mem_map.mpr ⟨k,List.mem_range.mpr less,rfl⟩
    · rw [decide_eq_false among,if_neg]
      · rfl
      · intro inside
        obtain ⟨k,less,rfl⟩ := List.mem_map.mp inside
        exact among ⟨k,List.mem_range.mp less,rfl⟩
  exact perm.eq_of_pairwise (fun _ _ _ _ => Nat.le_antisymm) ordered (increasing.imp Nat.le_of_lt)

end Recurrence
