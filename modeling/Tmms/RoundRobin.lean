import Mathlib.Data.Int.CardIntervalMod
import Tmms.Transition

/-! The loops of a thread pool as `GetNextLoop` hands them out to any number of threads. A call
reads the counter in one atomic step and increments it in another. -/
namespace Tmms.Network.EventLoopThreadPool

variable {ι : Type}

structure Pool (ι : Type) where
  threads_ : List ι
  nonempty : threads_ ≠ []
  nodup : threads_.Nodup

def eventLoopThreadPool (thread_num : Int) : Pool Nat where
  threads_ := List.range (if thread_num ≤ 0 then 1 else thread_num.toNat)
  nonempty := by
    rw [ne_eq,List.range_eq_nil]
    split <;> omega
  nodup := List.nodup_range

namespace Pool

def size (pool : Pool ι) : Nat := pool.threads_.length

theorem size_pos (pool : Pool ι) : 0 < pool.size := List.length_pos_iff.mpr pool.nonempty

/-- `threads_[index]->Loop()` for an index past the end as well. -/
def cyclic (pool : Pool ι) (index : Nat) : ι :=
  pool.threads_.get ⟨index % pool.size,Nat.mod_lt _ pool.size_pos⟩

theorem cyclic_mod (pool : Pool ι) (index : Nat) : pool.cyclic (index % pool.size) = pool.cyclic index := by
  simp only [cyclic,Nat.mod_mod]

/-- `threads_[index % threads_.size()]->Loop()`: the `int` becomes a `size_t` before the remainder
is taken. -/
def loop (pool : Pool ι) (index : BitVec 32) : ι := pool.cyclic (index.signExtend 64).toNat

end Pool

structure State (ι : Type) where
  loop_index_ : BitVec 32
  index : Nat → Option (BitVec 32)
  handed : List ι

def initial : State ι where
  loop_index_ := 0
  index := fun _ => none
  handed := []

inductive Move where
  -- `int index = loop_index_`
  | load (thread : Nat)
  -- `loop_index_++`, and the call returns
  | increment (thread : Nat)

def step (pool : Pool ι) (s : State ι) : Move → Option (State ι)
  | .load thread =>
    match s.index thread with
    | none => some { s with index := Function.update s.index thread (some s.loop_index_) }
    | some _ => none
  | .increment thread =>
    match s.index thread with
    | some index => some {
        loop_index_ := s.loop_index_ + 1
        index := Function.update s.index thread none
        handed := s.handed ++ [pool.loop index] }
    | none => none

def State.Idle (s : State ι) : Prop := ∀ thread, s.index thread = none

/-- The remainder goes on by one where the counter goes from `2^31-1` to `-2^31`, and from `-1` to
`0`. -/
def Wraps (pool : Pool ι) (index : BitVec 32) : Prop :=
  (index = BitVec.intMax 32 → pool.size ∣ 2 ^ 64 - 2 ^ 32) ∧ (index = -1 → pool.size ∣ 2 ^ 64)

/-- No call reads the counter between another call's two steps, and the counter wraps evenly. -/
def Careful (pool : Pool ι) (s : State ι) : Move → Prop
  | .load _ => pool.size = 1 ∨ s.Idle
  | .increment _ => Wraps pool s.loop_index_

theorem toNat_signExtend_succ (index : BitVec 32) :
    ((index + 1).signExtend 64).toNat = (index.signExtend 64).toNat + 1 ∨
      index = BitVec.intMax 32 ∧
        ((index + 1).signExtend 64).toNat = (index.signExtend 64).toNat + 1 + (2 ^ 64 - 2 ^ 32) ∨
      index = -1 ∧ ((index + 1).signExtend 64).toNat + 2 ^ 64 = (index.signExtend 64).toNat + 1 := by
  have top : index = BitVec.intMax 32 ↔ index.toNat = 2 ^ 31 - 1 := by
    simp [← BitVec.toNat_inj]
  have last : index = -1 ↔ index.toNat = 2 ^ 32 - 1 := by
    simp [← BitVec.toNat_inj]
  have bound := index.isLt
  have next : (index + 1).toNat = (index.toNat + 1) % 2 ^ 32 := BitVec.toNat_add index 1
  simp only [BitVec.toNat_signExtend,BitVec.msb_eq_decide,BitVec.toNat_setWidth,decide_eq_true_eq]
  rw [top,last,next]
  split <;> split <;> omega

theorem loop_succ {pool : Pool ι} {index : BitVec 32} (wraps : Wraps pool index) :
    ((index + 1).signExtend 64).toNat % pool.size = ((index.signExtend 64).toNat + 1) % pool.size := by
  rcases toNat_signExtend_succ index with next | ⟨top,next⟩ | ⟨top,next⟩
  · rw [next]
  · obtain ⟨k,multiple⟩ := wraps.1 top
    rw [next,multiple,Nat.add_mul_mod_self_left]
  · obtain ⟨k,multiple⟩ := wraps.2 top
    rw [← next,multiple,Nat.add_mul_mod_self_left]

/-- The calls so far went round the pool. -/
structure Even (pool : Pool ι) (s : State ι) : Prop where
  handed : s.handed = (List.range s.handed.length).map pool.cyclic
  next : (s.loop_index_.signExtend 64).toNat % pool.size = s.handed.length % pool.size
  current : pool.size = 1 ∨ ∀ thread index, s.index thread = some index → index = s.loop_index_
  alone : pool.size = 1 ∨ ∀ thread other, s.index thread ≠ none → s.index other ≠ none → thread = other

theorem Even.start (pool : Pool ι) : Even pool initial where
  handed := rfl
  next := rfl
  current := .inr (fun _ _ held => by cases held)
  alone := .inr (fun _ _ held => (held rfl).elim)

/-- A call that has read the counter returns the next loop. -/
theorem Even.loop {pool : Pool ι} {s : State ι} (even : Even pool s) {thread : Nat} {index : BitVec 32}
    (held : s.index thread = some index) : pool.loop index = pool.cyclic s.handed.length := by
  rcases even.current with one | current
  · unfold Pool.loop
    rw [← Pool.cyclic_mod pool (BitVec.toNat _),← Pool.cyclic_mod pool s.handed.length,one,Nat.mod_one,
      Nat.mod_one]
  · rw [Pool.loop,current thread index held,← Pool.cyclic_mod,even.next,Pool.cyclic_mod]

theorem Even.load {pool : Pool ι} {s next : State ι} {thread : Nat} (even : Even pool s)
    (good : Careful pool s (.load thread)) (stepped : step pool s (.load thread) = some next) :
    Even pool next := by
  simp only [step] at stepped
  split at stepped
  case h_2 => cases stepped
  case h_1 outside =>
    cases stepped
    refine ⟨even.handed,even.next,?_,?_⟩
    · refine even.current.imp_right fun current other index held => ?_
      dsimp only at held
      rcases eq_or_ne other thread with rfl | apart
      · rw [Function.update_self] at held
        exact (Option.some.inj held).symm
      · rw [Function.update_of_ne apart] at held
        exact current other index held
    · refine good.imp_right fun idle first second => ?_
      have only : ∀ other, Function.update s.index thread (some s.loop_index_) other ≠ none →
          other = thread := by
        intro other held
        by_contra apart
        rw [Function.update_of_ne apart] at held
        exact held (idle other)
      intro one two
      rw [only first one,only second two]

theorem Even.increment {pool : Pool ι} {s next : State ι} {thread : Nat} (even : Even pool s)
    (good : Careful pool s (.increment thread)) (stepped : step pool s (.increment thread) = some next) :
    Even pool next := by
  simp only [step] at stepped
  split at stepped
  case h_2 => cases stepped
  case h_1 index held =>
    cases stepped
    have outside : pool.size = 1 ∨ ∀ other, Function.update s.index thread none other = none := by
      refine even.alone.imp_right fun alone other => ?_
      rcases eq_or_ne other thread with rfl | apart
      · exact Function.update_self ..
      · rw [Function.update_of_ne apart]
        by_contra inside
        exact apart (alone other thread inside (by simp [held]))
    refine ⟨?_,?_,?_,?_⟩
    · rw [even.loop held,List.length_append,List.length_singleton,List.range_succ,List.map_append,
        ← even.handed]
      rfl
    · rw [loop_succ good,List.length_append,List.length_singleton,Nat.add_mod,even.next,← Nat.add_mod]
    · refine outside.imp_right fun outside other index inside => ?_
      dsimp only at inside
      rw [outside other] at inside
      cases inside
    · exact outside.imp_right fun outside other _ inside => (inside (outside other)).elim

theorem Even.run {pool : Pool ι} {s : State ι}
    (run : Transition.Guarded (step pool) (Careful pool) initial s) : Even pool s := by
  induction run with
  | start => exact .start pool
  | @move s next move _ good stepped even =>
    cases move with
    | load thread => exact even.load good stepped
    | increment thread => exact even.increment good stepped

variable [DecidableEq ι]

/-- How often a loop is among the first `m` when they go round. -/
theorem count_cyclic (pool : Pool ι) (i m : Nat) :
    ((List.range m).map pool.cyclic).count (pool.cyclic i) = m.count (· ≡ i [MOD pool.size]) := by
  induction m with
  | zero => rfl
  | succ m ih =>
    have same : pool.cyclic m = pool.cyclic i ↔ m ≡ i [MOD pool.size] := by
      simp [Pool.cyclic,Nat.ModEq,pool.nodup.getElem_inj_iff]
    rw [List.range_succ,List.map_append,List.count_append,ih,Nat.count_succ]
    by_cases equal : m ≡ i [MOD pool.size]
    · simp [equal,same.mpr equal]
    · simp [equal,mt same.mp equal]

/-- In a run whose calls are careful every loop was handed out ⌊m/n⌋ or ⌈m/n⌉ times, m being the
number of calls that have returned. -/
theorem handed_out_evenly (pool : Pool ι) (s : State ι)
    (run : Transition.Guarded (step pool) (Careful pool) initial s) (loop : ι)
    (among : loop ∈ pool.threads_) :
    s.handed.count loop = s.handed.length / pool.size ∨
      s.handed.count loop = (s.handed.length + pool.size - 1) / pool.size := by
  obtain ⟨i,inside,rfl⟩ := List.getElem_of_mem among
  have same : pool.threads_[i] = pool.cyclic i := by
    simp [Pool.cyclic,Nat.mod_eq_of_lt (show i < pool.size from inside)]
  have count : s.handed.count pool.threads_[i] =
      s.handed.length / pool.size + if i % pool.size < s.handed.length % pool.size then 1 else 0 := by
    rw [same,(Even.run run).handed,count_cyclic pool i _,List.length_map,List.length_range,
      Nat.count_modEq_card _ pool.size_pos]
  rw [count]
  have ceil : s.handed.length % pool.size ≠ 0 →
      (s.handed.length + pool.size - 1) / pool.size = s.handed.length / pool.size + 1 := by
    intro rest
    have whole := Nat.div_add_mod s.handed.length pool.size
    have bound := Nat.mod_lt s.handed.length pool.size_pos
    apply Nat.div_eq_of_lt_le
    · rw [Nat.add_mul,Nat.mul_comm (s.handed.length / pool.size)]
      omega
    · rw [Nat.add_mul,Nat.add_mul,Nat.mul_comm (s.handed.length / pool.size)]
      omega
  split
  · exact .inr (ceil (by omega)).symm
  · exact .inl rfl

/-- Two threads call one after the other, and each gets a loop of its own. -/
theorem handed_out_evenly_in_turn :
    ∃ s, Transition.Guarded (step (eventLoopThreadPool 2)) (Careful (eventLoopThreadPool 2)) initial s ∧
      s.handed = [0,1] ∧ (s.handed.count 1 = s.handed.length / 2 ∨
        s.handed.count 1 = (s.handed.length + 2 - 1) / 2) := by
  have idle : ∀ thread : Nat,
      Function.update (Function.update (fun _ => none) 0 (some (0 : BitVec 32))) 0 none thread = none := by
    intro thread
    simp only [Function.update_apply]
    grind
  have load (s : State Nat) (thread : Nat) (idle : s.Idle) :
      Careful (eventLoopThreadPool 2) s (.load thread) := .inr idle
  have increment (s : State Nat) (thread : Nat) : Careful (eventLoopThreadPool 2) s (.increment thread) :=
    ⟨fun _ => by decide,fun _ => by decide⟩
  have move {s next : State Nat} (move : Move)
      (run : Transition.Guarded (step (eventLoopThreadPool 2)) (Careful (eventLoopThreadPool 2)) initial s)
      (good : Careful (eventLoopThreadPool 2) s move) (stepped : step (eventLoopThreadPool 2) s move = some next) :
      Transition.Guarded (step (eventLoopThreadPool 2)) (Careful (eventLoopThreadPool 2)) initial next :=
    .move run good stepped
  have first := move _ (move _ .start (load initial 0 fun _ => rfl) rfl) (increment _ 0) rfl
  have run := move _ (move _ first (load _ 1 idle) rfl) (increment _ 1) rfl
  exact ⟨_,run,rfl,handed_out_evenly (eventLoopThreadPool 2) _ run 1 (by decide)⟩

/-- Two threads read the counter of a pool of two loops before either increments it. -/
theorem handed_out_twice :
    ¬ ∀ s : State Nat, Transition.Reachable (step (eventLoopThreadPool 2)) (fun _ => True) initial s →
      s.Idle → ∀ loop ∈ (eventLoopThreadPool 2).threads_,
        s.handed.count loop = s.handed.length / 2 ∨ s.handed.count loop = (s.handed.length + 2 - 1) / 2 := by
  intro even
  have idle : ∀ thread : Nat, Function.update (Function.update (Function.update (Function.update
      (fun _ => none) 0 (some (0 : BitVec 32))) 1 (some 0)) 0 none) 1 none thread = none := by
    intro thread
    simp only [Function.update_apply]
    grind
  rcases even ⟨2,_,[0,0]⟩ ⟨[.load 0,.load 1,.increment 0,.increment 1],fun _ _ => trivial,rfl⟩ idle 0
    (by decide) with floor | ceil
  · exact absurd floor (by decide)
  · exact absurd ceil (by decide)

end Tmms.Network.EventLoopThreadPool
