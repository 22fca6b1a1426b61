import DeviceShell.Device.Simulated
import DeviceShell.Proofs.Monitor.Shares
import Mathlib.Algebra.Order.Ring.Nat
import Mathlib.Data.List.Induction

/-! The simulated scheduler sampled again and again. What it remembers of a sample are the counters
of that time, so the ticks of the next are in the same proportion as the tasks' shares. -/
namespace DeviceShell

namespace Monitor

/-- The shares of all ticks that a screen shows of the threads, in their order. -/
def Threads.shares (s : Threads) : List UInt64 := s.rows.map fun t => permille t.ticks s.totalTicks

def Threads.isrShare (s : Threads) : UInt64 := permille s.isrTicks s.totalTicks

/-- Threads are pushed one after the other as long as there is room for all of them. -/
theorem Threads.foldl_push {α : Type} (thread : α → Thread) (l : List α) (s : Threads)
    (room : s.rows.length + l.length ≤ capacity) :
    l.foldl (fun s a => s.push (thread a)) s = { s with rows := s.rows ++ l.map thread } := by
  induction l generalizing s with
  | nil => rw [List.foldl_nil, List.map_nil, List.append_nil]
  | cons a l ih =>
    rw [List.length_cons] at room
    have pushed : s.push (thread a) = { s with rows := s.rows ++ [thread a] } := by
      rw [push, if_pos (by omega)]
    have rest : (s.rows ++ [thread a]).length + l.length ≤ capacity := by
      rw [List.length_append, List.length_singleton]
      omega
    rw [List.foldl_cons, pushed, ih _ rest, List.map_cons, List.append_assoc]
    rfl

/-- Parts that are in proportion to a thousand parts of the whole. -/
theorem permille_of_proportion {part whole share : UInt64} {unit : Nat} (positive : 0 < unit)
    (inside : share ≤ 1000) (parts : part.toNat = unit * share.toNat)
    (all : whole.toNat = unit * 1000) : permille part whole = share := by
  have below : part ≤ whole := by
    rw [UInt64.le_iff_toNat_le, parts, all]
    exact Nat.mul_le_mul_left unit (UInt64.le_iff_toNat_le.mp inside)
  refine UInt64.toNat_inj.mp ?_
  calc (permille part whole).toNat
      = share.toNat * (unit * 1000) / (unit * 1000) := by
        rw [toNat_permille_of_le below, parts, all, Nat.mul_comm 1000, Nat.mul_right_comm,
          Nat.mul_comm (unit * 1000)]
    _ = share.toNat := Nat.mul_div_cancel _ (Nat.mul_pos positive (by decide))

end Monitor

namespace Simulated

open Monitor

namespace Scheduler

variable {s : Scheduler} {before clock : UInt64} {clocks : List UInt64}

/-- What is remembered of a task's counter; nothing before the first sample. -/
def remembered (number : UInt32) (s : Scheduler) : UInt64 :=
  ((s.counters.find? fun c => c.1 = number).map (·.2)).getD 0

/-- The scheduler after samples at some times. -/
def after (clocks : List UInt64) : Scheduler :=
  clocks.foldl (fun s clock => (s.sample clock).2) {}

/-- The counters are those of a time. -/
structure Stands (clock : UInt64) (s : Scheduler) : Prop where
  total : s.total = ticks clock
  counter {number : UInt32} {task : Task} (member : (number, task) ∈ numbered) :
    s.remembered number = counter clock task

/-- What a sample at a time works out is exact: no product is cut to its bits, and no difference
stops at nothing. -/
structure Exact (clock : UInt64) (s : Scheduler) : Prop where
  time : (ticks clock).toNat = clock.toNat * 1000
  total : s.total ≤ ticks clock
  share {number : UInt32} {task : Task} (member : (number, task) ∈ numbered) :
    (counter clock task).toNat = clock.toNat * task.share.toNat
  known {number : UInt32} {task : Task} (member : (number, task) ∈ numbered) :
    s.remembered number ≤ counter clock task
  stack {number : UInt32} {task : Task} (member : (number, task) ∈ numbered) :
    (s.row clock number task).stackAddress.toNat = 0x3FC80000 + number.toNat * 4096 ∧
      (s.row clock number task).stackMinFree.toNat + 512 * number.toNat = 4096 ∧
      (s.row clock number task).heap.toNat = 256 * number.toNat

theorem map_numbered : numbered.map Prod.snd = tasks := rfl

theorem nodup_numbered : (numbered.map Prod.fst).Nodup := by decide

/-- Under its own number each task is found again. -/
theorem find?_counters {numbers : List (UInt32 × Task)} (nodup : (numbers.map Prod.fst).Nodup)
    (value : Task → UInt64) {number : UInt32} {task : Task} (member : (number, task) ∈ numbers) :
    (numbers.map fun p => (p.1, value p.2)).find? (fun c => c.1 = number) =
      some (number, value task) := by
  induction numbers with
  | nil => cases member
  | cons p numbers ih =>
    rw [List.map_cons, List.nodup_cons] at nodup
    rw [List.map_cons]
    rcases List.mem_cons.mp member with rfl | later
    · exact List.find?_cons_of_pos (by simp)
    · have other : p.1 ≠ number := fun same =>
        nodup.1 (same ▸ List.mem_map_of_mem (f := Prod.fst) later)
      rw [List.find?_cons_of_neg (by simpa using other)]
      exact ih nodup.2 later

theorem stands_new : Stands 0 {} where
  total := rfl
  counter member := by
    rename_i number task
    have none : counter 0 task = 0 := UInt64.zero_mul
    exact none.symm

/-- Whatever was remembered, after a sample it is the counters of its time. -/
theorem stands_sample (s : Scheduler) (clock : UInt64) : Stands clock (s.sample clock).2 where
  total := rfl
  counter member := by
    have found := find?_counters nodup_numbered (counter clock) member
    simp only [remembered, sample, found, Option.map_some, Option.getD_some]

theorem after_append_singleton (earlier : List UInt64) (clock : UInt64) :
    after (earlier ++ [clock]) = ((after earlier).sample clock).2 := by
  rw [after, List.foldl_append]
  rfl

theorem stands_after (clocks : List UInt64) : Stands (clocks.getLastD 0) (after clocks) := by
  induction clocks using List.reverseRecOn with
  | nil => exact stands_new
  | append_singleton earlier clock _ =>
    rw [after_append_singleton, List.getLastD_concat]
    exact stands_sample _ clock

theorem toNat_difference (now before : UInt64) :
    (difference now before).toNat = now.toNat - before.toNat :=
  toNat_sub_or_zero now before

theorem toNat_ticks (small : clock.toNat * 1000 < 2 ^ 64) :
    (ticks clock).toNat = clock.toNat * 1000 := by
  rw [ticks, UInt64.toNat_mul]
  exact Nat.mod_eq_of_lt small

theorem share_le {number : UInt32} {task : Task} (member : (number, task) ∈ numbered) :
    task.share ≤ 1000 := by
  have shares : ∀ p ∈ numbered, p.2.share ≤ 1000 := by decide
  exact shares _ member

/-- Out of a thousand ticks a task has as many as its share is. -/
theorem toNat_counter (small : clock.toNat * 1000 < 2 ^ 64) {task : Task}
    (inside : task.share ≤ 1000) : (counter clock task).toNat = clock.toNat * task.share.toNat := by
  have units : (ticks clock / 1000).toNat = clock.toNat := by
    rw [UInt64.toNat_div, toNat_ticks small]
    exact Nat.mul_div_cancel _ (by decide)
  have below : clock.toNat * task.share.toNat ≤ clock.toNat * 1000 :=
    Nat.mul_le_mul_left _ (UInt64.le_iff_toNat_le.mp inside)
  rw [counter, UInt64.toNat_mul, units]
  exact Nat.mod_eq_of_lt (Nat.lt_of_le_of_lt below small)

/-- There is room for a row of each task. -/
theorem sample_fst (s : Scheduler) (clock : UInt64) : (s.sample clock).1 =
    { rows := numbered.map fun p => s.row clock p.1 p.2
      totalTicks := difference (ticks clock) s.total
      isrTicks := difference (ticks clock) s.total / 50 } := by
  have room : ([] : List Thread).length + numbered.length ≤ Threads.capacity := by decide
  rw [sample, Threads.foldl_push (fun p : UInt32 × Task => s.row clock p.1 p.2) numbered _ room,
    List.nil_append]

section Sample

variable (stands : Stands before s) (ordered : before ≤ clock)
  (small : clock.toNat * 1000 < 2 ^ 64)

include ordered small in
theorem small_of_le : before.toNat * 1000 < 2 ^ 64 :=
  Nat.lt_of_le_of_lt (Nat.mul_le_mul_right 1000 (UInt64.le_iff_toNat_le.mp ordered)) small

include stands ordered small

/-- All ticks of a sample are those of the time that has passed since the one before. -/
theorem toNat_total :
    (difference (ticks clock) s.total).toNat = (clock.toNat - before.toNat) * 1000 := by
  rw [toNat_difference, stands.total, toNat_ticks small, toNat_ticks (small_of_le ordered small),
    Nat.sub_mul]

theorem toNat_since {number : UInt32} {task : Task} (member : (number, task) ∈ numbered) :
    (s.since number (counter clock task)).toNat =
      (clock.toNat - before.toNat) * task.share.toNat := by
  have inside := share_le member
  have remembered : s.since number (counter clock task) =
      difference (counter clock task) (s.remembered number) := rfl
  rw [remembered, toNat_difference, stands.counter member, toNat_counter small inside,
    toNat_counter (small_of_le ordered small) inside, Nat.sub_mul]

/-- Nothing that a sample works out is cut to its bits, and no counter is behind the one before. -/
theorem exact_sample : Exact clock s := by
  have past := small_of_le ordered small
  have less : before.toNat ≤ clock.toNat := UInt64.le_iff_toNat_le.mp ordered
  refine ⟨toNat_ticks small, ?_, fun member => toNat_counter small (share_le member),
    fun member => ?_, fun member => ?_⟩
  · rw [stands.total, UInt64.le_iff_toNat_le, toNat_ticks small, toNat_ticks past]
    exact Nat.mul_le_mul_right 1000 less
  · have inside := share_le member
    rw [stands.counter member, UInt64.le_iff_toNat_le, toNat_counter small inside,
      toNat_counter past inside]
    exact Nat.mul_le_mul_right _ less
  · have figures : ∀ p ∈ numbered, (0x3FC80000 + p.1 * 4096).toNat = 0x3FC80000 + p.1.toNat * 4096 ∧
        (4096 - 512 * p.1).toNat + 512 * p.1.toNat = 4096 ∧
        (256 * p.1).toNat = 256 * p.1.toNat := by decide
    simpa only [row] using figures _ member

theorem permille_since (passed : 0 < clock.toNat - before.toNat) {number : UInt32} {task : Task}
    (member : (number, task) ∈ numbered) :
    permille (s.since number (counter clock task)) (difference (ticks clock) s.total) =
      task.share :=
  permille_of_proportion passed (share_le member) (toNat_since stands ordered small member)
    (toNat_total stands ordered small)

/-- Interrupts take one tick in fifty. -/
theorem permille_isr (passed : 0 < clock.toNat - before.toNat) :
    permille (difference (ticks clock) s.total / 50) (difference (ticks clock) s.total) = 20 := by
  have total := toNat_total stands ordered small
  have part : (difference (ticks clock) s.total / 50).toNat =
      (clock.toNat - before.toNat) * (20 : UInt64).toNat := by
    have twenties : (clock.toNat - before.toNat) * 1000 =
        (clock.toNat - before.toNat) * 20 * 50 := by rw [Nat.mul_assoc]
    rw [UInt64.toNat_div, total, twenties]
    exact Nat.mul_div_cancel _ (by decide)
  exact permille_of_proportion passed (by decide) part total

end Sample

/-- What is told by a sample behind some others. -/
def sampled (earlier : List UInt64) (clock : UInt64) : Threads :=
  ((after earlier).sample clock).1

/-- The clock does not go back behind the sample before. -/
theorem getLastD_le {earlier later : List UInt64}
    (ordered : (earlier ++ clock :: later).Pairwise (· ≤ ·)) : earlier.getLastD 0 ≤ clock := by
  induction earlier using List.reverseRecOn with
  | nil => exact UInt64.zero_le
  | append_singleton first last _ =>
    rw [List.getLastD_concat]
    obtain ⟨-, -, across⟩ := List.pairwise_append.mp ordered
    exact across last (by simp) clock (List.mem_cons_self ..)

/-- However often the clock was read before, a sample at a later reading finds each task with
exactly its share of the ticks since then, and interrupts with what these leave of all shares. A
sample at the same reading finds that nothing ran. -/
theorem sampled_shares {earlier later : List UInt64} (split : clocks = earlier ++ clock :: later)
    (ordered : clocks.Pairwise (· ≤ ·)) (small : ∀ c ∈ clocks, c.toNat * 1000 < 2 ^ 64) :
    (sampled earlier clock).rows.map Thread.name = tasks.map Task.name ∧
      (earlier.getLastD 0 < clock →
        (sampled earlier clock).shares = tasks.map Task.share ∧
          (sampled earlier clock).isrShare = 20 ∧
          ((sampled earlier clock).shares.map UInt64.toNat).sum +
            (sampled earlier clock).isrShare.toNat = 1000) ∧
      (¬ earlier.getLastD 0 < clock →
        (sampled earlier clock).totalTicks = 0 ∧ (sampled earlier clock).isrTicks = 0 ∧
          ∀ t ∈ (sampled earlier clock).rows, t.ticks = 0) ∧
      Exact clock (after earlier) := by
  have stands := stands_after earlier
  have bounded : clock.toNat * 1000 < 2 ^ 64 := small clock (by simp [split])
  have reached : earlier.getLastD 0 ≤ clock := getLastD_le (split ▸ ordered)
  have told : sampled earlier clock = _ := sample_fst (after earlier) clock
  refine ⟨?_, fun advanced => ?_, fun still => ?_, exact_sample stands reached bounded⟩
  · have whole : ∀ p ∈ numbered, Text.fit nameLimit p.2.name = p.2.name := by decide +kernel
    rw [told, List.map_map, ← map_numbered, List.map_map]
    exact List.map_congr_left fun p member => whole p member
  · have passed : 0 < clock.toNat - (earlier.getLastD 0).toNat :=
      Nat.sub_pos_of_lt (UInt64.lt_iff_toNat_lt.mp advanced)
    have shares : (sampled earlier clock).shares = tasks.map Task.share := by
      rw [told, Threads.shares, List.map_map, ← map_numbered, List.map_map]
      exact List.map_congr_left fun p member => permille_since stands reached bounded passed member
    have interrupts : (sampled earlier clock).isrShare = 20 := by
      rw [told]
      exact permille_isr stands reached bounded passed
    refine ⟨shares, interrupts, ?_⟩
    rw [shares, interrupts]
    rfl
  · have passed : clock.toNat - (earlier.getLastD 0).toNat = 0 :=
      Nat.sub_eq_zero_of_le (UInt64.le_iff_toNat_le.mp (UInt64.not_lt.mp still))
    have total : difference (ticks clock) (after earlier).total = 0 := by
      rw [← UInt64.toNat_inj, toNat_total stands reached bounded, passed, Nat.zero_mul]
      rfl
    rw [told, total]
    refine ⟨rfl, rfl, List.forall_mem_map.mpr fun p member => ?_⟩
    have none : (row clock (after earlier) p.1 p.2).ticks.toNat = 0 := by
      rw [← Nat.zero_mul p.2.share.toNat, ← passed]
      exact toNat_since stands reached bounded member
    exact UInt64.toNat_inj.mp none

/-- Four samples, of which the second and the third are at one time. -/
theorem sampled_shares_of_four :
    ([0, 5, 5, 12] : List UInt64).Pairwise (· ≤ ·) ∧
      (∀ c ∈ ([0, 5, 5, 12] : List UInt64), c.toNat * 1000 < 2 ^ 64) ∧
      (sampled [0, 5] 5).totalTicks = 0 ∧
      (sampled [0, 5, 5] 12).shares = [90, 10, 20, 30, 830] ∧
      (sampled [0, 5, 5] 12).isrShare = 20 := by
  have ordered : ([0, 5, 5, 12] : List UInt64).Pairwise (· ≤ ·) := by decide
  have small : ∀ c ∈ ([0, 5, 5, 12] : List UInt64), c.toNat * 1000 < 2 ^ 64 := by simp
  have third : ([0, 5, 5, 12] : List UInt64) = [0, 5] ++ 5 :: [12] := rfl
  have last : ([0, 5, 5, 12] : List UInt64) = [0, 5, 5] ++ 12 :: [] := rfl
  obtain ⟨-, -, still, -⟩ := sampled_shares third ordered small
  obtain ⟨-, advanced, -, -⟩ := sampled_shares last ordered small
  obtain ⟨shares, interrupts, -⟩ := advanced (by decide)
  exact ⟨ordered, small, (still (by decide)).1, shares, interrupts⟩

end Scheduler

end Simulated

end DeviceShell
