import Mathlib.Data.List.Basic
import Mathlib.Data.Nat.Defs

/-!
# The CPU a hardware queue runs on

`blk_mq_hctx_next_cpu` picks the CPU on which to run a hardware queue's work: with more than one
hardware queue it returns `hctx->next_cpu`, and moves on to the next CPU of `hctx->cpumask`,
wrapping around to `cpumask_first`, every `BLK_MQ_CPU_WORK_BATCH` calls. `blk_mq_map_swqueue`
starts it on the first CPU of the mask with a full batch.

From that start the calls follow a closed form: call `t + 1` returns the
`(t + 1) / BLK_MQ_CPU_WORK_BATCH`-th CPU of the mask, counted cyclically. Every CPU returned is in
the mask, and any `BLK_MQ_CPU_WORK_BATCH * cpumask_weight` consecutive calls return each CPU of
the mask at least once.
-/

namespace BlkMq

/-- `cpumask_first(mask)`: the lowest CPU of the mask below `nr_cpu_ids`, or `nr_cpu_ids` when
there is none. Modelled from the spec: `cpumask.h` is not among the sources. -/
def cpumaskFirst (mask : ℕ → Bool) (nrCpuIds : ℕ) : ℕ :=
  ((List.range nrCpuIds).filter mask).headD nrCpuIds

/-- `cpumask_next(n, mask)`: the lowest CPU of the mask above `n`, or `nr_cpu_ids` when there is
none. Modelled from the spec. -/
def cpumaskNext (n : ℕ) (mask : ℕ → Bool) (nrCpuIds : ℕ) : ℕ :=
  ((List.range nrCpuIds).filter fun c => decide (n < c) && mask c).headD nrCpuIds

/-- The round robin of a hardware context: `hctx->next_cpu` and `hctx->next_cpu_batch`. -/
structure NextCpuState where
  nextCpu : ℕ
  nextCpuBatch : ℤ
  deriving DecidableEq, Repr

/-- `hctx->next_cpu` and `hctx->next_cpu_batch` as `blk_mq_map_swqueue` sets them; `batch` is
`BLK_MQ_CPU_WORK_BATCH`. -/
def NextCpuState.init (batch : ℕ) (mask : ℕ → Bool) (nrCpuIds : ℕ) : NextCpuState :=
  ⟨cpumaskFirst mask nrCpuIds, batch⟩

/-- `blk_mq_hctx_next_cpu(hctx)`: the state after, and the CPU returned (`none` for
`WORK_CPU_UNBOUND`). -/
def blkMqHctxNextCpu (batch : ℕ) (mask : ℕ → Bool) (nrCpuIds nrHwQueues : ℕ) (s : NextCpuState) :
    NextCpuState × Option ℕ :=
  if nrHwQueues = 1 then (s, none)
  else
    let s := { s with nextCpuBatch := s.nextCpuBatch - 1 }
    let s :=
      if s.nextCpuBatch ≤ 0 then
        let nextCpu := cpumaskNext s.nextCpu mask nrCpuIds
        let nextCpu := if nextCpu ≥ nrCpuIds then cpumaskFirst mask nrCpuIds else nextCpu
        { nextCpu := nextCpu, nextCpuBatch := batch }
      else s
    (s, some s.nextCpu)

/-- What `n` calls of `blk_mq_hctx_next_cpu` return, one after another. -/
def nextCpuCalls (batch : ℕ) (mask : ℕ → Bool) (nrCpuIds nrHwQueues : ℕ) :
    ℕ → NextCpuState → List (Option ℕ)
  | 0, _ => []
  | n + 1, s =>
    let r := blkMqHctxNextCpu batch mask nrCpuIds nrHwQueues s
    r.2 :: nextCpuCalls batch mask nrCpuIds nrHwQueues n r.1

section Cpumask

variable (mask : ℕ → Bool) (nrCpuIds : ℕ)

/-- The CPUs of the mask below `nr_cpu_ids`, in increasing order. -/
def cpumaskCpus : List ℕ := (List.range nrCpuIds).filter mask

/-- `cpumask_weight(mask)`. -/
def cpumaskWeight : ℕ := (cpumaskCpus mask nrCpuIds).length

theorem cpumaskCpus_pairwise : (cpumaskCpus mask nrCpuIds).Pairwise (· < ·) :=
  (List.pairwise_lt_range nrCpuIds).filter _

theorem mem_cpumaskCpus {c : ℕ} : c ∈ cpumaskCpus mask nrCpuIds ↔ c < nrCpuIds ∧ mask c = true := by
  simp [cpumaskCpus]

/-- In a strictly increasing list, the elements above the `k`-th are those after it. -/
theorem filter_lt_getElem {l : List ℕ} (hl : l.Pairwise (· < ·)) {k : ℕ} (hk : k < l.length) :
    l.filter (fun c => decide (l[k] < c)) = l.drop (k + 1) := by
  have hsorted := List.pairwise_iff_getElem.mp hl
  obtain ⟨x, hx⟩ : ∃ x, l[k] = x := ⟨_, rfl⟩
  rw [hx]
  conv_lhs => rw [← List.take_append_drop (k + 1) l]
  rw [List.filter_append, List.filter_eq_nil_iff.mpr, List.filter_eq_self.mpr, List.nil_append]
  · intro c hc
    obtain ⟨i, hi, rfl⟩ := List.getElem_of_mem hc
    rw [List.getElem_drop]
    simpa [← hx] using hsorted k (k + 1 + i) hk (by simp at hi; omega) (by omega)
  · intro c hc
    obtain ⟨i, hi, rfl⟩ := List.getElem_of_mem hc
    rw [List.getElem_take]
    simp only [List.length_take] at hi
    rcases Nat.lt_or_ge i k with hik | hik
    · have hlt := hsorted i k (by omega) hk hik
      rw [hx] at hlt
      simp only [decide_eq_true_eq, not_lt]
      omega
    · simp [← hx, show i = k by omega]

/-- `cpumask_next` of the `k`-th CPU of the mask is the next one, or `nr_cpu_ids` past the
last. -/
theorem cpumaskNext_getElem {k : ℕ} (hk : k < cpumaskWeight mask nrCpuIds) :
    cpumaskNext (cpumaskCpus mask nrCpuIds)[k] mask nrCpuIds =
      ((cpumaskCpus mask nrCpuIds).drop (k + 1)).headD nrCpuIds := by
  rw [cpumaskNext, ← List.filter_filter]
  exact congrArg (List.headD · nrCpuIds) (filter_lt_getElem (cpumaskCpus_pairwise mask nrCpuIds) hk)

/-- The move of `blk_mq_hctx_next_cpu` at the end of a batch, from the `k`-th CPU of the mask:
the next CPU, or the first one after the last. -/
theorem nextCpu_advance {k : ℕ} (hk : k < cpumaskWeight mask nrCpuIds) :
    (if cpumaskNext (cpumaskCpus mask nrCpuIds)[k] mask nrCpuIds ≥ nrCpuIds then
        cpumaskFirst mask nrCpuIds
      else cpumaskNext (cpumaskCpus mask nrCpuIds)[k] mask nrCpuIds) =
      (cpumaskCpus mask nrCpuIds).getD ((k + 1) % cpumaskWeight mask nrCpuIds) 0 := by
  rw [cpumaskNext_getElem mask nrCpuIds hk]
  unfold cpumaskWeight at hk ⊢
  rcases Nat.lt_or_ge (k + 1) (cpumaskCpus mask nrCpuIds).length with hnext | hlast
  · have hlt := ((mem_cpumaskCpus mask nrCpuIds).mp (List.getElem_mem hnext)).1
    rw [Nat.mod_eq_of_lt hnext, List.headD_eq_head?_getD, List.head?_drop, List.getElem?_eq_getElem hnext]
    simp [Nat.not_le.mpr hlt, hnext]
  · have hm : k + 1 = (cpumaskCpus mask nrCpuIds).length := by omega
    rw [hm, Nat.mod_self, List.drop_eq_nil_of_le (by omega), List.headD_nil,
      if_pos (Nat.le_refl _)]
    have h0 : 0 < (cpumaskCpus mask nrCpuIds).length := by omega
    show (cpumaskCpus mask nrCpuIds).headD nrCpuIds = _
    simp [List.headD_eq_head?_getD, List.head?_eq_getElem?, List.getElem?_eq_getElem h0]

/-- The CPU the round robin reads off the mask, at any count, is a CPU of the mask. -/
theorem getD_mod_mem (hm : 0 < cpumaskWeight mask nrCpuIds) (i : ℕ) :
    (cpumaskCpus mask nrCpuIds).getD (i % cpumaskWeight mask nrCpuIds) 0 ∈ cpumaskCpus mask nrCpuIds := by
  unfold cpumaskWeight at hm ⊢
  rw [List.getD_eq_getElem?_getD, List.getElem?_eq_getElem (Nat.mod_lt i hm)]
  exact List.getElem_mem _

end Cpumask

section RoundRobin

variable (batch : ℕ) (mask : ℕ → Bool) (nrCpuIds nrHwQueues : ℕ)

/-- The round robin after `t` calls from the start `blk_mq_map_swqueue` gives it: on the
`t / BLK_MQ_CPU_WORK_BATCH`-th CPU of the mask, cyclically, with the rest of that CPU's batch to
go. -/
def roundRobinAt (t : ℕ) : NextCpuState :=
  ⟨(cpumaskCpus mask nrCpuIds).getD (t / batch % cpumaskWeight mask nrCpuIds) 0,
    (batch : ℤ) - (t % batch : ℕ)⟩

theorem roundRobinAt_zero (hm : 0 < cpumaskWeight mask nrCpuIds) :
    roundRobinAt batch mask nrCpuIds 0 = NextCpuState.init batch mask nrCpuIds := by
  have h0 : 0 < (cpumaskCpus mask nrCpuIds).length := hm
  simp only [roundRobinAt, NextCpuState.init, Nat.zero_div, Nat.zero_mod, NextCpuState.mk.injEq]
  refine ⟨?_, by omega⟩
  show _ = (cpumaskCpus mask nrCpuIds).headD nrCpuIds
  simp [List.getD_eq_getElem?_getD, List.headD_eq_head?_getD, List.head?_eq_getElem?,
    List.getElem?_eq_getElem h0]

/-- One call of `blk_mq_hctx_next_cpu` moves the round robin on by one call: within a batch it
stays on its CPU, and the last call of a batch moves to the next CPU of the mask. -/
theorem blkMqHctxNextCpu_roundRobinAt (hb : 0 < batch) (hm : 0 < cpumaskWeight mask nrCpuIds)
    (hhw : nrHwQueues ≠ 1) (t : ℕ) :
    blkMqHctxNextCpu batch mask nrCpuIds nrHwQueues (roundRobinAt batch mask nrCpuIds t) =
      (roundRobinAt batch mask nrCpuIds (t + 1),
        some (roundRobinAt batch mask nrCpuIds (t + 1)).nextCpu) := by
  have hk : t / batch % cpumaskWeight mask nrCpuIds < cpumaskWeight mask nrCpuIds := Nat.mod_lt _ hm
  have hget : (cpumaskCpus mask nrCpuIds).getD (t / batch % cpumaskWeight mask nrCpuIds) 0 =
      (cpumaskCpus mask nrCpuIds)[t / batch % cpumaskWeight mask nrCpuIds] := by
    simp [List.getD_eq_getElem?_getD, List.getElem?_eq_getElem hk]
  have hdiv := Nat.div_add_mod t batch
  have hmod := Nat.mod_lt t hb
  simp only [blkMqHctxNextCpu, if_neg hhw, roundRobinAt]
  by_cases hend : t % batch + 1 = batch
  · obtain ⟨hq, hr⟩ : (t + 1) / batch = t / batch + 1 ∧ (t + 1) % batch = 0 :=
      (Nat.div_mod_unique hb).mpr ⟨by rw [Nat.mul_succ]; omega, hb⟩
    rw [if_pos (by omega)]
    simp only [hget, nextCpu_advance mask nrCpuIds hk, Nat.mod_add_mod, hq, hr, Prod.mk.injEq,
      NextCpuState.mk.injEq, and_true, true_and]
    omega
  · obtain ⟨hq, hr⟩ : (t + 1) / batch = t / batch ∧ (t + 1) % batch = t % batch + 1 :=
      (Nat.div_mod_unique hb).mpr ⟨by omega, by omega⟩
    rw [if_neg (by omega)]
    simp only [hq, hr, Prod.mk.injEq, NextCpuState.mk.injEq, and_true, true_and]
    omega

/-- From the round robin after `t` calls, the next `n` calls return, in order, the CPUs of the
closed form at `t + 1, …, t + n`. -/
theorem nextCpuCalls_roundRobinAt (hb : 0 < batch) (hm : 0 < cpumaskWeight mask nrCpuIds)
    (hhw : nrHwQueues ≠ 1) :
    ∀ (n t : ℕ), nextCpuCalls batch mask nrCpuIds nrHwQueues n (roundRobinAt batch mask nrCpuIds t) =
      (List.range n).map fun i => some (roundRobinAt batch mask nrCpuIds (t + i + 1)).nextCpu
  | 0, _ => rfl
  | n + 1, t => by
    rw [nextCpuCalls, blkMqHctxNextCpu_roundRobinAt batch mask nrCpuIds nrHwQueues hb hm hhw,
      nextCpuCalls_roundRobinAt hb hm hhw n (t + 1), List.range_succ_eq_map, List.map_cons,
      List.map_map]
    congr 2
    funext i
    simp only [Function.comp, Nat.add_right_comm t i 1, Nat.add_assoc t 1 i]
    rw [Nat.add_comm 1 i]

example : nextCpuCalls 2 (fun c => c == 1 || c == 2) 4 2 6 (.init 2 (fun c => c == 1 || c == 2) 4) =
    [some 1, some 2, some 2, some 1, some 1, some 2] := by decide

/-- Whatever `BLK_MQ_CPU_WORK_BATCH` is, a call of `blk_mq_hctx_next_cpu` on a round robin that
stands on a CPU of the mask returns a CPU of the mask, and stands on it. -/
theorem blkMqHctxNextCpu_mem (hhw : nrHwQueues ≠ 1) {s : NextCpuState}
    (hs : s.nextCpu ∈ cpumaskCpus mask nrCpuIds) :
    (blkMqHctxNextCpu batch mask nrCpuIds nrHwQueues s).1.nextCpu ∈ cpumaskCpus mask nrCpuIds ∧
      (blkMqHctxNextCpu batch mask nrCpuIds nrHwQueues s).2 =
        some (blkMqHctxNextCpu batch mask nrCpuIds nrHwQueues s).1.nextCpu := by
  obtain ⟨k, hk, hks⟩ := List.getElem_of_mem hs
  simp only [blkMqHctxNextCpu, if_neg hhw, and_true]
  by_cases hc : s.nextCpuBatch - 1 ≤ 0
  · rw [if_pos hc]
    dsimp only
    rw [← hks, nextCpu_advance mask nrCpuIds hk]
    exact getD_mod_mem mask nrCpuIds (Nat.lt_of_le_of_lt (Nat.zero_le k) hk) _
  · rw [if_neg hc]
    exact hs

/-- Every CPU the calls return is a CPU of the mask, from a round robin that stands on one. -/
theorem nextCpuCalls_mem (hhw : nrHwQueues ≠ 1) :
    ∀ (n : ℕ) (s : NextCpuState), s.nextCpu ∈ cpumaskCpus mask nrCpuIds →
      ∀ r ∈ nextCpuCalls batch mask nrCpuIds nrHwQueues n s, ∃ c ∈ cpumaskCpus mask nrCpuIds, r = some c
  | 0, _, _ => by simp [nextCpuCalls]
  | n + 1, s, hs => by
    obtain ⟨hmem, hret⟩ := blkMqHctxNextCpu_mem batch mask nrCpuIds nrHwQueues hhw hs
    intro r hr
    rw [nextCpuCalls, List.mem_cons] at hr
    rcases hr with rfl | hr
    · exact ⟨_, hmem, hret⟩
    · exact nextCpuCalls_mem hhw n _ hmem r hr

end RoundRobin

/-- Among any `batch * m` consecutive calls, counted from 0, some call `i` has
`(i + 1) / batch` on any given residue `j` modulo `m`. -/
theorem exists_call_in_window {batch m j : ℕ} (hb : 0 < batch) (hj : j < m) (s : ℕ) :
    ∃ i, s ≤ i ∧ i < s + batch * m ∧ (i + 1) / batch % m = j := by
  obtain ⟨q, hq⟩ : ∃ q, (s + 1) / batch = q := ⟨_, rfl⟩
  have hdiv := Nat.div_add_mod (s + 1) batch
  rw [hq] at hdiv
  have hmod := Nat.mod_lt (s + 1) hb
  have hqm := Nat.div_add_mod q m
  have hqlt := Nat.mod_lt q (Nat.lt_of_le_of_lt (Nat.zero_le j) hj)
  -- The block `q + r` of `batch` calls is on residue `j`.
  obtain ⟨r, hr, hrj⟩ : ∃ r, r < m ∧ (q + r) % m = j := by
    rcases Nat.lt_or_ge j (q % m) with hlt | hge
    · refine ⟨j + m - q % m, by omega, ?_⟩
      rw [show q + (j + m - q % m) = j + m * (q / m + 1) by rw [Nat.mul_succ]; omega,
        Nat.add_mul_mod_self_left, Nat.mod_eq_of_lt hj]
    · refine ⟨j - q % m, by omega, ?_⟩
      rw [show q + (j - q % m) = j + m * (q / m) by omega, Nat.add_mul_mod_self_left,
        Nat.mod_eq_of_lt hj]
  rcases Nat.eq_zero_or_pos r with rfl | hpos
  · have := Nat.mul_pos hb (Nat.lt_of_le_of_lt (Nat.zero_le j) hj)
    exact ⟨s, Nat.le_refl s, by omega, by simpa [hq] using hrj⟩
  · have hrm : batch * r + batch ≤ batch * m := by rw [← Nat.mul_succ]; exact Nat.mul_le_mul_left _ hr
    have hr1 : batch ≤ batch * r := Nat.le_mul_of_pos_right _ hpos
    refine ⟨batch * (q + r) - 1, ?_, ?_, ?_⟩
    · rw [Nat.mul_add]; omega
    · rw [Nat.mul_add]; omega
    · rw [Nat.sub_add_cancel (by rw [Nat.mul_add]; omega), Nat.mul_div_cancel_left _ hb, hrj]

/-- A hardware context with a non-empty `hctx->cpumask`, started as `blk_mq_map_swqueue` leaves
it, on a queue with more than one hardware queue, and `BLK_MQ_CPU_WORK_BATCH` (8 in
`include/linux/blk-mq.h`) any positive `batch`: every CPU that `n` calls of
`blk_mq_hctx_next_cpu` return is a CPU of the mask, and any `batch * cpumask_weight` consecutive
calls among them return every CPU of the mask. -/
theorem hctx_next_cpu_round_robin (batch : ℕ) (mask : ℕ → Bool) (nrCpuIds nrHwQueues n : ℕ)
    (hb : 0 < batch) (hmask : ∃ c < nrCpuIds, mask c = true) (hhw : 1 < nrHwQueues) :
    (∀ r ∈ nextCpuCalls batch mask nrCpuIds nrHwQueues n (NextCpuState.init batch mask nrCpuIds),
      ∃ c, r = some c ∧ c < nrCpuIds ∧ mask c = true) ∧
    ∀ s c, s + batch * cpumaskWeight mask nrCpuIds ≤ n → c < nrCpuIds → mask c = true →
      some c ∈ ((nextCpuCalls batch mask nrCpuIds nrHwQueues n
        (NextCpuState.init batch mask nrCpuIds)).drop s).take (batch * cpumaskWeight mask nrCpuIds) := by
  obtain ⟨c₀, hc₀, hmc₀⟩ := hmask
  have hhw' : nrHwQueues ≠ 1 := by omega
  have hm : 0 < cpumaskWeight mask nrCpuIds :=
    List.length_pos_of_mem ((mem_cpumaskCpus mask nrCpuIds).mpr ⟨hc₀, hmc₀⟩)
  rw [← roundRobinAt_zero batch mask nrCpuIds hm]
  refine ⟨fun r hr => ?_, fun s c hs hc hmc => ?_⟩
  · have hinit := getD_mod_mem mask nrCpuIds hm (0 / batch)
    obtain ⟨c, hc, rfl⟩ := nextCpuCalls_mem batch mask nrCpuIds nrHwQueues hhw' n _ hinit r hr
    exact ⟨c, rfl, (mem_cpumaskCpus mask nrCpuIds).mp hc⟩
  · obtain ⟨j, hj, rfl⟩ := List.getElem_of_mem ((mem_cpumaskCpus mask nrCpuIds).mpr ⟨hc, hmc⟩)
    obtain ⟨i, hsi, his, hij⟩ := exists_call_in_window (m := cpumaskWeight mask nrCpuIds) hb hj s
    rw [nextCpuCalls_roundRobinAt batch mask nrCpuIds nrHwQueues hb hm hhw' n 0,
      List.mem_iff_getElem?]
    refine ⟨i - s, ?_⟩
    rw [List.getElem?_take, if_pos (by omega), List.getElem?_drop, Nat.add_sub_cancel' hsi,
      List.getElem?_map, List.getElem?_range (by omega)]
    simp only [Option.map_some', roundRobinAt, Nat.zero_add, Option.some.injEq]
    rw [hij, List.getD_eq_getElem?_getD, List.getElem?_eq_getElem hj, Option.getD_some]

/-- Two of four CPUs in the mask, a batch of 2, six calls. -/
theorem hctx_next_cpu_round_robin_two_cpus :
    0 < 2 ∧ (∃ c < 4, (fun c => c == 1 || c == 2) c = true) ∧ 1 < 2 ∧
    ((∀ r ∈ nextCpuCalls 2 (fun c => c == 1 || c == 2) 4 2 6
        (NextCpuState.init 2 (fun c => c == 1 || c == 2) 4),
      ∃ c, r = some c ∧ c < 4 ∧ (fun c => c == 1 || c == 2) c = true) ∧
    ∀ s c, s + 2 * cpumaskWeight (fun c => c == 1 || c == 2) 4 ≤ 6 → c < 4 →
      (fun c => c == 1 || c == 2) c = true →
      some c ∈ ((nextCpuCalls 2 (fun c => c == 1 || c == 2) 4 2 6
        (NextCpuState.init 2 (fun c => c == 1 || c == 2) 4)).drop s).take
          (2 * cpumaskWeight (fun c => c == 1 || c == 2) 4)) :=
  ⟨by decide, ⟨1, by decide, rfl⟩, by decide,
    hctx_next_cpu_round_robin 2 _ 4 2 6 (by decide) ⟨1, by decide, rfl⟩ (by decide)⟩

end BlkMq
