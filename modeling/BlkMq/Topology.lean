import BlkMq.SwQueue

/-!
# Reallocating hardware contexts

`blk_mq_realloc_hw_ctxs` allocates `q->queue_hw_ctx[i]` for `i < set->nr_hw_queues` and stops at
the first allocation that fails, leaving `q->nr_hw_queues` at that index. The CPU map it is used
with, `q->mq_map = set->mq_map`, was built for all `set->nr_hw_queues` queues, and
`blk_mq_init_allocated_queue` only refuses a queue left with no hardware context at all. A CPU
mapped past the stopping index then looks up a NULL hardware context in `blk_mq_map_swqueue`.
-/

namespace BlkMq

open Function (update)

/-- `q->nr_hw_queues` and which entries of `q->queue_hw_ctx` are allocated. -/
structure HwCtxs where
  nrHwQueues : ℕ
  allocated : ℕ → Bool

namespace HwCtxs

/-- The allocated entries are exactly those below `q->nr_hw_queues`. -/
def WellFormed (q : HwCtxs) : Prop := ∀ j, q.allocated j = true ↔ j < q.nrHwQueues

/-- `q->queue_hw_ctx[idx]` is a hardware context: `idx < q->nr_hw_queues` and the entry is not
NULL. -/
def Finds (q : HwCtxs) (idx : ℕ) : Prop := idx < q.nrHwQueues ∧ q.allocated idx = true

instance (q : HwCtxs) : DecidablePred q.Finds := fun _ => inferInstanceAs (Decidable (_ ∧ _))

/-- A fresh `q->queue_hw_ctx`, with no hardware context. -/
theorem wellFormed_empty : (⟨0, fun _ => false⟩ : HwCtxs).WellFormed :=
  fun j => ⟨Bool.noConfusion, fun h => absurd h (Nat.not_lt_zero j)⟩

end HwCtxs

/-- The allocation loop of `blk_mq_realloc_hw_ctxs` over `n` indices from `i`: an allocated entry
is kept, a missing one is allocated and set up (`kzalloc_node`, `zalloc_cpumask_var_node`,
`blk_mq_init_hctx`, which succeed together when `ok i`), and the first failure ends the loop.
Returns the entries and the index where the loop ended. -/
def reallocLoop (ok : ℕ → Bool) : ℕ → ℕ → (ℕ → Bool) → (ℕ → Bool) × ℕ
  | 0, i, hctxs => (hctxs, i)
  | n + 1, i, hctxs =>
    if hctxs i then reallocLoop ok n (i + 1) hctxs
    else if ok i then reallocLoop ok n (i + 1) (update hctxs i true)
    else (hctxs, i)

/-- `blk_mq_realloc_hw_ctxs` for a set of `setNrHwQueues` hardware queues: the allocation loop,
then the entries from where it ended up to the old `q->nr_hw_queues` are freed, and
`q->nr_hw_queues` is set to where it ended. -/
def blkMqReallocHwCtxs (setNrHwQueues : ℕ) (ok : ℕ → Bool) (q : HwCtxs) : HwCtxs :=
  let r := reallocLoop ok setNrHwQueues 0 q.allocated
  ⟨r.2, fun j => if r.2 ≤ j ∧ j < q.nrHwQueues then false else r.1 j⟩

/-- The loop ends within its range, allocates every entry it passes, leaves the others alone, and
ends early only at a missing entry whose allocation fails. -/
theorem reallocLoop_spec (ok : ℕ → Bool) :
    ∀ (n i : ℕ) (hctxs : ℕ → Bool),
      i ≤ (reallocLoop ok n i hctxs).2 ∧ (reallocLoop ok n i hctxs).2 ≤ i + n ∧
      (∀ j, i ≤ j → j < (reallocLoop ok n i hctxs).2 → (reallocLoop ok n i hctxs).1 j = true) ∧
      (∀ j, (j < i ∨ (reallocLoop ok n i hctxs).2 ≤ j) → (reallocLoop ok n i hctxs).1 j = hctxs j) ∧
      ((reallocLoop ok n i hctxs).2 < i + n →
        hctxs (reallocLoop ok n i hctxs).2 = false ∧ ok (reallocLoop ok n i hctxs).2 = false)
  | 0, i, _ => ⟨le_rfl, Nat.le_add_right i 0, fun _ h1 h2 => absurd h2 (Nat.not_lt.mpr h1),
      fun _ _ => rfl, fun h => absurd h (lt_irrefl i)⟩
  | n + 1, i, hctxs => by
    by_cases hi : hctxs i = true
    · obtain ⟨h1, h2, h3, h4, h5⟩ := reallocLoop_spec ok n (i + 1) hctxs
      simp only [reallocLoop, hi, if_true]
      refine ⟨by omega, by omega, fun j hj hj' => ?_, fun j hj => h4 j (by omega), fun h => h5 (by omega)⟩
      rcases Nat.lt_or_eq_of_le hj with hj | rfl
      · exact h3 j hj hj'
      · rw [h4 _ (.inl (Nat.lt_succ_self _))]; exact hi
    · by_cases hok : ok i = true
      · obtain ⟨h1, h2, h3, h4, h5⟩ := reallocLoop_spec ok n (i + 1) (update hctxs i true)
        simp only [reallocLoop, hi, hok, if_true, Bool.false_eq_true, if_false]
        refine ⟨by omega, by omega, fun j hj hj' => ?_, fun j hj => ?_, fun h => ?_⟩
        · rcases Nat.lt_or_eq_of_le hj with hj | rfl
          · exact h3 j hj hj'
          · rw [h4 _ (.inl (Nat.lt_succ_self _))]; simp
        · rw [h4 j (by omega), Function.update_noteq (by omega)]
        · obtain ⟨h6, h7⟩ := h5 (by omega)
          rw [Function.update_noteq (by omega)] at h6
          exact ⟨h6, h7⟩
      · simp only [reallocLoop, hi, hok, Bool.false_eq_true, if_false]
        exact ⟨le_rfl, by omega, fun j hj hj' => absurd hj' (by omega), by simp,
          fun _ => ⟨trivial, trivial⟩⟩

namespace HwCtxs

variable {q : HwCtxs} {setNr : ℕ} {ok : ℕ → Bool}

/-- After `blk_mq_realloc_hw_ctxs`, the allocated entries are again exactly those below
`q->nr_hw_queues`, which is at most `set->nr_hw_queues`, and below it only because allocating
the hardware context at `q->nr_hw_queues` failed. -/
theorem WellFormed.realloc (hq : q.WellFormed) :
    (blkMqReallocHwCtxs setNr ok q).WellFormed ∧ (blkMqReallocHwCtxs setNr ok q).nrHwQueues ≤ setNr ∧
      ((blkMqReallocHwCtxs setNr ok q).nrHwQueues < setNr →
        ok (blkMqReallocHwCtxs setNr ok q).nrHwQueues = false) := by
  obtain ⟨-, h2, h3, h4, h5⟩ := reallocLoop_spec ok setNr 0 q.allocated
  refine ⟨fun j => ?_, by simpa [blkMqReallocHwCtxs] using h2, fun h => (h5 (by simpa using h)).2⟩
  simp only [blkMqReallocHwCtxs]
  split_ifs with hj
  · simp only [Bool.false_eq_true, false_iff, not_lt]; exact hj.1
  · by_cases hlt : j < (reallocLoop ok setNr 0 q.allocated).2
    · simp [h3 j (Nat.zero_le _) hlt, hlt]
    · rw [h4 j (.inr (by omega)), hq j]
      omega

end HwCtxs

/-- The CPU loop of `blk_mq_map_swqueue` leaves each CPU on the hardware queue `q->mq_map` gave
it, or moves it to hardware queue 0. -/
theorem mapSwqueueCpus_mqMap (q : SwMap) (tags online alloc : ℕ → Bool) (i : ℕ) :
    ∀ n, (mapSwqueueCpus q tags online alloc n).1.mqMap i = q.mqMap i ∨
      (mapSwqueueCpus q tags online alloc n).1.mqMap i = 0
  | 0 => .inl rfl
  | n + 1 => by
    have ih := mapSwqueueCpus_mqMap q tags online alloc i n
    simp only [mapSwqueueCpus]
    split_ifs
    · rw [SwMap.mapCpu_fst]
      split_ifs
      · exact ih
      · simp only [SwMap.addCtx, Function.update_apply]
        split_ifs
        · exact .inr rfl
        · exact ih
    · exact ih

/-- The hardware-queue steps of `blk_mq_init_allocated_queue`: `blk_mq_realloc_hw_ctxs` on a
fresh `q->queue_hw_ctx`, the `!q->nr_hw_queues` check (`none` is its error return), and
`blk_mq_map_swqueue` with `q->mq_map = set->mq_map`. -/
def blkMqInitAllocatedQueue (setNrHwQueues : ℕ) (ok : ℕ → Bool) (set : SwMap)
    (tags online alloc : ℕ → Bool) (nrCpuIds : ℕ) : Option (HwCtxs × SwMap) :=
  let hw := blkMqReallocHwCtxs setNrHwQueues ok ⟨0, fun _ => false⟩
  if hw.nrHwQueues = 0 then none else some (hw, blkMqMapSwqueue set tags online alloc nrCpuIds)

/-- With every hardware context allocated and a CPU map into them, every lookup of
`blk_mq_map_swqueue` and `blk_mq_map_queue` finds a hardware context. -/
theorem HwCtxs.finds_mapSwqueue {hw : HwCtxs} (hwf : hw.WellFormed) (hnr : 0 < hw.nrHwQueues)
    {set : SwMap} (hmap : ∀ cpu, set.mqMap cpu < hw.nrHwQueues) (tags online alloc : ℕ → Bool)
    (nrCpuIds i : ℕ) : hw.Finds ((blkMqMapSwqueue set tags online alloc nrCpuIds).mqMap i) := by
  have hlt : (blkMqMapSwqueue set tags online alloc nrCpuIds).mqMap i < hw.nrHwQueues := by
    rcases mapSwqueueCpus_mqMap set tags online alloc i nrCpuIds with h | h <;>
      simp only [blkMqMapSwqueue, h, hmap, hnr]
  exact ⟨hlt, (hwf _).mpr hlt⟩

/-- When no allocation fails, `blk_mq_init_allocated_queue` gets all `set->nr_hw_queues`
hardware contexts and every lookup for a CPU finds one. -/
theorem blkMqInitAllocatedQueue_finds {setNr : ℕ} (hnr : 0 < setNr) {ok : ℕ → Bool}
    (hok : ∀ j < setNr, ok j = true) {set : SwMap} (hmap : ∀ cpu, set.mqMap cpu < setNr)
    (tags online alloc : ℕ → Bool) (nrCpuIds : ℕ) :
    ∃ hw m, blkMqInitAllocatedQueue setNr ok set tags online alloc nrCpuIds = some (hw, m) ∧
      hw.nrHwQueues = setNr ∧ ∀ i, hw.Finds (m.mqMap i) := by
  obtain ⟨hwf, hle, hfail⟩ := @HwCtxs.WellFormed.realloc _ setNr ok HwCtxs.wellFormed_empty
  have heq : (blkMqReallocHwCtxs setNr ok ⟨0, fun _ => false⟩).nrHwQueues = setNr := by
    by_contra hne
    have hfails := hfail (lt_of_le_of_ne hle hne)
    rw [hok _ (lt_of_le_of_ne hle hne)] at hfails
    cases hfails
  refine ⟨_, blkMqMapSwqueue set tags online alloc nrCpuIds,
    by simp [blkMqInitAllocatedQueue, heq, Nat.pos_iff_ne_zero.mp hnr], heq,
    HwCtxs.finds_mapSwqueue hwf (by rwa [heq]) (fun cpu => by rw [heq]; exact hmap cpu) _ _ _ _⟩

/-- Two CPUs, a set of two hardware queues with `set->mq_map = [0, 1]` and its tags allocated,
and the allocation of hardware context 1 failing: `blk_mq_init_allocated_queue` goes on with
`q->nr_hw_queues = 1`, and `blk_mq_map_swqueue` looks up `q->queue_hw_ctx[1]` for CPU 1, past
`q->nr_hw_queues` and NULL. -/
theorem realloc_failure_null_hctx :
    ∃ hw m, blkMqInitAllocatedQueue 2 (fun i => i == 0) ⟨fun cpu => cpu, fun _ => 0, fun _ => []⟩
        (fun _ => true) (fun _ => true) (fun _ => true) 2 = some (hw, m) ∧
      hw.nrHwQueues = 1 ∧ m.mqMap 1 = 1 ∧ ¬ hw.Finds (m.mqMap 1) :=
  ⟨_, _, rfl, by decide, by decide, by decide⟩

end BlkMq
