import BlkMq.RunQueue

/-!
# Runs of hardware queues, interleaved

Nothing serializes the run, stop and start functions of `RunQueue` against one another.
`__blk_mq_delay_run_hw_queue` tests `BLK_MQ_S_STOPPED` without a lock and only then dispatches
or queues `hctx->run_work`; `blk_mq_stop_hw_queue` cancels the pending `run_work` and then sets
the bit; and a `run_work` that kblockd has started is no longer pending, so the cancel does not
reach it. The comment above `blk_mq_stop_hw_queue` says as much: dispatch is not guaranteed to
be blocked when it returns.

Here each call in progress is the list of steps it has still to take, and a run interleaves the
steps of all calls with kblockd starting pending work. Over every run, each queued run of a
context targets a CPU of its mask. A stopped context can still be dispatched, but only through
work already past the test of the bit when it was stopped: while it stays stopped, each of its
dispatches uses up one call past the test, one kblockd worker or the pending `run_work`, and no
step adds one. Run alone, each call does what its function in `RunQueue` does.
-/

namespace BlkMq

open Function (update)
open RunQueueState (setHctx_hctx_ne)

/-- A step a call has still to take. -/
inductive RunPc
  /-- An iteration of `blk_mq_run_hw_queues`: skip context `i` if it is stopped. -/
  | runIfNotStopped (i : ℕ) (async : Bool)
  /-- An iteration of `blk_mq_start_stopped_hw_queues`: skip context `i` unless it is stopped. -/
  | startIfStopped (i : ℕ) (async : Bool)
  /-- `blk_mq_run_hw_queue`: the `hctx_lock` section that computes `need_run`. -/
  | needRun (i : ℕ) (async : Bool)
  /-- `__blk_mq_delay_run_hw_queue`: the unlocked test of `BLK_MQ_S_STOPPED` and of
  `blk_mq_hw_queue_mapped`, and for a synchronous run the test of the CPU `get_cpu` returns. -/
  | test (i : ℕ) (async : Bool) (msecs : ℕ)
  /-- `__blk_mq_run_hw_queue(hctx)`. -/
  | dispatch (i : ℕ)
  /-- `kblockd_mod_delayed_work_on(blk_mq_hctx_next_cpu(hctx), &hctx->run_work, msecs)`, the
  round robin and the queueing taken as one step. -/
  | queue (i msecs : ℕ)
  /-- `cancel_delayed_work(&hctx->run_work)` in `blk_mq_stop_hw_queue`. -/
  | cancel (i : ℕ)
  /-- `set_bit(BLK_MQ_S_STOPPED, &hctx->state)`. -/
  | setStopped (i : ℕ)
  /-- `clear_bit(BLK_MQ_S_STOPPED, &hctx->state)`. -/
  | clearStopped (i : ℕ)
  /-- `blk_mq_quiesce_queue_nowait`: set `QUEUE_FLAG_QUIESCED`. -/
  | quiesce
  /-- `blk_mq_unquiesce_queue`: clear it under `q->queue_lock`. -/
  | unquiesce
  deriving DecidableEq, Repr

/-- What a step reads besides the shared state: `blk_mq_hctx_has_pending` of each context, and
the CPU it runs on. -/
structure RunInput where
  hasPending : ℕ → Bool
  cpu : ℕ

/-- One step at `pc`, reading `x`: the queue as the step leaves it, and the steps the call takes
next. -/
def RunPc.exec (c : RunQueueConfig) (s : RunQueueState) (x : RunInput) :
    RunPc → RunQueueState × List RunPc
  | .runIfNotStopped i async => (s, if (s.hctx i).stopped then [] else [.needRun i async])
  | .startIfStopped i async =>
    (s, if !(s.hctx i).stopped then [] else [.clearStopped i, .needRun i async])
  | .needRun i async => (s, if !s.quiesced && x.hasPending i then [.test i async 0] else [])
  | .test i async msecs =>
    (s, if (s.hctx i).stopped || !(c.hctx i).mapped then []
      else if !async && !(c.hctx i).blocking && (c.hctx i).cpumask x.cpu then [.dispatch i]
      else [.queue i msecs])
  | .dispatch i => (__blkMqRunHwQueue s i, [])
  | .queue i msecs => (queueRunWork c s i msecs, [])
  | .cancel i => (s.setHctx i { s.hctx i with runWork := none }, [])
  | .setStopped i => (s.setHctx i { s.hctx i with stopped := true }, [])
  | .clearStopped i => (s.setHctx i { s.hctx i with stopped := false }, [])
  | .quiesce => (blkMqQuiesceQueueNowait s, [])
  | .unquiesce => ({ s with quiesced := false }, [])

/-- The functions a caller enters. -/
inductive RunCall
  | runHwQueue (i : ℕ) (async : Bool)
  | delayRunHwQueue (i msecs : ℕ)
  | runHwQueues (async : Bool)
  | stopHwQueue (i : ℕ)
  | stopHwQueues
  | startHwQueue (i : ℕ)
  | startHwQueues
  | startStoppedHwQueues (async : Bool)
  | quiesce
  | unquiesce
  deriving DecidableEq, Repr

/-- The steps of a call as it is entered. -/
def RunCall.program (c : RunQueueConfig) : RunCall → List RunPc
  | .runHwQueue i async => [.needRun i async]
  | .delayRunHwQueue i msecs => [.test i true msecs]
  | .runHwQueues async => (List.range c.nrHwQueues).map (.runIfNotStopped · async)
  | .stopHwQueue i => [.cancel i, .setStopped i]
  | .stopHwQueues => (List.range c.nrHwQueues).flatMap fun i => [.cancel i, .setStopped i]
  | .startHwQueue i => [.clearStopped i, .needRun i false]
  | .startHwQueues => (List.range c.nrHwQueues).flatMap fun i => [.clearStopped i, .needRun i false]
  | .startStoppedHwQueues async => (List.range c.nrHwQueues).map (.startIfStopped · async)
  | .quiesce => [.quiesce]
  | .unquiesce => .unquiesce :: (List.range c.nrHwQueues).map (.runIfNotStopped · true)

/-- A step that dispatches context `i`, or queues its `run_work`, with no test of
`BLK_MQ_S_STOPPED` still before it. -/
def RunPc.pastTest (i : ℕ) : RunPc → Bool
  | .dispatch j | .queue j _ => j == i
  | _ => false

/-- No call is entered past a test: its first steps neither dispatch nor queue a run. -/
theorem RunCall.pastTest_program (c : RunQueueConfig) (f : RunCall) (i : ℕ) :
    ∀ pc ∈ f.program c, pc.pastTest i = false := by
  cases f <;>
    simp only [RunCall.program, List.mem_cons, List.mem_singleton, List.mem_map, List.mem_flatMap,
      List.not_mem_nil, or_false, RunPc.pastTest, forall_eq_or_imp, forall_eq, forall_exists_index,
      and_imp, forall_apply_eq_imp_iff₂, implies_true, and_self] <;>
    rintro _ _ _ (rfl | rfl) <;> rfl

/-- The queue with the calls in progress, each the steps it has still to take; a call that has
returned stays as the empty list. -/
structure RunSystem where
  queue : RunQueueState
  calls : List (List RunPc)

/-- What happens next in a run. -/
inductive RunEvent
  /-- A caller enters a function. -/
  | call (f : RunCall)
  /-- Call `j` takes its next step, reading `x`. -/
  | step (j : ℕ) (x : RunInput)
  /-- kblockd starts the pending `run_work` of context `i`: it is no longer pending, and a worker
  runs `blk_mq_run_work_fn`, which calls `__blk_mq_run_hw_queue`. -/
  | kblockd (i : ℕ)

/-- One event of a run. -/
def runStep (c : RunQueueConfig) (t : RunSystem) : RunEvent → RunSystem
  | .call f => ⟨t.queue, t.calls ++ [f.program c]⟩
  | .step j x =>
    match t.calls[j]? with
    | some (pc :: rest) =>
      let r := pc.exec c t.queue x
      ⟨r.1, t.calls.set j (r.2 ++ rest)⟩
    | _ => t
  | .kblockd i =>
    match (t.queue.hctx i).runWork with
    | some _ => ⟨t.queue.setHctx i { t.queue.hctx i with runWork := none }, t.calls ++ [[.dispatch i]]⟩
    | none => t

/-- The queue as `blk_mq_init_allocated_queue` leaves it, with no call in progress. -/
def RunSystem.init (c : RunQueueConfig) : RunSystem := ⟨.init c, []⟩

/-- The systems a run reaches from `RunSystem.init`. -/
inductive RunSystemReachable (c : RunQueueConfig) : RunSystem → Prop
  | init : RunSystemReachable c (.init c)
  | step {t : RunSystem} (e : RunEvent) : RunSystemReachable c t →
      RunSystemReachable c (runStep c t e)

/-- The queue states some run reaches, with whatever calls are then in progress. -/
def RunReachable (c : RunQueueConfig) (s : RunQueueState) : Prop :=
  ∃ calls, RunSystemReachable c ⟨s, calls⟩

/-- The queue of a reachable system is reachable. -/
theorem RunSystemReachable.runReachable {c : RunQueueConfig} {t : RunSystem}
    (ht : RunSystemReachable c t) : RunReachable c t.queue :=
  ⟨t.calls, ht⟩

/-- Runs from a reachable system stay reachable. -/
theorem RunSystemReachable.foldl {c : RunQueueConfig} :
    ∀ (es : List RunEvent) {t : RunSystem}, RunSystemReachable c t →
      RunSystemReachable c (es.foldl (runStep c) t)
  | [], _, ht => ht
  | e :: es, _, ht => RunSystemReachable.foldl es (.step e ht)

/-! ### What a step changes -/

/-- The step of call `j` at `pc`, with `rest` behind it. -/
theorem runStep_step {c : RunQueueConfig} {t : RunSystem} {j : ℕ} {pc : RunPc} {rest : List RunPc}
    (hj : t.calls[j]? = some (pc :: rest)) (x : RunInput) :
    runStep c t (.step j x) =
      ⟨(pc.exec c t.queue x).1, t.calls.set j ((pc.exec c t.queue x).2 ++ rest)⟩ := by
  simp only [runStep, hj]

/-- A call that has returned, or an index with no call, takes no step. -/
theorem runStep_step_of_nil {c : RunQueueConfig} {t : RunSystem} {j : ℕ}
    (hj : ∀ pc rest, t.calls[j]? ≠ some (pc :: rest)) (x : RunInput) : runStep c t (.step j x) = t := by
  rcases h : t.calls[j]? with _ | ⟨_ | ⟨pc, rest⟩⟩
  · simp only [runStep, h]
  · simp only [runStep, h]
  · exact absurd h (hj pc rest)

/-- Replacing one program by another changes the steps of all programs that satisfy `q` by the
difference. -/
theorem countP_flatten_set_add {q : RunPc → Bool} :
    ∀ {l : List (List RunPc)} {j : ℕ} {a : List RunPc}, l[j]? = some a → ∀ b : List RunPc,
      (l.set j b).flatten.countP q + a.countP q = l.flatten.countP q + b.countP q
  | _ :: _, 0, _, h, b => by
    simp only [List.getElem?_cons_zero, Option.some.injEq] at h
    subst h
    simp only [List.set_cons_zero, List.flatten_cons, List.countP_append]
    omega
  | _ :: _, j + 1, _, h, b => by
    simp only [List.getElem?_cons_succ] at h
    have := countP_flatten_set_add (q := q) h b
    simp only [List.set_cons_succ, List.flatten_cons, List.countP_append]
    omega

/-! ### Queued runs stay on the context's CPUs -/

/-- Every round robin of a mapped context, and every run queued for a CPU, stands on a CPU of the
context's mask. -/
structure OnMask (c : RunQueueConfig) (s : RunQueueState) : Prop where
  next_on_mask : ∀ i, (c.hctx i).mapped = true →
    (s.hctx i).nextCpu.nextCpu ∈ cpumaskCpus (c.hctx i).cpumask c.nrCpuIds
  work_on_mask : ∀ i cpu msecs, (s.hctx i).runWork = some (some cpu, msecs) →
    cpu ∈ cpumaskCpus (c.hctx i).cpumask c.nrCpuIds

section OnMask

variable {c : RunQueueConfig} {s : RunQueueState}

theorem onMask_init (c : RunQueueConfig) : OnMask c (.init c) where
  next_on_mask i hm := by
    show (NextCpuState.init c.batch (c.hctx i).cpumask c.nrCpuIds).nextCpu ∈ _
    rw [← roundRobinAt_zero c.batch _ c.nrCpuIds (c.mapped_cpu i hm)]
    exact getD_mod_mem _ _ (c.mapped_cpu i hm) _
  work_on_mask _ _ _ h := Option.noConfusion h

/-- Writing context `i` keeps the invariant when the new context keeps it. -/
theorem OnMask.setHctx (hs : OnMask c s) (i : ℕ) (h : RunHctx)
    (hnext : (c.hctx i).mapped = true → h.nextCpu.nextCpu ∈ cpumaskCpus (c.hctx i).cpumask c.nrCpuIds)
    (hwork : ∀ cpu msecs, h.runWork = some (some cpu, msecs) →
      cpu ∈ cpumaskCpus (c.hctx i).cpumask c.nrCpuIds) :
    OnMask c (s.setHctx i h) := by
  refine ⟨fun j => ?_, fun j => ?_⟩ <;> rcases eq_or_ne j i with rfl | hj
  · simpa using hnext
  · rw [setHctx_hctx_ne _ _ hj]; exact hs.next_on_mask j
  · simpa using hwork
  · rw [setHctx_hctx_ne _ _ hj]; exact hs.work_on_mask j

/-- A run queued on kblockd targets the CPU the round robin returned: one of the mask, or
`WORK_CPU_UNBOUND` with a single hardware queue. -/
theorem OnMask.queueRunWork (hs : OnMask c s) {i : ℕ} (hm : (c.hctx i).mapped = true) (msecs : ℕ) :
    OnMask c (queueRunWork c s i msecs) := by
  unfold BlkMq.queueRunWork
  refine hs.setHctx i _ (fun _ => ?_) fun cpu ms h => ?_
  · by_cases h1 : c.nrHwQueues = 1
    · simpa [blkMqHctxNextCpu, h1] using hs.next_on_mask i hm
    · exact (blkMqHctxNextCpu_mem _ _ _ _ h1 (hs.next_on_mask i hm)).1
  · by_cases h1 : c.nrHwQueues = 1
    · simp [blkMqHctxNextCpu, h1] at h
    · obtain ⟨hmem, hret⟩ := blkMqHctxNextCpu_mem c.batch _ _ _ h1 (hs.next_on_mask i hm)
      simp only [Option.some.injEq, Prod.mk.injEq, hret] at h
      rw [← h.1]
      exact hmem

/-- A step keeps the invariant, when a step that queues a run is one for a mapped context. -/
theorem OnMask.exec (hs : OnMask c s) (x : RunInput) {pc : RunPc}
    (hpc : ∀ i msecs, pc = .queue i msecs → (c.hctx i).mapped = true) :
    OnMask c (pc.exec c s x).1 := by
  cases pc with
  | dispatch i => exact ⟨hs.next_on_mask, hs.work_on_mask⟩
  | queue i msecs => exact hs.queueRunWork (hpc i msecs rfl) msecs
  | cancel i => exact hs.setHctx i _ (hs.next_on_mask i) fun _ _ h => Option.noConfusion h
  | setStopped i | clearStopped i => exact hs.setHctx i _ (hs.next_on_mask i) (hs.work_on_mask i)
  | quiesce | unquiesce => exact ⟨hs.next_on_mask, hs.work_on_mask⟩
  | runIfNotStopped | startIfStopped | needRun | test => exact hs

end OnMask

/-- A step queues a run only for a mapped context: the test of `__blk_mq_delay_run_hw_queue`
comes first. -/
theorem RunPc.exec_queue_mapped (c : RunQueueConfig) (s : RunQueueState) (x : RunInput) (pc : RunPc)
    {i msecs : ℕ} (h : RunPc.queue i msecs ∈ (pc.exec c s x).2) : (c.hctx i).mapped = true := by
  cases pc with
  | test j async ms =>
    simp only [RunPc.exec] at h
    split_ifs at h with h1 h2 <;> simp only [List.mem_singleton, List.not_mem_nil, reduceCtorEq,
      RunPc.queue.injEq] at h
    · simp only [Bool.or_eq_true, Bool.not_eq_true', not_or] at h1
      rw [h.1]
      simpa using h1.2
  | runIfNotStopped | startIfStopped | needRun =>
    simp only [RunPc.exec] at h
    split_ifs at h <;> simp at h
  | dispatch | queue | cancel | setStopped | clearStopped | quiesce | unquiesce =>
    simp [RunPc.exec] at h

/-- What every reachable system keeps: the queue is on its masks, and every call about to queue a
run does so for a mapped context. -/
structure RunSafe (c : RunQueueConfig) (t : RunSystem) : Prop where
  onMask : OnMask c t.queue
  queue_mapped : ∀ p ∈ t.calls, ∀ i msecs, RunPc.queue i msecs ∈ p → (c.hctx i).mapped = true

/-- Step lemma: every event keeps the invariant. -/
theorem RunSafe.runStep {c : RunQueueConfig} {t : RunSystem} (ht : RunSafe c t) (e : RunEvent) :
    RunSafe c (runStep c t e) := by
  cases e with
  | call f =>
    refine ⟨ht.onMask, fun p hp i msecs hq => ?_⟩
    rcases List.mem_append.1 hp with hp | hp
    · exact ht.queue_mapped p hp i msecs hq
    · rw [List.mem_singleton.1 hp] at hq
      exact absurd (RunCall.pastTest_program c f i _ hq) (by simp [RunPc.pastTest])
  | step j x =>
    rcases hj : t.calls[j]? with _ | ⟨_ | ⟨pc, rest⟩⟩
    · rwa [runStep_step_of_nil (by simp [hj])]
    · rwa [runStep_step_of_nil (by simp [hj])]
    have hmem := List.getElem?_mem hj
    rw [runStep_step hj]
    refine ⟨ht.onMask.exec x fun i msecs h => ht.queue_mapped _ hmem i msecs (h ▸ List.mem_cons_self _ _),
      fun p hp i msecs hq => ?_⟩
    rcases List.mem_or_eq_of_mem_set hp with hp | rfl
    · exact ht.queue_mapped p hp i msecs hq
    · rcases List.mem_append.1 hq with hq | hq
      · exact RunPc.exec_queue_mapped c _ x pc hq
      · exact ht.queue_mapped _ hmem i msecs (List.mem_cons_of_mem _ hq)
  | kblockd i =>
    simp only [BlkMq.runStep]
    split
    · refine ⟨ht.onMask.setHctx i _ (ht.onMask.next_on_mask i) fun _ _ h => Option.noConfusion h,
        fun p hp j msecs hq => ?_⟩
      rcases List.mem_append.1 hp with hp | hp
      · exact ht.queue_mapped p hp j msecs hq
      · simp at hp; simp [hp] at hq
    · exact ht

/-- Run lemma: every reachable system keeps the invariant. -/
theorem RunSystemReachable.safe {c : RunQueueConfig} {t : RunSystem} (ht : RunSystemReachable c t) :
    RunSafe c t := by
  induction ht with
  | init => exact ⟨onMask_init c, fun _ h => absurd h (List.not_mem_nil _)⟩
  | step e _ ih => exact ih.runStep e

/-! ### Stopped contexts -/

/-- One for a pending `run_work` of context `i`. -/
def RunQueueState.pendingRun (s : RunQueueState) (i : ℕ) : ℕ :=
  if (s.hctx i).runWork.isSome then 1 else 0

/-- The dispatches of context `i` so far. -/
def RunQueueState.dispatched (s : RunQueueState) (i : ℕ) : ℕ :=
  s.runs.countP (·.1 == i)

/-- The dispatches of context `i` that can still come without another test of
`BLK_MQ_S_STOPPED`: one for each step past the test in the calls in progress (a caller past the
test of `__blk_mq_delay_run_hw_queue`, a kblockd worker in `blk_mq_run_work_fn`), and one for a
pending `run_work`. -/
def RunSystem.licenses (t : RunSystem) (i : ℕ) : ℕ :=
  t.calls.flatten.countP (RunPc.pastTest i) + t.queue.pendingRun i

/-- On a stopped context, a step makes no new license: a dispatch or a queueing uses up its own,
a cancel may drop the pending run, and a test of the stopped context fails. -/
theorem RunPc.exec_licenses (c : RunQueueConfig) (s : RunQueueState) (x : RunInput) (pc : RunPc)
    {i : ℕ} (hst : (s.hctx i).stopped = true) :
    (pc.exec c s x).1.dispatched i + (pc.exec c s x).2.countP (RunPc.pastTest i) +
        (pc.exec c s x).1.pendingRun i ≤
      s.dispatched i + (if pc.pastTest i then 1 else 0) + s.pendingRun i := by
  have hpend : ∀ (j : ℕ) (h : RunHctx), j ≠ i → (s.setHctx j h).pendingRun i = s.pendingRun i :=
    fun j h hj => by simp [RunQueueState.pendingRun, setHctx_hctx_ne _ _ (Ne.symm hj)]
  cases pc with
  | runIfNotStopped j async | startIfStopped j async | needRun j async =>
    simp only [RunPc.exec]
    split_ifs <;> simp [RunPc.pastTest]
  | test j async msecs =>
    simp only [RunPc.exec]
    by_cases hj : j = i
    · subst hj; simp [hst, RunPc.pastTest]
    · split_ifs <;> simp [RunPc.pastTest, hj]
  | dispatch j =>
    by_cases hj : j = i <;>
      simp [RunPc.exec, RunPc.pastTest, __blkMqRunHwQueue, RunQueueState.dispatched,
        RunQueueState.pendingRun, List.countP_append, hj]
  | queue j msecs =>
    simp only [RunPc.exec, queueRunWork, List.countP_nil, RunPc.pastTest]
    by_cases hj : j = i
    · subst hj; simp [RunQueueState.dispatched, RunQueueState.pendingRun]
    · rw [hpend j _ hj]; simp [RunQueueState.dispatched, hj]
  | cancel j | setStopped j | clearStopped j =>
    simp only [RunPc.exec, List.countP_nil, RunPc.pastTest]
    by_cases hj : j = i
    · subst hj; simp [RunQueueState.dispatched, RunQueueState.pendingRun]
    · rw [hpend j _ hj]; simp [RunQueueState.dispatched]
  | quiesce | unquiesce => simp [RunPc.exec, blkMqQuiesceQueueNowait, RunQueueState.dispatched,
      RunQueueState.pendingRun, RunPc.pastTest]

/-- Step lemma: an event taken while context `i` is stopped makes no new license, and each
dispatch of `i` uses one up. -/
theorem RunSystem.licenses_runStep (c : RunQueueConfig) (t : RunSystem) (e : RunEvent) {i : ℕ}
    (hst : (t.queue.hctx i).stopped = true) :
    (runStep c t e).queue.dispatched i + (runStep c t e).licenses i ≤
      t.queue.dispatched i + t.licenses i := by
  cases e with
  | call f =>
    have hf : (f.program c).countP (RunPc.pastTest i) = 0 :=
      List.countP_eq_zero.2 fun pc h => by simp [RunCall.pastTest_program c f i pc h]
    simp [runStep, RunSystem.licenses, hf]
  | step j x =>
    rcases hj : t.calls[j]? with _ | ⟨_ | ⟨pc, rest⟩⟩
    · rw [runStep_step_of_nil (by simp [hj])]
    · rw [runStep_step_of_nil (by simp [hj])]
    have hsum := countP_flatten_set_add (q := RunPc.pastTest i) hj ((pc.exec c t.queue x).2 ++ rest)
    have hpc := RunPc.exec_licenses c t.queue x pc hst
    rw [runStep_step hj]
    simp only [RunSystem.licenses, List.countP_append, List.countP_cons] at hsum ⊢
    split_ifs at hsum hpc <;> omega
  | kblockd j =>
    simp only [runStep]
    split
    · rename_i w hw
      by_cases hj : j = i
      · subst hj
        simp [RunSystem.licenses, RunQueueState.pendingRun, RunQueueState.dispatched, RunPc.pastTest,
          hw]
      · simp [RunSystem.licenses, RunQueueState.pendingRun, RunQueueState.dispatched, RunPc.pastTest,
          hj, setHctx_hctx_ne _ _ (Ne.symm hj)]
    · exact le_refl _

/-- `t'` is reached from `t` by events each taken while context `i` is stopped. -/
inductive StoppedRun (c : RunQueueConfig) (i : ℕ) (t : RunSystem) : RunSystem → Prop
  | refl : StoppedRun c i t t
  | step {t' : RunSystem} (e : RunEvent) : StoppedRun c i t t' → (t'.queue.hctx i).stopped = true →
      StoppedRun c i t (runStep c t' e)

/-- Events taken one after another, each while context `i` is stopped. -/
theorem StoppedRun.foldl {c : RunQueueConfig} {i : ℕ} {t : RunSystem} :
    ∀ (es : List RunEvent) {t' : RunSystem}, StoppedRun c i t t' →
      (∀ k < es.length, (((es.take k).foldl (runStep c) t').queue.hctx i).stopped = true) →
      StoppedRun c i t (es.foldl (runStep c) t')
  | [], _, h, _ => h
  | e :: es, _, h, hst =>
    StoppedRun.foldl es (.step e h (hst 0 (Nat.succ_pos _))) fun k hk => hst (k + 1) (by simp [hk])

/-- While a hardware context stays stopped, it is dispatched only through work already past the
test of `BLK_MQ_S_STOPPED`. Over every interleaving of the run, stop and start functions, of
kblockd and of its workers, from any state, the dispatches of the context and its licenses (the
calls past the test of `__blk_mq_delay_run_hw_queue`, the workers in `blk_mq_run_work_fn`, the
pending `run_work`) never add up to more than the licenses it had when the run began: a stopped
context with none is not dispatched until it is started again. A call past the test when
`blk_mq_stop_hw_queue` cancels, or a worker already running, is such a license, which is why the
stop does not block dispatch. -/
theorem stopped_hw_queue_dispatch_bounded {c : RunQueueConfig} {i : ℕ} {t t' : RunSystem}
    (h : StoppedRun c i t t') :
    t'.queue.dispatched i + t'.licenses i ≤ t.queue.dispatched i + t.licenses i := by
  induction h with
  | refl => exact le_refl _
  | step e _ hst ih => exact (RunSystem.licenses_runStep c _ e hst).trans ih

/-- A call of `blk_mq_delay_run_hw_queue` passes the test on context 0, then
`blk_mq_stop_hw_queue(hctx 0)` runs to its end; the first call queues `run_work`, and kblockd
runs it. -/
def stopRace : List RunEvent :=
  [.call (.delayRunHwQueue 0 0), .step 0 ⟨fun _ => true, 0⟩, .call (.stopHwQueue 0),
    .step 1 ⟨fun _ => true, 0⟩, .step 1 ⟨fun _ => true, 0⟩, .step 0 ⟨fun _ => true, 0⟩,
    .kblockd 0, .step 2 ⟨fun _ => true, 0⟩]

/-- The race when `blk_mq_stop_hw_queue` returns. -/
def stopRaceStopped : RunSystem :=
  (stopRace.take 5).foldl (runStep twoHctxQueue) (.init twoHctxQueue)

theorem stopped_hw_queue_dispatch_bounded_race :
    StoppedRun twoHctxQueue 0 stopRaceStopped
        ((stopRace.drop 5).foldl (runStep twoHctxQueue) stopRaceStopped) ∧
      ((stopRace.drop 5).foldl (runStep twoHctxQueue) stopRaceStopped).queue.dispatched 0 +
          ((stopRace.drop 5).foldl (runStep twoHctxQueue) stopRaceStopped).licenses 0 ≤
        stopRaceStopped.queue.dispatched 0 + stopRaceStopped.licenses 0 :=
  have h := StoppedRun.foldl (stopRace.drop 5) .refl (by decide)
  ⟨h, stopped_hw_queue_dispatch_bounded h⟩

/-- The stopped context is dispatched: its one license, the call past the test, is used. -/
example : stopRaceStopped.licenses 0 = 1 ∧
    ((stopRace.drop 5).foldl (runStep twoHctxQueue) stopRaceStopped).queue.runs = [(0, true)] := by
  decide

/-- Over every run, each run of a hardware context queued on kblockd for a CPU is queued for a
CPU of the context's mask: `blk_mq_hctx_next_cpu` only moves its round robin within the mask, from
the first CPU of it. -/
theorem queued_runs_on_hctx_cpus {c : RunQueueConfig} {s : RunQueueState} (hs : RunReachable c s) :
    ∀ i cpu msecs, (s.hctx i).runWork = some (some cpu, msecs) →
      cpu ∈ cpumaskCpus (c.hctx i).cpumask c.nrCpuIds :=
  let ⟨_, ht⟩ := hs
  ht.safe.onMask.work_on_mask

theorem queued_runs_on_hctx_cpus_two_hctxs :
    RunReachable twoHctxQueue ((stopRace.take 6).foldl (runStep twoHctxQueue) (.init twoHctxQueue)).queue ∧
    ∀ i cpu msecs,
      (((stopRace.take 6).foldl (runStep twoHctxQueue) (.init twoHctxQueue)).queue.hctx i).runWork =
        some (some cpu, msecs) → cpu ∈ cpumaskCpus (twoHctxQueue.hctx i).cpumask twoHctxQueue.nrCpuIds :=
  have hs := (RunSystemReachable.foldl (stopRace.take 6) (.init : RunSystemReachable twoHctxQueue _)).runReachable
  ⟨hs, queued_runs_on_hctx_cpus hs⟩

/-! ### A call run alone

The functions of `RunQueue` are the calls run alone: entered, and given all their steps before
anything else happens, each leaves the queue as its function does. -/

/-- What a step and the steps it leads to do when nothing runs in between, by the functions of
`RunQueue`. -/
def RunPc.alone (c : RunQueueConfig) (x : RunInput) (s : RunQueueState) : RunPc → RunQueueState
  | .runIfNotStopped i async =>
    if (s.hctx i).stopped then s else (blkMqRunHwQueue c s i async x.cpu (x.hasPending i)).1
  | .startIfStopped i async =>
    if !(s.hctx i).stopped then s else startAndRun c s i async x.cpu (x.hasPending i)
  | .needRun i async => (blkMqRunHwQueue c s i async x.cpu (x.hasPending i)).1
  | .test i async msecs => __blkMqDelayRunHwQueue c s i async msecs x.cpu
  | pc => (pc.exec c s x).1

/-- How many levels of steps a step can still lead to. -/
def RunPc.rank : RunPc → ℕ
  | .startIfStopped _ _ => 5
  | .runIfNotStopped _ _ => 4
  | .needRun _ _ => 3
  | .test _ _ _ => 2
  | _ => 1

/-- The levels of the steps of a program, added up. -/
def programRank (p : List RunPc) : ℕ := p.foldr (fun pc n => pc.rank + n) 0

@[simp] theorem programRank_nil : programRank [] = 0 := rfl

@[simp] theorem programRank_cons (pc : RunPc) (p : List RunPc) :
    programRank (pc :: p) = pc.rank + programRank p := rfl

@[simp] theorem programRank_append (p q : List RunPc) :
    programRank (p ++ q) = programRank p + programRank q := by
  induction p with
  | nil => simp
  | cons pc p ih => simp [ih, Nat.add_assoc]

/-- A step leads only to steps of lower levels. -/
theorem RunPc.exec_rank (c : RunQueueConfig) (s : RunQueueState) (x : RunInput) (pc : RunPc) :
    programRank (pc.exec c s x).2 < pc.rank := by
  cases pc <;> simp only [RunPc.exec] <;> (try split_ifs) <;> simp [RunPc.rank]

/-- A step followed, alone, by the steps it leads to does what its function does. -/
theorem RunPc.exec_alone (c : RunQueueConfig) (s : RunQueueState) (x : RunInput) (pc : RunPc) :
    (pc.exec c s x).2.foldl (RunPc.alone c x) (pc.exec c s x).1 = pc.alone c x s := by
  cases pc with
  | runIfNotStopped | startIfStopped => simp only [RunPc.exec, RunPc.alone]; split_ifs <;> rfl
  | needRun i async =>
    simp only [RunPc.exec, RunPc.alone, blkMqRunHwQueue]
    split_ifs <;> rfl
  | test i async msecs =>
    simp only [RunPc.exec, RunPc.alone, __blkMqDelayRunHwQueue]
    split_ifs <;> rfl
  | dispatch | queue | cancel | setStopped | clearStopped | quiesce | unquiesce => rfl

/-- Call `j`, given every step and nothing else, gets through the steps `p` in front of its
program and leaves the queue as they do alone. -/
theorem RunSystem.steps_alone (c : RunQueueConfig) (j : ℕ) (x : RunInput) :
    ∀ (m : ℕ) (p rest : List RunPc) (t : RunSystem), programRank p = m →
      t.calls[j]? = some (p ++ rest) →
      ∃ n, (List.replicate n (.step j x)).foldl (runStep c) t =
        ⟨p.foldl (RunPc.alone c x) t.queue, t.calls.set j rest⟩ := by
  intro m
  induction m using Nat.strong_induction_on with
  | _ m ih =>
    intro p rest t hm hj
    cases p with
    | nil =>
      refine ⟨0, ?_⟩
      have hlt := (List.getElem?_eq_some_iff.1 hj).1
      have hset : t.calls.set j rest = t.calls := List.ext_getElem? fun k => by
        rw [List.getElem?_set]
        split_ifs with h1
        · subst h1; simpa using hj.symm
        · rfl
      rw [List.foldl_nil, hset]
      rfl
    | cons pc p =>
      have hlt := (List.getElem?_eq_some_iff.1 hj).1
      have hstep := runStep_step (c := c) (hj : t.calls[j]? = some (pc :: (p ++ rest))) x
      have hlower : programRank ((pc.exec c t.queue x).2 ++ p) < m := by
        have := RunPc.exec_rank c t.queue x pc
        simp only [programRank_cons] at hm
        simp only [programRank_append]
        omega
      obtain ⟨n, hn⟩ := ih _ hlower ((pc.exec c t.queue x).2 ++ p) rest (runStep c t (.step j x)) rfl
        (by simp [hstep, List.getElem?_set, hlt])
      refine ⟨n + 1, ?_⟩
      rw [List.replicate_succ, List.foldl_cons, hn, hstep]
      simp only [List.foldl_append, RunPc.exec_alone, List.foldl_cons, List.set_set]

/-- The function of `RunQueue` a call runs, reading `x`. -/
def RunCall.apply (c : RunQueueConfig) (x : RunInput) (s : RunQueueState) : RunCall → RunQueueState
  | .runHwQueue i async => (blkMqRunHwQueue c s i async x.cpu (x.hasPending i)).1
  | .delayRunHwQueue i msecs => blkMqDelayRunHwQueue c s i msecs
  | .runHwQueues async => blkMqRunHwQueues c s async x.cpu x.hasPending
  | .stopHwQueue i => blkMqStopHwQueue s i
  | .stopHwQueues => blkMqStopHwQueues c s
  | .startHwQueue i => blkMqStartHwQueue c s i x.cpu (x.hasPending i)
  | .startHwQueues => blkMqStartHwQueues c s x.cpu x.hasPending
  | .startStoppedHwQueues async => blkMqStartStoppedHwQueues c s async x.cpu x.hasPending
  | .quiesce => blkMqQuiesceQueueNowait s
  | .unquiesce => blkMqUnquiesceQueue c s x.cpu x.hasPending

/-- `blk_mq_stop_hw_queue` run alone: the cancel, then the bit. -/
theorem stopSteps_alone (c : RunQueueConfig) (x : RunInput) (s : RunQueueState) (i : ℕ) :
    [RunPc.cancel i, .setStopped i].foldl (RunPc.alone c x) s = blkMqStopHwQueue s i := by
  simp [RunPc.alone, RunPc.exec, blkMqStopHwQueue, RunQueueState.setHctx, Function.update_idem]

/-- The steps of a call, run alone, do what its function does. -/
theorem RunCall.program_alone (c : RunQueueConfig) (x : RunInput) (s : RunQueueState) (f : RunCall) :
    (f.program c).foldl (RunPc.alone c x) s = f.apply c x s := by
  cases f with
  | stopHwQueue i => exact stopSteps_alone c x s i
  | stopHwQueues =>
    simp only [RunCall.program, RunCall.apply, blkMqStopHwQueues, forEachHwCtx, List.flatMap_def,
      List.foldl_flatten, List.foldl_map, stopSteps_alone]
  | startHwQueues =>
    simp only [RunCall.program, RunCall.apply, blkMqStartHwQueues, forEachHwCtx, List.flatMap_def,
      List.foldl_flatten, List.foldl_map]
    rfl
  | runHwQueues | startStoppedHwQueues | unquiesce =>
    simp only [RunCall.program, RunCall.apply, blkMqRunHwQueues, blkMqStartStoppedHwQueues,
      blkMqUnquiesceQueue, forEachHwCtx, List.foldl_map, List.foldl_cons]
    rfl
  | runHwQueue | delayRunHwQueue | startHwQueue | quiesce => rfl

/-- Run alone, each call does what its function in `RunQueue` does: a call entered on the queue
as it is in `t`, and then given every step it takes, reading `x`, before anything else happens,
returns and leaves the queue as the function leaves it. -/
theorem RunCall.runs_alone (c : RunQueueConfig) (t : RunSystem) (f : RunCall) (x : RunInput) :
    ∃ n, (List.replicate n (.step t.calls.length x)).foldl (runStep c) (runStep c t (.call f)) =
      ⟨f.apply c x t.queue, t.calls ++ [[]]⟩ := by
  obtain ⟨n, hn⟩ := RunSystem.steps_alone c t.calls.length x _ (f.program c) []
    (runStep c t (.call f)) rfl
    (by simp [runStep])
  refine ⟨n, hn.trans ?_⟩
  simp [runStep, RunCall.program_alone]

/-- `blk_mq_run_work_fn` run alone: kblockd starts the pending `run_work`, and the worker
dispatches at once. -/
theorem runWork_alone (c : RunQueueConfig) (t : RunSystem) (i : ℕ) (x : RunInput) :
    (runStep c (runStep c t (.kblockd i)) (.step t.calls.length x)).queue = blkMqRunWorkFn t.queue i := by
  unfold blkMqRunWorkFn
  rcases hw : (t.queue.hctx i).runWork with _ | w
  · simp [runStep, hw]
  · simp [runStep, hw, RunPc.exec]

end BlkMq
