import BlkMq.NextCpu

/-!
# Running, stopping and starting hardware queues

A hardware queue is run through `blk_mq_run_hw_queue`: under `hctx_lock` it reads whether the
request queue is quiesced and whether the context has work (`blk_mq_hctx_has_pending`), and if
it should run, `__blk_mq_delay_run_hw_queue` dispatches at once, for a synchronous run of a
non-blocking context on a CPU of its mask, or else queues `hctx->run_work` on kblockd, on the CPU
`blk_mq_hctx_next_cpu` picks. A stopped (`BLK_MQ_S_STOPPED`) or unmapped context is not run there.
`blk_mq_stop_hw_queue` cancels the queued run and sets the bit; `blk_mq_start_hw_queue` clears it
and runs the context, `blk_mq_start_stopped_hw_queues` does so for the stopped ones, and
`blk_mq_unquiesce_queue` clears `QUEUE_FLAG_QUIESCED` and runs every context that is not stopped.
The work function `blk_mq_run_work_fn` dispatches.

Here each function runs alone, to its end, with `blk_mq_hctx_has_pending` and the caller's CPU
as inputs, and every call of `__blk_mq_run_hw_queue` is recorded with whether its context was
stopped then. Restarting the stopped contexts, or unquiescing the queue, leaves no context that
should run without a dispatch or a queued run. How the calls interleave, and what stopping a
context then guarantees, is in `RunInterleaving`.
-/

namespace BlkMq

open Function (update)

/-- What the run functions read of a hardware context and never write. -/
structure RunHctxConfig where
  /-- `blk_mq_hw_queue_mapped(hctx)`: `hctx->nr_ctx && hctx->tags`. -/
  mapped : Bool
  /-- `hctx->flags & BLK_MQ_F_BLOCKING`. -/
  blocking : Bool
  /-- `hctx->cpumask`. -/
  cpumask : ℕ → Bool

/-- What they read of the request queue and of the system. -/
structure RunQueueConfig where
  /-- `q->nr_hw_queues`. -/
  nrHwQueues : ℕ
  /-- `nr_cpu_ids`. -/
  nrCpuIds : ℕ
  /-- `BLK_MQ_CPU_WORK_BATCH` (include/linux/blk-mq.h, not among the sources). -/
  batch : ℕ
  /-- The hardware context `q->queue_hw_ctx[i]`. -/
  hctx : ℕ → RunHctxConfig
  /-- A mapped context has a CPU in its mask: `blk_mq_map_swqueue` gives it a software queue,
  `hctx->nr_ctx` counts it, exactly for the CPUs it sets in `hctx->cpumask`. -/
  mapped_cpu : ∀ i, (hctx i).mapped = true → 0 < cpumaskWeight (hctx i).cpumask nrCpuIds

/-- The fields of a hardware context the run functions write. -/
structure RunHctx where
  /-- `BLK_MQ_S_STOPPED` in `hctx->state`. -/
  stopped : Bool
  /-- `hctx->run_work` while it is pending on kblockd: the CPU it was queued on (`none` for
  `WORK_CPU_UNBOUND`) and its delay in milliseconds. -/
  runWork : Option (Option ℕ × ℕ)
  /-- `hctx->next_cpu` and `hctx->next_cpu_batch`. -/
  nextCpu : NextCpuState

/-- A request queue as its hardware queues are run. -/
structure RunQueueState where
  /-- `QUEUE_FLAG_QUIESCED`. -/
  quiesced : Bool
  /-- The hardware contexts. -/
  hctx : ℕ → RunHctx
  /-- The calls of `__blk_mq_run_hw_queue` so far: the context, and whether `BLK_MQ_S_STOPPED`
  was set then. -/
  runs : List (ℕ × Bool)

namespace RunQueueState

/-- The queue as `blk_mq_init_allocated_queue` leaves it: nothing stopped, queued or run, each
round robin at the start `blk_mq_map_swqueue` gives it. -/
def init (c : RunQueueConfig) : RunQueueState :=
  ⟨false, fun i => ⟨false, none, .init c.batch (c.hctx i).cpumask c.nrCpuIds⟩, []⟩

/-- Write hardware context `i`. -/
def setHctx (s : RunQueueState) (i : ℕ) (h : RunHctx) : RunQueueState :=
  { s with hctx := update s.hctx i h }

@[simp] theorem setHctx_hctx_self (s : RunQueueState) (i : ℕ) (h : RunHctx) :
    (s.setHctx i h).hctx i = h := by simp [setHctx]

@[simp] theorem setHctx_hctx_ne (s : RunQueueState) {i j : ℕ} (h : RunHctx) (hj : j ≠ i) :
    (s.setHctx i h).hctx j = s.hctx j := by simp [setHctx, hj]

@[simp] theorem setHctx_runs (s : RunQueueState) (i : ℕ) (h : RunHctx) :
    (s.setHctx i h).runs = s.runs := rfl

@[simp] theorem setHctx_quiesced (s : RunQueueState) (i : ℕ) (h : RunHctx) :
    (s.setHctx i h).quiesced = s.quiesced := rfl

end RunQueueState

open RunQueueState

/-- `__blk_mq_run_hw_queue(hctx)`: the dispatch of context `i`, under `hctx_lock`, recorded with
whether the context is stopped. -/
def __blkMqRunHwQueue (s : RunQueueState) (i : ℕ) : RunQueueState :=
  { s with runs := s.runs ++ [(i, (s.hctx i).stopped)] }

/-- `kblockd_mod_delayed_work_on(blk_mq_hctx_next_cpu(hctx), &hctx->run_work, msecs)`: the
round robin moves on, and `run_work` is queued, or requeued, on the CPU it returned. -/
def queueRunWork (c : RunQueueConfig) (s : RunQueueState) (i msecs : ℕ) : RunQueueState :=
  let r := blkMqHctxNextCpu c.batch (c.hctx i).cpumask c.nrCpuIds c.nrHwQueues (s.hctx i).nextCpu
  s.setHctx i { s.hctx i with nextCpu := r.1, runWork := some (r.2, msecs) }

/-- `__blk_mq_delay_run_hw_queue(hctx, async, msecs)`, called on CPU `cpu`. -/
def __blkMqDelayRunHwQueue (c : RunQueueConfig) (s : RunQueueState) (i : ℕ) (async : Bool)
    (msecs cpu : ℕ) : RunQueueState :=
  if (s.hctx i).stopped || !(c.hctx i).mapped then s
  else if !async && !(c.hctx i).blocking && (c.hctx i).cpumask cpu then __blkMqRunHwQueue s i
  else queueRunWork c s i msecs

/-- `blk_mq_delay_run_hw_queue(hctx, msecs)`; an asynchronous run does not read the CPU. -/
def blkMqDelayRunHwQueue (c : RunQueueConfig) (s : RunQueueState) (i msecs : ℕ) : RunQueueState :=
  __blkMqDelayRunHwQueue c s i true msecs 0

/-- `blk_mq_run_hw_queue(hctx, async)` on CPU `cpu`, `blk_mq_hctx_has_pending(hctx)` being
`hasPending`: the state, and the value returned. -/
def blkMqRunHwQueue (c : RunQueueConfig) (s : RunQueueState) (i : ℕ) (async : Bool) (cpu : ℕ)
    (hasPending : Bool) : RunQueueState × Bool :=
  if !s.quiesced && hasPending then (__blkMqDelayRunHwQueue c s i async 0 cpu, true)
  else (s, false)

/-- `queue_for_each_hw_ctx(q, hctx, i)`: a loop body run for each hardware context in turn. -/
def forEachHwCtx (c : RunQueueConfig) (body : RunQueueState → ℕ → RunQueueState)
    (s : RunQueueState) : RunQueueState :=
  (List.range c.nrHwQueues).foldl body s

/-- `blk_mq_run_hw_queues(q, async)`, with `blk_mq_hctx_has_pending` of each context. -/
def blkMqRunHwQueues (c : RunQueueConfig) (s : RunQueueState) (async : Bool) (cpu : ℕ)
    (hasPending : ℕ → Bool) : RunQueueState :=
  forEachHwCtx c (fun s i =>
    if (s.hctx i).stopped then s else (blkMqRunHwQueue c s i async cpu (hasPending i)).1) s

/-- `blk_mq_queue_stopped(q)`. -/
def blkMqQueueStopped (c : RunQueueConfig) (s : RunQueueState) : Bool :=
  (List.range c.nrHwQueues).any fun i => (s.hctx i).stopped

/-- `blk_mq_stop_hw_queue(hctx)`: `cancel_delayed_work(&hctx->run_work)`, then the bit. -/
def blkMqStopHwQueue (s : RunQueueState) (i : ℕ) : RunQueueState :=
  s.setHctx i { s.hctx i with runWork := none, stopped := true }

/-- `blk_mq_stop_hw_queues(q)`. -/
def blkMqStopHwQueues (c : RunQueueConfig) (s : RunQueueState) : RunQueueState :=
  forEachHwCtx c blkMqStopHwQueue s

/-- Clear `BLK_MQ_S_STOPPED` and run the context: the body of `blk_mq_start_hw_queue`, and of
the loop of `blk_mq_start_stopped_hw_queues` for a stopped context. -/
def startAndRun (c : RunQueueConfig) (s : RunQueueState) (i : ℕ) (async : Bool) (cpu : ℕ)
    (hasPending : Bool) : RunQueueState :=
  (blkMqRunHwQueue c (s.setHctx i { s.hctx i with stopped := false }) i async cpu hasPending).1

/-- `blk_mq_start_hw_queue(hctx)`: a synchronous run. -/
def blkMqStartHwQueue (c : RunQueueConfig) (s : RunQueueState) (i cpu : ℕ) (hasPending : Bool) :
    RunQueueState :=
  startAndRun c s i false cpu hasPending

/-- `blk_mq_start_hw_queues(q)`. -/
def blkMqStartHwQueues (c : RunQueueConfig) (s : RunQueueState) (cpu : ℕ) (hasPending : ℕ → Bool) :
    RunQueueState :=
  forEachHwCtx c (fun s i => blkMqStartHwQueue c s i cpu (hasPending i)) s

/-- `blk_mq_start_stopped_hw_queues(q, async)`. -/
def blkMqStartStoppedHwQueues (c : RunQueueConfig) (s : RunQueueState) (async : Bool) (cpu : ℕ)
    (hasPending : ℕ → Bool) : RunQueueState :=
  forEachHwCtx c (fun s i =>
    if !(s.hctx i).stopped then s else startAndRun c s i async cpu (hasPending i)) s

/-- `blk_mq_run_work_fn`: kblockd takes the pending `run_work` of context `i` and runs it. -/
def blkMqRunWorkFn (s : RunQueueState) (i : ℕ) : RunQueueState :=
  match (s.hctx i).runWork with
  | none => s
  | some _ => __blkMqRunHwQueue (s.setHctx i { s.hctx i with runWork := none }) i

/-- `blk_mq_quiesce_queue_nowait(q)`, the flag `blk_mq_quiesce_queue` sets before it waits. -/
def blkMqQuiesceQueueNowait (s : RunQueueState) : RunQueueState := { s with quiesced := true }

/-- `blk_mq_unquiesce_queue(q)`: clear the flag, then run the contexts asynchronously. -/
def blkMqUnquiesceQueue (c : RunQueueConfig) (s : RunQueueState) (cpu : ℕ)
    (hasPending : ℕ → Bool) : RunQueueState :=
  blkMqRunHwQueues c { s with quiesced := false } true cpu hasPending

/-! ### What a call changes

Each operation on context `i` leaves the other contexts and the quiesce flag alone and only adds
to the log of dispatches. -/

/-- `s'` differs from `s` only in context `i` and in dispatches added to the log. -/
structure HctxFrame (i : ℕ) (s s' : RunQueueState) : Prop where
  hctx_ne : ∀ j, j ≠ i → s'.hctx j = s.hctx j
  runs : s.runs <+: s'.runs
  quiesced : s'.quiesced = s.quiesced

namespace HctxFrame

theorem refl (i : ℕ) (s : RunQueueState) : HctxFrame i s s :=
  ⟨fun _ _ => rfl, List.prefix_refl _, rfl⟩

theorem trans {i : ℕ} {s s' s'' : RunQueueState} (h : HctxFrame i s s') (h' : HctxFrame i s' s'') :
    HctxFrame i s s'' :=
  ⟨fun j hj => (h'.hctx_ne j hj).trans (h.hctx_ne j hj), h.runs.trans h'.runs,
    h'.quiesced.trans h.quiesced⟩

theorem setHctx (s : RunQueueState) (i : ℕ) (h : RunHctx) : HctxFrame i s (s.setHctx i h) :=
  ⟨fun _ hj => setHctx_hctx_ne s h hj, List.prefix_refl _, rfl⟩

end HctxFrame

theorem __blkMqRunHwQueue_frame (s : RunQueueState) (i : ℕ) : HctxFrame i s (__blkMqRunHwQueue s i) :=
  ⟨fun _ _ => rfl, List.prefix_append _ _, rfl⟩

theorem __blkMqDelayRunHwQueue_frame (c : RunQueueConfig) (s : RunQueueState) (i : ℕ)
    (async : Bool) (msecs cpu : ℕ) : HctxFrame i s (__blkMqDelayRunHwQueue c s i async msecs cpu) := by
  unfold __blkMqDelayRunHwQueue queueRunWork
  split_ifs
  · exact .refl i s
  · exact __blkMqRunHwQueue_frame s i
  · exact .setHctx s i _

theorem blkMqRunHwQueue_frame (c : RunQueueConfig) (s : RunQueueState) (i : ℕ) (async : Bool)
    (cpu : ℕ) (hasPending : Bool) : HctxFrame i s (blkMqRunHwQueue c s i async cpu hasPending).1 := by
  unfold blkMqRunHwQueue
  split
  · exact __blkMqDelayRunHwQueue_frame c s i async 0 cpu
  · exact .refl i s

theorem startAndRun_frame (c : RunQueueConfig) (s : RunQueueState) (i : ℕ) (async : Bool) (cpu : ℕ)
    (hasPending : Bool) : HctxFrame i s (startAndRun c s i async cpu hasPending) :=
  (HctxFrame.setHctx s i _).trans (blkMqRunHwQueue_frame c _ i async cpu hasPending)

/-! ### Loops over the hardware contexts -/

section Loop

variable {body : RunQueueState → ℕ → RunQueueState} (hframe : ∀ s i, HctxFrame i s (body s i))
  {Post : ℕ → RunQueueState → Prop}
  (hstable : ∀ j i s s', j ≠ i → HctxFrame i s s' → Post j s → Post j s')
include hframe hstable

/-- Iterations for other contexts keep what holds of context `j`. -/
theorem foldl_stable {j : ℕ} : ∀ (l : List ℕ) {s : RunQueueState}, j ∉ l → Post j s →
    Post j (l.foldl body s)
  | [], _, _, h => h
  | i :: l, s, hj, h => by
    rw [List.mem_cons, not_or] at hj
    exact foldl_stable l hj.2 (hstable j i s _ hj.1 (hframe s i) h)

/-- Loop lemma: when the iteration for context `i` establishes `Post i` from the context as the
loop found it, and iterations for other contexts keep it, every context of the loop ends with
`Post`. -/
theorem foldl_spec {s₀ : RunQueueState}
    (hstep : ∀ s i, s.hctx i = s₀.hctx i → s.quiesced = s₀.quiesced → s₀.runs <+: s.runs →
      Post i (body s i)) :
    ∀ (l : List ℕ) (s : RunQueueState), l.Nodup → (∀ j ∈ l, s.hctx j = s₀.hctx j) →
      s.quiesced = s₀.quiesced → s₀.runs <+: s.runs → ∀ j ∈ l, Post j (l.foldl body s)
  | [], _, _, _, _, _, _, hj => absurd hj (List.not_mem_nil _)
  | i :: l, s, hnd, hsame, hq, hr, j, hj => by
    rw [List.nodup_cons] at hnd
    have hf := hframe s i
    rw [List.foldl_cons]
    rcases List.mem_cons.1 hj with rfl | hj
    · exact foldl_stable hframe hstable l hnd.1
        (hstep s j (hsame j (List.mem_cons_self _ _)) hq hr)
    · refine foldl_spec hstep l _ hnd.2 (fun k hk => ?_) (hf.quiesced.trans hq) (hr.trans hf.runs) j hj
      rw [hf.hctx_ne k fun e => hnd.1 (e ▸ hk)]
      exact hsame k (List.mem_cons_of_mem _ hk)

/-- The loop of `queue_for_each_hw_ctx`, from `s₀`. -/
theorem forEachHwCtx_spec (c : RunQueueConfig) {s₀ : RunQueueState}
    (hstep : ∀ s i, s.hctx i = s₀.hctx i → s.quiesced = s₀.quiesced → s₀.runs <+: s.runs →
      Post i (body s i)) :
    ∀ j < c.nrHwQueues, Post j (forEachHwCtx c body s₀) := fun j hj =>
  foldl_spec hframe hstable hstep _ s₀ (List.nodup_range _) (fun _ _ => rfl) rfl
    (List.prefix_refl _) j (List.mem_range.2 hj)

end Loop

/-- A loop whose body keeps a property of the whole state keeps it. -/
theorem forEachHwCtx_invariant (c : RunQueueConfig) {body : RunQueueState → ℕ → RunQueueState}
    {P : RunQueueState → Prop} (hbody : ∀ s i, P s → P (body s i)) {s : RunQueueState} (hs : P s) :
    P (forEachHwCtx c body s) := by
  unfold forEachHwCtx
  induction List.range c.nrHwQueues generalizing s with
  | nil => exact hs
  | cons i l ih => exact ih (hbody s i hs)

/-- A queue of two mapped, non-blocking hardware contexts on CPUs 0 and 1 of four. -/
def twoHctxQueue : RunQueueConfig :=
  ⟨2, 4, 8, fun _ => ⟨true, false, fun c => c < 2⟩,
    fun _ _ => (by decide : 0 < cpumaskWeight (fun c => c < 2) 4)⟩

/-! ### No run is lost -/

/-- Since `s₀`, context `i` of `s` has been dispatched, or has a run queued. -/
def KickedSince (s₀ s : RunQueueState) (i : ℕ) : Prop :=
  (i, false) ∈ s.runs.drop s₀.runs.length ∨ (s.hctx i).runWork.isSome

/-- Counting from an earlier state keeps a kick. -/
theorem KickedSince.of_le {s₀ s₁ s : RunQueueState} {i : ℕ} (hle : s₀.runs.length ≤ s₁.runs.length)
    (h : KickedSince s₁ s i) : KickedSince s₀ s i := by
  refine h.imp_left fun hr => ?_
  rw [← Nat.sub_add_cancel hle, Nat.add_comm, ← List.drop_drop] at hr
  exact List.mem_of_mem_drop hr

/-- Other contexts' iterations keep a kick. -/
theorem KickedSince.frame {s₀ s s' : RunQueueState} {i j : ℕ} (hj : j ≠ i) (hf : HctxFrame i s s')
    (h : KickedSince s₀ s j) : KickedSince s₀ s' j := by
  obtain ⟨t, ht⟩ := hf.runs
  rw [KickedSince, hf.hctx_ne j hj, ← ht, List.drop_append_eq_append_drop, List.mem_append]
  exact h.imp_left Or.inl

theorem __blkMqDelayRunHwQueue_stopped (c : RunQueueConfig) (s : RunQueueState) (i : ℕ)
    (async : Bool) (msecs cpu : ℕ) :
    ((__blkMqDelayRunHwQueue c s i async msecs cpu).hctx i).stopped = (s.hctx i).stopped := by
  unfold __blkMqDelayRunHwQueue queueRunWork
  split_ifs <;> simp [__blkMqRunHwQueue]

theorem startAndRun_stopped (c : RunQueueConfig) (s : RunQueueState) (i : ℕ) (async : Bool)
    (cpu : ℕ) (hasPending : Bool) : ((startAndRun c s i async cpu hasPending).hctx i).stopped = false := by
  unfold startAndRun blkMqRunHwQueue
  split <;> simp [__blkMqDelayRunHwQueue_stopped]

/-- `blk_mq_run_hw_queue` on a context that should run, one that is not stopped, is mapped and has
work in a queue that is not quiesced, dispatches it or queues a run for it. -/
theorem blkMqRunHwQueue_kicks (c : RunQueueConfig) {s : RunQueueState} {i : ℕ}
    (hq : s.quiesced = false) (hst : (s.hctx i).stopped = false) (hm : (c.hctx i).mapped = true)
    (async : Bool) (cpu : ℕ) : KickedSince s (blkMqRunHwQueue c s i async cpu true).1 i := by
  simp only [blkMqRunHwQueue, hq, Bool.not_false, Bool.and_self, if_true, __blkMqDelayRunHwQueue,
    hst, hm, Bool.not_true, Bool.or_self, Bool.false_eq_true, if_false]
  split
  · left
    simp [__blkMqRunHwQueue, hst]
  · right
    simp [queueRunWork]

/-- `blk_mq_start_stopped_hw_queues(q, async)`: afterwards no context of the queue is stopped; a
context that was not stopped is untouched; and every context it restarted that is mapped and has
work, in a queue that is not quiesced, has been dispatched or has a run queued. -/
theorem start_stopped_hw_queues_restarts (c : RunQueueConfig) (s : RunQueueState) (async : Bool)
    (cpu : ℕ) (hasPending : ℕ → Bool) :
    ∀ i < c.nrHwQueues,
      ((blkMqStartStoppedHwQueues c s async cpu hasPending).hctx i).stopped = false ∧
      ((s.hctx i).stopped = false → (blkMqStartStoppedHwQueues c s async cpu hasPending).hctx i = s.hctx i) ∧
      ((s.hctx i).stopped = true → (c.hctx i).mapped = true → hasPending i = true →
        s.quiesced = false → KickedSince s (blkMqStartStoppedHwQueues c s async cpu hasPending) i) := by
  have hframe : ∀ (s : RunQueueState) (i : ℕ), HctxFrame i s
      (if !(s.hctx i).stopped then s else startAndRun c s i async cpu (hasPending i)) := by
    intro s i
    split
    · exact .refl i s
    · exact startAndRun_frame c s i async cpu _
  refine @forEachHwCtx_spec _ hframe (fun i s' => (s'.hctx i).stopped = false ∧
      ((s.hctx i).stopped = false → s'.hctx i = s.hctx i) ∧
      ((s.hctx i).stopped = true → (c.hctx i).mapped = true → hasPending i = true →
        s.quiesced = false → KickedSince s s' i))
    (fun j i s s' hj hf h => ?stable) c s (fun s' i hs hq hr => ?step)
  case stable =>
    dsimp only at h ⊢
    rw [hf.hctx_ne j hj]
    exact ⟨h.1, h.2.1, fun h1 h2 h3 h4 => (h.2.2 h1 h2 h3 h4).frame hj hf⟩
  case step =>
    dsimp only
    split
    · rename_i hnot
      have hst : (s'.hctx i).stopped = false := by simpa using hnot
      exact ⟨hst, fun _ => hs, fun h => by rw [← hs, hst] at h; cases h⟩
    · rename_i hstop
      refine ⟨startAndRun_stopped c s' i async cpu _, fun h => by
        rw [← hs] at h; simp [h] at hstop, fun _ hm hp hq0 => ?_⟩
      rw [startAndRun, hp]
      exact (blkMqRunHwQueue_kicks c (by simpa [hq] using hq0) (by simp) hm async cpu).of_le
        (by simpa using hr.length_le)

/-- Context 0 run asynchronously, then context 1 stopped: context 0 has a run queued. -/
def twoHctxOneStopped : RunQueueState :=
  blkMqStopHwQueue (blkMqRunHwQueue twoHctxQueue (.init twoHctxQueue) 0 true 0 true).1 1

/-- Restarting there, synchronously from CPU 0, with work on both contexts. -/
theorem start_stopped_hw_queues_restarts_two_hctxs :
    1 < twoHctxQueue.nrHwQueues ∧
    ((blkMqStartStoppedHwQueues twoHctxQueue twoHctxOneStopped false 0 fun _ => true).hctx 1).stopped =
        false ∧
      ((twoHctxOneStopped.hctx 1).stopped = false →
        (blkMqStartStoppedHwQueues twoHctxQueue twoHctxOneStopped false 0 fun _ => true).hctx 1 =
          twoHctxOneStopped.hctx 1) ∧
      ((twoHctxOneStopped.hctx 1).stopped = true → (twoHctxQueue.hctx 1).mapped = true →
        (fun _ => true : ℕ → Bool) 1 = true → twoHctxOneStopped.quiesced = false →
        KickedSince twoHctxOneStopped
          (blkMqStartStoppedHwQueues twoHctxQueue twoHctxOneStopped false 0 fun _ => true) 1) :=
  ⟨by decide, start_stopped_hw_queues_restarts twoHctxQueue twoHctxOneStopped false 0 (fun _ => true) 1
    (by decide)⟩

/-- `blk_mq_unquiesce_queue(q)`: the queue is no longer quiesced, and every context that is not
stopped, is mapped and has work has been dispatched or has a run queued, so a run that
`blk_mq_run_hw_queue` refused while the queue was quiesced is not lost. -/
theorem unquiesce_queue_reruns (c : RunQueueConfig) (s : RunQueueState) (cpu : ℕ)
    (hasPending : ℕ → Bool) :
    (blkMqUnquiesceQueue c s cpu hasPending).quiesced = false ∧
    ∀ i < c.nrHwQueues, (s.hctx i).stopped = false → (c.hctx i).mapped = true →
      hasPending i = true → KickedSince s (blkMqUnquiesceQueue c s cpu hasPending) i := by
  have hframe : ∀ (s : RunQueueState) (i : ℕ), HctxFrame i s
      (if (s.hctx i).stopped then s else (blkMqRunHwQueue c s i true cpu (hasPending i)).1) := by
    intro s i
    split
    · exact .refl i s
    · exact blkMqRunHwQueue_frame c s i true cpu _
  refine ⟨forEachHwCtx_invariant c (P := fun s => s.quiesced = false)
    (fun s i h => (hframe s i).quiesced.trans h) rfl, ?_⟩
  refine @forEachHwCtx_spec _ hframe (fun i s' => (s.hctx i).stopped = false →
      (c.hctx i).mapped = true → hasPending i = true → KickedSince s s' i)
    (fun j i s s' hj hf h h1 h2 h3 => (h h1 h2 h3).frame hj hf) c _
    (fun s' i hs hq hr h1 hm hp => ?_)
  have hst : (s'.hctx i).stopped = false := by rw [hs]; exact h1
  simp only [hst, Bool.false_eq_true, if_false, hp]
  exact (blkMqRunHwQueue_kicks c hq hst hm true cpu).of_le (by simpa using hr.length_le)

end BlkMq
