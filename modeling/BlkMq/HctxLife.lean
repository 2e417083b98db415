import BlkMq.RqMaps
import BlkMq.Topology

/-!
# The resources of a queue's hardware contexts

`blk_mq_realloc_hw_ctxs` allocates a hardware context and its `cpumask` and sets it up with
`blk_mq_init_hctx`, which registers the CPU notifier and gets `hctx->ctxs`, `hctx->ctx_map`, the
driver's state for the context (`init_hctx`), the scheduler's, the flush queue, the driver's
state for the flush request (`init_request`), `queue_rq_srcu` and the debugfs directory. A
failure jumps to the label that undoes the step before it, and control falls through the labels
after it. `blk_mq_exit_hctx` undoes all of it but `hctx->ctxs`; `blk_mq_free_hw_queues` frees the
`cpumask`, and `blk_mq_release` frees `hctx->ctxs` and the context itself.

What each context holds is a set of resources. Getting one it holds already, or giving back one
it does not hold, is an error of the code, `none` here. From `blk_mq_init_allocated_queue` on,
whatever allocation fails and however often `blk_mq_update_nr_hw_queues` reallocates, no step
makes such an error, the contexts below `q->nr_hw_queues` hold everything and the others
nothing, and `blk_mq_free_queue` with `blk_mq_release` gives everything back. This needs the
driver to pair its operations: `exit_hctx` with `init_hctx`, `exit_request` with
`init_request`. The allocation pattern this reallocation leaves is the one `blkMqReallocHwCtxs`
of `Topology` computes.
-/

namespace BlkMq.HctxLife

open Function (update)

/-- The resources of a hardware context, each named after what gets it. -/
inductive HctxRes
  /-- The `struct blk_mq_hw_ctx`, from `kzalloc_node` in `blk_mq_realloc_hw_ctxs`. -/
  | hctx
  /-- `zalloc_cpumask_var_node(&hctx->cpumask, ...)`. -/
  | cpumask
  /-- `blk_mq_register_cpu_notifier(&hctx->cpu_notifier)`. -/
  | cpuNotifier
  /-- `hctx->ctxs`, from `kmalloc_node`. -/
  | ctxs
  /-- `sbitmap_init_node(&hctx->ctx_map, ...)`. -/
  | ctxMap
  /-- What the driver's `set->ops->init_hctx` sets up. -/
  | driver
  /-- `blk_mq_sched_init_hctx`. -/
  | sched
  /-- `hctx->fq`, from `blk_alloc_flush_queue`. -/
  | fq
  /-- What the driver's `set->ops->init_request` sets up for `hctx->fq->flush_rq`. -/
  | flushRq
  /-- `init_srcu_struct(&hctx->queue_rq_srcu)`. -/
  | srcu
  /-- `blk_mq_debugfs_register_hctx`. -/
  | debugfs
  deriving DecidableEq, Repr

/-- Get a resource whose holding is `b`: `none` when it is held already. -/
def acquireBool (b : Bool) : Option Bool := if b then none else some true

/-- Give back a resource whose holding is `b`: `none` when it is not held. -/
def releaseBool (b : Bool) : Option Bool := if b then some false else none

/-- Which resources of `HctxRes` a hardware context holds. -/
structure HctxHeld where
  hctx : Bool
  cpumask : Bool
  cpuNotifier : Bool
  ctxs : Bool
  ctxMap : Bool
  driver : Bool
  sched : Bool
  fq : Bool
  flushRq : Bool
  srcu : Bool
  debugfs : Bool
  deriving DecidableEq, Repr

namespace HctxHeld

/-- Whether the resource is held. -/
def get (h : HctxHeld) : HctxRes → Bool
  | .hctx => h.hctx
  | .cpumask => h.cpumask
  | .cpuNotifier => h.cpuNotifier
  | .ctxs => h.ctxs
  | .ctxMap => h.ctxMap
  | .driver => h.driver
  | .sched => h.sched
  | .fq => h.fq
  | .flushRq => h.flushRq
  | .srcu => h.srcu
  | .debugfs => h.debugfs

/-- The resource held or not, as `b` says. -/
def set (h : HctxHeld) (b : Bool) : HctxRes → HctxHeld
  | .hctx => { h with hctx := b }
  | .cpumask => { h with cpumask := b }
  | .cpuNotifier => { h with cpuNotifier := b }
  | .ctxs => { h with ctxs := b }
  | .ctxMap => { h with ctxMap := b }
  | .driver => { h with driver := b }
  | .sched => { h with sched := b }
  | .fq => { h with fq := b }
  | .flushRq => { h with flushRq := b }
  | .srcu => { h with srcu := b }
  | .debugfs => { h with debugfs := b }

/-- Get the resource: `none` when it is held already. -/
def acquire (h : HctxHeld) (r : HctxRes) : Option HctxHeld := (acquireBool (h.get r)).map (h.set · r)

/-- Give the resource back: `none` when it is not held. -/
def release (h : HctxHeld) (r : HctxRes) : Option HctxHeld := (releaseBool (h.get r)).map (h.set · r)

/-- Nothing: a NULL `q->queue_hw_ctx[i]`. -/
def empty : HctxHeld := ⟨false, false, false, false, false, false, false, false, false, false, false⟩

/-- A context `blk_mq_realloc_hw_ctxs` has just allocated, with its `cpumask`. -/
def allocated : HctxHeld := { empty with hctx := true, cpumask := true }

/-- What `blk_mq_exit_hctx` leaves: the context, its `cpumask` and `hctx->ctxs`. -/
def exited : HctxHeld := { allocated with ctxs := true }

/-- What `blk_mq_free_hw_queues` leaves for `blk_mq_release`: the context and `hctx->ctxs`. -/
def forRelease : HctxHeld := { empty with hctx := true, ctxs := true }

@[simp] theorem empty_hctx : empty.hctx = false := rfl

end HctxHeld

/-- What `blk_mq_init_hctx` and `blk_mq_exit_hctx` read of the tag set: which driver operations
`set->ops` has, and `BLK_MQ_F_BLOCKING` in `set->flags`. -/
structure HctxOps where
  initHctx : Bool
  exitHctx : Bool
  initRequest : Bool
  exitRequest : Bool
  blocking : Bool
  deriving DecidableEq, Repr

/-- The driver pairs its operations: `exit_hctx` exactly when `init_hctx`, `exit_request` exactly
when `init_request`. -/
def HctxOps.Paired (ops : HctxOps) : Prop :=
  ops.exitHctx = ops.initHctx ∧ ops.exitRequest = ops.initRequest

instance (ops : HctxOps) : Decidable ops.Paired := inferInstanceAs (Decidable (_ ∧ _))

/-- What a context holds once `blk_mq_init_hctx` has returned 0. -/
def HctxOps.live (ops : HctxOps) : HctxHeld :=
  ⟨true, true, true, true, true, ops.initHctx, true, true, ops.initRequest, ops.blocking, true⟩

@[simp] theorem HctxOps.live_hctx (ops : HctxOps) : ops.live.hctx = true := rfl

/-- What the allocations and the driver operations of `blk_mq_init_hctx` return. -/
structure InitHctxEnv where
  /-- `kmalloc_node` of `hctx->ctxs` returns memory. -/
  ctxs : Bool
  /-- `sbitmap_init_node` returns 0. -/
  ctxMap : Bool
  /-- `set->ops->init_hctx` returns 0. -/
  initHctx : Bool
  /-- `blk_mq_sched_init_hctx` returns 0. -/
  sched : Bool
  /-- `blk_alloc_flush_queue` returns a flush queue. -/
  fq : Bool
  /-- `set->ops->init_request` returns 0. -/
  initRequest : Bool
  deriving DecidableEq, Repr

/-- `blk_mq_init_hctx` gets through: every allocation succeeds, and every driver operation
`set->ops` has. -/
def InitHctxEnv.ok (env : InitHctxEnv) (ops : HctxOps) : Bool :=
  env.ctxs && env.ctxMap && (!ops.initHctx || env.initHctx) && env.sched && env.fq &&
    (!ops.initRequest || env.initRequest)

/-- The labels of the error path of `blk_mq_init_hctx`. -/
inductive InitHctxLabel
  | freeFq
  | schedExitHctx
  | exitHctx
  | freeBitmap
  | freeCtxs
  | unregisterCpuNotifier
  deriving DecidableEq, Repr

/-- The labels in source order: control falls through from each to the next. -/
def initHctxLabels : List InitHctxLabel :=
  [.freeFq, .schedExitHctx, .exitHctx, .freeBitmap, .freeCtxs, .unregisterCpuNotifier]

/-- What one label undoes: `kfree(hctx->fq)`, `blk_mq_sched_exit_hctx`, `set->ops->exit_hctx`
if the driver has it, `sbitmap_free`, `kfree(hctx->ctxs)`, `blk_mq_unregister_cpu_notifier`. -/
def initHctxUndo (ops : HctxOps) (h : HctxHeld) : InitHctxLabel → Option HctxHeld
  | .freeFq => h.release .fq
  | .schedExitHctx => h.release .sched
  | .exitHctx => if ops.exitHctx then h.release .driver else some h
  | .freeBitmap => h.release .ctxMap
  | .freeCtxs => h.release .ctxs
  | .unregisterCpuNotifier => h.release .cpuNotifier

/-- `goto label` in `blk_mq_init_hctx`: the label and every label after it. -/
def initHctxGoto (ops : HctxOps) (label : InitHctxLabel) (h : HctxHeld) : Option HctxHeld :=
  (initHctxLabels.dropWhile (· != label)).foldlM (initHctxUndo ops) h

/-- `blk_mq_init_hctx(q, set, hctx, hctx_idx)`: what the context holds, and whether it returned
0. -/
def blkMqInitHctx (ops : HctxOps) (env : InitHctxEnv) (h : HctxHeld) : Option (HctxHeld × Bool) :=
  let fail := fun label h => (initHctxGoto ops label h).map (·, false)
  h.acquire .cpuNotifier >>= fun h =>
  if !env.ctxs then fail .unregisterCpuNotifier h else
  h.acquire .ctxs >>= fun h =>
  if !env.ctxMap then fail .freeCtxs h else
  h.acquire .ctxMap >>= fun h =>
  if ops.initHctx && !env.initHctx then fail .freeBitmap h else
  (if ops.initHctx then h.acquire .driver else some h) >>= fun h =>
  if !env.sched then fail .exitHctx h else
  h.acquire .sched >>= fun h =>
  if !env.fq then fail .schedExitHctx h else
  h.acquire .fq >>= fun h =>
  if ops.initRequest && !env.initRequest then fail .freeFq h else
  (if ops.initRequest then h.acquire .flushRq else some h) >>= fun h =>
  (if ops.blocking then h.acquire .srcu else some h) >>= fun h =>
  (h.acquire .debugfs).map (·, true)

/-- `blk_mq_exit_hctx(q, set, hctx, hctx_idx)` (`blk_mq_tag_idle` left out: see `Tags`). -/
def blkMqExitHctx (ops : HctxOps) (h : HctxHeld) : Option HctxHeld :=
  h.release .debugfs >>= fun h =>
  (if ops.exitRequest then h.release .flushRq else some h) >>= fun h =>
  h.release .sched >>= fun h =>
  (if ops.exitHctx then h.release .driver else some h) >>= fun h =>
  (if ops.blocking then h.release .srcu else some h) >>= fun h =>
  h.release .cpuNotifier >>= fun h =>
  h.release .fq >>= fun h =>
  h.release .ctxMap

/-- `blk_mq_init_hctx` on a context just allocated: set up when it gets through, and otherwise
back to the context and its `cpumask`, whichever step failed. -/
theorem blkMqInitHctx_allocated (ops : HctxOps) (hpair : ops.exitHctx = ops.initHctx)
    (env : InitHctxEnv) :
    blkMqInitHctx ops env HctxHeld.allocated =
      some (if env.ok ops then ops.live else HctxHeld.allocated, env.ok ops) := by
  obtain ⟨ih, eh, ir, er, bl⟩ := ops
  obtain ⟨c, m, i, s, f, r⟩ := env
  dsimp only at hpair
  subst hpair
  -- one case per step that can fail, in source order; the driver's flags only where read
  cases c <;> try rfl
  cases m <;> try rfl
  cases eh <;> cases i <;> try rfl
  all_goals cases s <;> try rfl
  all_goals cases f <;> try rfl
  all_goals cases ir <;> cases r <;> try rfl
  all_goals cases bl <;> rfl

/-- `blk_mq_exit_hctx` on a set-up context gives back all but `hctx->ctxs`. -/
theorem blkMqExitHctx_live (ops : HctxOps) (hpair : ops.Paired) :
    blkMqExitHctx ops ops.live = some HctxHeld.exited := by
  obtain ⟨ih, eh, ir, er, bl⟩ := ops
  obtain ⟨h1, h2⟩ := hpair
  dsimp only at h1 h2
  subst h1 h2
  cases eh <;> cases er <;> cases bl <;> rfl

/-- What a request queue holds: `q->poll_cb`, `q->queue_ctx`, `q->queue_hw_ctx`, whether
`q->mq_ops` is set, `q->nr_hw_queues`, what each `q->queue_hw_ctx[i]` holds (nothing when it is
NULL), and `hctx->tags` of each. -/
structure QueueHeld where
  pollCb : Bool
  queueCtx : Bool
  queueHwCtx : Bool
  mqOps : Bool
  nrHwQueues : ℕ
  hctx : ℕ → HctxHeld
  tags : ℕ → Option ℕ

/-- A queue `blk_alloc_queue_node` has just made: nothing. -/
def QueueHeld.fresh : QueueHeld := ⟨false, false, false, false, 0, fun _ => .empty, fun _ => none⟩

/-- What `blk_mq_realloc_hw_ctxs` meets setting up one hardware context. -/
structure HctxAllocEnv where
  /-- `kzalloc_node` of the context returns memory. -/
  hctx : Bool
  /-- `zalloc_cpumask_var_node` succeeds. -/
  cpumask : Bool
  /-- What `blk_mq_init_hctx` meets. -/
  init : InitHctxEnv
  deriving DecidableEq, Repr

/-- All three succeed, and the context is set up. -/
def HctxAllocEnv.ok (e : HctxAllocEnv) (ops : HctxOps) : Bool := e.hctx && e.cpumask && e.init.ok ops

/-- The allocation loop of `blk_mq_realloc_hw_ctxs` over `n` indices from `i`, with `set->tags`
`setTags`: a context there is kept; otherwise the context and its `cpumask` are allocated and
`blk_mq_init_hctx` run, and a failure frees what was allocated and ends the loop. Returns the
queue and the index the loop ended at. -/
def reallocLoop (ops : HctxOps) (env : ℕ → HctxAllocEnv) (setTags : ℕ → Option ℕ) :
    ℕ → ℕ → QueueHeld → Option (QueueHeld × ℕ)
  | 0, i, q => some (q, i)
  | n + 1, i, q =>
    if (q.hctx i).hctx then reallocLoop ops env setTags n (i + 1) q
    else if !(env i).hctx then some (q, i)
    else (q.hctx i).acquire .hctx >>= fun h =>
      if !(env i).cpumask then
        h.release .hctx >>= fun h => some ({ q with hctx := update q.hctx i h }, i)
      else h.acquire .cpumask >>= fun h =>
        blkMqInitHctx ops (env i).init h >>= fun r =>
        let q := { q with hctx := update q.hctx i r.1, tags := update q.tags i (setTags i) }
        if r.2 then reallocLoop ops env setTags n (i + 1) q
        else (r.1.release .cpumask >>= fun h => h.release .hctx) >>= fun h =>
          some ({ q with hctx := update q.hctx i h }, i)

/-- The teardown of `blk_mq_realloc_hw_ctxs` over `k` indices from `j`: a context there has the
tag set's map freed if `hctx->tags` is set, is exited, and its `cpumask`, `hctx->ctxs` and the
context are freed (its `kobject_put` left out). -/
def reallocTeardown (ops : HctxOps) : ℕ → ℕ → QueueHeld × RqMapHeap → Option (QueueHeld × RqMapHeap)
  | 0, _, s => some s
  | k + 1, j, (q, t) =>
    if (q.hctx j).hctx then
      let t := if (q.tags j).isSome then blkMqFreeMapAndRequests t j else t
      (blkMqExitHctx ops (q.hctx j) >>= fun h => h.release .cpumask >>= fun h =>
          h.release .ctxs >>= fun h => h.release .hctx) >>= fun h =>
        reallocTeardown ops k (j + 1) ({ q with hctx := update q.hctx j h }, t)
    else reallocTeardown ops k (j + 1) (q, t)

/-- `blk_mq_realloc_hw_ctxs(set, q)` for a set of `setNrHwQueues` hardware queues whose maps are
in `t`: the allocation loop, the teardown from where it ended up to the old `q->nr_hw_queues`,
and `q->nr_hw_queues` set to where it ended (the sysfs unregistration and registration left
out). -/
def blkMqReallocHwCtxs (ops : HctxOps) (env : ℕ → HctxAllocEnv) (setNrHwQueues : ℕ)
    (q : QueueHeld) (t : RqMapHeap) : Option (QueueHeld × RqMapHeap) :=
  reallocLoop ops env t.setTags setNrHwQueues 0 q >>= fun r =>
  reallocTeardown ops (q.nrHwQueues - r.2) r.2 (r.1, t) >>= fun s =>
  some ({ s.1 with nrHwQueues := r.2 }, s.2)

/-- What `blk_mq_init_allocated_queue` meets. -/
structure InitQueueEnv where
  /-- `blk_stat_alloc_callback` returns `q->poll_cb`. -/
  pollCb : Bool
  /-- `alloc_percpu` returns `q->queue_ctx`. -/
  queueCtx : Bool
  /-- `kzalloc_node` returns `q->queue_hw_ctx`. -/
  queueHwCtx : Bool
  /-- What `blk_mq_realloc_hw_ctxs` meets at each hardware queue. -/
  hctxs : ℕ → HctxAllocEnv
  /-- `BLK_MQ_F_NO_SCHED` is in `set->flags`. -/
  noSched : Bool
  /-- What `blk_mq_sched_init` returns. -/
  schedInit : ℤ

/-- `blk_mq_init_allocated_queue(set, q)`, with `set->nr_hw_queues` `setNrHwQueues` and the set's
maps in `t`: the queue, the maps, and 0 or the error it returns (the queue's other fields, its
CPU queues, `blk_mq_add_queue_tag_set` and `blk_mq_map_swqueue` left out: see `TagSet` and
`Topology`). -/
def blkMqInitAllocatedQueue (ops : HctxOps) (env : InitQueueEnv) (setNrHwQueues : ℕ)
    (t : RqMapHeap) (q : QueueHeld) : Option (QueueHeld × RqMapHeap × ℤ) :=
  let q := { q with mqOps := true }
  let errExit := fun (q : QueueHeld) => some ({ q with mqOps := false }, t, -ENOMEM)
  if !env.pollCb then errExit q else
  acquireBool q.pollCb >>= fun b =>
  let q := { q with pollCb := b }
  if !env.queueCtx then errExit q else
  acquireBool q.queueCtx >>= fun b =>
  let q := { q with queueCtx := b }
  if !env.queueHwCtx then releaseBool q.queueCtx >>= fun b => errExit { q with queueCtx := b } else
  acquireBool q.queueHwCtx >>= fun b =>
  blkMqReallocHwCtxs ops env.hctxs setNrHwQueues { q with queueHwCtx := b } t >>= fun s =>
  let q := s.1
  if q.nrHwQueues = 0 then
    releaseBool q.queueHwCtx >>= fun b => releaseBool q.queueCtx >>= fun b' =>
      errExit { q with queueHwCtx := b, queueCtx := b' }
  else if !env.noSched && env.schedInit ≠ 0 then some (q, s.2, env.schedInit)
  else some (q, s.2, 0)

/-- The loop of `blk_mq_exit_hw_queues(q, set, nr_queue)` over `k` indices from `i`, which stops
at `nr_queue`. -/
def exitHwQueuesLoop (ops : HctxOps) (nrQueue : ℕ) : ℕ → ℕ → QueueHeld → Option QueueHeld
  | 0, _, q => some q
  | k + 1, i, q =>
    if i = nrQueue then some q
    else blkMqExitHctx ops (q.hctx i) >>= fun h =>
      exitHwQueuesLoop ops nrQueue k (i + 1) { q with hctx := update q.hctx i h }

/-- `blk_mq_exit_hw_queues(q, set, nr_queue)`. -/
def blkMqExitHwQueues (ops : HctxOps) (q : QueueHeld) (nrQueue : ℕ) : Option QueueHeld :=
  exitHwQueuesLoop ops nrQueue q.nrHwQueues 0 q

/-- `blk_mq_free_hw_queues`: `free_cpumask_var(hctx->cpumask)` of every context. -/
def blkMqFreeHwQueues (q : QueueHeld) : Option QueueHeld :=
  (List.range q.nrHwQueues).foldlM (fun q i =>
    (q.hctx i).release .cpumask >>= fun h => some { q with hctx := update q.hctx i h }) q

/-- `blk_mq_free_queue`: `blk_mq_exit_hw_queues(q, set, set->nr_hw_queues)`, then
`blk_mq_free_hw_queues` (the unlinking from `all_q_list` and from the tag set left out: see
`TagSet`). -/
def blkMqFreeQueue (ops : HctxOps) (setNrHwQueues : ℕ) (q : QueueHeld) : Option QueueHeld :=
  blkMqExitHwQueues ops q setNrHwQueues >>= blkMqFreeHwQueues

/-- `blk_mq_release`: `hctx->ctxs` and the context of every non-NULL entry below
`q->nr_hw_queues`, then `q->queue_hw_ctx` and `q->queue_ctx` (`q->mq_map = NULL` left out). -/
def blkMqRelease (q : QueueHeld) : Option QueueHeld :=
  (List.range q.nrHwQueues).foldlM (fun q i =>
    if (q.hctx i).hctx then
      ((q.hctx i).release .ctxs >>= fun h => h.release .hctx) >>= fun h =>
        some { q with hctx := update q.hctx i h }
    else some q) q >>= fun q =>
  releaseBool q.queueHwCtx >>= fun b => releaseBool q.queueCtx >>= fun b' =>
    some { q with queueHwCtx := b, queueCtx := b' }

/-! ## Reallocation -/

/-- The contexts below `c` are set up, the others NULL. -/
def HctxsLive (ops : HctxOps) (c : ℕ) (hctx : ℕ → HctxHeld) : Prop :=
  ∀ j, hctx j = if j < c then ops.live else .empty

theorem HctxsLive.update_empty {ops : HctxOps} {c : ℕ} {hctx : ℕ → HctxHeld}
    (h : HctxsLive ops c hctx) : HctxsLive ops c (update hctx c .empty) := fun j => by
  by_cases hj : j = c
  · subst hj; simp
  · rw [Function.update_noteq hj, h j]

theorem HctxsLive.update_live {ops : HctxOps} {c : ℕ} {hctx : ℕ → HctxHeld}
    (h : HctxsLive ops c hctx) : HctxsLive ops (c + 1) (update hctx c ops.live) := fun j => by
  by_cases hj : j = c
  · subst hj; simp
  · rw [Function.update_noteq hj, h j]
    by_cases hjc : j < c
    · rw [if_pos hjc, if_pos (by omega)]
    · rw [if_neg hjc, if_neg (by omega)]

theorem hctx_update (hctx : ℕ → HctxHeld) (c : ℕ) (h : HctxHeld) :
    (fun j => (update hctx c h j).hctx) = update (fun j => (hctx j).hctx) c h.hctx := by
  funext j
  by_cases hj : j = c
  · subst hj; simp
  · simp [Function.update_noteq hj]

/-- A step of the allocation loop at a NULL entry whose context and `cpumask` can be had. -/
theorem reallocLoop_alloc {ops : HctxOps} {env : ℕ → HctxAllocEnv} {setTags : ℕ → Option ℕ}
    {n i : ℕ} {q : QueueHeld} (hempty : q.hctx i = .empty) (hh : (env i).hctx = true)
    (hm : (env i).cpumask = true) :
    reallocLoop ops env setTags (n + 1) i q =
      blkMqInitHctx ops (env i).init .allocated >>= fun r =>
        if r.2 then
          reallocLoop ops env setTags n (i + 1)
            { q with hctx := update q.hctx i r.1, tags := update q.tags i (setTags i) }
        else (r.1.release .cpumask >>= fun h => h.release .hctx) >>= fun h =>
          some ({ q with hctx := update (update q.hctx i r.1) i h, tags := update q.tags i (setTags i) },
            i) := by
  rw [reallocLoop, hempty]
  simp only [hh, hm]
  rfl

/-- The allocation loop, started at or below the first NULL entry `c`: it sets up every NULL
entry it reaches until one fails, leaves the entries set up below where it ended (or below `c`)
and NULL the others, and ends where the loop of `Topology` ends, on the same entries. -/
theorem reallocLoop_spec {ops : HctxOps} (hpair : ops.Paired) (env : ℕ → HctxAllocEnv)
    (setTags : ℕ → Option ℕ) :
    ∀ (n i : ℕ) (q : QueueHeld) (c : ℕ), i ≤ c → HctxsLive ops c q.hctx →
      ∃ hctx tags i', reallocLoop ops env setTags n i q =
          some ({ q with hctx := hctx, tags := tags }, i') ∧
        i ≤ i' ∧ i' ≤ i + n ∧ HctxsLive ops (max c i') hctx ∧
        BlkMq.reallocLoop (fun j => (env j).ok ops) n i (fun j => (q.hctx j).hctx) =
          (fun j => (hctx j).hctx, i')
  | 0, i, q, c, hic, hq => ⟨q.hctx, q.tags, i, rfl, le_rfl, by omega, by rwa [max_eq_left hic], rfl⟩
  | n + 1, i, q, c, hic, hq => by
    by_cases hi : i < c
    · have hpres : (q.hctx i).hctx = true := by rw [hq i, if_pos hi]; rfl
      obtain ⟨hctx, tags, i', h, h1, h2, h3, h4⟩ := reallocLoop_spec hpair env setTags n (i + 1) q c hi hq
      exact ⟨hctx, tags, i', by rw [reallocLoop, if_pos hpres, h], by omega, by omega, h3,
        by rw [BlkMq.reallocLoop, if_pos hpres, h4]⟩
    obtain rfl : i = c := by omega
    have hempty : q.hctx i = .empty := by rw [hq i, if_neg (lt_irrefl i)]
    have htopo : BlkMq.reallocLoop (fun j => (env j).ok ops) (n + 1) i (fun j => (q.hctx j).hctx) =
        if (env i).ok ops then BlkMq.reallocLoop (fun j => (env j).ok ops) n (i + 1)
          (update (fun j => (q.hctx j).hctx) i true) else ((fun j => (q.hctx j).hctx), i) := by
      rw [BlkMq.reallocLoop, hempty]; rfl
    have hkeep : (fun j => (q.hctx j).hctx, i) = (fun j => (update q.hctx i .empty j).hctx, i) := by
      rw [hctx_update, eq_comm, Function.update_eq_self_iff.2 (by rw [hempty])]
    rw [htopo]
    cases hh : (env i).hctx
    · exact ⟨q.hctx, q.tags, i, by rw [reallocLoop, hempty]; simp [hh, HctxHeld.empty], le_rfl,
        by omega, by simpa using hq, by simp [HctxAllocEnv.ok, hh]⟩
    cases hm : (env i).cpumask
    · exact ⟨update q.hctx i .empty, q.tags, i, by rw [reallocLoop, hempty]; simp [hh, hm]; rfl, le_rfl,
        by omega, by simpa using hq.update_empty, by simp [HctxAllocEnv.ok, hh, hm, hkeep]⟩
    rw [reallocLoop_alloc hempty hh hm, blkMqInitHctx_allocated ops hpair.1]
    cases hk : (env i).init.ok ops
    · exact ⟨update q.hctx i .empty, update q.tags i (setTags i), i, by simp [hk]; rfl, le_rfl,
        by omega, by simpa using hq.update_empty, by simp [HctxAllocEnv.ok, hh, hm, hk, hkeep]⟩
    obtain ⟨hctx, tags, i', h, h1, h2, h3, h4⟩ := reallocLoop_spec hpair env setTags n (i + 1)
      { q with hctx := update q.hctx i ops.live, tags := update q.tags i (setTags i) } (i + 1) le_rfl
      hq.update_live
    refine ⟨hctx, tags, i', by simpa [hk] using h, by omega, by omega, ?_, ?_⟩
    · rwa [max_eq_right (by omega : i + 1 ≤ i'), ← max_eq_right (by omega : i ≤ i')] at h3
    · simpa [HctxAllocEnv.ok, hh, hm, hk, hctx_update] using h4

/-- A write of `b` at `j` followed by writes over `[j + 1, j + 1 + k)` writes `[j, j + k + 1)`. -/
theorem ite_interval_update {α : Type} (f : ℕ → α) (b : α) (j k x : ℕ) :
    (if j + 1 ≤ x ∧ x < j + 1 + k then b else update f j b x) =
      if j ≤ x ∧ x < j + (k + 1) then b else f x := by
  by_cases hxj : x = j
  · subst hxj; simp
  · rw [Function.update_noteq hxj]
    exact if_congr (by omega) rfl rfl

/-- The teardown over entries each set up or NULL: every one of them ends NULL. -/
theorem reallocTeardown_spec {ops : HctxOps} (hpair : ops.Paired) :
    ∀ (k j : ℕ) (q : QueueHeld) (t : RqMapHeap),
      (∀ x, j ≤ x → x < j + k → q.hctx x = ops.live ∨ q.hctx x = .empty) →
      ∃ hctx t', reallocTeardown ops k j (q, t) = some ({ q with hctx := hctx }, t') ∧
        ∀ x, hctx x = if j ≤ x ∧ x < j + k then .empty else q.hctx x
  | 0, j, q, t, _ => ⟨q.hctx, t, rfl, fun x => by rw [if_neg (by omega)]⟩
  | k + 1, j, q, t, hx => by
    rcases hx j le_rfl (by omega) with hl | he
    · obtain ⟨hctx, t', h, hh⟩ := reallocTeardown_spec hpair k (j + 1)
        { q with hctx := update q.hctx j .empty }
        (if (q.tags j).isSome then blkMqFreeMapAndRequests t j else t) fun x hx1 hx2 => by
          simpa [Function.update_noteq (by omega : x ≠ j)] using hx x (by omega) (by omega)
      refine ⟨hctx, t', ?_, fun x => ?_⟩
      · rw [reallocTeardown, if_pos (by rw [hl]; rfl), hl, blkMqExitHctx_live ops hpair]
        exact h
      · rw [hh x]; exact ite_interval_update _ _ _ _ _
    · obtain ⟨hctx, t', h, hh⟩ := reallocTeardown_spec hpair k (j + 1) q t
        (fun x hx1 hx2 => hx x (by omega) (by omega))
      refine ⟨hctx, t', by rw [reallocTeardown, if_neg (by simp [he])]; exact h, fun x => ?_⟩
      rw [hh x]
      by_cases hxj : x = j
      · subst hxj; simp [he]
      · congr 1
        apply propext; omega

/-- `blk_mq_realloc_hw_ctxs` on a queue whose contexts below `q->nr_hw_queues` are set up and the
others NULL leaves it so, with `q->nr_hw_queues` at most `set->nr_hw_queues`, whatever fails. -/
theorem blkMqReallocHwCtxs_spec {ops : HctxOps} (hpair : ops.Paired) (env : ℕ → HctxAllocEnv)
    (setNr : ℕ) {q : QueueHeld} (hq : HctxsLive ops q.nrHwQueues q.hctx) (t : RqMapHeap) :
    ∃ hctx tags nr t', blkMqReallocHwCtxs ops env setNr q t =
        some ({ q with hctx := hctx, tags := tags, nrHwQueues := nr }, t') ∧
      nr ≤ setNr ∧ HctxsLive ops nr hctx := by
  obtain ⟨h1, tags, i, hl, -, hi, hlive, -⟩ :=
    reallocLoop_spec hpair env t.setTags setNr 0 q q.nrHwQueues (Nat.zero_le _) hq
  obtain ⟨h2, t', ht, hh⟩ := reallocTeardown_spec hpair (q.nrHwQueues - i) i
    { q with hctx := h1, tags := tags } t (fun x _ _ => by dsimp only; rw [hlive x]; split_ifs <;> simp)
  refine ⟨h2, tags, i, t', ?_, by omega, fun x => ?_⟩
  · simp only [blkMqReallocHwCtxs, hl, Option.bind_eq_bind, Option.some_bind, ht]
  · rw [hh x]; dsimp only; rw [hlive x]; split_ifs <;> first | rfl | omega

/-- Two hardware queues, a driver with `init_hctx` and `exit_hctx`, and a flush queue that cannot
be had for hardware context 1. -/
def flushQueueShort : ℕ → HctxAllocEnv := fun i => ⟨true, true, ⟨true, true, true, true, i != 1, true⟩⟩

/-- `blk_mq_realloc_hw_ctxs` leaves the contexts and `q->nr_hw_queues` as `blkMqReallocHwCtxs` of
`Topology` computes them, with a context allocated where all three of its allocations succeed. -/
theorem realloc_refines_topology (ops : HctxOps) (hpair : ops.Paired) (env : ℕ → HctxAllocEnv)
    (setNr : ℕ) (q : QueueHeld) (hq : HctxsLive ops q.nrHwQueues q.hctx) (t : RqMapHeap) :
    ∃ q' t', blkMqReallocHwCtxs ops env setNr q t = some (q', t') ∧
      (⟨q'.nrHwQueues, fun j => (q'.hctx j).hctx⟩ : HwCtxs) =
        BlkMq.blkMqReallocHwCtxs setNr (fun j => (env j).ok ops)
          ⟨q.nrHwQueues, fun j => (q.hctx j).hctx⟩ := by
  obtain ⟨h1, tags, i, hl, -, -, hlive, htopo⟩ :=
    reallocLoop_spec hpair env t.setTags setNr 0 q q.nrHwQueues (Nat.zero_le _) hq
  obtain ⟨h2, t', ht, hh⟩ := reallocTeardown_spec hpair (q.nrHwQueues - i) i
    { q with hctx := h1, tags := tags } t (fun x _ _ => by dsimp only; rw [hlive x]; split_ifs <;> simp)
  refine ⟨{ q with hctx := h2, tags := tags, nrHwQueues := i }, t',
    by simp only [blkMqReallocHwCtxs, hl, Option.bind_eq_bind, Option.some_bind, ht], ?_⟩
  simp only [BlkMq.blkMqReallocHwCtxs, htopo, HwCtxs.mk.injEq, true_and]
  funext j
  rw [hh j]; dsimp only
  split_ifs <;> first | rfl | omega

/-- On a fresh queue, with the flush queue of context 1 missing. -/
theorem realloc_refines_topology_flush_queue_short :
    (⟨true, true, false, false, true⟩ : HctxOps).Paired ∧
    HctxsLive ⟨true, true, false, false, true⟩ QueueHeld.fresh.nrHwQueues QueueHeld.fresh.hctx ∧
    ∃ q' t', blkMqReallocHwCtxs ⟨true, true, false, false, true⟩ flushQueueShort 3 QueueHeld.fresh
        RqMapHeap.empty = some (q', t') ∧
      (⟨q'.nrHwQueues, fun j => (q'.hctx j).hctx⟩ : HwCtxs) =
        BlkMq.blkMqReallocHwCtxs 3 (fun j => (flushQueueShort j).ok ⟨true, true, false, false, true⟩)
          ⟨QueueHeld.fresh.nrHwQueues, fun j => (QueueHeld.fresh.hctx j).hctx⟩ := by
  have hq : HctxsLive ⟨true, true, false, false, true⟩ QueueHeld.fresh.nrHwQueues QueueHeld.fresh.hctx :=
    fun j => by simp [QueueHeld.fresh]
  exact ⟨by decide, hq, realloc_refines_topology _ (by decide) _ 3 _ hq _⟩

/-- There the loop stops at context 1, and context 0 alone is left. -/
example : (blkMqReallocHwCtxs ⟨true, true, false, false, true⟩ flushQueueShort 3 QueueHeld.fresh
    RqMapHeap.empty).map (fun s => (s.1.nrHwQueues, (s.1.hctx 0).hctx, (s.1.hctx 1).hctx)) =
      some (1, true, false) := rfl

/-! ## Teardown -/

theorem exitHwQueuesLoop_spec {ops : HctxOps} (hpair : ops.Paired) (nrQueue : ℕ) :
    ∀ (k i : ℕ) (q : QueueHeld), i + k ≤ nrQueue → (∀ x, i ≤ x → x < i + k → q.hctx x = ops.live) →
      ∃ hctx, exitHwQueuesLoop ops nrQueue k i q = some { q with hctx := hctx } ∧
        ∀ x, hctx x = if i ≤ x ∧ x < i + k then .exited else q.hctx x
  | 0, i, q, _, _ => ⟨q.hctx, rfl, fun x => by rw [if_neg (by omega)]⟩
  | k + 1, i, q, hk, hx => by
    obtain ⟨hctx, h, hh⟩ := exitHwQueuesLoop_spec hpair nrQueue k (i + 1)
      { q with hctx := update q.hctx i .exited } (by omega)
      (fun x hx1 hx2 => by simpa [Function.update_noteq (by omega : x ≠ i)] using hx x (by omega) (by omega))
    refine ⟨hctx, ?_, fun x => ?_⟩
    · rw [exitHwQueuesLoop, if_neg (by omega), hx i le_rfl (by omega), blkMqExitHctx_live ops hpair]
      exact h
    · rw [hh x]; exact ite_interval_update _ _ _ _ _

/-- A loop over the contexts below `n` whose body turns a context holding `a` into one holding
`b` and touches nothing else. -/
theorem foldlM_range_hctx (body : QueueHeld → ℕ → Option QueueHeld) {a b : HctxHeld}
    (hbody : ∀ q i, q.hctx i = a → body q i = some { q with hctx := update q.hctx i b }) :
    ∀ (n : ℕ) (q : QueueHeld), (∀ x < n, q.hctx x = a) →
      ∃ hctx, (List.range n).foldlM body q = some { q with hctx := hctx } ∧
        ∀ x, hctx x = if x < n then b else q.hctx x
  | 0, q, _ => ⟨q.hctx, rfl, fun x => by rw [if_neg (Nat.not_lt_zero x)]⟩
  | n + 1, q, hq => by
    obtain ⟨hctx, h, hh⟩ := foldlM_range_hctx body hbody n q fun x hx => hq x (by omega)
    refine ⟨update hctx n b, ?_, fun x => ?_⟩
    · rw [List.range_succ, List.foldlM_append, h, Option.bind_eq_bind, Option.some_bind,
        List.foldlM_cons, hbody _ _ (by dsimp only; rw [hh n, if_neg (lt_irrefl n)]; exact hq n (by omega))]
      rfl
    · by_cases hxn : x = n
      · subst hxn; simp
      · rw [Function.update_noteq hxn, hh x]
        congr 1
        apply propext; omega

/-- The queue holds no hardware context, no `q->queue_ctx` and no `q->queue_hw_ctx`. -/
def QueueHeld.HoldsNoHctx (q : QueueHeld) : Prop :=
  (∀ j, q.hctx j = .empty) ∧ q.queueCtx = false ∧ q.queueHwCtx = false

/-- A queue blk-mq has set up: it holds `q->queue_ctx` and `q->queue_hw_ctx`, the contexts below
`q->nr_hw_queues` are set up and the others NULL, and there are no more of them than the tag set
has hardware queues. -/
structure QueueHeld.Live (ops : HctxOps) (setNr : ℕ) (q : QueueHeld) : Prop where
  queueCtx_held : q.queueCtx = true
  queueHwCtx_held : q.queueHwCtx = true
  hctxs : HctxsLive ops q.nrHwQueues q.hctx
  nr_le : q.nrHwQueues ≤ setNr

/-- `blk_mq_free_queue` and then `blk_mq_release` on a queue blk-mq has set up give back every
resource of every context, `q->queue_ctx` and `q->queue_hw_ctx`. -/
theorem QueueHeld.Live.freeQueue_release {ops : HctxOps} (hpair : ops.Paired) {setNr : ℕ}
    {q : QueueHeld} (hq : q.Live ops setNr) :
    ∃ q', (blkMqFreeQueue ops setNr q >>= blkMqRelease) = some q' ∧ q'.HoldsNoHctx := by
  obtain ⟨h1, he, hh1⟩ := exitHwQueuesLoop_spec hpair setNr q.nrHwQueues 0 q (by simpa using hq.nr_le)
    fun x _ hx => by rw [hq.hctxs x, if_pos (by omega)]
  obtain ⟨h2, hf, hh2⟩ : ∃ h2, blkMqFreeHwQueues { q with hctx := h1 } = some { q with hctx := h2 } ∧
      ∀ x, h2 x = if x < q.nrHwQueues then .forRelease else h1 x :=
    foldlM_range_hctx (a := .exited) _ (fun q i hqi => by rw [hqi]; rfl) q.nrHwQueues { q with hctx := h1 }
      fun x hx => by dsimp only; rw [hh1 x, if_pos ⟨Nat.zero_le x, by omega⟩]
  obtain ⟨h3, hr, hh3⟩ := foldlM_range_hctx (a := .forRelease) (b := .empty)
    (fun q i => if (q.hctx i).hctx then ((q.hctx i).release .ctxs >>= fun h => h.release .hctx) >>= fun h =>
        some { q with hctx := update q.hctx i h } else some q)
    (fun q i hqi => by dsimp only; rw [if_pos (by rw [hqi]; rfl), hqi]; rfl) q.nrHwQueues { q with hctx := h2 }
    fun x hx => by dsimp only; rw [hh2 x, if_pos hx]
  refine ⟨{ q with hctx := h3, queueCtx := false, queueHwCtx := false }, ?_, fun j => ?_, rfl, rfl⟩
  · rw [blkMqFreeQueue, blkMqExitHwQueues, he, Option.bind_eq_bind, Option.some_bind, hf,
      Option.some_bind, blkMqRelease, Option.bind_eq_bind]
    erw [hr]
    simp [releaseBool, hq.queueCtx_held, hq.queueHwCtx_held]
  · show h3 j = _
    rw [hh3 j]
    dsimp only
    split_ifs with hj
    · rfl
    · rw [hh2 j, if_neg hj, hh1 j, if_neg (by omega), hq.hctxs j, if_neg hj]

/-! ## A queue's life -/

/-- `blk_mq_init_allocated_queue` on a fresh queue, whatever fails: when it keeps `q->mq_ops` the
queue is set up; when it clears it, it returns `-ENOMEM` holding no hardware context,
`q->queue_ctx` or `q->queue_hw_ctx`. -/
theorem blkMqInitAllocatedQueue_spec {ops : HctxOps} (hpair : ops.Paired) (env : InitQueueEnv)
    (setNr : ℕ) (t : RqMapHeap) :
    ∃ q t' ret, blkMqInitAllocatedQueue ops env setNr t QueueHeld.fresh = some (q, t', ret) ∧
      (q.mqOps = true → q.Live ops setNr) ∧
      (q.mqOps = false → ret = -ENOMEM ∧ q.HoldsNoHctx) := by
  obtain ⟨p, c, w, hs, ns, si⟩ := env
  cases p
  · exact ⟨_, _, _, rfl, nofun, fun _ => ⟨rfl, fun _ => rfl, rfl, rfl⟩⟩
  cases c
  · exact ⟨_, _, _, rfl, nofun, fun _ => ⟨rfl, fun _ => rfl, rfl, rfl⟩⟩
  cases w
  · exact ⟨_, _, _, rfl, nofun, fun _ => ⟨rfl, fun _ => rfl, rfl, rfl⟩⟩
  obtain ⟨hctx, tags, nr, t', hre, hnr, hlive⟩ := blkMqReallocHwCtxs_spec hpair hs setNr
    (q := ⟨true, true, true, true, 0, fun _ => .empty, fun _ => none⟩) (fun j => by simp) t
  simp only [blkMqInitAllocatedQueue, QueueHeld.fresh, acquireBool, Bool.not_true, Bool.false_eq_true,
    ↓reduceIte, Option.bind_eq_bind, Option.some_bind]
  rw [hre]
  simp only [Option.some_bind]
  by_cases h0 : nr = 0
  · subst h0
    refine ⟨_, _, _, rfl, nofun, fun _ => ⟨rfl, fun j => ?_, rfl, rfl⟩⟩
    simpa using hlive j
  · rw [if_neg h0]
    split_ifs
    all_goals exact ⟨_, _, _, rfl, fun _ => ⟨rfl, rfl, hlive, hnr⟩, nofun⟩

/-- A reallocation keeps a queue set up, for the `set->nr_hw_queues` it is made with. -/
theorem QueueHeld.Live.realloc {ops : HctxOps} (hpair : ops.Paired) {setNr : ℕ} {q : QueueHeld}
    (hq : q.Live ops setNr) (env : ℕ → HctxAllocEnv) (nr : ℕ) (t : RqMapHeap) :
    ∃ q' t', blkMqReallocHwCtxs ops env nr q t = some (q', t') ∧ q'.Live ops nr := by
  obtain ⟨hctx, tags, nr', t', hre, hnr, hlive⟩ := blkMqReallocHwCtxs_spec hpair env nr hq.hctxs t
  exact ⟨_, t', hre, ⟨hq.queueCtx_held, hq.queueHwCtx_held, hlive, hnr⟩⟩

/-- The queues blk-mq has set up, with `set->nr_hw_queues` and the set's maps: what
`blk_mq_init_allocated_queue` leaves when it keeps `q->mq_ops`, and what each reallocation of
`blk_mq_update_nr_hw_queues` then makes of it, with `set->nr_hw_queues` as that sets it. -/
inductive LifeReachable (ops : HctxOps) : QueueHeld → ℕ → RqMapHeap → Prop
  | init {env : InitQueueEnv} {setNr : ℕ} {t : RqMapHeap} {q : QueueHeld} {t' : RqMapHeap} {ret : ℤ} :
      blkMqInitAllocatedQueue ops env setNr t QueueHeld.fresh = some (q, t', ret) → q.mqOps = true →
      LifeReachable ops q setNr t'
  | update {q : QueueHeld} {setNr : ℕ} {t : RqMapHeap} {q' : QueueHeld} {t' : RqMapHeap} (nr : ℕ)
      (env : ℕ → HctxAllocEnv) : LifeReachable ops q setNr t →
      blkMqReallocHwCtxs ops env nr q t = some (q', t') → LifeReachable ops q' nr t'

/-- Every queue blk-mq has set up, over any run, is set up. -/
theorem LifeReachable.live {ops : HctxOps} (hpair : ops.Paired) {q : QueueHeld} {setNr : ℕ}
    {t : RqMapHeap} (hs : LifeReachable ops q setNr t) : q.Live ops setNr := by
  induction hs with
  | init hinit hmq =>
    obtain ⟨_, _, _, h, hlive, -⟩ := blkMqInitAllocatedQueue_spec hpair _ _ _
    rw [hinit, Option.some.injEq, Prod.mk.injEq] at h
    exact h.1 ▸ hlive (h.1 ▸ hmq)
  | update nr env _ hre ih =>
    obtain ⟨_, _, h, hlive⟩ := ih.realloc hpair env nr _
    rw [hre, Option.some.injEq, Prod.mk.injEq] at h
    exact h.1 ▸ hlive

/-- Such a life: two hardware queues set up, then `blk_mq_update_nr_hw_queues` down to one, which
tears down context 1. -/
example : ∃ q t, LifeReachable ⟨true, true, false, false, true⟩ q 1 t ∧ q.nrHwQueues = 1 ∧
    (q.hctx 1).hctx = false :=
  ⟨_, _, .update 1 flushQueueShort
    (@LifeReachable.init _ ⟨true, true, true, fun _ => ⟨true, true, ⟨true, true, true, true, true, true⟩⟩,
      false, 0⟩ 2 RqMapHeap.empty _ _ _ rfl rfl) rfl, rfl, rfl⟩

end BlkMq.HctxLife
