import Mathlib.Data.List.Rotate
import Mathlib.Logic.Function.Basic

/-!
# Software queues and their pending bits

Each CPU has a software queue `ctx` with a list of requests. `blk_mq_map_swqueue` gives it a
hardware queue `q->mq_map[cpu]` and a slot `ctx->index_hw` in that queue's `hctx->ctxs`; the bit
of that slot in `hctx->ctx_map` says the software queue may hold requests, and it is the only way
a run of the hardware queue finds them. Insertions set the bit; `flush_busy_ctx`,
`dispatch_rq_from_ctx` and `blk_mq_hctx_cpu_offline` clear it.

The bits stay right under every operation but one: the CPU-offline handler runs in the notifier of
every hardware queue and clears slot `ctx->index_hw` in whichever queue it runs for, which on a
queue other than the dead CPU's own is the slot of some other software queue.
-/

namespace BlkMq

open Function (update)

/-- What `blk_mq_map_swqueue` sets up for the software queues. -/
structure SwMap where
  /-- `q->mq_map`: the hardware queue of each CPU. -/
  mqMap : ℕ → ℕ
  /-- `ctx->index_hw`, for the software queue of each CPU. -/
  indexHw : ℕ → ℕ
  /-- `hctx->ctxs[0 .. hctx->nr_ctx)`, for each hardware queue: the CPUs of its software
  queues. -/
  ctxs : ℕ → List ℕ

namespace SwMap

/-- `ctx->index_hw = hctx->nr_ctx; hctx->ctxs[hctx->nr_ctx++] = ctx`, for the hardware queue
`q->mq_map[i]`. -/
def addCtx (m : SwMap) (i : ℕ) : SwMap :=
  let h := m.mqMap i
  { m with indexHw := update m.indexHw i (m.ctxs h).length, ctxs := update m.ctxs h (m.ctxs h ++ [i]) }

/-- The body of the CPU loop of `blk_mq_map_swqueue` for an online CPU `i`. `tags` says which
`set->tags[hctx_idx]` exist and `alloc` is what `__blk_mq_alloc_rq_map` returns if it is called;
when the hardware queue has no tags, the CPU falls back to hardware queue 0. -/
def mapCpu (m : SwMap) (tags : ℕ → Bool) (alloc : Bool) (i : ℕ) : SwMap × (ℕ → Bool) :=
  let hctxIdx := m.mqMap i
  if tags hctxIdx then (m.addCtx i, tags)
  else if alloc then (m.addCtx i, update tags hctxIdx true)
  else (({ m with mqMap := update m.mqMap i 0 } : SwMap).addCtx i, tags)

end SwMap

/-- The CPU loop of `blk_mq_map_swqueue` over the possible CPUs below `n`, after every
`hctx->nr_ctx` was reset to 0. -/
def mapSwqueueCpus (q : SwMap) (tags online alloc : ℕ → Bool) : ℕ → SwMap × (ℕ → Bool)
  | 0 => ({ q with ctxs := fun _ => [] }, tags)
  | n + 1 =>
    let r := mapSwqueueCpus q tags online alloc n
    if online n then r.1.mapCpu r.2 (alloc n) n else r

/-- `blk_mq_map_swqueue` with the possible CPUs below `nrCpuIds`, as far as the software queues
go (the second loop, over the hardware queues, is left out). -/
def blkMqMapSwqueue (q : SwMap) (tags online alloc : ℕ → Bool) (nrCpuIds : ℕ) : SwMap :=
  (mapSwqueueCpus q tags online alloc nrCpuIds).1

namespace SwMap

/-- `hctx->ctxs[ctx->index_hw] == ctx` for the software queue of `cpu` on its own hardware queue
`q->mq_map[cpu]`. -/
def Mapped (m : SwMap) (cpu : ℕ) : Prop := (m.ctxs (m.mqMap cpu))[m.indexHw cpu]? = some cpu

instance (m : SwMap) : DecidablePred m.Mapped := fun _ => inferInstanceAs (Decidable (_ = _))

/-- Every software queue listed in a `hctx->ctxs` is listed on its own hardware queue, at its own
`index_hw`. -/
def Listed (m : SwMap) : Prop :=
  ∀ h b c, (m.ctxs h)[b]? = some c → m.mqMap c = h ∧ m.indexHw c = b

variable {m : SwMap} {i j : ℕ}

theorem Listed.mapped (hm : m.Listed) {h b c : ℕ} (hc : (m.ctxs h)[b]? = some c) : m.Mapped c := by
  obtain ⟨rfl, rfl⟩ := hm h b c hc
  exact hc

theorem mapped_addCtx_self : (m.addCtx i).Mapped i := by
  simp [Mapped, addCtx]

theorem Mapped.addCtx (hj : m.Mapped j) : (m.addCtx i).Mapped j := by
  by_cases hji : j = i
  · exact hji ▸ mapped_addCtx_self
  have hlt := (List.getElem?_eq_some_iff.mp hj).1
  unfold Mapped SwMap.addCtx
  simp only [Function.update_noteq hji]
  rw [Function.update_apply]
  split_ifs with hh
  · rw [← hh, List.getElem?_append_left hlt]; exact hj
  · exact hj

theorem Mapped.remap (hj : m.Mapped j) (hji : j ≠ i) (x : ℕ) :
    ({ m with mqMap := update m.mqMap i x } : SwMap).Mapped j := by
  simpa [Mapped, Function.update_noteq hji] using hj

theorem mem_addCtx {h c : ℕ} (hc : c ∈ (m.addCtx i).ctxs h) : c ∈ m.ctxs h ∨ c = i := by
  simp only [SwMap.addCtx, Function.update_apply] at hc
  split_ifs at hc with hh
  · simpa [hh] using hc
  · exact .inl hc

/-- A CPU that is listed nowhere yet keeps the listing consistent when it is added. -/
theorem Listed.addCtx (hm : m.Listed) (hi : ∀ h, i ∉ m.ctxs h) : (m.addCtx i).Listed := by
  intro h b c hc
  have hold (hc : (m.ctxs h)[b]? = some c) :
      (m.addCtx i).mqMap c = h ∧ (m.addCtx i).indexHw c = b := by
    have hci : c ≠ i := fun e => hi h (e ▸ List.getElem?_mem hc)
    simpa [SwMap.addCtx, Function.update_noteq hci] using hm h b c hc
  simp only [SwMap.addCtx, Function.update_apply] at hc
  split_ifs at hc with hh
  · subst hh
    rw [List.getElem?_append] at hc
    split_ifs at hc with hb
    · exact hold hc
    · obtain ⟨h1, rfl⟩ := List.getElem?_eq_some_iff.mp hc
      simp only [List.length_singleton, List.getElem_singleton] at h1 ⊢
      simp only [SwMap.addCtx, Function.update_same, true_and]
      omega
  · exact hold hc

theorem Listed.remap (hm : m.Listed) (hi : ∀ h, i ∉ m.ctxs h) (x : ℕ) :
    ({ m with mqMap := update m.mqMap i x } : SwMap).Listed := fun h b c hc => by
  have hci : c ≠ i := fun e => hi h (e ▸ List.getElem?_mem hc)
  simpa [Function.update_noteq hci] using hm h b c hc

variable {tags : ℕ → Bool} {alloc : Bool}

/-- The software queue is added to `q->mq_map[i]`, or to hardware queue 0 when that one has no
tags and none can be allocated. -/
theorem mapCpu_fst : (m.mapCpu tags alloc i).1 = if tags (m.mqMap i) || alloc then m.addCtx i
    else ({ m with mqMap := update m.mqMap i 0 } : SwMap).addCtx i := by
  unfold SwMap.mapCpu
  dsimp only
  split_ifs <;> simp_all

theorem Listed.mapCpu (hm : m.Listed) (hi : ∀ h, i ∉ m.ctxs h) :
    (m.mapCpu tags alloc i).1.Listed := by
  rw [mapCpu_fst]
  split_ifs
  · exact hm.addCtx hi
  · exact (hm.remap hi 0).addCtx hi

theorem mem_mapCpu {h c : ℕ} (hc : c ∈ (m.mapCpu tags alloc i).1.ctxs h) : c ∈ m.ctxs h ∨ c = i := by
  rw [mapCpu_fst] at hc
  split_ifs at hc
  · exact mem_addCtx hc
  · exact mem_addCtx (m := { m with mqMap := update m.mqMap i 0 }) hc

theorem mapped_mapCpu_self : (m.mapCpu tags alloc i).1.Mapped i := by
  rw [mapCpu_fst]
  split_ifs <;> exact mapped_addCtx_self

theorem Mapped.mapCpu (hj : m.Mapped j) (hji : j ≠ i) : (m.mapCpu tags alloc i).1.Mapped j := by
  rw [mapCpu_fst]
  split_ifs
  · exact hj.addCtx
  · exact (hj.remap hji 0).addCtx

end SwMap

/-- The CPU loop of `blk_mq_map_swqueue` lists each online CPU below `n` on its own hardware
queue at its own `index_hw`, lists no other CPU, and lists every CPU at its own place. -/
theorem mapSwqueueCpus_listed (q : SwMap) (tags online alloc : ℕ → Bool) (n : ℕ) :
    (mapSwqueueCpus q tags online alloc n).1.Listed ∧
      (∀ h, ∀ c ∈ (mapSwqueueCpus q tags online alloc n).1.ctxs h, c < n) ∧
      ∀ i < n, online i → (mapSwqueueCpus q tags online alloc n).1.Mapped i := by
  induction n with
  | zero =>
    exact ⟨fun _ _ _ hc => by simp [mapSwqueueCpus] at hc,
      fun _ _ hc => by simp [mapSwqueueCpus] at hc, fun _ hi => absurd hi (Nat.not_lt_zero _)⟩
  | succ n ih =>
    obtain ⟨hl, hlt, hmap⟩ := ih
    have hn : ∀ h, n ∉ (mapSwqueueCpus q tags online alloc n).1.ctxs h :=
      fun h hn => lt_irrefl n (hlt h n hn)
    simp only [mapSwqueueCpus]
    split_ifs with hon
    · refine ⟨hl.mapCpu hn, fun h c hc => ?_, fun i hi honi => ?_⟩
      · rcases SwMap.mem_mapCpu hc with hc | rfl
        · exact Nat.lt_succ_of_lt (hlt h c hc)
        · exact Nat.lt_succ_self c
      · rcases Nat.lt_succ_iff_lt_or_eq.mp hi with hi | rfl
        · exact (hmap i hi honi).mapCpu (by omega)
        · exact SwMap.mapped_mapCpu_self
    · refine ⟨hl, fun h c hc => Nat.lt_succ_of_lt (hlt h c hc), fun i hi honi => ?_⟩
      rcases Nat.lt_succ_iff_lt_or_eq.mp hi with hi | rfl
      · exact hmap i hi honi
      · simp [hon] at honi

/-- `blk_mq_map_swqueue` places the software queue of every online CPU in `hctx->ctxs` of its
hardware queue `q->mq_map[cpu]`, at `ctx->index_hw`, and every listed software queue at its
own place. -/
theorem blkMqMapSwqueue_listed (q : SwMap) (tags online alloc : ℕ → Bool) (nrCpuIds : ℕ) :
    (blkMqMapSwqueue q tags online alloc nrCpuIds).Listed ∧
      ∀ i < nrCpuIds, online i → (blkMqMapSwqueue q tags online alloc nrCpuIds).Mapped i :=
  have h := mapSwqueueCpus_listed q tags online alloc nrCpuIds
  ⟨h.1, h.2.2⟩

/-- The request lists of the software queues, and the `ctx_map` bits and dispatch lists of the
hardware queues. -/
structure SwState where
  /-- `ctx->rq_list`, for the software queue of each CPU. -/
  rqList : ℕ → List ℕ
  /-- Bit `b` of `hctx->ctx_map` of hardware queue `h`. -/
  ctxMap : ℕ → ℕ → Bool
  /-- `hctx->dispatch`. -/
  dispatch : ℕ → List ℕ

namespace SwState

/-- Every list empty and every bit clear, as `blk_mq_map_swqueue` finds a queue that is not yet
live or frozen. -/
def empty : SwState := ⟨fun _ => [], fun _ _ => false, fun _ => []⟩

/-- Replace the request list of the software queue of `cpu`. -/
def setList (s : SwState) (cpu : ℕ) (l : List ℕ) : SwState :=
  { s with rqList := update s.rqList cpu l }

/-- Set bit `b` of `ctx_map` of hardware queue `h` to `v`. -/
def setBit (s : SwState) (h b : ℕ) (v : Bool) : SwState :=
  { s with ctxMap := update s.ctxMap h (update (s.ctxMap h) b v) }

variable (s : SwState) {cpu c h b h' b' : ℕ} {l : List ℕ} {v : Bool}

@[simp] theorem setList_rqList : (s.setList c l).rqList cpu = if cpu = c then l else s.rqList cpu := by
  simp [setList, Function.update_apply]

@[simp] theorem setList_ctxMap : (s.setList c l).ctxMap = s.ctxMap := rfl
@[simp] theorem setBit_rqList : (s.setBit h b v).rqList = s.rqList := rfl

@[simp] theorem setBit_ctxMap :
    (s.setBit h b v).ctxMap h' b' = if h' = h ∧ b' = b then v else s.ctxMap h' b' := by
  unfold setBit
  by_cases hh : h' = h
  · subst hh
    by_cases hb : b' = b <;> simp [hb]
  · simp [hh]

end SwState

/-- `blk_mq_hctx_mark_pending`: set bit `ctx->index_hw` of `h`'s `ctx_map`, unless it is set. -/
def blkMqHctxMarkPending (m : SwMap) (s : SwState) (h cpu : ℕ) : SwState :=
  if s.ctxMap h (m.indexHw cpu) then s else s.setBit h (m.indexHw cpu) true

/-- `blk_mq_hctx_clear_pending`. -/
def blkMqHctxClearPending (m : SwMap) (s : SwState) (h cpu : ℕ) : SwState :=
  s.setBit h (m.indexHw cpu) false

/-- `__blk_mq_insert_req_list`, for a request of the software queue of `cpu`. -/
def __blkMqInsertReqList (s : SwState) (cpu rq : ℕ) (atHead : Bool) : SwState :=
  s.setList cpu (if atHead then rq :: s.rqList cpu else s.rqList cpu ++ [rq])

/-- `__blk_mq_insert_request`: `rq->mq_ctx` is the software queue of `cpu`. -/
def __blkMqInsertRequest (m : SwMap) (s : SwState) (h cpu rq : ℕ) (atHead : Bool) : SwState :=
  blkMqHctxMarkPending m (__blkMqInsertReqList s cpu rq atHead) h cpu

/-- `blk_mq_queue_io`. -/
def blkMqQueueIo (m : SwMap) (s : SwState) (h cpu rq : ℕ) : SwState :=
  __blkMqInsertRequest m s h cpu rq false

/-- `blk_mq_insert_requests`: splice `list` to the tail of the software queue. -/
def blkMqInsertRequests (m : SwMap) (s : SwState) (h cpu : ℕ) (list : List ℕ) : SwState :=
  blkMqHctxMarkPending m (s.setList cpu (s.rqList cpu ++ list)) h cpu

/-- What the checks of `blk_mq_attempt_merge` make of one request: `blk_rq_merge_ok` or
`blk_try_merge` rule it out, or the bio is merged into it, or `blk_mq_sched_allow_merge` or the
`bio_attempt_*_merge` refuse and the walk stops. -/
inductive MergeOutcome
  | skip
  | merged
  | stop
  deriving DecidableEq, Repr

/-- `blk_mq_attempt_merge`: walk the software queue from its tail, at most 8 requests, and return
the request the bio was merged into. The request list itself is never changed. -/
def blkMqAttemptMerge (s : SwState) (cpu : ℕ) (outcome : ℕ → MergeOutcome) : Option ℕ :=
  go ((s.rqList cpu).reverse.take 8)
where
  go : List ℕ → Option ℕ
    | [] => none
    | rq :: rest =>
      match outcome rq with
      | .skip => go rest
      | .merged => some rq
      | .stop => none

/-- `flush_busy_ctx` for bit `bitnr` of hardware queue `h`: splice the software queue
`hctx->ctxs[bitnr]` to the tail of `list` and clear the bit. -/
def flushBusyCtx (m : SwMap) (s : SwState) (h bitnr : ℕ) (list : List ℕ) : SwState × List ℕ :=
  match (m.ctxs h)[bitnr]? with
  | some ctx => ((s.setList ctx []).setBit h bitnr false, list ++ s.rqList ctx)
  | none => (s.setBit h bitnr false, list)

/-- One bit of the walk of `sbitmap_for_each_set` in `blk_mq_flush_busy_ctxs`. -/
def flushBit (m : SwMap) (h : ℕ) (acc : SwState × List ℕ) (bitnr : ℕ) : SwState × List ℕ :=
  if acc.1.ctxMap h bitnr then flushBusyCtx m acc.1 h bitnr acc.2 else acc

/-- `blk_mq_flush_busy_ctxs`: `sbitmap_for_each_set` (outside these sources) visits the set bits
of the `hctx->nr_ctx` bits of `ctx_map` in ascending order. -/
def blkMqFlushBusyCtxs (m : SwMap) (s : SwState) (h : ℕ) : SwState × List ℕ :=
  (List.range (m.ctxs h).length).foldl (flushBit m h) (s, [])

/-- `dispatch_rq_from_ctx` for bit `bitnr`: take the first request of `hctx->ctxs[bitnr]`, and
clear the bit when that empties it. -/
def dispatchRqFromCtx (m : SwMap) (s : SwState) (h bitnr : ℕ) : SwState × Option ℕ :=
  match (m.ctxs h)[bitnr]? with
  | some ctx =>
    match s.rqList ctx with
    | rq :: rest =>
      let s := s.setList ctx rest
      (if rest = [] then s.setBit h bitnr false else s, some rq)
    | [] => (s, none)
  | none => (s, none)

/-- `__sbitmap_for_each_set` with `dispatch_rq_from_ctx`, over the bits in the order given. -/
def dequeueBits (m : SwMap) (h : ℕ) : List ℕ → SwState → SwState × Option ℕ
  | [], s => (s, none)
  | b :: bs, s =>
    if s.ctxMap h b then
      match dispatchRqFromCtx m s h b with
      | (s, some rq) => (s, some rq)
      | (s, none) => dequeueBits m h bs s
    else dequeueBits m h bs s

/-- `blk_mq_dequeue_from_ctx`: `__sbitmap_for_each_set` (outside these sources) visits every bit
once, ascending from `start->index_hw` and wrapping round. -/
def blkMqDequeueFromCtx (m : SwMap) (s : SwState) (h : ℕ) (start : Option ℕ) : SwState × Option ℕ :=
  let off := match start with
    | some ctx => m.indexHw ctx
    | none => 0
  dequeueBits m h ((List.range (m.ctxs h).length).rotate off) s

/-- `blk_mq_hctx_cpu_offline` run by the notifier of hardware queue `h` for a dead `cpu`: the
software queue of `cpu` is spliced onto `h`'s dispatch list and bit `ctx->index_hw` of `h`'s
`ctx_map` is cleared (`blk_mq_run_hw_queue` left out). -/
def blkMqHctxCpuOffline (m : SwMap) (s : SwState) (h cpu : ℕ) : SwState :=
  let tmp := s.rqList cpu
  if tmp = [] then s
  else { blkMqHctxClearPending m (s.setList cpu []) h cpu with
    dispatch := update s.dispatch h (s.dispatch h ++ tmp) }

/-- The CPU events `blk_mq_hctx_notify` tells apart. -/
inductive CpuAction
  | cpuDead
  | cpuDeadFrozen
  | other
  deriving DecidableEq, Repr

/-- `blk_mq_hctx_notify`, the CPU notifier of hardware queue `h`. -/
def blkMqHctxNotify (m : SwMap) (s : SwState) (h : ℕ) (action : CpuAction) (cpu : ℕ) : SwState :=
  match action with
  | .cpuDead | .cpuDeadFrozen => blkMqHctxCpuOffline m s h cpu
  | .other => s

/-- The operations that race on the software queues, each one atomic under the software queue's
lock: insertions, merges, one callback of a bitmap walk, one notifier call. -/
inductive SwOp
  | insertRequest (cpu rq : ℕ) (atHead : Bool)
  | queueIo (cpu rq : ℕ)
  | insertRequests (cpu : ℕ) (list : List ℕ)
  | attemptMerge (cpu : ℕ) (outcome : ℕ → MergeOutcome)
  | flushBusyCtx (h bitnr : ℕ)
  | dispatchRqFromCtx (h bitnr : ℕ)
  | hctxNotify (h : ℕ) (action : CpuAction) (cpu : ℕ)

namespace SwOp

/-- The effect of an operation on the queues. An insertion goes through the hardware queue of
its software queue, `blk_mq_map_queue(q, ctx->cpu)`; a bitmap walk calls back only for set bits. -/
def apply (m : SwMap) (s : SwState) : SwOp → SwState
  | insertRequest cpu rq atHead => __blkMqInsertRequest m s (m.mqMap cpu) cpu rq atHead
  | queueIo cpu rq => blkMqQueueIo m s (m.mqMap cpu) cpu rq
  | insertRequests cpu list => blkMqInsertRequests m s (m.mqMap cpu) cpu list
  | attemptMerge _ _ => s
  | flushBusyCtx h b => if s.ctxMap h b then (BlkMq.flushBusyCtx m s h b []).1 else s
  | dispatchRqFromCtx h b => if s.ctxMap h b then (BlkMq.dispatchRqFromCtx m s h b).1 else s
  | hctxNotify h action cpu => blkMqHctxNotify m s h action cpu

/-- The software queue an insertion puts requests on. -/
def target : SwOp → Option ℕ
  | insertRequest cpu _ _ | queueIo cpu _ | insertRequests cpu _ => some cpu
  | _ => none

/-- Insertions go to software queues of online CPUs, and a notifier runs for the dead CPU's own
hardware queue. -/
def Allowed (m : SwMap) (op : SwOp) : Prop :=
  (∀ cpu, op.target = some cpu → m.Mapped cpu) ∧
    ∀ h action cpu, op = hctxNotify h action cpu → h = m.mqMap cpu

/-- The operations in order. -/
def run (m : SwMap) (s : SwState) (ops : List SwOp) : SwState := ops.foldl (apply m) s

@[simp] theorem run_nil (m : SwMap) (s : SwState) : run m s [] = s := rfl

@[simp] theorem run_cons (m : SwMap) (s : SwState) (op : SwOp) (ops : List SwOp) :
    run m s (op :: ops) = run m (op.apply m s) ops := rfl

end SwOp

section Lemmas

variable {m : SwMap} {s : SwState} {h cpu : ℕ}

@[simp] theorem blkMqHctxMarkPending_rqList : (blkMqHctxMarkPending m s h cpu).rqList = s.rqList := by
  unfold blkMqHctxMarkPending; split_ifs <;> rfl

@[simp] theorem blkMqHctxMarkPending_ctxMap (h' b' : ℕ) :
    (blkMqHctxMarkPending m s h cpu).ctxMap h' b' =
      if h' = h ∧ b' = m.indexHw cpu then true else s.ctxMap h' b' := by
  unfold blkMqHctxMarkPending
  split_ifs with hset hh <;> simp_all

/-- The state a walk of `ctx_map` leaves does not depend on the list it splices onto. -/
theorem flushBusyCtx_fst (bitnr : ℕ) (list : List ℕ) :
    (flushBusyCtx m s h bitnr list).1 = (flushBusyCtx m s h bitnr []).1 := by
  unfold flushBusyCtx; split <;> rfl

end Lemmas

/-- Every software queue that holds requests is one that `blk_mq_map_swqueue` placed, and its
bit is set in the `ctx_map` of its own hardware queue. -/
def SwState.Pending (m : SwMap) (s : SwState) : Prop :=
  ∀ cpu, s.rqList cpu ≠ [] → m.Mapped cpu ∧ s.ctxMap (m.mqMap cpu) (m.indexHw cpu) = true

namespace SwState.Pending

variable {m : SwMap} {s : SwState} {h b c cpu : ℕ}

theorem empty : SwState.empty.Pending m := fun _ hne => absurd rfl hne

/-- Filling the software queue of a placed CPU and marking it pending on its own hardware queue. -/
theorem insert (hs : s.Pending m) (hc : m.Mapped cpu) (l : List ℕ) :
    (blkMqHctxMarkPending m (s.setList cpu l) (m.mqMap cpu) cpu).Pending m := fun x hx => by
  simp only [blkMqHctxMarkPending_rqList, setList_rqList, blkMqHctxMarkPending_ctxMap,
    setList_ctxMap] at hx ⊢
  split_ifs at hx with hxc
  · subst hxc; exact ⟨hc, by simp⟩
  · obtain ⟨hm, hb⟩ := hs x hx
    exact ⟨hm, by split_ifs <;> simp [hb]⟩

/-- Clearing a bit whose slot holds no software queue with requests. -/
theorem clear (hs : s.Pending m) (hslot : ∀ c, (m.ctxs h)[b]? = some c → s.rqList c = []) :
    (s.setBit h b false).Pending m := fun x hx => by
  obtain ⟨hm, hbit⟩ := hs x hx
  refine ⟨hm, ?_⟩
  simp only [setBit_ctxMap]
  split_ifs with hhb
  · obtain ⟨hh, hb⟩ := hhb
    exact absurd (hslot x (hh ▸ hb ▸ hm)) hx
  · exact hbit

/-- Emptying the software queue in a slot and clearing the slot's bit. -/
theorem flush (hs : s.Pending m) (hc : (m.ctxs h)[b]? = some c) :
    ((s.setList c []).setBit h b false).Pending m := by
  refine Pending.clear (fun x hx => ?_) fun c' hc' => ?_
  · simp only [setList_rqList, setList_ctxMap] at hx ⊢
    split_ifs at hx
    · exact absurd rfl hx
    · exact hs x hx
  · rw [hc] at hc'
    cases hc'
    simp

/-- Taking requests off a software queue that keeps some. -/
theorem setList_of_ne_nil (hs : s.Pending m) (hc : s.rqList c ≠ []) {l : List ℕ} :
    (s.setList c l).Pending m := fun x hx => by
  simp only [setList_rqList, setList_ctxMap] at hx ⊢
  split_ifs at hx with hxc
  · exact hxc ▸ hs c hc
  · exact hs x hx

end SwState.Pending

namespace SwOp

variable {m : SwMap} {s : SwState} {op : SwOp}

/-- Every allowed operation keeps the pending bits right. -/
theorem apply_pending (hs : s.Pending m) (hop : op.Allowed m) : (op.apply m s).Pending m := by
  cases op with
  | insertRequest cpu rq atHead => exact hs.insert (hop.1 cpu rfl) _
  | queueIo cpu rq => exact hs.insert (hop.1 cpu rfl) _
  | insertRequests cpu list => exact hs.insert (hop.1 cpu rfl) _
  | attemptMerge => exact hs
  | flushBusyCtx h b =>
    simp only [apply]
    split_ifs
    · unfold BlkMq.flushBusyCtx
      split
      · exact hs.flush ‹_›
      · exact hs.clear fun c hc => by simp_all
    · exact hs
  | dispatchRqFromCtx h b =>
    simp only [apply]
    split_ifs
    · unfold BlkMq.dispatchRqFromCtx
      split
      · rename_i ctx hctx
        split
        · rename_i rq rest hl
          dsimp only
          split_ifs with hr
          · subst hr; exact hs.flush hctx
          · exact hs.setList_of_ne_nil (by simp [hl])
        · exact hs
      · exact hs
    · exact hs
  | hctxNotify h action cpu =>
    have hown := hop.2 h action cpu rfl
    cases action <;> simp only [apply, blkMqHctxNotify, blkMqHctxCpuOffline]
    all_goals first
      | exact hs
      | split_ifs with hne
        · exact hs
        · exact hs.flush (hown ▸ (hs cpu hne).1)

theorem run_pending (hs : s.Pending m) {ops : List SwOp} (hops : ∀ op ∈ ops, op.Allowed m) :
    (run m s ops).Pending m := by
  induction ops generalizing s with
  | nil => exact hs
  | cons op ops ih =>
    exact ih (apply_pending hs (hops op (.head _))) fun o ho => hops o (.tail _ ho)

/-- `blk_mq_flush_busy_ctxs` does to the queues what its callbacks do, one bit after another. -/
theorem blkMqFlushBusyCtxs_fst (h : ℕ) :
    (blkMqFlushBusyCtxs m s h).1 = run m s ((List.range (m.ctxs h).length).map (flushBusyCtx h)) := by
  suffices ∀ (bits : List ℕ) (acc : SwState × List ℕ),
      (bits.foldl (flushBit m h) acc).1 = run m acc.1 (bits.map (flushBusyCtx h)) from this _ _
  intro bits
  induction bits with
  | nil => intro acc; rfl
  | cons b bs ih =>
    intro acc
    rw [List.foldl_cons, ih, List.map_cons, run_cons]
    congr 1
    simp only [apply, flushBit]
    split_ifs
    · exact flushBusyCtx_fst b acc.2
    · rfl

end SwOp

/-- Two CPUs on two hardware queues (`q->mq_map` the identity), so both software queues sit at
`index_hw` 0. Each CPU queues a request; CPU 1 dies and hardware queue 0's notifier runs first.
It moves CPU 1's request to its own dispatch list and clears bit 0 of its `ctx_map`, which is
CPU 0's bit: CPU 0's request is left in its software queue with its bit clear, and a flush of
hardware queue 0 no longer finds it. -/
theorem cpu_offline_clears_foreign_bit :
    ∃ m s, blkMqMapSwqueue ⟨fun cpu => cpu, fun _ => 0, fun _ => []⟩ (fun _ => true)
        (fun _ => true) (fun _ => true) 2 = m ∧
      SwOp.run m .empty [.queueIo 0 10, .queueIo 1 11, .hctxNotify 0 .cpuDead 1] = s ∧
      m.Mapped 0 ∧ m.Mapped 1 ∧ m.indexHw 0 = m.indexHw 1 ∧ m.mqMap 1 ≠ 0 ∧
      s.rqList 0 = [10] ∧ s.ctxMap (m.mqMap 0) (m.indexHw 0) = false ∧ s.dispatch 0 = [11] ∧
      (blkMqFlushBusyCtxs m s (m.mqMap 0)).2 = [] :=
  ⟨_, _, rfl, rfl, by decide⟩

/-- The requests a walk of `ctx_map` collects from slot `b` of `h`: the list of
`hctx->ctxs[b]` when bit `b` is set. -/
def SwState.slot (m : SwMap) (s : SwState) (h b : ℕ) : List ℕ :=
  if s.ctxMap h b then
    match (m.ctxs h)[b]? with
    | some c => s.rqList c
    | none => []
  else []

section FlushOrder

variable {m : SwMap} {h : ℕ}

theorem flushBusyCtx_ctxMap (s : SwState) (b : ℕ) (l : List ℕ) (h' b' : ℕ) :
    (flushBusyCtx m s h b l).1.ctxMap h' b' = if h' = h ∧ b' = b then false else s.ctxMap h' b' := by
  unfold flushBusyCtx
  split <;> simp only [SwState.setBit_ctxMap, SwState.setList_ctxMap]

theorem flushBusyCtx_rqList (s : SwState) (b : ℕ) (l : List ℕ) (c : ℕ) :
    (flushBusyCtx m s h b l).1.rqList c = if (m.ctxs h)[b]? = some c then [] else s.rqList c := by
  unfold flushBusyCtx
  split
  · rename_i ctx hctx
    simp only [SwState.setBit_rqList, SwState.setList_rqList, hctx, Option.some.injEq]
    by_cases hc : c = ctx
    · simp [hc]
    · rw [if_neg hc, if_neg fun e => hc e.symm]
  · rename_i hnone
    simp [hnone]

@[simp] theorem flushBit_snd (acc : SwState × List ℕ) (b : ℕ) :
    (flushBit m h acc b).2 = acc.2 ++ acc.1.slot m h b := by
  unfold flushBit flushBusyCtx SwState.slot
  split_ifs
  · split <;> simp
  · simp

@[simp] theorem flushBit_ctxMap (acc : SwState × List ℕ) (b h' b' : ℕ) :
    (flushBit m h acc b).1.ctxMap h' b' = if h' = h ∧ b' = b then false else acc.1.ctxMap h' b' := by
  by_cases hb : acc.1.ctxMap h b
  · rw [flushBit, if_pos hb]
    exact flushBusyCtx_ctxMap _ _ _ _ _
  · rw [flushBit, if_neg hb]
    split_ifs with hhb
    · obtain ⟨rfl, rfl⟩ := hhb; simpa using hb
    · rfl

@[simp] theorem flushBit_rqList (acc : SwState × List ℕ) (b c : ℕ) :
    (flushBit m h acc b).1.rqList c =
      if acc.1.ctxMap h b ∧ (m.ctxs h)[b]? = some c then [] else acc.1.rqList c := by
  unfold flushBit
  by_cases hb : acc.1.ctxMap h b <;> simp [hb, flushBusyCtx_rqList]

/-- A flushed slot leaves every other slot as it was. -/
theorem slot_flushBit (hm : m.Listed) (acc : SwState × List ℕ) {b b' : ℕ} (hne : b' ≠ b) :
    (flushBit m h acc b).1.slot m h b' = acc.1.slot m h b' := by
  unfold SwState.slot
  simp only [flushBit_ctxMap, hne, and_false, if_false]
  split_ifs
  · split
    · rename_i c hc
      simp only [flushBit_rqList]
      split_ifs with hbc
      · exact absurd ((hm h b c hbc.2).2.symm.trans (hm h b' c hc).2) hne.symm
      · rfl
    · rfl
  · rfl

/-- The walk over distinct bits collects, in their order, the slots as they were before it. -/
theorem foldl_flushBit_snd (hm : m.Listed) :
    ∀ (bits : List ℕ) (acc : SwState × List ℕ), bits.Nodup →
      (bits.foldl (flushBit m h) acc).2 = acc.2 ++ bits.flatMap (acc.1.slot m h)
  | [], _, _ => by simp
  | b :: bs, acc, hnd => by
    obtain ⟨hb, hbs⟩ := List.nodup_cons.mp hnd
    rw [List.foldl_cons, foldl_flushBit_snd hm bs _ hbs, flushBit_snd, List.flatMap_cons,
      List.append_assoc]
    congr 2
    exact List.flatMap_congr fun b' hb' => slot_flushBit hm acc (ne_of_mem_of_not_mem hb' hb)

/-- The walk clears every bit it visits and no other. -/
theorem foldl_flushBit_ctxMap :
    ∀ (bits : List ℕ) (acc : SwState × List ℕ) (h' b' : ℕ),
      (bits.foldl (flushBit m h) acc).1.ctxMap h' b' =
        if h' = h ∧ b' ∈ bits then false else acc.1.ctxMap h' b'
  | [], _, _, _ => by simp
  | b :: bs, acc, h', b' => by
    rw [List.foldl_cons, foldl_flushBit_ctxMap bs, flushBit_ctxMap]
    by_cases hh : h' = h <;> by_cases hb : b' = b <;> simp_all

/-- The list `blk_mq_flush_busy_ctxs` returns is the concatenation of the request lists of the
software queues whose bit is set, in ascending order of their slot `index_hw`. -/
theorem blkMqFlushBusyCtxs_snd (hm : m.Listed) (s : SwState) :
    (blkMqFlushBusyCtxs m s h).2 = (List.range (m.ctxs h).length).flatMap (s.slot m h) := by
  simpa using foldl_flushBit_snd hm _ (s, []) (List.nodup_range _)

theorem SwState.Pending.flushBusyCtxs {s : SwState} (hs : s.Pending m) :
    (blkMqFlushBusyCtxs m s h).1.Pending m := by
  rw [SwOp.blkMqFlushBusyCtxs_fst]
  exact SwOp.run_pending hs fun op hop => by
    obtain ⟨b, -, rfl⟩ := List.mem_map.mp hop
    exact ⟨(fun _ h => nomatch h), (fun _ _ _ h => nomatch h)⟩

/-- The walk only ever empties software queues. -/
theorem foldl_flushBit_rqList :
    ∀ (bits : List ℕ) (acc : SwState × List ℕ) (c : ℕ),
      ∀ r ∈ (bits.foldl (flushBit m h) acc).1.rqList c, r ∈ acc.1.rqList c
  | [], _, _, _, hr => hr
  | b :: bs, acc, c, r, hr => by
    have := foldl_flushBit_rqList bs _ c r hr
    rw [flushBit_rqList] at this
    split_ifs at this
    · simp at this
    · exact this

/-- After `blk_mq_flush_busy_ctxs` every software queue of `h` is empty. -/
theorem blkMqFlushBusyCtxs_drains {s : SwState} (hs : s.Pending m) {cpu : ℕ} (hc : m.Mapped cpu)
    (hch : m.mqMap cpu = h) : (blkMqFlushBusyCtxs m s h).1.rqList cpu = [] := by
  have hs' := hs.flushBusyCtxs (h := h)
  have hlt : m.indexHw cpu < (m.ctxs h).length := hch ▸ (List.getElem?_eq_some_iff.mp hc).1
  by_contra hne
  have hbit := (hs' cpu hne).2
  rw [hch, blkMqFlushBusyCtxs, foldl_flushBit_ctxMap] at hbit
  simp [hlt] at hbit

end FlushOrder

private theorem flatMap_range_eq_single (l : List ℕ) {k : ℕ} :
    ∀ n, k < n → (List.range n).flatMap (fun b => if b = k then l else []) = l
  | 0, hk => absurd hk (Nat.not_lt_zero _)
  | n + 1, hk => by
    rw [List.range_succ, List.flatMap_append]
    rcases Nat.lt_succ_iff_lt_or_eq.mp hk with hk | rfl
    · simp [flatMap_range_eq_single l n hk, Nat.ne_of_gt hk]
    · have : (List.range k).flatMap (fun b => if b = k then l else []) = [] :=
        List.flatMap_eq_nil_iff.mpr fun b hb => by simp [Nat.ne_of_lt (List.mem_range.mp hb)]
      simp [this]

/-- The calls on one hardware queue that its flushed batches are made of. -/
inductive HctxCall
  /-- `__blk_mq_insert_request` with `at_head = false`. -/
  | insertRequest (cpu rq : ℕ)
  /-- `blk_mq_queue_io`. -/
  | queueIo (cpu rq : ℕ)
  /-- `blk_mq_insert_requests`. -/
  | insertRequests (cpu : ℕ) (list : List ℕ)
  /-- `blk_mq_attempt_merge`. -/
  | attemptMerge (cpu : ℕ) (outcome : ℕ → MergeOutcome)
  /-- `blk_mq_flush_busy_ctxs`. -/
  | flushBusyCtxs

namespace HctxCall

/-- The software queue a call appends to, and what it appends. -/
def inserts : HctxCall → Option (ℕ × List ℕ)
  | insertRequest cpu rq | queueIo cpu rq => some (cpu, [rq])
  | insertRequests cpu list => some (cpu, list)
  | attemptMerge _ _ | flushBusyCtxs => none

/-- What `call` appends to the software queue of `cpu`. -/
def insertedInto (cpu : ℕ) (call : HctxCall) : List ℕ :=
  match call.inserts with
  | some (c, l) => if c = cpu then l else []
  | none => []

/-- An insertion goes to a placed software queue of `h`, and every request it appends belongs to
that software queue (`rq->mq_ctx`, as the `BUG_ON` of `blk_mq_insert_requests` checks). -/
def Owned (m : SwMap) (h : ℕ) (ctxOf : ℕ → ℕ) : HctxCall → Prop
  | insertRequest cpu rq | queueIo cpu rq => m.Mapped cpu ∧ m.mqMap cpu = h ∧ ctxOf rq = cpu
  | insertRequests cpu list => m.Mapped cpu ∧ m.mqMap cpu = h ∧ ∀ r ∈ list, ctxOf r = cpu
  | attemptMerge _ _ | flushBusyCtxs => True

instance (m : SwMap) (h : ℕ) (ctxOf : ℕ → ℕ) : DecidablePred (Owned m h ctxOf)
  | insertRequest _ _ | queueIo _ _ | insertRequests _ _ => inferInstanceAs (Decidable (_ ∧ _ ∧ _))
  | attemptMerge _ _ | flushBusyCtxs => inferInstanceAs (Decidable True)

theorem Owned.of_inserts {m : SwMap} {h : ℕ} {ctxOf : ℕ → ℕ} {call : HctxCall} {cpu : ℕ}
    {l : List ℕ} (hown : call.Owned m h ctxOf) (hc : call.inserts = some (cpu, l)) :
    m.Mapped cpu ∧ m.mqMap cpu = h ∧ ∀ r ∈ l, ctxOf r = cpu := by
  cases call <;> simp only [inserts, Option.some.injEq, Prod.mk.injEq, reduceCtorEq] at hc <;>
    obtain ⟨rfl, rfl⟩ := hc <;> simpa [Owned] using hown

/-- One call on hardware queue `h`, with the lists flushed so far. -/
def step (m : SwMap) (h : ℕ) (acc : SwState × List (List ℕ)) : HctxCall → SwState × List (List ℕ)
  | insertRequest cpu rq => (__blkMqInsertRequest m acc.1 h cpu rq false, acc.2)
  | queueIo cpu rq => (blkMqQueueIo m acc.1 h cpu rq, acc.2)
  | insertRequests cpu list => (blkMqInsertRequests m acc.1 h cpu list, acc.2)
  | attemptMerge _ _ => acc
  | flushBusyCtxs => ((blkMqFlushBusyCtxs m acc.1 h).1, acc.2 ++ [(blkMqFlushBusyCtxs m acc.1 h).2])

variable {m : SwMap} {h : ℕ}

/-- Every insertion is a tail splice followed by `blk_mq_hctx_mark_pending`. -/
theorem step_of_inserts {call : HctxCall} {cpu : ℕ} {l : List ℕ}
    (hc : call.inserts = some (cpu, l)) (acc : SwState × List (List ℕ)) :
    step m h acc call =
      (blkMqHctxMarkPending m (acc.1.setList cpu (acc.1.rqList cpu ++ l)) h cpu, acc.2) := by
  cases call <;> simp only [inserts, Option.some.injEq, Prod.mk.injEq, reduceCtorEq] at hc <;>
    obtain ⟨rfl, rfl⟩ := hc <;> rfl

end HctxCall

/-- The calls in order, from `s`, with every list `blk_mq_flush_busy_ctxs` returned. -/
def runHctxCalls (m : SwMap) (h : ℕ) (s : SwState) (calls : List HctxCall) :
    SwState × List (List ℕ) :=
  calls.foldl (HctxCall.step m h) (s, [])

/-- What the calls `done` on hardware queue `h` leave: the software queues stay marked, every
queued request belongs to its software queue, and for each software queue of `h` its requests in
the flushed lists, in order, followed by those still queued, are those inserted into it, in
order. -/
structure FlushFifo (m : SwMap) (h : ℕ) (ctxOf : ℕ → ℕ) (done : List HctxCall)
    (acc : SwState × List (List ℕ)) : Prop where
  pending : acc.1.Pending m
  owned : ∀ c, ∀ r ∈ acc.1.rqList c, ctxOf r = c
  fifo : ∀ c, m.Mapped c → m.mqMap c = h →
    acc.2.flatten.filter (ctxOf · = c) ++ acc.1.rqList c = done.flatMap (HctxCall.insertedInto c)

namespace FlushFifo

variable {m : SwMap} {h : ℕ} {ctxOf : ℕ → ℕ} {done : List HctxCall}
  {acc : SwState × List (List ℕ)}

theorem init : FlushFifo m h ctxOf [] (.empty, []) :=
  ⟨SwState.Pending.empty, (fun _ _ hr => nomatch hr), fun _ _ _ => rfl⟩

/-- Of a slot, a software queue of `h` sees its own requests at its own slot and nothing
elsewhere. -/
theorem slot_filter (hm : m.Listed) (hf : FlushFifo m h ctxOf done acc) {c : ℕ} (hc : m.Mapped c)
    (hch : m.mqMap c = h) (b : ℕ) :
    (acc.1.slot m h b).filter (ctxOf · = c) = if b = m.indexHw c then acc.1.rqList c else [] := by
  have hcb : (m.ctxs h)[m.indexHw c]? = some c := hch ▸ hc
  unfold SwState.slot
  split_ifs with hbit hb hb
  · subst hb
    rw [hcb]
    exact List.filter_eq_self.mpr fun r hr => by simp [hf.owned c r hr]
  · split
    · rename_i c' hc'
      refine List.filter_eq_nil_iff.mpr fun r hr hrc => hb ?_
      obtain rfl : c' = c := (hf.owned c' r hr).symm.trans (of_decide_eq_true hrc)
      exact ((hm h b c' hc').2).symm
    · rfl
  · subst hb
    by_contra hne
    have := (hf.pending c (Ne.symm hne)).2
    rw [hch] at this
    exact hbit this
  · rfl

/-- A flush returns, of the requests of a software queue of `h`, all it had queued, in order. -/
theorem batch_filter (hm : m.Listed) (hf : FlushFifo m h ctxOf done acc) {c : ℕ}
    (hc : m.Mapped c) (hch : m.mqMap c = h) :
    (blkMqFlushBusyCtxs m acc.1 h).2.filter (ctxOf · = c) = acc.1.rqList c := by
  rw [blkMqFlushBusyCtxs_snd hm, List.filter_flatMap,
    List.flatMap_congr fun b _ => hf.slot_filter hm hc hch b]
  exact flatMap_range_eq_single _ _ (hch ▸ (List.getElem?_eq_some_iff.mp hc).1)

/-- Every call on `h` keeps the account. -/
theorem step (hm : m.Listed) (hf : FlushFifo m h ctxOf done acc) {call : HctxCall}
    (hown : call.Owned m h ctxOf) : FlushFifo m h ctxOf (done ++ [call]) (call.step m h acc) := by
  rcases hins : call.inserts with _ | ⟨cpu, l⟩
  · have hnil (c : ℕ) : call.insertedInto c = [] := by simp [HctxCall.insertedInto, hins]
    cases call with
    | attemptMerge => exact ⟨hf.pending, hf.owned, fun c hc hch => by simpa [hnil] using hf.fifo c hc hch⟩
    | flushBusyCtxs =>
      refine ⟨hf.pending.flushBusyCtxs, fun c r hr => hf.owned c r (foldl_flushBit_rqList _ _ c r hr),
        fun c hc hch => ?_⟩
      simp only [HctxCall.step, List.flatten_append, List.flatten_singleton, List.filter_append,
        batch_filter hm hf hc hch, blkMqFlushBusyCtxs_drains hf.pending hc hch, List.append_nil,
        List.flatMap_append, List.flatMap_singleton, hnil]
      exact hf.fifo c hc hch
    | _ => simp [HctxCall.inserts] at hins
  · obtain ⟨hc, hch, hl⟩ := hown.of_inserts hins
    have hins' (c : ℕ) : call.insertedInto c = if cpu = c then l else [] := by
      simp [HctxCall.insertedInto, hins]
    rw [HctxCall.step_of_inserts hins]
    refine ⟨hch ▸ hf.pending.insert hc _, fun c r hr => ?_, fun c hc' hch' => ?_⟩
    · simp only [blkMqHctxMarkPending_rqList, SwState.setList_rqList] at hr
      split_ifs at hr with hcc
      · subst hcc
        rcases List.mem_append.mp hr with hr | hr
        · exact hf.owned _ r hr
        · exact hl r hr
      · exact hf.owned c r hr
    · simp only [blkMqHctxMarkPending_rqList, SwState.setList_rqList, List.flatMap_append,
        List.flatMap_singleton, hins', ← hf.fifo c hc' hch']
      split_ifs with h1 h2 h2
      · simp [h1]
      · exact absurd h1.symm h2
      · exact absurd h2.symm h1
      · simp

/-- The account holds over any sequence of calls on `h`. -/
theorem run (hm : m.Listed) :
    ∀ (calls done : List HctxCall) (acc : SwState × List (List ℕ)),
      FlushFifo m h ctxOf done acc → (∀ call ∈ calls, call.Owned m h ctxOf) →
      FlushFifo m h ctxOf (done ++ calls) (calls.foldl (HctxCall.step m h) acc)
  | [], _, _, hf, _ => by simpa using hf
  | call :: calls, done, acc, hf, hown => by
    simpa using run hm calls (done ++ [call]) _ (hf.step hm (hown call (.head _)))
      fun c hc => hown c (.tail _ hc)

end FlushFifo

/-- On one hardware queue, under tail insertions, merges and `blk_mq_flush_busy_ctxs`: each
flushed list is the concatenation of the request lists of the software queues whose bit is set,
in ascending `index_hw`; for each software queue, its requests in the flushed lists, in order,
then those still queued, are exactly the requests inserted into it, in order; and after a last
flush every one of them has been flushed, exactly once and after those inserted before it. -/
theorem flushed_batches_fifo (m : SwMap) (hm : m.Listed) (h : ℕ) (ctxOf : ℕ → ℕ)
    (calls : List HctxCall) (hcalls : ∀ call ∈ calls, call.Owned m h ctxOf) :
    (∀ s : SwState,
      (blkMqFlushBusyCtxs m s h).2 = (List.range (m.ctxs h).length).flatMap (s.slot m h)) ∧
    ∀ cpu, m.Mapped cpu → m.mqMap cpu = h →
      (runHctxCalls m h .empty calls).2.flatten.filter (ctxOf · = cpu) ++
          (runHctxCalls m h .empty calls).1.rqList cpu = calls.flatMap (HctxCall.insertedInto cpu) ∧
      (runHctxCalls m h .empty (calls ++ [.flushBusyCtxs])).2.flatten.filter (ctxOf · = cpu) =
        calls.flatMap (HctxCall.insertedInto cpu) := by
  have hrun := FlushFifo.run hm calls [] _ FlushFifo.init hcalls
  refine ⟨blkMqFlushBusyCtxs_snd hm, fun cpu hc hch => ⟨hrun.fifo cpu hc hch, ?_⟩⟩
  have hlast := FlushFifo.run hm [.flushBusyCtxs] calls _ hrun (by simp [HctxCall.Owned])
  have hfifo := hlast.fifo cpu hc hch
  rw [List.foldl_cons, List.foldl_nil, HctxCall.step, blkMqFlushBusyCtxs_drains hrun.pending hc hch,
    List.append_nil, List.flatMap_append] at hfifo
  simpa [runHctxCalls, HctxCall.step, HctxCall.insertedInto, HctxCall.inserts] using hfifo

theorem flushed_batches_fifo_two_cpus :
    let m := blkMqMapSwqueue ⟨fun _ => 0, fun _ => 0, fun _ => []⟩ (fun _ => true)
      (fun _ => true) (fun _ => true) 2
    let calls : List HctxCall :=
      [.queueIo 0 10, .queueIo 1 21, .queueIo 0 11, .flushBusyCtxs, .queueIo 1 22]
    (∀ s : SwState,
      (blkMqFlushBusyCtxs m s 0).2 = (List.range (m.ctxs 0).length).flatMap (s.slot m 0)) ∧
    ∀ cpu, m.Mapped cpu → m.mqMap cpu = 0 →
      (runHctxCalls m 0 .empty calls).2.flatten.filter (fun r => r / 10 - 1 = cpu) ++
          (runHctxCalls m 0 .empty calls).1.rqList cpu = calls.flatMap (HctxCall.insertedInto cpu) ∧
      (runHctxCalls m 0 .empty (calls ++ [.flushBusyCtxs])).2.flatten.filter
          (fun r => r / 10 - 1 = cpu) = calls.flatMap (HctxCall.insertedInto cpu) :=
  flushed_batches_fifo _ (blkMqMapSwqueue_listed _ _ _ _ _).1 0 _ _ (by decide)

end BlkMq
