import BlkMq.Plug

/-!
# Submitting a bio

`blk_mq_make_request` turns a bio into a request and decides where the request goes. It first
tries to merge the bio away: into a request on the task's plug list (`blk_attempt_plug_merge`),
through the scheduler, or into a request on the software queue. Failing that it gets a request,
which may sleep, and then, by the bio's flags and the queue's shape:

* a flush or FUA request goes to the flush machinery;
* with a plug, on a queue of one hardware queue, the request is plugged, after the plug list is
  flushed when the queue already has `BLK_MAX_REQUEST_COUNT` requests on it or the last plugged
  request is large;
* with a plug and merges allowed, the request is plugged in place of the queue's request already
  there, which is issued directly: "the plug list will have one request at most";
* otherwise it is issued directly, inserted through the elevator, or queued on the software
  queue.

The plug list is shared by every queue the task submits to. It is flushed when the task sleeps
(so also while `blk_mq_make_request` waits for its request, which leaves `request_count` and
`same_queue_rq` stale) and at `blk_finish_plug`. The functions of block/blk-core.c that own the
plug are not among the sources: we take `blk_attempt_plug_merge` by its contract and the plug
operations by their effect on `plug->mq_list`, and model a task's submissions as a state machine
over the plug list and the hand-offs made so far.

Over every run: no request is lost or duplicated; no queue ever has more than
`BLK_MAX_REQUEST_COUNT` requests on the plug list, as long as no call finds merges switched
back on between its two reads of the flag; and a queue that no call finds with a single hardware
queue has at most one.
-/

namespace BlkMq

/-- `BLK_MAX_REQUEST_COUNT` (include/linux/blkdev.h, not among the sources). -/
def blkMaxRequestCount : ℕ := 16

/-- What `blk_mq_make_request` reads of the request queue. -/
structure MakeQueue where
  /-- `q`, as `rq->q` compares. -/
  id : ℕ
  /-- `q->nr_hw_queues`. -/
  nrHwQueues : ℕ
  /-- `blk_queue_nomerges(q)`, as read before the request is allocated. -/
  nomerges : Bool
  /-- `q->elevator != NULL`. -/
  elevator : Bool
  deriving DecidableEq, Repr

/-- What one call `blk_mq_make_request(q, bio)` reads besides the queue and the plug: the bio's
flags, the answers of the functions it calls, and what changed while it slept. -/
structure MakeBio where
  /-- `rw_is_sync(bio->bi_rw)`. -/
  isSync : Bool
  /-- `bio->bi_rw & (REQ_FLUSH | REQ_FUA)`. -/
  isFlushFua : Bool
  /-- `bio_integrity_enabled(bio) && bio_integrity_prep(bio)`: the bio is ended with `-EIO`. -/
  integrityFails : Bool
  /-- `blk_mq_sched_bio_merge(q, bio)`. -/
  schedMerged : Bool
  /-- `blk_mq_merge_bio(q, bio)`. -/
  swMerged : Bool
  /-- The request `blk_mq_sched_get_request` returns, `NULL` as `none`. -/
  rq : Option ℕ
  /-- `data.ctx`, the software queue of the request. -/
  ctx : ℕ
  /-- `blk_rq_pos(rq)` once `blk_mq_bio_to_request` has filled it from the bio. -/
  pos : ℕ
  /-- The task slept in `blk_mq_sched_get_request` and its plug list was flushed. -/
  sleptFlush : Bool
  /-- `blk_queue_nomerges(q)`, as read after the request is allocated. -/
  nomergesLate : Bool
  /-- `blk_rq_bytes(last) >= BLK_PLUG_FLUSH_SIZE` for the last plugged request. -/
  lastBig : Bool
  /-- `data.hctx->dispatch_busy`. -/
  dispatchBusy : ℕ
  deriving DecidableEq, Repr

/-- What `blk_attempt_plug_merge(q, bio, &request_count, &same_queue_rq)` (block/blk-core.c, not
among the sources) answers: whether it merged the bio into a plugged request, and
`request_count` and `same_queue_rq` as it leaves them. -/
structure PlugMergeReply where
  merged : Bool
  requestCount : ℕ
  sameQueueRq : Option PlugRq
  deriving DecidableEq, Repr

/-- `blk_plug_queued_count(q)` (block/blk-core.c, not among the sources): the plugged requests
of `q`. -/
def blkPlugQueuedCount (plug : List PlugRq) (q : ℕ) : ℕ := plug.countP fun rq => rq.q = q

/-- The contract of `blk_attempt_plug_merge` on the plug list `plug`, when it merged nothing: it
counted the plugged requests of `q` in `request_count`, and `same_queue_rq` is one of them, or
`NULL` when there is none. -/
def PlugMergeReply.Sound (r : PlugMergeReply) (plug : List PlugRq) (q : ℕ) : Prop :=
  r.merged = false →
    r.requestCount = blkPlugQueuedCount plug q ∧
    (∀ x ∈ r.sameQueueRq.toList, x ∈ plug ∧ x.q = q) ∧
    (r.sameQueueRq = none ↔ blkPlugQueuedCount plug q = 0)

instance (r : PlugMergeReply) (plug : List PlugRq) (q : ℕ) : Decidable (r.Sound plug q) :=
  inferInstanceAs (Decidable (_ → _ ∧ _ ∧ _))

/-- A request handed on by `blk_mq_make_request`, or by a flush of the plug list. -/
inductive Handoff
  /-- `blk_insert_flush(rq)`, then `blk_mq_run_hw_queue(data.hctx, true)`. -/
  | insertFlush (rq : PlugRq)
  /-- `blk_mq_try_issue_directly(hctx, rq)`, modelled in `BlkMq.DirectIssue`. -/
  | issueDirectly (rq : PlugRq)
  /-- `blk_mq_sched_insert_request(rq, false, true, true)`. -/
  | schedInsert (rq : PlugRq)
  /-- `blk_mq_queue_io(data.hctx, data.ctx, rq)`, then `blk_mq_run_hw_queue(data.hctx, true)`. -/
  | queueIo (rq : PlugRq)
  /-- A call of `blk_mq_sched_insert_requests` made by `blk_mq_flush_plug_list`. -/
  | insertRequests (c : InsertCall)
  deriving DecidableEq, Repr

/-- The requests a hand-off passes on. -/
def Handoff.requests : Handoff → List PlugRq
  | .insertFlush rq | .issueDirectly rq | .schedInsert rq | .queueIo rq => [rq]
  | .insertRequests c => c.batch

/-- A submitting task: its plug, the requests it was given, and where it handed them. -/
structure SubmitState where
  /-- `current->plug` with its `mq_list`, `none` when the task has no plug. -/
  plug : Option (List PlugRq)
  /-- The requests `blk_mq_sched_get_request` returned so far. -/
  allocated : List PlugRq
  /-- The hand-offs made so far, in order. -/
  handoffs : List Handoff
  deriving DecidableEq, Repr

namespace SubmitState

/-- A task before its first submission. -/
def init : SubmitState := ⟨none, [], []⟩

/-- Record a hand-off. -/
def handOff (s : SubmitState) (h : Handoff) : SubmitState := { s with handoffs := s.handoffs ++ [h] }

/-- `blk_flush_plug_list(plug, from_schedule)` (block/blk-core.c, not among the sources):
`blk_mq_flush_plug_list` hands the requests of `plug->mq_list` over. -/
def flushPlug (listSort : (PlugRq → PlugRq → ℤ) → List PlugRq → List PlugRq) (s : SubmitState) :
    SubmitState :=
  match s.plug with
  | none => s
  | some l => { s with plug := some (blkMqFlushPlugList listSort l).mqList,
                       handoffs := s.handoffs ++ (blkMqFlushPlugList listSort l).calls.map .insertRequests }

end SubmitState

variable (listSort : (PlugRq → PlugRq → ℤ) → List PlugRq → List PlugRq)

/-- `request_count` as the branch `plug && q->nr_hw_queues == 1` goes on with it: 0 when the plug
list is now empty, recounted with `blk_plug_queued_count` when merges are now off. -/
def plugRequestCount (b : MakeBio) (q requestCount : ℕ) (l : List PlugRq) : ℕ :=
  if l = [] then 0 else if b.nomergesLate then blkPlugQueuedCount l q else requestCount

/-- Whether that branch flushes the plug list before plugging: the queue has
`BLK_MAX_REQUEST_COUNT` requests on it, or `last`, taken only when `request_count` is not 0, is
large. -/
def plugSingleFlushes (b : MakeBio) (requestCount : ℕ) (l : List PlugRq) : Prop :=
  blkMaxRequestCount ≤ requestCount ∨
    ((if requestCount = 0 then none else l.getLast?).isSome ∧ b.lastBig)

instance (b : MakeBio) (requestCount : ℕ) (l : List PlugRq) :
    Decidable (plugSingleFlushes b requestCount l) :=
  inferInstanceAs (Decidable (_ ∨ _))

/-- The branch `plug && q->nr_hw_queues == 1`: the plug list is flushed first if
`plugSingleFlushes`, then the request is appended. -/
def plugSingle (b : MakeBio) (q : ℕ) (rq : PlugRq) (requestCount : ℕ) (l : List PlugRq)
    (s : SubmitState) : SubmitState :=
  let s := if plugSingleFlushes b (plugRequestCount b q requestCount l) l then
      s.flushPlug listSort
    else s
  { s with plug := s.plug.map (· ++ [rq]) }

/-- The branch `plug && !blk_queue_nomerges(q)`, limited plugging: the queue's request on the
plug list, `same_queue_rq` (dropped when the list was flushed meanwhile), is taken off and issued
directly, and the new request is plugged instead. -/
def plugLimited (rq : PlugRq) (sameQueueRq : Option PlugRq) (l : List PlugRq) (s : SubmitState) :
    SubmitState :=
  match if l = [] then none else sameQueueRq with
  | none => { s with plug := some (l ++ [rq]) }
  | some same => { s with plug := some (l.erase same ++ [rq]) }.handOff (.issueDirectly same)

/-- The last three branches: a direct issue for a synchronous bio on a queue of several hardware
queues, or without an elevator while the hardware context is not busy; else an insertion
through the elevator, or on the software queue. -/
def issueOrInsert (q : MakeQueue) (b : MakeBio) (rq : PlugRq) (s : SubmitState) : SubmitState :=
  if (1 < q.nrHwQueues && b.isSync) || (!q.elevator && b.dispatchBusy == 0) then
    s.handOff (.issueDirectly rq)
  else if q.elevator then s.handOff (.schedInsert rq)
  else s.handOff (.queueIo rq)

/-- What `blk_mq_make_request` does with its request from `plug = current->plug` on. -/
def makeRequestPlace (q : MakeQueue) (b : MakeBio) (rq : PlugRq) (requestCount : ℕ)
    (sameQueueRq : Option PlugRq) (s : SubmitState) : SubmitState :=
  if b.isFlushFua then s.handOff (.insertFlush rq)
  else match s.plug with
    | some l =>
      if q.nrHwQueues = 1 then plugSingle listSort b q.id rq requestCount l s
      else if !b.nomergesLate then plugLimited rq sameQueueRq l s
      else issueOrInsert q b rq s
    | none => issueOrInsert q b rq s

/-- Whether `blk_mq_make_request` asks `blk_attempt_plug_merge`: for a bio that is not a flush or
FUA, while merges are on, and only with a plug (without one it returns at once). Otherwise
`request_count` stays 0 and `same_queue_rq` `NULL`. -/
def plugMergeAttempted (q : MakeQueue) (b : MakeBio) (s : SubmitState) : Bool :=
  !b.isFlushFua && !q.nomerges && s.plug.isSome

/-- `blk_mq_make_request` once `blk_mq_sched_get_request` has given it `rq`, having perhaps slept
and had its plug list flushed meanwhile. -/
def makeRequestGot (q : MakeQueue) (b : MakeBio) (rq : PlugRq) (requestCount : ℕ)
    (sameQueueRq : Option PlugRq) (s : SubmitState) : SubmitState :=
  let s := { s with allocated := s.allocated ++ [rq] }
  let s := if b.sleptFlush then s.flushPlug listSort else s
  makeRequestPlace listSort q b rq requestCount sameQueueRq s

/-- `blk_mq_make_request(q, bio)`. -/
def blkMqMakeRequest (q : MakeQueue) (b : MakeBio) (pm : PlugMergeReply) (s : SubmitState) :
    SubmitState :=
  if b.integrityFails then s
  else if plugMergeAttempted q b s && pm.merged then s
  else if b.schedMerged then s
  else if b.swMerged then s
  else match b.rq with
    | none => s
    | some id =>
      makeRequestGot listSort q b ⟨id, q.id, b.ctx, b.pos⟩
        (if plugMergeAttempted q b s then pm.requestCount else 0)
        (if plugMergeAttempted q b s then pm.sameQueueRq else none) s

/-- What a submitting task does. -/
inductive SubmitOp
  /-- `blk_start_plug`: a task without a plug gets an empty one. -/
  | startPlug
  /-- The task sleeps with its plug: `blk_schedule_flush_plug`. -/
  | scheduleFlush
  /-- `blk_finish_plug`: the plug list is flushed and the task has no plug any more. -/
  | finishPlug
  /-- `blk_mq_make_request(q, bio)`, with the answers it gets. -/
  | makeRequest (q : MakeQueue) (b : MakeBio) (pm : PlugMergeReply)
  deriving DecidableEq, Repr

/-- One step of a submitting task. -/
def submitStep (s : SubmitState) : SubmitOp → SubmitState
  | .startPlug => if s.plug.isSome then s else { s with plug := some [] }
  | .scheduleFlush => s.flushPlug listSort
  | .finishPlug => { s.flushPlug listSort with plug := none }
  | .makeRequest q b pm => blkMqMakeRequest listSort q b pm s

/-- The answers a step gets are ones its environment can give: `blk_attempt_plug_merge` answers
by its contract on the current plug list. -/
def SubmitOp.Sound (s : SubmitState) : SubmitOp → Prop
  | .makeRequest q _ pm => pm.Sound (s.plug.getD []) q.id
  | _ => True

instance (s : SubmitState) : (op : SubmitOp) → Decidable (op.Sound s)
  | .makeRequest _ _ pm => inferInstanceAs (Decidable (pm.Sound _ _))
  | .startPlug | .scheduleFlush | .finishPlug => inferInstanceAs (Decidable True)

/-- The call does not find merges switched back on between its two reads of
`blk_queue_nomerges(q)`, by a sysfs write clearing `QUEUE_FLAG_NOMERGES` meanwhile. -/
def SubmitOp.KeepsNomerges : SubmitOp → Prop
  | .makeRequest q b _ => q.nomerges = true → b.nomergesLate = true
  | _ => True

instance : (op : SubmitOp) → Decidable op.KeepsNomerges
  | .makeRequest _ _ _ => inferInstanceAs (Decidable (_ → _))
  | .startPlug | .scheduleFlush | .finishPlug => inferInstanceAs (Decidable True)

/-- The states a task reaches from `SubmitState.init` by steps that `ok` allows. -/
inductive SubmitReachable (ok : SubmitState → SubmitOp → Prop) : SubmitState → Prop
  | init : SubmitReachable ok .init
  | step {s : SubmitState} {op : SubmitOp} :
      SubmitReachable ok s → ok s op → SubmitReachable ok (submitStep listSort s op)

/-- Every step of `ops` from `s` is one that `ok` allows. -/
def SubmitRunOk (ok : SubmitState → SubmitOp → Prop) : SubmitState → List SubmitOp → Prop
  | _, [] => True
  | s, op :: ops => ok s op ∧ SubmitRunOk ok (submitStep listSort s op) ops

instance submitRunOkDecidable (ok : SubmitState → SubmitOp → Prop) [∀ s op, Decidable (ok s op)] :
    (s : SubmitState) → (ops : List SubmitOp) → Decidable (SubmitRunOk listSort ok s ops)
  | _, [] => isTrue trivial
  | s, op :: ops =>
    haveI := submitRunOkDecidable ok (submitStep listSort s op) ops
    inferInstanceAs (Decidable (ok s op ∧ _))

/-- A run whose every step `ok` allows reaches its last state. -/
theorem SubmitReachable.foldl {ok : SubmitState → SubmitOp → Prop} :
    ∀ (ops : List SubmitOp) {s : SubmitState}, SubmitReachable listSort ok s →
      SubmitRunOk listSort ok s ops → SubmitReachable listSort ok (ops.foldl (submitStep listSort) s)
  | [], _, hs, _ => hs
  | _ :: ops, _, hs, ⟨h, hrest⟩ => SubmitReachable.foldl ops (.step hs h) hrest

/-! ### Conservation of requests -/

namespace SubmitState

/-- The requests a task has placed: those on its plug list, then those of its hand-offs. -/
def held (s : SubmitState) : List PlugRq := s.plug.getD [] ++ s.handoffs.flatMap Handoff.requests

@[simp] theorem handOff_plug (s : SubmitState) (h : Handoff) : (s.handOff h).plug = s.plug := rfl

@[simp] theorem handOff_allocated (s : SubmitState) (h : Handoff) :
    (s.handOff h).allocated = s.allocated := rfl

@[simp] theorem handOff_held (s : SubmitState) (h : Handoff) :
    (s.handOff h).held = s.held ++ h.requests := by
  simp [handOff, held]

@[simp] theorem flushPlug_allocated (s : SubmitState) :
    (s.flushPlug listSort).allocated = s.allocated := by
  unfold flushPlug
  split <;> rfl

/-- A flush leaves the task with an empty plug list if it had a plug. -/
@[simp] theorem flushPlug_plug (s : SubmitState) :
    (s.flushPlug listSort).plug = s.plug.map fun _ => [] := by
  unfold flushPlug
  split <;> simp_all [blkMqFlushPlugList]

@[simp] theorem map_insertRequests_flatMap (calls : List InsertCall) :
    (calls.map Handoff.insertRequests).flatMap Handoff.requests = calls.flatMap InsertCall.batch := by
  rw [List.flatMap_map]
  rfl

/-- A flush moves the plugged requests to its hand-offs, in the order `list_sort` gives them. -/
theorem flushPlug_held (s : SubmitState) :
    (s.flushPlug listSort).held =
      s.handoffs.flatMap Handoff.requests ++ (s.plug.map (listSort plugCtxCmp)).getD [] := by
  unfold flushPlug held
  split <;> simp_all [blkMqFlushPlugList_flatMap]
  rfl

end SubmitState

/-- Appending a request to a plug list places it. -/
theorem appendPlug_held {s s' : SubmitState} (hs : s'.plug.isSome) (h : s'.held.Perm s.held)
    (rq : PlugRq) :
    ({ s' with plug := s'.plug.map (· ++ [rq]) } : SubmitState).held.Perm (s.held ++ [rq]) := by
  obtain ⟨l, hl⟩ := Option.isSome_iff_exists.1 hs
  have e : ({ s' with plug := s'.plug.map (· ++ [rq]) } : SubmitState).held =
      l ++ ([rq] ++ s'.handoffs.flatMap Handoff.requests) := by
    simp [SubmitState.held, hl]
  rw [SubmitState.held, hl, Option.getD_some] at h
  rw [e]
  exact (List.perm_append_comm.append_left l).trans
    (by simpa only [List.append_assoc] using h.append_right [rq])

/-- Limited plugging places the new request and, when the queue had one on the list, issues that
one: nothing is lost or doubled as long as `same_queue_rq` is on the list. -/
theorem plugLimited_held (rq : PlugRq) (sameQueueRq : Option PlugRq) (l : List PlugRq)
    {s : SubmitState} (hs : s.plug = some l)
    (hsame : l ≠ [] → ∀ x ∈ sameQueueRq.toList, x ∈ l) :
    (plugLimited rq sameQueueRq l s).held.Perm (s.held ++ [rq]) := by
  unfold plugLimited
  split
  · simp only [SubmitState.held, hs, Option.getD_some, List.append_assoc]
    exact (@List.perm_append_comm _ [rq] _).append_left l
  · rename_i same hsq
    have hmem : same ∈ l := by
      split_ifs at hsq with hl
      exact hsame hl same (by simp [hsq])
    rw [SubmitState.handOff_held]
    simp only [SubmitState.held, hs, Option.getD_some, Handoff.requests]
    -- `same` moves from the list to the hand-offs, `rq` joins the list.
    have hmove : (l.erase same ++ [rq] ++ s.handoffs.flatMap Handoff.requests ++ [same]).Perm
        (same :: (l.erase same ++ (s.handoffs.flatMap Handoff.requests ++ [rq]))) := by
      refine (List.perm_append_singleton _ _).trans (List.Perm.cons same ?_)
      rw [List.append_assoc]
      exact List.perm_append_comm.append_left _
    refine hmove.trans ?_
    rw [List.append_assoc]
    exact (List.perm_cons_erase hmem).symm.append_right _

theorem issueOrInsert_held (q : MakeQueue) (b : MakeBio) (rq : PlugRq) (s : SubmitState) :
    (issueOrInsert q b rq s).held = s.held ++ [rq] := by
  unfold issueOrInsert
  split_ifs <;> simp [Handoff.requests]

@[simp] theorem plugSingle_allocated (b : MakeBio) (q : ℕ) (rq : PlugRq) (requestCount : ℕ)
    (l : List PlugRq) (s : SubmitState) :
    (plugSingle listSort b q rq requestCount l s).allocated = s.allocated := by
  unfold plugSingle
  split <;> simp

@[simp] theorem plugLimited_allocated (rq : PlugRq) (sameQueueRq : Option PlugRq) (l : List PlugRq)
    (s : SubmitState) : (plugLimited rq sameQueueRq l s).allocated = s.allocated := by
  unfold plugLimited
  split <;> rfl

@[simp] theorem issueOrInsert_allocated (q : MakeQueue) (b : MakeBio) (rq : PlugRq)
    (s : SubmitState) : (issueOrInsert q b rq s).allocated = s.allocated := by
  unfold issueOrInsert
  split_ifs <;> rfl

@[simp] theorem makeRequestPlace_allocated (q : MakeQueue) (b : MakeBio) (rq : PlugRq)
    (requestCount : ℕ) (sameQueueRq : Option PlugRq) (s : SubmitState) :
    (makeRequestPlace listSort q b rq requestCount sameQueueRq s).allocated = s.allocated := by
  unfold makeRequestPlace
  split
  · rfl
  · split
    · split_ifs <;> simp
    · simp

/-- Inversion of `blk_mq_make_request`: it changes nothing (an integrity failure, a merge, or no
request), or it got a request and goes on with it, `blk_attempt_plug_merge` having merged
nothing when it was asked. -/
theorem blkMqMakeRequest_cases (q : MakeQueue) (b : MakeBio) (pm : PlugMergeReply)
    (s : SubmitState) :
    blkMqMakeRequest listSort q b pm s = s ∨
      ∃ id, (plugMergeAttempted q b s = true → pm.merged = false) ∧
        blkMqMakeRequest listSort q b pm s = makeRequestGot listSort q b ⟨id, q.id, b.ctx, b.pos⟩
          (if plugMergeAttempted q b s then pm.requestCount else 0)
          (if plugMergeAttempted q b s then pm.sameQueueRq else none) s := by
  unfold blkMqMakeRequest
  by_cases h1 : b.integrityFails = true
  · exact .inl (if_pos h1)
  rw [if_neg h1]
  by_cases h2 : (plugMergeAttempted q b s && pm.merged) = true
  · exact .inl (if_pos h2)
  rw [if_neg h2]
  by_cases h3 : b.schedMerged = true
  · exact .inl (if_pos h3)
  rw [if_neg h3]
  by_cases h4 : b.swMerged = true
  · exact .inl (if_pos h4)
  rw [if_neg h4]
  rcases b.rq with _ | id
  · exact .inl rfl
  · exact .inr ⟨id, fun ha => by simpa [ha] using h2, rfl⟩

section Conservation

variable {listSort} (hsort : ∀ l, (listSort plugCtxCmp l).Perm l)
include hsort

theorem flushPlug_held_perm (s : SubmitState) : (s.flushPlug listSort).held.Perm s.held := by
  rw [SubmitState.flushPlug_held, SubmitState.held]
  cases s.plug
  · simp
  · exact ((hsort _).append_left _).trans List.perm_append_comm

theorem plugSingle_held (b : MakeBio) (q : ℕ) (rq : PlugRq) (requestCount : ℕ) (l : List PlugRq)
    {s : SubmitState} (hs : s.plug = some l) :
    (plugSingle listSort b q rq requestCount l s).held.Perm (s.held ++ [rq]) := by
  unfold plugSingle
  split
  · exact appendPlug_held (by simp [hs]) (flushPlug_held_perm hsort s) rq
  · exact appendPlug_held (by simp [hs]) (List.Perm.refl _) rq

theorem makeRequestPlace_held (q : MakeQueue) (b : MakeBio) (rq : PlugRq) (requestCount : ℕ)
    (sameQueueRq : Option PlugRq) {s : SubmitState}
    (hsame : ∀ l, s.plug = some l → l ≠ [] → ∀ x ∈ sameQueueRq.toList, x ∈ l) :
    (makeRequestPlace listSort q b rq requestCount sameQueueRq s).held.Perm (s.held ++ [rq]) := by
  unfold makeRequestPlace
  by_cases hf : b.isFlushFua = true
  · simp [hf, Handoff.requests]
  rw [if_neg hf]
  rcases hp : s.plug with _ | l
  · simp [issueOrInsert_held]
  · dsimp only
    split_ifs
    · exact plugSingle_held hsort b q.id rq requestCount l hp
    · exact plugLimited_held rq sameQueueRq l hp (hsame l hp)
    · rw [issueOrInsert_held]

/-- Once it has its request, `blk_mq_make_request` places exactly that request, as long as
`same_queue_rq` is on the plug list when the list has not been flushed meanwhile. -/
theorem makeRequestGot_held (q : MakeQueue) (b : MakeBio) (rq : PlugRq) (requestCount : ℕ)
    (sameQueueRq : Option PlugRq) {s : SubmitState}
    (hsame : b.sleptFlush = false → ∀ l, s.plug = some l → l ≠ [] →
      ∀ x ∈ sameQueueRq.toList, x ∈ l) :
    (makeRequestGot listSort q b rq requestCount sameQueueRq s).allocated = s.allocated ++ [rq] ∧
      (makeRequestGot listSort q b rq requestCount sameQueueRq s).held.Perm (s.held ++ [rq]) := by
  unfold makeRequestGot
  dsimp only
  split
  · refine ⟨by simp, (makeRequestPlace_held hsort q b rq requestCount sameQueueRq ?_).trans
      ((flushPlug_held_perm hsort _).append_right _)⟩
    intro l hl hne
    simp only [SubmitState.flushPlug_plug, Option.map_eq_some'] at hl
    obtain ⟨_, _, rfl⟩ := hl
    exact absurd rfl hne
  · rename_i hf
    exact ⟨by simp, makeRequestPlace_held hsort q b rq requestCount sameQueueRq
      (hsame (Bool.eq_false_iff.2 hf))⟩

/-- Step lemma: every step gets some requests (none, or the one `blk_mq_make_request` got) and
places exactly those. -/
theorem submitStep_held {s : SubmitState} {op : SubmitOp} (hop : op.Sound s) :
    ∃ new : List PlugRq, (submitStep listSort s op).allocated = s.allocated ++ new ∧
      (submitStep listSort s op).held.Perm (s.held ++ new) := by
  cases op with
  | startPlug =>
    refine ⟨[], ?_⟩
    simp only [submitStep]
    split
    · simp
    · rename_i h
      simp [SubmitState.held, Option.not_isSome_iff_eq_none.1 h]
  | scheduleFlush => exact ⟨[], by simp [submitStep], by simpa using flushPlug_held_perm hsort s⟩
  | finishPlug =>
    refine ⟨[], by simp [submitStep], ?_⟩
    have hheld : (submitStep listSort s .finishPlug).held = (s.flushPlug listSort).held := by
      simp only [submitStep, SubmitState.held, SubmitState.flushPlug_plug]
      rcases s.plug with _ | _ <;> rfl
    rw [hheld, List.append_nil]
    exact flushPlug_held_perm hsort s
  | makeRequest q b pm =>
    rcases blkMqMakeRequest_cases listSort q b pm s with h | ⟨id, hm, h⟩
    · exact ⟨[], by simp [submitStep, h]⟩
    · simp only [submitStep, h]
      refine ⟨_, makeRequestGot_held hsort q b _ _ _ fun _ l hl _ x hx => ?_⟩
      split_ifs at hx with ha
      · have := (hop (hm ha)).2.1 x hx
        rw [hl] at this
        exact this.1
      · cases hx

end Conservation

/-- Over every run whose answers from `blk_attempt_plug_merge` keep its contract, and for any
`list_sort` that permutes, the requests a task was given are exactly, up to order, those on its
plug list and those of its hand-offs: `blk_mq_make_request` and the flushes of the plug list
lose no request and pass none on twice. -/
theorem make_request_conserves_requests {listSort : (PlugRq → PlugRq → ℤ) → List PlugRq → List PlugRq}
    (hsort : ∀ l, (listSort plugCtxCmp l).Perm l) {s : SubmitState}
    (hs : SubmitReachable listSort SubmitOp.Sound s) :
    s.allocated.Perm (s.plug.getD [] ++ s.handoffs.flatMap Handoff.requests) := by
  induction hs with
  | init => exact List.Perm.refl _
  | step _ hop ih =>
    obtain ⟨new, halloc, hheld⟩ := submitStep_held hsort hop
    rw [halloc]
    exact (ih.append_right new).trans hheld.symm



/-- Two queues without an elevator: `1` with one hardware queue, `2` with four. -/
def singleHwQueue : MakeQueue := ⟨1, 1, false, false⟩

def fourHwQueues : MakeQueue := ⟨2, 4, false, false⟩

/-- An asynchronous bio that merges with nothing and gets request `id` on software queue `ctx`,
the task not sleeping meanwhile. -/
def plainBio (id ctx pos : ℕ) : MakeBio :=
  ⟨false, false, false, false, false, some id, ctx, pos, false, false, false, 1⟩

/-- A plugged run over both queues: the second request of queue `2` takes the place of the
first, which is issued directly, and `blk_finish_plug` flushes the rest. -/
def twoQueueRun : List SubmitOp :=
  [.startPlug,
   .makeRequest singleHwQueue (plainBio 0 0 8) ⟨false, 0, none⟩,
   .makeRequest fourHwQueues (plainBio 1 1 16) ⟨false, 0, none⟩,
   .makeRequest fourHwQueues (plainBio 2 1 24) ⟨false, 1, some ⟨1, 2, 1, 16⟩⟩,
   .makeRequest singleHwQueue (plainBio 3 0 32) ⟨false, 1, some ⟨0, 1, 0, 8⟩⟩,
   .finishPlug]

theorem make_request_conserves_requests_two_queues :
    (∀ l, (insertionListSort plugCtxCmp l).Perm l) ∧
    SubmitReachable insertionListSort SubmitOp.Sound
      (twoQueueRun.foldl (submitStep insertionListSort) .init) ∧
    (twoQueueRun.foldl (submitStep insertionListSort) .init).allocated.Perm
      ((twoQueueRun.foldl (submitStep insertionListSort) .init).plug.getD [] ++
        (twoQueueRun.foldl (submitStep insertionListSort) .init).handoffs.flatMap
          Handoff.requests) :=
  have hsort : ∀ l, (insertionListSort plugCtxCmp l).Perm l := fun l => List.perm_insertionSort _ l
  have hs := SubmitReachable.foldl insertionListSort twoQueueRun .init (by decide)
  ⟨hsort, hs, make_request_conserves_requests hsort hs⟩

/-! ### How many requests of a queue the plug list holds -/

namespace SubmitState

/-- `blk_plug_queued_count(q)` on the task's plug: its plugged requests of queue `q`. -/
def plugged (s : SubmitState) (q : ℕ) : ℕ := blkPlugQueuedCount (s.plug.getD []) q

@[simp] theorem handOff_plugged (s : SubmitState) (h : Handoff) (q : ℕ) :
    (s.handOff h).plugged q = s.plugged q := rfl

@[simp] theorem flushPlug_plugged (s : SubmitState) (q : ℕ) :
    (s.flushPlug listSort).plugged q = 0 := by
  simp only [plugged, flushPlug_plug]
  rcases s.plug with _ | _ <;> rfl

end SubmitState

theorem blkPlugQueuedCount_append (l : List PlugRq) (rq : PlugRq) (q : ℕ) :
    blkPlugQueuedCount (l ++ [rq]) q = blkPlugQueuedCount l q + if rq.q = q then 1 else 0 := by
  rw [blkPlugQueuedCount, blkPlugQueuedCount, List.countP_append]
  simp [List.countP_cons]

theorem blkPlugQueuedCount_erase {l : List PlugRq} {x : PlugRq} (hx : x ∈ l) (q : ℕ) :
    blkPlugQueuedCount (l.erase x) q + (if x.q = q then 1 else 0) = blkPlugQueuedCount l q := by
  rw [blkPlugQueuedCount, blkPlugQueuedCount, (List.perm_cons_erase hx).countP_eq, List.countP_cons]
  simp

theorem appendPlug_plugged {s : SubmitState} {l : List PlugRq} (hs : s.plug = some l) (rq : PlugRq)
    (q : ℕ) : ({ s with plug := s.plug.map (· ++ [rq]) } : SubmitState).plugged q =
      s.plugged q + if rq.q = q then 1 else 0 := by
  simp [SubmitState.plugged, hs, blkPlugQueuedCount_append]

@[simp] theorem issueOrInsert_plugged (q : MakeQueue) (b : MakeBio) (rq : PlugRq) (s : SubmitState)
    (q' : ℕ) : (issueOrInsert q b rq s).plugged q' = s.plugged q' := by
  unfold issueOrInsert
  split_ifs <;> rfl

/-- `request_count`, where the branch goes on with it, counts the queue's plugged requests as
long as the count it was given does when the list is not empty and merges are still on. -/
theorem plugRequestCount_eq {b : MakeBio} {q requestCount : ℕ} {l : List PlugRq}
    (hcount : l ≠ [] → b.nomergesLate = false → requestCount = blkPlugQueuedCount l q) :
    plugRequestCount b q requestCount l = blkPlugQueuedCount l q := by
  unfold plugRequestCount
  split_ifs with hl hm
  · subst hl; rfl
  · rfl
  · exact hcount hl (Bool.eq_false_iff.2 hm)

/-- A queue of one hardware queue leaves at most `BLK_MAX_REQUEST_COUNT` of its requests on the
plug list, and the others at most as many as before. -/
theorem plugSingle_plugged (b : MakeBio) {q : ℕ} {rq : PlugRq} (hrq : rq.q = q) (requestCount : ℕ)
    {l : List PlugRq} {s : SubmitState} (hs : s.plug = some l)
    (hcount : l ≠ [] → b.nomergesLate = false → requestCount = blkPlugQueuedCount l q) (q' : ℕ) :
    (plugSingle listSort b q rq requestCount l s).plugged q' ≤
      if q' = q then blkMaxRequestCount else s.plugged q' := by
  have hl : s.plugged q = blkPlugQueuedCount l q := by simp [SubmitState.plugged, hs]
  unfold plugSingle
  split
  · have hf : (s.flushPlug listSort).plug = some [] := by simp [hs]
    rw [appendPlug_plugged hf, SubmitState.flushPlug_plugged]
    split_ifs <;> simp_all [blkMaxRequestCount]
  · rename_i hfl
    have hlt : ¬blkMaxRequestCount ≤ s.plugged q := fun h =>
      hfl (.inl (by rw [plugRequestCount_eq hcount, ← hl]; exact h))
    rw [appendPlug_plugged hs, hrq]
    by_cases hq : q' = q
    · subst hq
      simp only [if_true]
      omega
    · simp [hq, Ne.symm hq]

/-- Limited plugging leaves one request of the queue on the plug list if it had none, as many as
before otherwise, and the other queues' as they were, as long as `same_queue_rq` is one of the
queue's plugged requests, `NULL` only when there is none. -/
theorem plugLimited_plugged {q : ℕ} {rq : PlugRq} (hrq : rq.q = q) (sameQueueRq : Option PlugRq)
    {l : List PlugRq} {s : SubmitState} (hs : s.plug = some l)
    (hsame : l ≠ [] → (∀ x ∈ sameQueueRq.toList, x ∈ l ∧ x.q = q) ∧
      (sameQueueRq = none ↔ blkPlugQueuedCount l q = 0)) (q' : ℕ) :
    (plugLimited rq sameQueueRq l s).plugged q' ≤
      if q' = q then max (s.plugged q') 1 else s.plugged q' := by
  have hl : s.plugged q' = blkPlugQueuedCount l q' := by simp [SubmitState.plugged, hs]
  rw [hl]
  unfold plugLimited
  split
  · rename_i hnone
    have hzero : blkPlugQueuedCount l q = 0 := by
      by_cases hl0 : l = []
      · simp [hl0, blkPlugQueuedCount]
      · rw [if_neg hl0] at hnone
        exact ((hsame hl0).2).1 hnone
    simp only [SubmitState.plugged, Option.getD_some, blkPlugQueuedCount_append, hrq]
    by_cases hq : q' = q
    · subst hq
      simp [hzero]
    · simp [hq, Ne.symm hq]
  · rename_i same hsq
    have hl0 : l ≠ [] := fun h => by simp [h] at hsq
    rw [if_neg hl0] at hsq
    obtain ⟨hmem, hsameq⟩ := (hsame hl0).1 same (by simp [hsq])
    have herase := blkPlugQueuedCount_erase hmem q'
    rw [SubmitState.handOff_plugged]
    simp only [SubmitState.plugged, Option.getD_some, blkPlugQueuedCount_append, hrq]
    rw [hsameq] at herase
    split_ifs at herase ⊢ <;> omega

/-- What a call for `q` may leave on the plug list: `BLK_MAX_REQUEST_COUNT` requests of `q` for
a queue of one hardware queue, one for any other. -/
def plugLimit (q : MakeQueue) : ℕ := if q.nrHwQueues = 1 then blkMaxRequestCount else 1

/-- Where `blk_mq_make_request` places its request, the plug list ends with at most
`plugLimit q` requests of `q`, or as many as before, and at most as many of any other queue as
before; given that `request_count` and `same_queue_rq` tell the truth about a plug list that is
not empty, when the call reaches the plug branches with merges on. -/
theorem makeRequestPlace_plugged (q : MakeQueue) (b : MakeBio) {rq : PlugRq} (hrq : rq.q = q.id)
    (requestCount : ℕ) (sameQueueRq : Option PlugRq) {s : SubmitState}
    (hknown : ∀ l, s.plug = some l → l ≠ [] → b.isFlushFua = false → b.nomergesLate = false →
      requestCount = blkPlugQueuedCount l q.id ∧ (∀ x ∈ sameQueueRq.toList, x ∈ l ∧ x.q = q.id) ∧
        (sameQueueRq = none ↔ blkPlugQueuedCount l q.id = 0))
    (q' : ℕ) :
    (makeRequestPlace listSort q b rq requestCount sameQueueRq s).plugged q' ≤
      if q' = q.id then max (s.plugged q') (plugLimit q) else s.plugged q' := by
  have hkeep : s.plugged q' ≤ if q' = q.id then max (s.plugged q') (plugLimit q) else s.plugged q' := by
    split_ifs <;> omega
  unfold makeRequestPlace
  by_cases hf : b.isFlushFua = true
  · simpa [hf] using hkeep
  rw [if_neg hf]
  have hf' := Bool.eq_false_iff.2 hf
  rcases hp : s.plug with _ | l
  · simpa using hkeep
  · dsimp only
    by_cases h1 : q.nrHwQueues = 1
    · rw [if_pos h1]
      refine (plugSingle_plugged listSort b hrq requestCount hp
        (fun hl hm => (hknown l hp hl hf' hm).1) q').trans ?_
      split_ifs <;> simp [plugLimit, h1]
    rw [if_neg h1]
    by_cases h2 : b.nomergesLate = false
    · rw [if_pos (by simpa using h2)]
      refine (plugLimited_plugged hrq sameQueueRq hp (fun hl => (hknown l hp hl hf' h2).2) q').trans ?_
      split_ifs <;> simp [plugLimit, h1]
    · rw [if_neg (by simpa using h2)]
      simpa using hkeep

theorem limitBound_mono {a b : ℕ} (h : a ≤ b) (c : ℕ) (p : Prop) [Decidable p] :
    (if p then max a c else a) ≤ if p then max b c else b := by
  split_ifs <;> omega

/-- What makes `request_count` and `same_queue_rq` tell the truth: `blk_attempt_plug_merge` kept
its contract, was asked, and the list was not flushed meanwhile. -/
theorem blkMqMakeRequest_plugged (q : MakeQueue) (b : MakeBio) (pm : PlugMergeReply)
    {s : SubmitState} (hsound : pm.Sound (s.plug.getD []) q.id)
    (hkeep : q.nomerges = true → b.nomergesLate = true) (q' : ℕ) :
    (blkMqMakeRequest listSort q b pm s).plugged q' ≤
      if q' = q.id then max (s.plugged q') (plugLimit q) else s.plugged q' := by
  rcases blkMqMakeRequest_cases listSort q b pm s with h | ⟨id, hm, h⟩
  · rw [h]
    split_ifs <;> omega
  rw [h]
  unfold makeRequestGot
  dsimp only
  -- The plug list as the call finds it after it got its request.
  have hle : (if b.sleptFlush then ({ s with allocated := s.allocated ++ [⟨id, q.id, b.ctx, b.pos⟩] }
      : SubmitState).flushPlug listSort else { s with allocated := s.allocated ++ [⟨id, q.id, b.ctx, b.pos⟩] }).plugged q' ≤
      s.plugged q' := by
    split
    · simp
    · exact le_rfl
  refine (makeRequestPlace_plugged listSort q b rfl _ _ ?_ q').trans ?_
  · intro l hl hne hf hlate
    split at hl
    · simp only [SubmitState.flushPlug_plug, Option.map_eq_some'] at hl
      obtain ⟨_, _, rfl⟩ := hl
      exact absurd rfl hne
    · simp only at hl
      have hatt : plugMergeAttempted q b s = true := by
        have hn : q.nomerges = false := by
          cases hq : q.nomerges
          · rfl
          · simp [hkeep hq] at hlate
        simp [plugMergeAttempted, hf, hn, hl]
      obtain ⟨hc, hx, hn⟩ := hsound (hm hatt)
      simp only [hatt, if_true]
      rw [hl, Option.getD_some] at hc hx hn
      exact ⟨hc, hx, hn⟩
  · exact limitBound_mono hle _ _

/-- No call for queue `Q` finds it with a single hardware queue. -/
def SubmitOp.SeveralHwQueues (Q : ℕ) : SubmitOp → Prop
  | .makeRequest q _ _ => q.id = Q → q.nrHwQueues ≠ 1
  | _ => True

instance (Q : ℕ) : (op : SubmitOp) → Decidable (op.SeveralHwQueues Q)
  | .makeRequest _ _ _ => inferInstanceAs (Decidable (_ → _))
  | .startPlug | .scheduleFlush | .finishPlug => inferInstanceAs (Decidable True)

/-- Step lemma: a queue with at most `n` requests on the plug list keeps at most `n` through a
step, when a call for it may leave up to `n`. -/
theorem submitStep_plugged_le {s : SubmitState} {op : SubmitOp} (hop : op.Sound s)
    (hkeep : op.KeepsNomerges) {Q n : ℕ} (hn : s.plugged Q ≤ n)
    (hlim : ∀ q b pm, op = .makeRequest q b pm → q.id = Q → plugLimit q ≤ n) :
    (submitStep listSort s op).plugged Q ≤ n := by
  cases op with
  | startPlug =>
    simp only [submitStep]
    split
    · exact hn
    · exact Nat.zero_le n
  | scheduleFlush => simp [submitStep]
  | finishPlug => exact Nat.zero_le n
  | makeRequest q b pm =>
    refine (blkMqMakeRequest_plugged listSort q b pm hop hkeep Q).trans ?_
    split_ifs with hq
    · exact max_le hn (hlim q b pm rfl hq.symm)
    · exact hn

/-- Run lemma: over every run whose steps keep `blk_attempt_plug_merge`'s contract and the merge
flag, and whose calls for `Q` may each leave at most `n` requests, `Q` never has more than `n`. -/
theorem plugged_le_of_reachable {ok : SubmitState → SubmitOp → Prop} {Q n : ℕ}
    (hok : ∀ s op, ok s op → op.Sound s ∧ op.KeepsNomerges ∧
      ∀ q b pm, op = .makeRequest q b pm → q.id = Q → plugLimit q ≤ n)
    {s : SubmitState} (hs : SubmitReachable listSort ok s) : s.plugged Q ≤ n := by
  induction hs with
  | init => exact Nat.zero_le n
  | step _ hop ih =>
    obtain ⟨h1, h2, h3⟩ := hok _ _ hop
    exact submitStep_plugged_le listSort h1 h2 ih h3

/-- Over every run whose answers from `blk_attempt_plug_merge` keep its contract and in which no
call finds merges switched back on between its two reads of the flag, no queue ever has more than
`BLK_MAX_REQUEST_COUNT` requests on the task's plug list. -/
theorem plug_list_bounded_per_queue {listSort : (PlugRq → PlugRq → ℤ) → List PlugRq → List PlugRq}
    {s : SubmitState} (hs : SubmitReachable listSort (fun s op => op.Sound s ∧ op.KeepsNomerges) s)
    (q : ℕ) : blkPlugQueuedCount (s.plug.getD []) q ≤ blkMaxRequestCount :=
  plugged_le_of_reachable listSort
    (fun _ _ h => ⟨h.1, h.2, fun q _ _ _ _ => by unfold plugLimit; split <;> decide⟩) hs

theorem plug_list_bounded_per_queue_two_queues :
    SubmitReachable insertionListSort (fun s op => op.Sound s ∧ op.KeepsNomerges)
      ((twoQueueRun.take 5).foldl (submitStep insertionListSort) .init) ∧
    blkPlugQueuedCount (((twoQueueRun.take 5).foldl (submitStep insertionListSort) .init).plug.getD [])
      1 ≤ blkMaxRequestCount :=
  have hs := SubmitReachable.foldl insertionListSort (twoQueueRun.take 5) .init (by decide)
  ⟨hs, plug_list_bounded_per_queue hs 1⟩

/-- Limited plugging: over every run as above, a queue that no call finds with a single hardware
queue has at most one request on the task's plug list. -/
theorem limited_plugging_one_per_queue
    {listSort : (PlugRq → PlugRq → ℤ) → List PlugRq → List PlugRq} (Q : ℕ) {s : SubmitState}
    (hs : SubmitReachable listSort
      (fun s op => op.Sound s ∧ op.KeepsNomerges ∧ op.SeveralHwQueues Q) s) :
    blkPlugQueuedCount (s.plug.getD []) Q ≤ 1 :=
  plugged_le_of_reachable listSort (fun _ _ h => ⟨h.1, h.2.1, fun q b pm hop hq => by
    subst hop
    simp [plugLimit, (h.2.2 : q.id = Q → q.nrHwQueues ≠ 1) hq]⟩) hs

theorem limited_plugging_one_per_queue_two_queues :
    SubmitReachable insertionListSort
      (fun s op => op.Sound s ∧ op.KeepsNomerges ∧ op.SeveralHwQueues 2)
      ((twoQueueRun.take 5).foldl (submitStep insertionListSort) .init) ∧
    blkPlugQueuedCount (((twoQueueRun.take 5).foldl (submitStep insertionListSort) .init).plug.getD [])
      2 ≤ 1 :=
  have hs := SubmitReachable.foldl insertionListSort (twoQueueRun.take 5) .init (by decide)
  ⟨hs, limited_plugging_one_per_queue 2 hs⟩

/-- The merge flag matters: two calls for queue `2` that each find merges off, then on again
at their second read, skip `blk_attempt_plug_merge` and leave two requests of the queue plugged. -/
example : blkPlugQueuedCount
    ((([.startPlug,
        .makeRequest ⟨2, 4, true, false⟩ (plainBio 1 1 16) ⟨false, 0, none⟩,
        .makeRequest ⟨2, 4, true, false⟩ (plainBio 2 1 24) ⟨false, 1, some ⟨1, 2, 1, 16⟩⟩] :
        List SubmitOp).foldl (submitStep insertionListSort) .init).plug.getD []) 2 = 2 := by
  decide

end BlkMq
