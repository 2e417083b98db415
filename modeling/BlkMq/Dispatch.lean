import BlkMq.Tags

/-!
# The dispatch loop

`blk_mq_dispatch_rq_list` hands a list of requests, all mapped to one hardware context, to
the driver's `->queue_rq` one at a time. Before each call it takes a dispatch budget and a
driver tag, and a driver tag for the next request; it leaves the loop when the budget or the
tag cannot be had, or when the driver answers busy, and then splices what is left to the
front of `hctx->dispatch`. The answers of the budget hook, of the tag allocator and of the
driver are inputs, one record per iteration.
-/

namespace BlkMq

/-- The values `->queue_rq` returns (`BLK_MQ_RQ_QUEUE_*`). `other` is any other value, which
the dispatch loop reports with `pr_err` and then handles as an error. -/
inductive QueueRqResult
  | ok
  | busy
  | devBusy
  | error
  | other
  deriving DecidableEq, Repr

/-- Whether `->queue_rq` answered `BLK_MQ_RQ_QUEUE_BUSY` or `BLK_MQ_RQ_QUEUE_DEV_BUSY`. -/
def QueueRqResult.isBusy : QueueRqResult → Bool
  | .busy | .devBusy => true
  | _ => false

/-- The status a request is ended with by `blk_mq_end_request`: `-EIO`, or the value
`->queue_rq` returned. -/
inductive EndStatus
  | eio
  | result (r : QueueRqResult)
  deriving DecidableEq, Repr

/-- The fields of the hardware context that dispatch only reads. -/
structure HctxConfig where
  /-- `BLK_MQ_F_TAG_SHARED` in `hctx->flags`. -/
  shared : Bool
  /-- The result of `blk_mq_tag_busy(hctx)` (in `blk-mq-tag.h`, not among the sources). -/
  tagBusy : Bool
  /-- `hctx->queue->elevator != NULL`. -/
  elevator : Bool
  deriving DecidableEq, Repr

/-- The fields of the hardware context that dispatch writes. -/
structure HctxState where
  /-- The tags of the hardware context and the requests holding them. -/
  tags : TagState
  /-- `hctx->dispatch`. -/
  dispatch : List ℕ
  /-- `BLK_MQ_S_SCHED_RESTART` in `hctx->state`. -/
  restart : Bool
  /-- `hctx->dispatch_wait` is queued on a tag wait queue. -/
  waitQueued : Bool
  /-- `hctx->dispatch_busy`, an `unsigned int`. -/
  dispatchBusy : ℕ

/-- A later run of the hardware queue that dispatch asks for. -/
inductive QueueRun
  /-- `blk_mq_run_hw_queue(hctx, async)`. -/
  | run (async : Bool)
  /-- `blk_mq_delay_run_hw_queue(hctx, msecs)`. -/
  | delay (msecs : ℕ)
  deriving DecidableEq, Repr

/-- The calls dispatch makes to its collaborators, kept per kind in call order. -/
structure DispatchLog where
  /-- Successful calls of `blk_mq_get_dispatch_budget`. -/
  budgetGets : ℕ
  /-- Calls of `blk_mq_put_dispatch_budget`. -/
  budgetPuts : ℕ
  /-- Calls of `->queue_rq`, with the request and the answer. -/
  queueRqCalls : List (ℕ × QueueRqResult)
  /-- Calls of `blk_mq_end_request`, with the request and the status. -/
  ended : List (ℕ × EndStatus)
  /-- Queue runs asked for. -/
  runs : List QueueRun

/-- The empty log. -/
def DispatchLog.empty : DispatchLog := ⟨0, 0, [], [], []⟩

/-- What the collaborators answer in one iteration of the loop. -/
structure DispatchReply where
  /-- `blk_mq_get_dispatch_budget`. -/
  budget : Bool
  /-- `blk_mq_get_tag` when `blk_mq_get_driver_tag` is asked for the request. -/
  tag : Option ℕ
  /-- `blk_mq_get_tag` in the retry of `blk_mq_mark_tag_wait`. -/
  waitTag : Option ℕ
  /-- `blk_mq_get_tag` for the next request (`bd.last`). -/
  nextTag : Option ℕ
  /-- `->queue_rq`. -/
  queueRq : QueueRqResult

/-- `blk_mq_update_dispatch_busy`: without an elevator, the exponentially weighted average
`(ewma * 7 + (busy ? 16 : 0)) / 8` in `unsigned int` arithmetic; an idle zero stays zero. -/
def blkMqUpdateDispatchBusy (elevator : Bool) (ewma : ℕ) (busy : Bool) : ℕ :=
  if elevator || (ewma == 0 && !busy) then ewma
  else ((ewma * (8 - 1) + if busy then 2 ^ 4 else 0) % 2 ^ 32) / 8

/-- `blk_mq_mark_tag_wait`. Without shared tags it sets `BLK_MQ_S_SCHED_RESTART` and tries the
driver tag once more. With shared tags it gives up if `dispatch_wait` is already queued, and
otherwise queues it on the tag wait queue and tries again, dequeuing it on success. -/
def blkMqMarkTagWait (cfg : HctxConfig) (h : HctxState) (rq : ℕ) (got : Option ℕ) :
    HctxState × Bool :=
  let retry := blkMqGetDriverTag h.tags rq got cfg.tagBusy
  if !cfg.shared then ({ h with restart := true, tags := retry.1 }, retry.2)
  else if h.waitQueued then (h, false)
  else ({ h with tags := retry.1, waitQueued := !retry.2 }, retry.2)

/-- The local variables of `blk_mq_dispatch_rq_list` that outlive one iteration. -/
structure DispatchLoop where
  /-- The hardware context. -/
  hctx : HctxState
  /-- The calls made so far. -/
  log : DispatchLog
  /-- `ret`: the last answer of `->queue_rq`. -/
  ret : QueueRqResult
  /-- `no_tag`. -/
  noTag : Bool
  /-- `queued`. -/
  queued : ℕ
  /-- `errors`. -/
  errors : ℕ

/-- How one iteration leaves the loop: `stop` breaks with the list as it then is, `next` goes
on with the rest of the list. -/
inductive DispatchStep
  | stop (ls : DispatchLoop)
  | next (ls : DispatchLoop)

/-- The driver tag for the next request, taken to compute `bd.last`. -/
def takeNextTag (cfg : HctxConfig) (tags : TagState) (rest : List ℕ) (got : Option ℕ) : TagState :=
  match rest with
  | [] => tags
  | nxt :: _ => (blkMqGetDriverTag tags nxt got cfg.tagBusy).1

/-- The release of the next request's driver tag on a busy answer. -/
def putNextTag (tags : TagState) (rest : List ℕ) : TagState :=
  match rest with
  | [] => tags
  | nxt :: _ => blkMqPutDriverTag tags nxt

/-- The driver tag for the request at the head of the list: `blk_mq_get_driver_tag`, and on
failure `blk_mq_mark_tag_wait`. -/
def acquireDriverTag (cfg : HctxConfig) (h : HctxState) (rq : ℕ) (x : DispatchReply) :
    HctxState × Bool :=
  let got := blkMqGetDriverTag h.tags rq x.tag cfg.tagBusy
  if got.2 then ({ h with tags := got.1 }, true)
  else blkMqMarkTagWait cfg { h with tags := got.1 } rq x.waitTag

/-- The part of an iteration from the driver tag for the next request (`bd.last`) to the
handling of the answer of `->queue_rq`, on hardware context `h`. -/
def issueRequest (cfg : HctxConfig) (x : DispatchReply) (ls : DispatchLoop) (h : HctxState)
    (rq : ℕ) (rest : List ℕ) : DispatchStep :=
  let h := { h with tags := takeNextTag cfg h.tags rest x.nextTag }
  let log := { ls.log with queueRqCalls := ls.log.queueRqCalls ++ [(rq, x.queueRq)] }
  match x.queueRq with
  | .ok => .next { ls with hctx := h, log := log, ret := .ok, queued := ls.queued + 1 }
  | .busy | .devBusy =>
    .stop { ls with
      hctx := { h with tags := __blkMqRequeueRequest (putNextTag h.tags rest) rq }
      log := log
      ret := x.queueRq }
  | .error | .other =>
    .next { ls with
      hctx := h
      ret := x.queueRq
      errors := ls.errors + 1
      log := { log with ended := log.ended ++ [(rq, .eio)] } }

/-- One iteration of the loop of `blk_mq_dispatch_rq_list` on the request `rq` at the head of
the list, `rest` behind it, with the collaborators' answers `x`. -/
def dispatchIteration (cfg : HctxConfig) (gotBudget : Bool) (x : DispatchReply)
    (ls : DispatchLoop) (rq : ℕ) (rest : List ℕ) : DispatchStep :=
  if !gotBudget && !x.budget then .stop ls
  else
    let ls := if gotBudget then ls
      else { ls with log := { ls.log with budgetGets := ls.log.budgetGets + 1 } }
    let acq := acquireDriverTag cfg ls.hctx rq x
    if acq.2 then issueRequest cfg x ls acq.1 rq rest
    else
      .stop { ls with
        hctx := acq.1
        log := { ls.log with budgetPuts := ls.log.budgetPuts + 1 }
        noTag := ls.noTag || cfg.shared }

/-- The `do ... while (!list_empty(list))` loop of `blk_mq_dispatch_rq_list`; iteration `n`
gets the answers `reply n`. Returns the loop variables and the list left at the end. -/
def dispatchLoop (cfg : HctxConfig) (gotBudget : Bool) (reply : ℕ → DispatchReply) :
    ℕ → DispatchLoop → List ℕ → DispatchLoop × List ℕ
  | _, ls, [] => (ls, [])
  | n, ls, rq :: rest =>
    match dispatchIteration cfg gotBudget (reply n) ls rq rest with
    | .stop ls' => (ls', rq :: rest)
    | .next ls' => dispatchLoop cfg gotBudget reply (n + 1) ls' rest

/-- The queue runs `blk_mq_dispatch_rq_list` asks for when requests are left over: a run if
no restart is pending (or a shared-tag wait was not queued), a delayed run of
`BLK_MQ_RESOURCE_DELAY` (3 ms) after a busy answer when a restart is pending. -/
def leftoverRuns (restart noTag waitQueued : Bool) (ret : QueueRqResult) : List QueueRun :=
  if !restart || (noTag && !waitQueued) then [.run true]
  else if restart && ret == .busy then [.delay 3]
  else []

/-- `blk_mq_dispatch_rq_list(q, list, got_budget)` for a list whose requests all map to one
hardware context, in state `h`; iteration `n` of the loop gets the answers `reply n`.
Returns the hardware context, the calls made and the return value. -/
def blkMqDispatchRqList (cfg : HctxConfig) (reply : ℕ → DispatchReply) (h : HctxState)
    (list : List ℕ) (gotBudget : Bool) : HctxState × DispatchLog × Bool :=
  if list = [] then (h, DispatchLog.empty, false)
  else
    let r := dispatchLoop cfg gotBudget reply 0
      ⟨h, DispatchLog.empty, .ok, false, 0, 0⟩ list
    let ls := r.1
    if r.2 ≠ [] then
      let hc := { ls.hctx with dispatch := r.2 ++ ls.hctx.dispatch }
      ({ hc with dispatchBusy := blkMqUpdateDispatchBusy cfg.elevator hc.dispatchBusy true },
        { ls.log with runs := ls.log.runs ++ leftoverRuns hc.restart ls.noTag hc.waitQueued ls.ret },
        false)
    else
      ({ ls.hctx with dispatchBusy := blkMqUpdateDispatchBusy cfg.elevator ls.hctx.dispatchBusy false },
        ls.log, !ls.ret.isBusy && ls.queued + ls.errors != 0)

@[simp] theorem blkMqMarkTagWait_dispatch (cfg : HctxConfig) (h : HctxState) (rq : ℕ)
    (got : Option ℕ) : (blkMqMarkTagWait cfg h rq got).1.dispatch = h.dispatch := by
  unfold blkMqMarkTagWait
  split_ifs <;> rfl

@[simp] theorem acquireDriverTag_dispatch (cfg : HctxConfig) (h : HctxState) (rq : ℕ)
    (x : DispatchReply) : (acquireDriverTag cfg h rq x).1.dispatch = h.dispatch := by
  unfold acquireDriverTag
  dsimp only
  split_ifs <;> simp

/-- The answers `x` that can stop an iteration before `->queue_rq`: with no budget held, the
budget hook refused one; or the tag allocator had no driver tag for the request, in both tries
(with shared tags, in the first alone, when `dispatch_wait` was already queued). -/
def DispatchReply.refused (cfg : HctxConfig) (gotBudget : Bool) (x : DispatchReply) : Bool :=
  (!gotBudget && !x.budget) || (x.tag.isNone && (x.waitTag.isNone || cfg.shared))

/-- A driver tag is refused only when the allocator had none for the request. -/
theorem acquireDriverTag_refused {cfg : HctxConfig} {h : HctxState} {rq : ℕ} {x : DispatchReply}
    (hfail : (acquireDriverTag cfg h rq x).2 = false) :
    (x.tag.isNone && (x.waitTag.isNone || cfg.shared)) = true := by
  unfold acquireDriverTag blkMqMarkTagWait blkMqGetDriverTag at hfail
  rcases ht : (h.tags.rq rq).tag with _ | t <;> rcases hx : x.tag with _ | t' <;>
    rcases hw : x.waitTag with _ | t'' <;> cases hs : cfg.shared <;> simp_all

/-- What the call of `->queue_rq` leads to: a busy answer stops the loop with the request
back at the head of the list, any other answer goes on, ending the request on an error. -/
theorem issueRequest_cases (cfg : HctxConfig) (x : DispatchReply) (ls : DispatchLoop)
    (h : HctxState) (rq : ℕ) (rest : List ℕ) :
    (∃ ls', issueRequest cfg x ls h rq rest = .stop ls' ∧ x.queueRq.isBusy ∧
      ls'.log.queueRqCalls = ls.log.queueRqCalls ++ [(rq, x.queueRq)] ∧
      ls'.log.ended = ls.log.ended ∧ ls'.hctx.dispatch = h.dispatch) ∨
    (∃ ls', issueRequest cfg x ls h rq rest = .next ls' ∧ x.queueRq.isBusy = false ∧
      ls'.log.queueRqCalls = ls.log.queueRqCalls ++ [(rq, x.queueRq)] ∧
      ls'.log.ended = ls.log.ended ++ (if x.queueRq = .ok then [] else [(rq, .eio)]) ∧
      ls'.hctx.dispatch = h.dispatch ∧ ls'.ret = x.queueRq ∧
      ls'.queued + ls'.errors = ls.queued + ls.errors + 1) := by
  unfold issueRequest
  cases hq : x.queueRq
  case ok => exact .inr ⟨_, rfl, rfl, rfl, by simp, rfl, rfl, Nat.add_right_comm _ _ _⟩
  case busy | devBusy => exact .inl ⟨_, rfl, rfl, rfl, rfl, rfl⟩
  case error | other => exact .inr ⟨_, rfl, rfl, rfl, by simp, rfl, rfl, rfl⟩

/-- Everything one iteration can do: stop before `->queue_rq` is called, on answers that refused
a budget or a driver tag, stop after a busy answer, or go on after an answer that is not busy,
ending the request on an error. The hardware context's dispatch list is left alone in all
three. -/
theorem dispatchIteration_cases (cfg : HctxConfig) (gotBudget : Bool) (x : DispatchReply)
    (ls : DispatchLoop) (rq : ℕ) (rest : List ℕ) :
    (∃ ls', dispatchIteration cfg gotBudget x ls rq rest = .stop ls' ∧ x.refused cfg gotBudget ∧
      ls'.log.queueRqCalls = ls.log.queueRqCalls ∧ ls'.log.ended = ls.log.ended ∧
      ls'.hctx.dispatch = ls.hctx.dispatch) ∨
    (∃ ls', dispatchIteration cfg gotBudget x ls rq rest = .stop ls' ∧ x.queueRq.isBusy ∧
      ls'.log.queueRqCalls = ls.log.queueRqCalls ++ [(rq, x.queueRq)] ∧
      ls'.log.ended = ls.log.ended ∧ ls'.hctx.dispatch = ls.hctx.dispatch) ∨
    (∃ ls', dispatchIteration cfg gotBudget x ls rq rest = .next ls' ∧ x.queueRq.isBusy = false ∧
      ls'.log.queueRqCalls = ls.log.queueRqCalls ++ [(rq, x.queueRq)] ∧
      ls'.log.ended = ls.log.ended ++ (if x.queueRq = .ok then [] else [(rq, .eio)]) ∧
      ls'.hctx.dispatch = ls.hctx.dispatch ∧ ls'.ret = x.queueRq ∧
      ls'.queued + ls'.errors = ls.queued + ls.errors + 1) := by
  unfold dispatchIteration
  by_cases hbudget : (!gotBudget && !x.budget) = true
  · exact .inl ⟨_, if_pos hbudget, by simp [DispatchReply.refused, hbudget], rfl, rfl, rfl⟩
  simp only [hbudget, if_false]
  generalize hls : (if gotBudget = true then ls else _) = ls₁
  have hls₁ : ls₁.log.queueRqCalls = ls.log.queueRqCalls ∧ ls₁.log.ended = ls.log.ended ∧
      ls₁.hctx = ls.hctx ∧ ls₁.queued = ls.queued ∧ ls₁.errors = ls.errors := by
    subst hls; split_ifs <;> simp
  obtain ⟨hcalls, hended, hhctx, hqueued, herrors⟩ := hls₁
  by_cases hacq : (acquireDriverTag cfg ls₁.hctx rq x).2 = true
  · simp only [hacq, if_true]
    rcases issueRequest_cases cfg x ls₁ _ rq rest with
      ⟨ls', hstep, hbusy, hc, he, hd⟩ | ⟨ls', hstep, hbusy, hc, he, hd, hret, hcount⟩
    · exact .inr (.inl ⟨ls', hstep, hbusy, by rw [hc, hcalls], by rw [he, hended],
        by rw [hd, acquireDriverTag_dispatch, hhctx]⟩)
    · exact .inr (.inr ⟨ls', hstep, hbusy, by rw [hc, hcalls], by rw [he, hended],
        by rw [hd, acquireDriverTag_dispatch, hhctx], hret, by rw [hcount, hqueued, herrors]⟩)
  · simp only [hacq, if_false]
    exact .inl ⟨_, rfl, by simp [DispatchReply.refused, acquireDriverTag_refused
      (Bool.eq_false_iff.2 hacq)], hcalls, hended, by simp [hhctx]⟩

/-- What one dispatch did with its list `l`, from iteration `n` on, with the answers `reply`:
`done` are the requests `->queue_rq` took, in list order with the answers of `reply n`,
`reply (n + 1)`, ..., none busy; `left` is the rest of the list. `calls` are the calls of
`->queue_rq`: `done`, and then, if a request is left, either nothing, the answers of its
iteration having refused a budget or a driver tag, or the busy call on it; `ended` are the
calls of `blk_mq_end_request`: `-EIO` for each request of `done` whose answer was not OK. -/
structure DispatchSplit (cfg : HctxConfig) (gotBudget : Bool) (reply : ℕ → DispatchReply)
    (n : ℕ) (l : List ℕ) (done : List (ℕ × QueueRqResult)) (left : List ℕ)
    (calls : List (ℕ × QueueRqResult)) (ended : List (ℕ × EndStatus)) : Prop where
  split : l = done.map Prod.fst ++ left
  answers : done.map Prod.snd = (List.range done.length).map fun i => (reply (n + i)).queueRq
  done_not_busy : ∀ c ∈ done, c.2.isBusy = false
  calls_eq : calls = done ∧ (left ≠ [] → (reply (n + done.length)).refused cfg gotBudget) ∨
    ∃ rq rest, left = rq :: rest ∧ (reply (n + done.length)).queueRq.isBusy ∧
      calls = done ++ [(rq, (reply (n + done.length)).queueRq)]
  ended_eq : ended = (done.filter fun c => c.2 ≠ .ok).map fun c => (c.1, EndStatus.eio)

section DispatchSplit

variable {cfg : HctxConfig} {gotBudget : Bool} {reply : ℕ → DispatchReply} {n : ℕ}

/-- A loop on the empty list calls nothing. -/
theorem DispatchSplit.nil : DispatchSplit cfg gotBudget reply n [] [] [] [] [] :=
  ⟨rfl, rfl, nofun, .inl ⟨rfl, fun h => absurd rfl h⟩, rfl⟩

/-- An iteration whose answers refused a budget or a driver tag leaves its list whole and calls
nothing. -/
theorem DispatchSplit.refused (hr : (reply n).refused cfg gotBudget) (rq : ℕ) (rest : List ℕ) :
    DispatchSplit cfg gotBudget reply n (rq :: rest) [] (rq :: rest) [] [] :=
  ⟨rfl, rfl, nofun, .inl ⟨rfl, fun _ => hr⟩, rfl⟩

/-- A busy answer leaves the list whole, with the one call on its head. -/
theorem DispatchSplit.busy (hb : (reply n).queueRq.isBusy) (rq : ℕ) (rest : List ℕ) :
    DispatchSplit cfg gotBudget reply n (rq :: rest) [] (rq :: rest) [(rq, (reply n).queueRq)] [] :=
  ⟨rfl, rfl, nofun, .inr ⟨rq, rest, rfl, hb, rfl⟩, rfl⟩

/-- A request taken by `->queue_rq` at iteration `n` with an answer that is not busy, in front
of a split from iteration `n + 1`. -/
theorem DispatchSplit.cons {l : List ℕ} {done : List (ℕ × QueueRqResult)} {left : List ℕ}
    {calls : List (ℕ × QueueRqResult)} {ended : List (ℕ × EndStatus)}
    (h : DispatchSplit cfg gotBudget reply (n + 1) l done left calls ended) (rq : ℕ)
    (hc : (reply n).queueRq.isBusy = false) :
    DispatchSplit cfg gotBudget reply n (rq :: l) ((rq, (reply n).queueRq) :: done) left
      ((rq, (reply n).queueRq) :: calls)
      ((if (reply n).queueRq = .ok then [] else [(rq, .eio)]) ++ ended) := by
  obtain ⟨hsplit, hans, hdone, hcalls, hended⟩ := h
  have hidx : n + (done.length + 1) = n + 1 + done.length := by omega
  refine ⟨by simp [hsplit], ?_, by simpa [hc] using hdone, ?_, ?_⟩
  · simp only [List.map_cons, hans, List.length_cons, List.range_succ_eq_map, List.map_map]
    exact congrArg _ (List.map_congr_left fun i _ => by
      simp only [Function.comp, Nat.succ_eq_add_one, Nat.add_right_comm n 1 i, Nat.add_assoc])
  · simp only [List.length_cons, hidx]
    rcases hcalls with ⟨rfl, hr⟩ | ⟨rq', rest, hl, hb, rfl⟩
    · exact .inl ⟨rfl, hr⟩
    · exact .inr ⟨rq', rest, hl, hb, rfl⟩
  · subst hended
    split_ifs with hok <;> simp [List.filter_cons, hok]

end DispatchSplit

/-- The loop of `blk_mq_dispatch_rq_list` on any list, from any loop state, with any answers:
the list splits into the requests the driver took and the ones left, the calls of
`->queue_rq` and of `blk_mq_end_request` are the ones `DispatchSplit` describes, the dispatch
list is untouched, and a loop that empties a non-empty list ends on an answer that is not
busy after at least one more request went to the driver. -/
theorem dispatchLoop_split (cfg : HctxConfig) (gotBudget : Bool) (reply : ℕ → DispatchReply)
    (n : ℕ) (ls : DispatchLoop) (l : List ℕ) :
    ∃ done calls ended,
      DispatchSplit cfg gotBudget reply n l done (dispatchLoop cfg gotBudget reply n ls l).2 calls
        ended ∧
      (dispatchLoop cfg gotBudget reply n ls l).1.log.queueRqCalls = ls.log.queueRqCalls ++ calls ∧
      (dispatchLoop cfg gotBudget reply n ls l).1.log.ended = ls.log.ended ++ ended ∧
      (dispatchLoop cfg gotBudget reply n ls l).1.hctx.dispatch = ls.hctx.dispatch ∧
      (l ≠ [] → (dispatchLoop cfg gotBudget reply n ls l).2 = [] →
        (dispatchLoop cfg gotBudget reply n ls l).1.ret.isBusy = false ∧
        ls.queued + ls.errors <
          (dispatchLoop cfg gotBudget reply n ls l).1.queued +
            (dispatchLoop cfg gotBudget reply n ls l).1.errors) := by
  induction l generalizing n ls with
  | nil =>
    exact ⟨[], [], [], DispatchSplit.nil, by simp [dispatchLoop], by simp [dispatchLoop], rfl,
      fun h => absurd rfl h⟩
  | cons rq rest ih =>
    rcases dispatchIteration_cases cfg gotBudget (reply n) ls rq rest with
      ⟨ls', hstep, hr, hc, he, hd⟩ | ⟨ls', hstep, hbusy, hc, he, hd⟩ |
      ⟨ls', hstep, hbusy, hc, he, hd, hret, hcount⟩
    · simp only [dispatchLoop, hstep]
      exact ⟨[], [], [], DispatchSplit.refused hr rq rest, by simp [hc], by simp [he], hd,
        fun _ h => absurd h (List.cons_ne_nil _ _)⟩
    · simp only [dispatchLoop, hstep]
      exact ⟨[], [(rq, (reply n).queueRq)], [], DispatchSplit.busy hbusy rq rest, hc, by simp [he], hd,
        fun _ h => absurd h (List.cons_ne_nil _ _)⟩
    · have hloop : dispatchLoop cfg gotBudget reply n ls (rq :: rest) =
          dispatchLoop cfg gotBudget reply (n + 1) ls' rest := by
        simp only [dispatchLoop, hstep]
      obtain ⟨done, calls, ended, hsplit, hc', he', hd', hprog⟩ := ih (n + 1) ls'
      rw [hloop]
      refine ⟨(rq, (reply n).queueRq) :: done, (rq, (reply n).queueRq) :: calls,
        (if (reply n).queueRq = .ok then [] else [(rq, .eio)]) ++ ended,
        hsplit.cons rq hbusy, by simp [hc', hc], by simp [he', he],
        hd'.trans hd, fun _ hleft => ?_⟩
      cases rest with
      | nil => simp [dispatchLoop, hret, hbusy, hcount]
      | cons nxt rest =>
        obtain ⟨hnb, hlt⟩ := hprog (List.cons_ne_nil _ _) hleft
        exact ⟨hnb, by omega⟩

/-- The loop state an iteration leaves, whether it stops or goes on. -/
def DispatchStep.loop : DispatchStep → DispatchLoop
  | .stop ls | .next ls => ls

/-- The call of `->queue_rq` leaves the budget counts alone and adds one call. -/
theorem issueRequest_budget (cfg : HctxConfig) (x : DispatchReply) (ls : DispatchLoop)
    (h : HctxState) (rq : ℕ) (rest : List ℕ) :
    (issueRequest cfg x ls h rq rest).loop.log.budgetGets = ls.log.budgetGets ∧
      (issueRequest cfg x ls h rq rest).loop.log.budgetPuts = ls.log.budgetPuts ∧
      (issueRequest cfg x ls h rq rest).loop.log.queueRqCalls.length =
        ls.log.queueRqCalls.length + 1 := by
  unfold issueRequest
  cases x.queueRq <;> simp [DispatchStep.loop]

/-- An iteration spends the budget it runs on, the one it takes or the one the caller holds
(`got_budget`): `->queue_rq` or `blk_mq_put_dispatch_budget` is called once for it. An
iteration that fails to get a budget changes nothing. -/
theorem dispatchIteration_budget (cfg : HctxConfig) (gotBudget : Bool) (x : DispatchReply)
    (ls : DispatchLoop) (rq : ℕ) (rest : List ℕ) :
    (dispatchIteration cfg gotBudget x ls rq rest).loop.log.budgetGets +
        (if gotBudget then 1 else 0) + ls.log.queueRqCalls.length + ls.log.budgetPuts =
      ls.log.budgetGets + (dispatchIteration cfg gotBudget x ls rq rest).loop.log.queueRqCalls.length +
        (dispatchIteration cfg gotBudget x ls rq rest).loop.log.budgetPuts := by
  unfold dispatchIteration
  by_cases hb : (!gotBudget && !x.budget) = true
  · have hg : gotBudget = false := by cases gotBudget <;> simp_all
    rw [if_pos hb, hg]
    simp only [DispatchStep.loop, Bool.false_eq_true, ↓reduceIte]
    omega
  rw [if_neg hb]
  dsimp only
  generalize hls : (if gotBudget = true then ls else _) = ls₁
  have hls₁ : ls₁.log.budgetGets = ls.log.budgetGets + (if gotBudget then 0 else 1) ∧
      ls₁.log.budgetPuts = ls.log.budgetPuts ∧ ls₁.log.queueRqCalls = ls.log.queueRqCalls := by
    subst hls; cases gotBudget <;> simp
  obtain ⟨hg₁, hp₁, hc₁⟩ := hls₁
  by_cases hacq : (acquireDriverTag cfg ls₁.hctx rq x).2 = true
  · rw [if_pos hacq]
    obtain ⟨hg, hp, hc⟩ := issueRequest_budget cfg x ls₁ _ rq rest
    rw [hg, hp, hc, hg₁, hp₁, hc₁]
    split_ifs <;> omega
  · rw [if_neg hacq]
    simp only [DispatchStep.loop, hg₁, hp₁, hc₁]
    split_ifs <;> omega

/-- A loop that takes its own budgets (`got_budget` false) spends every one it takes. -/
theorem dispatchLoop_budget (cfg : HctxConfig) (reply : ℕ → DispatchReply) :
    ∀ (l : List ℕ) (n : ℕ) (ls : DispatchLoop),
      (dispatchLoop cfg false reply n ls l).1.log.budgetGets + ls.log.queueRqCalls.length +
          ls.log.budgetPuts =
        ls.log.budgetGets + (dispatchLoop cfg false reply n ls l).1.log.queueRqCalls.length +
          (dispatchLoop cfg false reply n ls l).1.log.budgetPuts
  | [], _, _ => by simp only [dispatchLoop]
  | rq :: rest, n, ls => by
    have hit := dispatchIteration_budget cfg false (reply n) ls rq rest
    simp only [dispatchLoop]
    rcases hres : dispatchIteration cfg false (reply n) ls rq rest with ls' | ls' <;>
      simp only [hres, DispatchStep.loop, Bool.false_eq_true, ↓reduceIte, Nat.add_zero] at hit ⊢
    · exact hit
    · have := dispatchLoop_budget cfg reply rest (n + 1) ls'
      omega

/-- On a one-request list the loop is its one iteration. -/
theorem dispatchLoop_singleton (cfg : HctxConfig) (gotBudget : Bool) (reply : ℕ → DispatchReply)
    (n : ℕ) (ls : DispatchLoop) (rq : ℕ) :
    (dispatchLoop cfg gotBudget reply n ls [rq]).1 =
      (dispatchIteration cfg gotBudget (reply n) ls rq []).loop := by
  simp only [dispatchLoop]
  cases dispatchIteration cfg gotBudget (reply n) ls rq [] <;> rfl

/-- `blk_mq_dispatch_rq_list` on a non-empty list reports the loop's calls, with queue runs
added. -/
theorem blkMqDispatchRqList_log (cfg : HctxConfig) (reply : ℕ → DispatchReply) (h : HctxState)
    (list : List ℕ) (gotBudget : Bool) (hne : list ≠ []) : ∃ runs,
    (blkMqDispatchRqList cfg reply h list gotBudget).2.1 =
      { (dispatchLoop cfg gotBudget reply 0 ⟨h, DispatchLog.empty, .ok, false, 0, 0⟩ list).1.log with
        runs := runs } := by
  unfold blkMqDispatchRqList
  dsimp only
  split_ifs with hnil
  · exact absurd hnil hne
  · exact ⟨_, rfl⟩
  · exact ⟨_, rfl⟩

/-- `blk_mq_dispatch_rq_list` spends every budget it holds: those it takes, and the one the
caller passes with a one-request list. -/
theorem blkMqDispatchRqList_budget (cfg : HctxConfig) (reply : ℕ → DispatchReply) (h : HctxState)
    (list : List ℕ) (gotBudget : Bool) (hsingle : gotBudget = true → list.length = 1) :
    (blkMqDispatchRqList cfg reply h list gotBudget).2.1.budgetGets + (if gotBudget then 1 else 0) =
      (blkMqDispatchRqList cfg reply h list gotBudget).2.1.queueRqCalls.length +
        (blkMqDispatchRqList cfg reply h list gotBudget).2.1.budgetPuts := by
  by_cases hne : list = []
  · subst hne
    cases gotBudget
    · rfl
    · simp at hsingle
  obtain ⟨runs, hlog⟩ := blkMqDispatchRqList_log cfg reply h list gotBudget hne
  rw [hlog]
  cases gotBudget
  · simpa [DispatchLog.empty] using
      dispatchLoop_budget cfg reply list 0 ⟨h, DispatchLog.empty, .ok, false, 0, 0⟩
  · obtain ⟨rq, rfl⟩ := List.length_eq_one.mp (hsingle rfl)
    rw [dispatchLoop_singleton]
    simpa [DispatchLog.empty] using
      dispatchIteration_budget cfg true (reply 0) ⟨h, DispatchLog.empty, .ok, false, 0, 0⟩ rq []

end BlkMq
