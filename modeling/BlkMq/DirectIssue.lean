import BlkMq.Dispatch

/-!
# Direct issue

Without a scheduler, or for requests a caller wants past it, `blk_mq_try_issue_directly` hands
one request straight to `->queue_rq` from the submitting thread, and
`blk_mq_try_issue_list_directly` does so for each request of a plugged list.
`__blk_mq_try_issue_directly` takes the budget and the driver tag itself. When it cannot, or
when the hardware context is stopped or the queue quiesced, it jumps to `insert:`: there it
either appends the request to `hctx->dispatch` and answers `BLK_MQ_RQ_QUEUE_OK`, or, when the
caller asked for it with `bypass_insert`, answers `BLK_MQ_RQ_QUEUE_BUSY` and leaves the
insertion to the caller.

The three functions hand the request to one another through their return codes. Over them we
keep an abstract record, `Places`, of where requests went: taken by the driver, ended, or on
`hctx->dispatch`. One direct issue puts its request in exactly one place; the list version
puts a prefix of the list in place, request by request, and stops right after the first busy
answer, the rest of the list untouched.
-/

namespace BlkMq

/-- What a direct issue of one request reads: the state it checks under `hctx_lock`, and the
answers of the budget hook, the tag allocator and the driver. -/
structure DirectReply where
  /-- `blk_mq_hctx_stopped(hctx)`. -/
  stopped : Bool
  /-- `blk_queue_quiesced(q)`. -/
  quiesced : Bool
  /-- `blk_mq_get_dispatch_budget`. -/
  budget : Bool
  /-- `blk_mq_get_tag` in `blk_mq_get_driver_tag`. -/
  tag : Option ℕ
  /-- `->queue_rq`. -/
  queueRq : QueueRqResult
  deriving DecidableEq, Repr

/-- The hardware context and the calls made so far. -/
structure IssueState where
  /-- The hardware context the requests map to. -/
  hctx : HctxState
  /-- The calls of the budget hook, of `->queue_rq` and of `blk_mq_end_request`, and the queue
  runs asked for. -/
  log : DispatchLog

/-- `blk_mq_request_bypass_insert(rq, run_queue)`: append the request to `hctx->dispatch` and,
if asked, run the hardware queue synchronously. -/
def blkMqRequestBypassInsert (s : IssueState) (rq : ℕ) (runQueue : Bool) : IssueState where
  hctx := { s.hctx with dispatch := s.hctx.dispatch ++ [rq] }
  log := if runQueue then { s.log with runs := s.log.runs ++ [.run false] } else s.log

/-- `blk_mq_end_request(rq, error)`. -/
def blkMqEndRequest (s : IssueState) (rq : ℕ) (error : EndStatus) : IssueState :=
  { s with log := { s.log with ended := s.log.ended ++ [(rq, error)] } }

/-- `__blk_mq_issue_directly`: call `->queue_rq` for the request alone (`bd.last` set), feed
the answer `ret` to `dispatch_busy`, and on a busy answer requeue the request, which gives its
driver tag back. -/
def __blkMqIssueDirectly (cfg : HctxConfig) (s : IssueState) (rq : ℕ) (ret : QueueRqResult) :
    IssueState × QueueRqResult :=
  let log := { s.log with queueRqCalls := s.log.queueRqCalls ++ [(rq, ret)] }
  match ret with
  | .ok =>
    ({ hctx := { s.hctx with
        dispatchBusy := blkMqUpdateDispatchBusy cfg.elevator s.hctx.dispatchBusy false }
       log := log }, ret)
  | .busy | .devBusy =>
    ({ hctx := { s.hctx with
        dispatchBusy := blkMqUpdateDispatchBusy cfg.elevator s.hctx.dispatchBusy true
        tags := __blkMqRequeueRequest s.hctx.tags rq }
       log := log }, ret)
  | .error | .other =>
    ({ hctx := { s.hctx with
        dispatchBusy := blkMqUpdateDispatchBusy cfg.elevator s.hctx.dispatchBusy false }
       log := log }, ret)

/-- The `insert:` label of `__blk_mq_try_issue_directly`: with `bypass_insert` the caller is
told to insert the request, otherwise it goes on `hctx->dispatch` here. -/
def tryIssueInsert (s : IssueState) (rq : ℕ) (runQueue bypassInsert : Bool) :
    IssueState × QueueRqResult :=
  if bypassInsert then (s, .busy) else (blkMqRequestBypassInsert s rq runQueue, .ok)

/-- `__blk_mq_try_issue_directly(hctx, rq, bypass_insert)`. A stopped or quiesced queue drops
`bypass_insert` and `run_queue`; an elevator sends the request to `insert:` unless
`bypass_insert`; so does a failed budget, and a failed driver tag after giving the budget
back. -/
def __blkMqTryIssueDirectly (cfg : HctxConfig) (s : IssueState) (rq : ℕ) (bypassInsert : Bool)
    (x : DirectReply) : IssueState × QueueRqResult :=
  if x.stopped || x.quiesced then tryIssueInsert s rq false false
  else if cfg.elevator && !bypassInsert then tryIssueInsert s rq true bypassInsert
  else if !x.budget then tryIssueInsert s rq true bypassInsert
  else
    let s := { s with log := { s.log with budgetGets := s.log.budgetGets + 1 } }
    let got := blkMqGetDriverTag s.hctx.tags rq x.tag cfg.tagBusy
    if !got.2 then
      tryIssueInsert { s with log := { s.log with budgetPuts := s.log.budgetPuts + 1 } } rq true
        bypassInsert
    else __blkMqIssueDirectly cfg { s with hctx := { s.hctx with tags := got.1 } } rq x.queueRq

/-- `blk_mq_try_issue_directly(hctx, rq)`: on a busy answer the request goes on
`hctx->dispatch` with a queue run, on any other answer but `BLK_MQ_RQ_QUEUE_OK` it is ended
with that answer. -/
def blkMqTryIssueDirectly (cfg : HctxConfig) (s : IssueState) (rq : ℕ) (x : DirectReply) :
    IssueState :=
  let r := __blkMqTryIssueDirectly cfg s rq false x
  if r.2.isBusy then blkMqRequestBypassInsert r.1 rq true
  else if r.2 != .ok then blkMqEndRequest r.1 rq (.result r.2)
  else r.1

/-- `blk_mq_request_issue_directly(rq)`, for a request that maps to the hardware context of
`s`. -/
def blkMqRequestIssueDirectly (cfg : HctxConfig) (s : IssueState) (rq : ℕ) (x : DirectReply) :
    IssueState × QueueRqResult :=
  __blkMqTryIssueDirectly cfg s rq true x

/-- `blk_mq_try_issue_list_directly(hctx, list)` for a list whose requests all map to one
hardware context; request `n` of the loop gets the answers `reply n`. Returns the state and
the list as the loop leaves it. -/
def blkMqTryIssueListDirectly (cfg : HctxConfig) (reply : ℕ → DirectReply) :
    ℕ → IssueState → List ℕ → IssueState × List ℕ
  | _, s, [] => (s, [])
  | n, s, rq :: rest =>
    let r := blkMqRequestIssueDirectly cfg s rq (reply n)
    if r.2 != .ok then
      if r.2.isBusy then (blkMqRequestBypassInsert r.1 rq rest.isEmpty, rest)
      else blkMqTryIssueListDirectly cfg reply (n + 1) (blkMqEndRequest r.1 rq (.result r.2)) rest
    else blkMqTryIssueListDirectly cfg reply (n + 1) r.1 rest

/-! ### Where the requests go -/

/-- Where a direct issue leaves its request. -/
inductive Place
  /-- `->queue_rq` took it. -/
  | driver
  /-- `blk_mq_end_request` ended it. -/
  | ended
  /-- It was appended to `hctx->dispatch`; `busy` when because the issue answered
  `BLK_MQ_RQ_QUEUE_BUSY` or `BLK_MQ_RQ_QUEUE_DEV_BUSY`. -/
  | dispatch (busy : Bool)
  deriving DecidableEq, Repr

/-- Whether the request went to `hctx->dispatch` because of a busy answer. -/
def Place.isBusy : Place → Bool
  | .dispatch b => b
  | _ => false

/-- Where requests have gone: the requests the driver took, those ended, `hctx->dispatch`. -/
structure Places where
  accepted : List ℕ
  ended : List ℕ
  dispatch : List ℕ
  deriving DecidableEq, Repr

/-- Put a request in a place. -/
def Places.put (P : Places) : ℕ × Place → Places
  | (rq, .driver) => { P with accepted := P.accepted ++ [rq] }
  | (rq, .ended) => { P with ended := P.ended ++ [rq] }
  | (rq, .dispatch _) => { P with dispatch := P.dispatch ++ [rq] }

/-- The places a state shows: the requests `->queue_rq` answered `BLK_MQ_RQ_QUEUE_OK` for, the
requests ended, and `hctx->dispatch`. -/
def IssueState.places (s : IssueState) : Places where
  accepted := (s.log.queueRqCalls.filter (·.2 == .ok)).map (·.1)
  ended := s.log.ended.map (·.1)
  dispatch := s.hctx.dispatch

@[simp] theorem blkMqRequestBypassInsert_places (s : IssueState) (rq : ℕ) (runQueue : Bool) :
    (blkMqRequestBypassInsert s rq runQueue).places = s.places.put (rq, .dispatch false) := by
  unfold blkMqRequestBypassInsert
  split <;> rfl

@[simp] theorem blkMqEndRequest_places (s : IssueState) (rq : ℕ) (error : EndStatus) :
    (blkMqEndRequest s rq error).places = s.places.put (rq, .ended) := by
  simp [blkMqEndRequest, IssueState.places, Places.put]

/-- What an issue that answered `ret` has done with its request: on `BLK_MQ_RQ_QUEUE_OK` it
put it in a place, not for a busy answer; on any other answer nothing, the caller decides. -/
def IssuedAs (s : IssueState) (rq : ℕ) : IssueState × QueueRqResult → Prop
  | (s', .ok) => ∃ p : Place, p.isBusy = false ∧ s'.places = s.places.put (rq, p)
  | (s', _) => s'.places = s.places

theorem tryIssueInsert_issuedAs (s : IssueState) (rq : ℕ) (runQueue bypassInsert : Bool) :
    IssuedAs s rq (tryIssueInsert s rq runQueue bypassInsert) := by
  unfold tryIssueInsert
  cases bypassInsert
  · exact ⟨.dispatch false, rfl, blkMqRequestBypassInsert_places s rq runQueue⟩
  · rfl

theorem __blkMqIssueDirectly_issuedAs (cfg : HctxConfig) (s : IssueState) (rq : ℕ)
    (ret : QueueRqResult) : IssuedAs s rq (__blkMqIssueDirectly cfg s rq ret) := by
  cases ret
  case ok => exact ⟨.driver, rfl, by simp [__blkMqIssueDirectly, IssueState.places, Places.put]⟩
  all_goals simp [IssuedAs, __blkMqIssueDirectly, IssueState.places]

/-- `__blk_mq_try_issue_directly` puts its request in a place exactly when it answers
`BLK_MQ_RQ_QUEUE_OK`. -/
theorem __blkMqTryIssueDirectly_issuedAs (cfg : HctxConfig) (s : IssueState) (rq : ℕ)
    (bypassInsert : Bool) (x : DirectReply) :
    IssuedAs s rq (__blkMqTryIssueDirectly cfg s rq bypassInsert x) := by
  unfold __blkMqTryIssueDirectly
  dsimp only
  split_ifs
  · exact tryIssueInsert_issuedAs s rq false false
  · exact tryIssueInsert_issuedAs s rq true bypassInsert
  · exact tryIssueInsert_issuedAs s rq true bypassInsert
  · exact tryIssueInsert_issuedAs _ rq true bypassInsert
  · exact __blkMqIssueDirectly_issuedAs cfg _ rq x.queueRq

/-- `blk_mq_try_issue_directly` leaves its request in exactly one place. -/
theorem blkMqTryIssueDirectly_places (cfg : HctxConfig) (s : IssueState) (rq : ℕ)
    (x : DirectReply) : ∃ p, (blkMqTryIssueDirectly cfg s rq x).places = s.places.put (rq, p) := by
  have hi := __blkMqTryIssueDirectly_issuedAs cfg s rq false x
  unfold blkMqTryIssueDirectly
  rcases hres : __blkMqTryIssueDirectly cfg s rq false x with ⟨s', ret⟩
  rw [hres] at hi
  cases ret <;> simp only [IssuedAs] at hi
  case ok => obtain ⟨p, -, hp⟩ := hi; exact ⟨p, hp⟩
  case busy | devBusy => exact ⟨.dispatch true, by simp [QueueRqResult.isBusy, hi, Places.put]⟩
  case error | other => exact ⟨.ended, by simp [QueueRqResult.isBusy, hi]⟩

/-- A request put in a place other than a busy insertion, ahead of placements that stop at the
first busy one, gives placements that still do. -/
theorem stopsAtBusy_cons {q : ℕ × Place} {ps : List (ℕ × Place)} {left : List ℕ}
    (hq : q.2.isBusy = false) (hdrop : ∀ q ∈ ps.dropLast, q.2.isBusy = false)
    (hlast : left ≠ [] → ∃ q ∈ ps.getLast?, q.2.isBusy) :
    (∀ q' ∈ (q :: ps).dropLast, q'.2.isBusy = false) ∧
      (left ≠ [] → ∃ q' ∈ (q :: ps).getLast?, q'.2.isBusy) := by
  cases ps with
  | nil => exact ⟨by simp, fun hl => by simpa using hlast hl⟩
  | cons p ps =>
    refine ⟨fun q' hq' => ?_, by simpa using hlast⟩
    rcases List.mem_cons.mp (by simpa using hq') with rfl | hq'
    · exact hq
    · exact hdrop q' hq'

/-- The placements `ps` of the list loop carry the answers of `blk_mq_request_issue_directly`:
the `i`-th is a busy insertion exactly when the issue of its request, from the state the loop
reached after the first `i` requests of `list`, answered busy. -/
def IssueAnswered (cfg : HctxConfig) (reply : ℕ → DirectReply) (n : ℕ) (s : IssueState)
    (list : List ℕ) (ps : List (ℕ × Place)) : Prop :=
  ∀ i (hi : i < ps.length), ps[i].2.isBusy =
    (blkMqRequestIssueDirectly cfg (blkMqTryIssueListDirectly cfg reply n s (list.take i)).1
      ps[i].1 (reply (n + i))).2.isBusy

/-- A first placement that carries its answer, ahead of the placements of a loop that went on
from the state it left. -/
theorem IssueAnswered.cons {cfg : HctxConfig} {reply : ℕ → DirectReply} {n : ℕ}
    {s s' : IssueState} {rq : ℕ} {rest : List ℕ} {ps : List (ℕ × Place)} {p : Place}
    (h : IssueAnswered cfg reply (n + 1) s' rest ps)
    (hp : p.isBusy = (blkMqRequestIssueDirectly cfg s rq (reply n)).2.isBusy)
    (hloop : ∀ l, blkMqTryIssueListDirectly cfg reply n s (rq :: l) =
      blkMqTryIssueListDirectly cfg reply (n + 1) s' l) :
    IssueAnswered cfg reply n s (rq :: rest) ((rq, p) :: ps)
  | 0, _ => hp
  | k + 1, hk => by
    simp only [List.getElem_cons_succ, List.take_succ_cons, hloop]
    rw [show n + (k + 1) = n + 1 + k by omega]
    exact h k (by simpa using hk)

/-- `blk_mq_try_issue_list_directly` puts a prefix of the list in place, one request at a time
in list order, and leaves the rest of the list as it was; a request goes to `hctx->dispatch`
as a busy insertion exactly when its issue answered busy, no request but the last of the prefix
does, and the loop stops early only after one that does. -/
theorem blkMqTryIssueListDirectly_places (cfg : HctxConfig) (reply : ℕ → DirectReply) :
    ∀ (list : List ℕ) (n : ℕ) (s : IssueState), ∃ ps : List (ℕ × Place),
      list = ps.map Prod.fst ++ (blkMqTryIssueListDirectly cfg reply n s list).2 ∧
      (blkMqTryIssueListDirectly cfg reply n s list).1.places = ps.foldl Places.put s.places ∧
      IssueAnswered cfg reply n s list ps ∧
      (∀ q ∈ ps.dropLast, q.2.isBusy = false) ∧
      ((blkMqTryIssueListDirectly cfg reply n s list).2 ≠ [] → ∃ q ∈ ps.getLast?, q.2.isBusy)
  | [], _, _ => ⟨[], by simp [blkMqTryIssueListDirectly], by simp [blkMqTryIssueListDirectly],
      nofun, by simp, by simp [blkMqTryIssueListDirectly]⟩
  | rq :: rest, n, s => by
    have hi := __blkMqTryIssueDirectly_issuedAs cfg s rq true (reply n)
    have hloop : ∀ l, blkMqTryIssueListDirectly cfg reply n s (rq :: l) =
        let r := __blkMqTryIssueDirectly cfg s rq true (reply n)
        if r.2 != .ok then
          if r.2.isBusy then (blkMqRequestBypassInsert r.1 rq l.isEmpty, l)
          else blkMqTryIssueListDirectly cfg reply (n + 1) (blkMqEndRequest r.1 rq (.result r.2)) l
        else blkMqTryIssueListDirectly cfg reply (n + 1) r.1 l := fun _ => rfl
    have hanswer : (blkMqRequestIssueDirectly cfg s rq (reply n)).2 =
        (__blkMqTryIssueDirectly cfg s rq true (reply n)).2 := rfl
    rcases hres : __blkMqTryIssueDirectly cfg s rq true (reply n) with ⟨s', ret⟩
    rw [hres] at hi hanswer hloop
    cases ret <;> simp only [IssuedAs] at hi <;>
      simp only [bne_self_eq_false, Bool.false_eq_true, if_false, reduceCtorEq, bne_iff_ne,
        ne_eq, not_false_eq_true, if_true, QueueRqResult.isBusy] at hloop
    case busy | devBusy =>
      refine ⟨[(rq, .dispatch true)], by simp [hloop], by simp [hloop, hi, Places.put],
        fun i hi' => ?_, by simp, by simp [Place.isBusy]⟩
      obtain rfl : i = 0 := by simpa using hi'
      simp [hanswer, blkMqTryIssueListDirectly, Place.isBusy, QueueRqResult.isBusy]
    case ok =>
      obtain ⟨p, hp, hput⟩ := hi
      obtain ⟨ps, hsplit, hplaces, hans, hdrop, hlast⟩ :=
        blkMqTryIssueListDirectly_places cfg reply rest (n + 1) s'
      refine ⟨(rq, p) :: ps, by simpa [hloop] using hsplit, by simpa [hloop, hput] using hplaces,
        hans.cons (by rw [hp, hanswer]; rfl) hloop, ?_⟩
      simpa only [hloop] using stopsAtBusy_cons hp hdrop hlast
    all_goals
      obtain ⟨ps, hsplit, hplaces, hans, hdrop, hlast⟩ := blkMqTryIssueListDirectly_places cfg reply
        rest (n + 1) (blkMqEndRequest s' rq (.result _))
      refine ⟨(rq, .ended) :: ps, by simpa [hloop] using hsplit, by simpa [hloop, hi] using hplaces,
        hans.cons (by rw [hanswer]; rfl) hloop, ?_⟩
      simpa only [hloop] using stopsAtBusy_cons (q := (rq, .ended)) rfl hdrop hlast

/-- Direct issue of any request, from any state, with any answers (a stopped hardware context
or a quiesced queue, an elevator or none, the budget, the driver tag and `->queue_rq`), leaves
the request in exactly one place. On a list it does so for a prefix, one request at a time in
list order, puts a request on `hctx->dispatch` as a busy insertion exactly when its issue
answered busy, stops right after the first such request, and leaves the rest of the list as
it was. -/
theorem direct_issue_exactly_one_place (cfg : HctxConfig) :
    (∀ (s : IssueState) (rq : ℕ) (x : DirectReply),
      ∃ p, (blkMqTryIssueDirectly cfg s rq x).places = s.places.put (rq, p)) ∧
    ∀ (reply : ℕ → DirectReply) (list : List ℕ) (n : ℕ) (s : IssueState),
      ∃ ps : List (ℕ × Place),
        list = ps.map Prod.fst ++ (blkMqTryIssueListDirectly cfg reply n s list).2 ∧
        (blkMqTryIssueListDirectly cfg reply n s list).1.places = ps.foldl Places.put s.places ∧
        IssueAnswered cfg reply n s list ps ∧
        (∀ q ∈ ps.dropLast, q.2.isBusy = false) ∧
        ((blkMqTryIssueListDirectly cfg reply n s list).2 ≠ [] → ∃ q ∈ ps.getLast?, q.2.isBusy) :=
  ⟨blkMqTryIssueDirectly_places cfg, blkMqTryIssueListDirectly_places cfg⟩

/-! ### Dispatch budgets -/

/-- The `insert:` label changes none of the counts in the log, only the queue runs. -/
theorem tryIssueInsert_log (s : IssueState) (rq : ℕ) (runQueue bypassInsert : Bool) :
    (tryIssueInsert s rq runQueue bypassInsert).1.log =
      { s.log with runs := (tryIssueInsert s rq runQueue bypassInsert).1.log.runs } := by
  unfold tryIssueInsert blkMqRequestBypassInsert
  split_ifs <;> rfl

/-- `__blk_mq_issue_directly` adds its call of `->queue_rq` to the log. -/
theorem __blkMqIssueDirectly_log (cfg : HctxConfig) (s : IssueState) (rq : ℕ) (ret : QueueRqResult) :
    (__blkMqIssueDirectly cfg s rq ret).1.log =
      { s.log with queueRqCalls := s.log.queueRqCalls ++ [(rq, ret)] } := by
  cases ret <;> rfl

/-- `__blk_mq_try_issue_directly` spends the budget it takes: on `->queue_rq`, or back through
`blk_mq_put_dispatch_budget` when the driver tag fails. -/
theorem __blkMqTryIssueDirectly_budget (cfg : HctxConfig) (s : IssueState) (rq : ℕ)
    (bypassInsert : Bool) (x : DirectReply) :
    (__blkMqTryIssueDirectly cfg s rq bypassInsert x).1.log.budgetGets +
        s.log.queueRqCalls.length + s.log.budgetPuts =
      s.log.budgetGets + (__blkMqTryIssueDirectly cfg s rq bypassInsert x).1.log.queueRqCalls.length +
        (__blkMqTryIssueDirectly cfg s rq bypassInsert x).1.log.budgetPuts := by
  unfold __blkMqTryIssueDirectly
  dsimp only
  split_ifs
  · rw [tryIssueInsert_log]
  · rw [tryIssueInsert_log]
  · rw [tryIssueInsert_log]
  · rw [tryIssueInsert_log]
    dsimp only
    omega
  · rw [__blkMqIssueDirectly_log]
    simp only [List.length_append, List.length_singleton]
    omega

/-- Every dispatch budget held is spent exactly once, on a call of `->queue_rq` or of
`blk_mq_put_dispatch_budget`: in `blk_mq_dispatch_rq_list`, with `got_budget` only for a
one-request list, and in `__blk_mq_try_issue_directly`, for every state and all answers. -/
theorem dispatch_budgets_balanced :
    (∀ (cfg : HctxConfig) (reply : ℕ → DispatchReply) (h : HctxState) (list : List ℕ)
      (gotBudget : Bool), (gotBudget = true → list.length = 1) →
      (blkMqDispatchRqList cfg reply h list gotBudget).2.1.budgetGets +
          (if gotBudget then 1 else 0) =
        (blkMqDispatchRqList cfg reply h list gotBudget).2.1.queueRqCalls.length +
          (blkMqDispatchRqList cfg reply h list gotBudget).2.1.budgetPuts) ∧
    ∀ (cfg : HctxConfig) (h : HctxState) (rq : ℕ) (bypassInsert : Bool) (x : DirectReply),
      (__blkMqTryIssueDirectly cfg ⟨h, DispatchLog.empty⟩ rq bypassInsert x).1.log.budgetGets =
        (__blkMqTryIssueDirectly cfg ⟨h, DispatchLog.empty⟩ rq bypassInsert x).1.log.queueRqCalls.length +
          (__blkMqTryIssueDirectly cfg ⟨h, DispatchLog.empty⟩ rq bypassInsert x).1.log.budgetPuts :=
  ⟨blkMqDispatchRqList_budget, fun cfg h rq bypassInsert x => by
    simpa [DispatchLog.empty] using __blkMqTryIssueDirectly_budget cfg ⟨h, DispatchLog.empty⟩ rq bypassInsert x⟩

/-- The caller's budget passed with a one-request list that the driver takes. -/
theorem dispatch_budgets_balanced_single :
    (true = true → [7].length = 1) ∧
      (blkMqDispatchRqList ⟨false, false, false⟩ (fun _ => ⟨true, some 0, none, none, .ok⟩)
          ⟨TagState.init, [], false, false, 0⟩ [7] true).2.1.budgetGets + 1 =
        (blkMqDispatchRqList ⟨false, false, false⟩ (fun _ => ⟨true, some 0, none, none, .ok⟩)
          ⟨TagState.init, [], false, false, 0⟩ [7] true).2.1.queueRqCalls.length +
        (blkMqDispatchRqList ⟨false, false, false⟩ (fun _ => ⟨true, some 0, none, none, .ok⟩)
          ⟨TagState.init, [], false, false, 0⟩ [7] true).2.1.budgetPuts :=
  ⟨fun _ => rfl, dispatch_budgets_balanced.1 _ _ _ [7] true fun _ => rfl⟩

/-! ### `dispatch_busy`

`blk_mq_update_dispatch_busy` keeps an exponentially weighted average of busy answers in
`hctx->dispatch_busy`, and `blk_mq_make_request` issues directly only while it is zero. From
zero it never leaves `[0, 9]`, where its `unsigned int` arithmetic cannot wrap. -/

/-- `hctx->dispatch_busy` after a sequence of calls of `blk_mq_update_dispatch_busy`, each given
as (elevator attached, `busy`). -/
def dispatchBusyAfter (ewma : ℕ) (calls : List (Bool × Bool)) : ℕ :=
  calls.foldl (fun e c => blkMqUpdateDispatchBusy c.1 e c.2) ewma

@[simp] theorem dispatchBusyAfter_nil (ewma : ℕ) : dispatchBusyAfter ewma [] = ewma := rfl

@[simp] theorem dispatchBusyAfter_cons (ewma : ℕ) (elevator busy : Bool)
    (calls : List (Bool × Bool)) :
    dispatchBusyAfter ewma ((elevator, busy) :: calls) =
      dispatchBusyAfter (blkMqUpdateDispatchBusy elevator ewma busy) calls := rfl

/-- Below 10 the update does not wrap: it is `(ewma * 7 + (busy ? 16 : 0)) / 8`. -/
theorem blkMqUpdateDispatchBusy_of_le {ewma : ℕ} (h : ewma ≤ 9) (elevator busy : Bool) :
    blkMqUpdateDispatchBusy elevator ewma busy =
      if elevator = true ∨ (ewma = 0 ∧ busy = false) then ewma
      else (ewma * 7 + if busy then 16 else 0) / 8 := by
  have hw : ewma * (8 - 1) + (if busy then 2 ^ 4 else 0) < 2 ^ 32 := by split <;> omega
  unfold blkMqUpdateDispatchBusy
  rw [Nat.mod_eq_of_lt hw]
  simp only [Bool.or_eq_true, Bool.and_eq_true, beq_iff_eq, Bool.not_eq_true', Nat.reduceSub,
    Nat.reducePow]

/-- One call keeps `dispatch_busy` at most 9. -/
theorem blkMqUpdateDispatchBusy_le_nine {ewma : ℕ} (h : ewma ≤ 9) (elevator busy : Bool) :
    blkMqUpdateDispatchBusy elevator ewma busy ≤ 9 := by
  rw [blkMqUpdateDispatchBusy_of_le h]
  split_ifs <;> omega

/-- From at most 9, every sequence of calls keeps `dispatch_busy` at most 9. -/
theorem dispatchBusyAfter_le_nine :
    ∀ (calls : List (Bool × Bool)) {ewma : ℕ}, ewma ≤ 9 → dispatchBusyAfter ewma calls ≤ 9
  | [], _, h => h
  | c :: calls, _, h =>
    dispatchBusyAfter_le_nine calls (blkMqUpdateDispatchBusy_le_nine h c.1 c.2)

/-- A call with `busy` false never raises `dispatch_busy`, whatever its value. -/
theorem blkMqUpdateDispatchBusy_idle_le (elevator : Bool) (ewma : ℕ) :
    blkMqUpdateDispatchBusy elevator ewma false ≤ ewma := by
  unfold blkMqUpdateDispatchBusy
  split
  · exact le_refl ewma
  · simp only [Bool.false_eq_true, ↓reduceIte, Nat.add_zero]
    have := Nat.mod_le (ewma * (8 - 1)) (2 ^ 32)
    omega

/-- An idle call without an elevator takes `dispatch_busy` from at most 9 down by one at least,
until zero, and to at most 7. -/
theorem blkMqUpdateDispatchBusy_idle_lt {ewma : ℕ} (h : ewma ≤ 9) :
    blkMqUpdateDispatchBusy false ewma false ≤ ewma - 1 ∧
      blkMqUpdateDispatchBusy false ewma false ≤ 7 := by
  rw [blkMqUpdateDispatchBusy_of_le h]
  simp only [Bool.false_eq_true, false_or, and_true, ↓reduceIte, Nat.add_zero]
  split_ifs <;> omega

/-- Idle calls without an elevator lower `dispatch_busy` by one each at least, until zero. -/
theorem dispatchBusyAfter_idle_le :
    ∀ (k : ℕ) {ewma : ℕ}, ewma ≤ 9 → dispatchBusyAfter ewma (List.replicate k (false, false)) ≤ ewma - k
  | 0, _, _ => le_refl _
  | k + 1, ewma, h => by
    have hstep := (blkMqUpdateDispatchBusy_idle_lt h).1
    have hrest := dispatchBusyAfter_idle_le k (blkMqUpdateDispatchBusy_le_nine h false false)
    rw [List.replicate_succ, dispatchBusyAfter_cons]
    omega

/-- From zero, over every sequence of calls with or without an elevator, `dispatch_busy` stays
in `[0, 9]`, so `ewma * 7 + 16` never wraps; a busy call without elevator leaves it at least 2;
a call that is not busy never raises it; and eight idle calls without elevator bring it back
to zero. -/
theorem dispatch_busy_bounded :
    (∀ calls : List (Bool × Bool),
      dispatchBusyAfter 0 calls ≤ 9 ∧ dispatchBusyAfter 0 calls * (8 - 1) + 2 ^ 4 < 2 ^ 32) ∧
    (∀ calls : List (Bool × Bool),
      2 ≤ blkMqUpdateDispatchBusy false (dispatchBusyAfter 0 calls) true) ∧
    (∀ (calls : List (Bool × Bool)) (elevator : Bool),
      blkMqUpdateDispatchBusy elevator (dispatchBusyAfter 0 calls) false ≤ dispatchBusyAfter 0 calls) ∧
    ∀ calls : List (Bool × Bool),
      dispatchBusyAfter (dispatchBusyAfter 0 calls) (List.replicate 8 (false, false)) = 0 := by
  have hle (calls : List (Bool × Bool)) : dispatchBusyAfter 0 calls ≤ 9 :=
    dispatchBusyAfter_le_nine calls (Nat.zero_le 9)
  refine ⟨fun calls => ⟨hle calls, by have := hle calls; omega⟩, fun calls => ?_,
    fun calls elevator => blkMqUpdateDispatchBusy_idle_le elevator _, fun calls => ?_⟩
  · rw [blkMqUpdateDispatchBusy_of_le (hle calls)]
    simp only [Bool.false_eq_true, false_or, Bool.true_eq_false, and_false, ↓reduceIte]
    omega
  · have hfirst := (blkMqUpdateDispatchBusy_idle_lt (hle calls)).2
    have hrest := dispatchBusyAfter_idle_le 7
      (blkMqUpdateDispatchBusy_le_nine (hle calls) false false)
    rw [List.replicate_succ, dispatchBusyAfter_cons]
    omega

end BlkMq
