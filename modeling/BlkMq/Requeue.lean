import BlkMq.SwQueue

/-!
# The requeue list

`blk_mq_add_to_requeue_list` parks a request on `q->requeue_list`: at the head, marked with
`REQ_SOFTBARRIER` (a flag of the I/O schedulers that blk-mq borrows for this), or at the tail.
`blk_mq_requeue_work` splices the list off, inserts the marked requests at the head of their
queues in list order, clearing the mark, and then the others at the tail. Requests added at the
head sit on the list in the reverse of the order they came in, so the head insertions put them
back at the front of their queues in the order they came in.

`blk_mq_sched_insert_request` is in `blk-mq-sched.c`, not among the sources. Without an elevator
it is `__blk_mq_insert_request` on the request's software queue, and so it is here.
-/

namespace BlkMq

open Function (update)

/-- The requeue list, `REQ_SOFTBARRIER` of each request, the software queues, and the calls of
`blk_mq_sched_insert_request`. -/
structure RequeueState where
  /-- `q->requeue_list`. -/
  requeueList : List ℕ
  /-- `REQ_SOFTBARRIER` in `rq->cmd_flags`. -/
  softbarrier : ℕ → Bool
  /-- The software queues and the pending bits of the hardware queues. -/
  sw : SwState
  /-- Calls of `blk_mq_sched_insert_request`, with `at_head`. -/
  inserts : List (ℕ × Bool)

/-- `blk_mq_add_to_requeue_list(rq, at_head, kick_requeue_list)`; the kick only schedules
`blk_mq_requeue_work`. -/
def blkMqAddToRequeueList (s : RequeueState) (rq : ℕ) (atHead : Bool) : RequeueState :=
  if atHead then
    { s with softbarrier := update s.softbarrier rq true, requeueList := rq :: s.requeueList }
  else { s with requeueList := s.requeueList ++ [rq] }

/-- A sequence of calls of `blk_mq_add_to_requeue_list`, each given as (`rq`, `at_head`). -/
def addsToRequeueList (s : RequeueState) (adds : List (ℕ × Bool)) : RequeueState :=
  adds.foldl (fun s a => blkMqAddToRequeueList s a.1 a.2) s

section Requeue

variable (m : SwMap) (ctxOf : ℕ → ℕ)

/-- `blk_mq_sched_insert_request(rq, at_head, false, false)` without an elevator, for a request
of the software queue of CPU `ctxOf rq`. -/
def blkMqSchedInsertRequest (s : RequeueState) (rq : ℕ) (atHead : Bool) : RequeueState :=
  { s with
    sw := __blkMqInsertRequest m s.sw (m.mqMap (ctxOf rq)) (ctxOf rq) rq atHead
    inserts := s.inserts ++ [(rq, atHead)] }

/-- The first loop of `blk_mq_requeue_work`: each request marked `REQ_SOFTBARRIER`, in list
order, loses the mark, leaves the list and is inserted at the head. Returns the list left. -/
def requeueHeads : RequeueState → List ℕ → RequeueState × List ℕ
  | s, [] => (s, [])
  | s, rq :: rest =>
    if !s.softbarrier rq then
      let r := requeueHeads s rest
      (r.1, rq :: r.2)
    else
      requeueHeads
        (blkMqSchedInsertRequest m ctxOf { s with softbarrier := update s.softbarrier rq false } rq
          true)
        rest

/-- The second loop: the requests left, in order, inserted at the tail. -/
def requeueTails : RequeueState → List ℕ → RequeueState
  | s, [] => s
  | s, rq :: rest => requeueTails (blkMqSchedInsertRequest m ctxOf s rq false) rest

/-- `blk_mq_requeue_work`: splice `q->requeue_list` off, then the two loops. The closing
`blk_mq_run_hw_queues` is left out. -/
def blkMqRequeueWork (s : RequeueState) : RequeueState :=
  let r := requeueHeads m ctxOf { s with requeueList := [] } s.requeueList
  requeueTails m ctxOf r.1 r.2

@[simp] theorem blkMqSchedInsertRequest_softbarrier (s : RequeueState) (rq : ℕ) (atHead : Bool) :
    (blkMqSchedInsertRequest m ctxOf s rq atHead).softbarrier = s.softbarrier := rfl

@[simp] theorem blkMqSchedInsertRequest_requeueList (s : RequeueState) (rq : ℕ) (atHead : Bool) :
    (blkMqSchedInsertRequest m ctxOf s rq atHead).requeueList = s.requeueList := rfl

@[simp] theorem blkMqSchedInsertRequest_inserts (s : RequeueState) (rq : ℕ) (atHead : Bool) :
    (blkMqSchedInsertRequest m ctxOf s rq atHead).inserts = s.inserts ++ [(rq, atHead)] := rfl

/-- An insertion puts the request at the head or the tail of its own software queue. -/
theorem blkMqSchedInsertRequest_rqList (s : RequeueState) (rq : ℕ) (atHead : Bool) (cpu : ℕ) :
    (blkMqSchedInsertRequest m ctxOf s rq atHead).sw.rqList cpu =
      if ctxOf rq = cpu then (if atHead then rq :: s.sw.rqList cpu else s.sw.rqList cpu ++ [rq])
      else s.sw.rqList cpu := by
  simp only [blkMqSchedInsertRequest, __blkMqInsertRequest, __blkMqInsertReqList,
    blkMqHctxMarkPending_rqList, SwState.setList_rqList]
  by_cases h : ctxOf rq = cpu
  · subst h; simp
  · simp [h, Ne.symm h]

/-- The head loop on a list without repeats: it leaves the unmarked requests in order, inserts
the marked ones at the head in list order, and clears the mark of every request of the list. -/
theorem requeueHeads_spec :
    ∀ (l : List ℕ) (s : RequeueState), l.Nodup →
      (requeueHeads m ctxOf s l).2 = l.filter (fun r => !s.softbarrier r) ∧
      (requeueHeads m ctxOf s l).1.inserts = s.inserts ++ (l.filter s.softbarrier).map (·, true) ∧
      (∀ r, (requeueHeads m ctxOf s l).1.softbarrier r = (s.softbarrier r && !decide (r ∈ l))) ∧
      (∀ cpu, (requeueHeads m ctxOf s l).1.sw.rqList cpu =
        ((l.filter s.softbarrier).filter (ctxOf · = cpu)).reverse ++ s.sw.rqList cpu) ∧
      (requeueHeads m ctxOf s l).1.requeueList = s.requeueList
  | [], s, _ => by simp [requeueHeads]
  | rq :: rest, s, hnd => by
    obtain ⟨hrq, hnd'⟩ := List.nodup_cons.mp hnd
    have hne {r : ℕ} (hr : r ∈ rest) : r ≠ rq := fun e => hrq (e ▸ hr)
    by_cases hmark : s.softbarrier rq = true
    · set s₁ := blkMqSchedInsertRequest m ctxOf { s with softbarrier := update s.softbarrier rq false }
        rq true with hs₁
      have hsb : ∀ r ∈ rest, s₁.softbarrier r = s.softbarrier r := fun r hr => by
        simp [hs₁, Function.update_apply, hne hr]
      obtain ⟨hleft, hins, hmarks, hlists, hreq⟩ := requeueHeads_spec rest s₁ hnd'
      simp only [requeueHeads, hmark, Bool.not_true, Bool.false_eq_true, ↓reduceIte]
      rw [List.filter_congr fun r hr => congrArg (!·) (hsb r hr)] at hleft
      rw [List.filter_congr hsb] at hins hlists
      refine ⟨by simpa [hmark] using hleft, by simp [hins, hs₁, hmark], fun r => ?_,
        fun cpu => ?_, by simp [hreq, hs₁]⟩
      · rw [hmarks r]
        by_cases hr : r = rq
        · subst hr; simp [hs₁]
        · simp [hs₁, Function.update_apply, hr]
      · rw [hlists cpu, hs₁, blkMqSchedInsertRequest_rqList]
        by_cases hc : ctxOf rq = cpu <;> simp [List.filter_cons, hmark, hc]
    · have hmark : s.softbarrier rq = false := by simpa using hmark
      obtain ⟨hleft, hins, hmarks, hlists, hreq⟩ := requeueHeads_spec rest s hnd'
      simp only [requeueHeads, hmark, Bool.not_false, ↓reduceIte]
      refine ⟨by simp [hleft, hmark], by simp [hins, hmark], fun r => ?_, fun cpu => ?_, hreq⟩
      · rw [hmarks r]
        by_cases hr : r = rq
        · subst hr; simp [hmark]
        · simp [hr]
      · simp [hlists cpu, List.filter_cons, hmark]

/-- The tail loop inserts its requests at the tail, in order, and touches no mark. -/
theorem requeueTails_spec :
    ∀ (l : List ℕ) (s : RequeueState),
      (requeueTails m ctxOf s l).inserts = s.inserts ++ l.map (·, false) ∧
      (requeueTails m ctxOf s l).softbarrier = s.softbarrier ∧
      (∀ cpu, (requeueTails m ctxOf s l).sw.rqList cpu =
        s.sw.rqList cpu ++ l.filter (ctxOf · = cpu)) ∧
      (requeueTails m ctxOf s l).requeueList = s.requeueList
  | [], s => by simp [requeueTails]
  | rq :: rest, s => by
    obtain ⟨hins, hmarks, hlists, hreq⟩ := requeueTails_spec rest (blkMqSchedInsertRequest m ctxOf s rq false)
    refine ⟨by simp [requeueTails, hins], by simp [requeueTails, hmarks], fun cpu => ?_,
      by simp [requeueTails, hreq]⟩
    rw [requeueTails, hlists cpu, blkMqSchedInsertRequest_rqList]
    by_cases hc : ctxOf rq = cpu <;> simp [List.filter_cons, hc]

end Requeue

/-- After a sequence of adds the list holds the requests added at the head in the reverse of
their order, then what it held, then the requests added at the tail in their order; the ones
added at the head are marked. -/
theorem addsToRequeueList_spec :
    ∀ (adds : List (ℕ × Bool)) (s : RequeueState),
      (addsToRequeueList s adds).requeueList =
        ((adds.filter (·.2)).map Prod.fst).reverse ++ s.requeueList ++
          (adds.filter (!·.2)).map Prod.fst ∧
      (∀ r, (addsToRequeueList s adds).softbarrier r =
        (decide (r ∈ (adds.filter (·.2)).map Prod.fst) || s.softbarrier r)) ∧
      (addsToRequeueList s adds).sw = s.sw ∧ (addsToRequeueList s adds).inserts = s.inserts
  | [], s => by simp [addsToRequeueList]
  | (rq, atHead) :: adds, s => by
    obtain ⟨hlist, hmarks, hsw, hins⟩ := addsToRequeueList_spec adds (blkMqAddToRequeueList s rq atHead)
    have hstep : addsToRequeueList s ((rq, atHead) :: adds) =
        addsToRequeueList (blkMqAddToRequeueList s rq atHead) adds := rfl
    rw [hstep]
    refine ⟨by rw [hlist]; cases atHead <;> simp [blkMqAddToRequeueList], fun r => ?_,
      by rw [hsw]; cases atHead <;> rfl, by rw [hins]; cases atHead <;> rfl⟩
    rw [hmarks r]
    cases atHead
    · simp [blkMqAddToRequeueList]
    · by_cases hr : r = rq
      · subst hr; simp [blkMqAddToRequeueList]
      · simp [blkMqAddToRequeueList, Function.update_apply, hr]

/-- For every sequence of `blk_mq_add_to_requeue_list` calls on distinct requests without
`REQ_SOFTBARRIER`, onto an empty requeue list, followed by `blk_mq_requeue_work`: each request
is inserted once; those added at the head first, with `at_head` true and in the reverse of the
order they were added, then those added at the tail, with `at_head` false and in their order;
every request ends without `REQ_SOFTBARRIER` and the requeue list empty; and each software queue
ends with its head-added requests in the order they were added, then what it held, then its
tail-added requests in their order. -/
theorem requeue_work_order (m : SwMap) (ctxOf : ℕ → ℕ) (s : RequeueState) (adds : List (ℕ × Bool))
    (hempty : s.requeueList = []) (hnd : (adds.map Prod.fst).Nodup)
    (hfree : ∀ a ∈ adds, s.softbarrier a.1 = false) :
    (blkMqRequeueWork m ctxOf (addsToRequeueList s adds)).inserts =
        s.inserts ++ ((adds.filter (·.2)).map Prod.fst).reverse.map (·, true) ++
          ((adds.filter (!·.2)).map Prod.fst).map (·, false) ∧
    (∀ a ∈ adds, (blkMqRequeueWork m ctxOf (addsToRequeueList s adds)).softbarrier a.1 = false) ∧
    (blkMqRequeueWork m ctxOf (addsToRequeueList s adds)).requeueList = [] ∧
    ∀ cpu, (blkMqRequeueWork m ctxOf (addsToRequeueList s adds)).sw.rqList cpu =
      ((adds.filter (·.2)).map Prod.fst).filter (ctxOf · = cpu) ++ s.sw.rqList cpu ++
        ((adds.filter (!·.2)).map Prod.fst).filter (ctxOf · = cpu) := by
  set heads := (adds.filter (·.2)).map Prod.fst with hheads
  set tails := (adds.filter (!·.2)).map Prod.fst with htails
  obtain ⟨hlist, hmarks, hsw, hins⟩ := addsToRequeueList_spec adds s
  set s₁ := addsToRequeueList s adds
  rw [hempty, List.append_nil] at hlist
  -- The spliced list is the requests of `adds`, each once.
  have hperm : (heads.reverse ++ tails).Perm (adds.map Prod.fst) := by
    have h := (List.filter_append_perm (·.2) adds).map Prod.fst
    rw [List.map_append] at h
    exact ((List.reverse_perm heads).append_right tails).trans h
  have hnd' : (heads.reverse ++ tails).Nodup := hperm.nodup_iff.mpr hnd
  have hdisj : ∀ r ∈ tails, r ∉ heads := fun r hr hh =>
    List.disjoint_of_nodup_append hnd' (List.mem_reverse.mpr hh) hr
  have hmark₁ : ∀ r ∈ heads.reverse ++ tails, s₁.softbarrier r = decide (r ∈ heads) := by
    intro r hr
    obtain ⟨a, ha, rfl⟩ := List.mem_map.mp (hperm.subset hr)
    rw [hmarks, hfree a ha, Bool.or_false]
  set s₀ : RequeueState := { s₁ with requeueList := [] }
  obtain ⟨hleft, hins₀, hmarks₀, hlists₀, hreq₀⟩ := requeueHeads_spec m ctxOf _ s₀ hnd'
  have hfilter : (heads.reverse ++ tails).filter s₀.softbarrier = heads.reverse := by
    rw [List.filter_congr hmark₁, List.filter_append,
      List.filter_eq_self.mpr fun r hr => by simpa using hr,
      List.filter_eq_nil_iff.mpr fun r hr => by simpa using hdisj r hr, List.append_nil]
  have hleft' : (heads.reverse ++ tails).filter (fun r => !s₀.softbarrier r) = tails := by
    rw [List.filter_congr fun r hr => congrArg (!·) (hmark₁ r hr), List.filter_append,
      List.filter_eq_nil_iff.mpr fun r hr => by simpa using hr,
      List.filter_eq_self.mpr fun r hr => by simpa using hdisj r hr, List.nil_append]
  obtain ⟨hinsT, hmarksT, hlistsT, hreqT⟩ :=
    requeueTails_spec m ctxOf (requeueHeads m ctxOf s₀ (heads.reverse ++ tails)).2
      (requeueHeads m ctxOf s₀ (heads.reverse ++ tails)).1
  have hwork : blkMqRequeueWork m ctxOf s₁ = requeueTails m ctxOf
      (requeueHeads m ctxOf s₀ (heads.reverse ++ tails)).1
      (requeueHeads m ctxOf s₀ (heads.reverse ++ tails)).2 := by
    simp only [blkMqRequeueWork, hlist]
  rw [hwork]
  refine ⟨?_, fun a ha => ?_, by rw [hreqT, hreq₀], fun cpu => ?_⟩
  · rw [hinsT, hins₀, hfilter, hleft, hleft']
    simp [hins, List.map_reverse]
  · have hmem : a.1 ∈ heads.reverse ++ tails := hperm.symm.subset (List.mem_map_of_mem _ ha)
    rw [hmarksT, hmarks₀]
    simp [hmem]
  · rw [hlistsT, hlists₀, hfilter, hleft, hleft', List.filter_reverse, List.reverse_reverse]
    simp [hsw, List.append_assoc]

/-- Requests 1 and 3 added at the head and 2 at the tail, all of CPU 0: 3 and 1 are inserted at
the head, then 2 at the tail, and the software queue reads 1, 3, 2. -/
theorem requeue_work_order_three :
    (RequeueState.mk [] (fun _ => false) SwState.empty []).requeueList = [] ∧ ([(1, true), (2, false), (3, true)].map Prod.fst).Nodup ∧
    (∀ a ∈ [(1, true), (2, false), (3, true)], (RequeueState.mk [] (fun _ => false) SwState.empty []).softbarrier a.1 = false) ∧
    ((blkMqRequeueWork ⟨fun _ => 0, fun _ => 0, fun _ => []⟩ (fun _ => 0) (addsToRequeueList (RequeueState.mk [] (fun _ => false) SwState.empty []) [(1, true), (2, false), (3, true)])).inserts =
        (RequeueState.mk [] (fun _ => false) SwState.empty []).inserts ++ (([(1, true), (2, false), (3, true)].filter (·.2)).map Prod.fst).reverse.map (·, true) ++
          (([(1, true), (2, false), (3, true)].filter (!·.2)).map Prod.fst).map (·, false) ∧
    (∀ a ∈ [(1, true), (2, false), (3, true)], (blkMqRequeueWork ⟨fun _ => 0, fun _ => 0, fun _ => []⟩ (fun _ => 0) (addsToRequeueList (RequeueState.mk [] (fun _ => false) SwState.empty []) [(1, true), (2, false), (3, true)])).softbarrier a.1 = false) ∧
    (blkMqRequeueWork ⟨fun _ => 0, fun _ => 0, fun _ => []⟩ (fun _ => 0) (addsToRequeueList (RequeueState.mk [] (fun _ => false) SwState.empty []) [(1, true), (2, false), (3, true)])).requeueList = [] ∧
    ∀ cpu, (blkMqRequeueWork ⟨fun _ => 0, fun _ => 0, fun _ => []⟩ (fun _ => 0) (addsToRequeueList (RequeueState.mk [] (fun _ => false) SwState.empty []) [(1, true), (2, false), (3, true)])).sw.rqList cpu =
      (([(1, true), (2, false), (3, true)].filter (·.2)).map Prod.fst).filter ((fun _ => 0) · = cpu) ++ (RequeueState.mk [] (fun _ => false) SwState.empty []).sw.rqList cpu ++
        (([(1, true), (2, false), (3, true)].filter (!·.2)).map Prod.fst).filter ((fun _ => 0) · = cpu)) :=
  ⟨rfl, by decide, fun _ _ => rfl,
    requeue_work_order ⟨fun _ => 0, fun _ => 0, fun _ => []⟩ (fun _ => 0) _ _ rfl (by decide) fun _ _ => rfl⟩

end BlkMq
