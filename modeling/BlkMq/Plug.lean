import Mathlib.Data.List.Basic
import Mathlib.Data.List.Sort

/-!
# Flushing a plug list

`blk_mq_flush_plug_list` takes the requests a task has plugged, sorts them with `list_sort` and
`plug_ctx_cmp` by software queue and then by start sector, and hands them over in batches: each
time the software queue of the next request differs from that of the previous one, and once
more after the loop, the requests gathered on `ctx_list` go to `blk_mq_sched_insert_requests`.

`list_sort` (lib/list_sort.c, not among the sources) is taken by its contract: it returns a
permutation of the list in which no request is placed after one that the comparator puts
strictly before it. `blk_mq_sched_insert_requests` (not among the sources either) is taken as
handing over `ctx_list` and leaving it empty, which its end in `blk_mq_insert_requests` does
with `list_splice_tail_init`.

The loop keeps one invariant: the calls made, with the one still owed for `ctx_list`, flatten to
the requests taken off the sorted list, each with a non-empty batch of one software queue, in
strictly increasing order of software queue. On the sorted list this gives one call per
software queue, with exactly that queue's requests in sector order.
-/

namespace BlkMq

/-- A plugged request: its identity, `rq->q`, `rq->mq_ctx` (as the pointers compare) and
`blk_rq_pos(rq)`. -/
structure PlugRq where
  id : ℕ
  q : ℕ
  ctx : ℕ
  pos : ℕ
  deriving DecidableEq, Repr

/-- `plug_ctx_cmp(priv, a, b)`: 0 when `a` sorts strictly before `b` by software queue and then
start sector, 1 otherwise. -/
def plugCtxCmp (a b : PlugRq) : ℤ :=
  if a.ctx < b.ctx ∨ (a.ctx = b.ctx ∧ a.pos < b.pos) then 0 else 1

/-- A call `blk_mq_sched_insert_requests(this_q, this_ctx, &ctx_list, from_schedule)`. -/
structure InsertCall where
  q : Option ℕ
  ctx : ℕ
  batch : List PlugRq
  deriving DecidableEq, Repr

/-- The locals of `blk_mq_flush_plug_list` that its loop carries. -/
structure FlushState where
  /-- `this_q`, `NULL` at first. -/
  thisQ : Option ℕ
  /-- `this_ctx`, `NULL` at first. -/
  thisCtx : Option ℕ
  /-- `ctx_list`. -/
  ctxList : List PlugRq
  /-- The calls of `blk_mq_sched_insert_requests` made so far. -/
  calls : List InsertCall
  deriving DecidableEq, Repr

/-- `if (this_ctx) blk_mq_sched_insert_requests(this_q, this_ctx, &ctx_list, from_schedule);`,
which hands `ctx_list` over and leaves it empty. -/
def insertCtxList (s : FlushState) : FlushState :=
  match s.thisCtx with
  | none => s
  | some ctx => { s with calls := s.calls ++ [⟨s.thisQ, ctx, s.ctxList⟩], ctxList := [] }

/-- One iteration of the loop, for the request `rq` taken off the head of `list`. -/
def flushPlugStep (s : FlushState) (rq : PlugRq) : FlushState :=
  let s := if s.thisCtx ≠ some rq.ctx then
      { insertCtxList s with thisCtx := some rq.ctx, thisQ := some rq.q }
    else s
  { s with ctxList := s.ctxList ++ [rq] }

/-- What `blk_mq_flush_plug_list` leaves: its calls of `blk_mq_sched_insert_requests`, and
`plug->mq_list`. -/
structure FlushResult where
  calls : List InsertCall
  mqList : List PlugRq
  deriving DecidableEq, Repr

/-- `blk_mq_flush_plug_list(plug, from_schedule)`, for the requests on `plug->mq_list` and the
sort `list_sort` performs with a comparator. -/
def blkMqFlushPlugList (listSort : (PlugRq → PlugRq → ℤ) → List PlugRq → List PlugRq)
    (plug : List PlugRq) : FlushResult :=
  ⟨(insertCtxList ((listSort plugCtxCmp plug).foldl flushPlugStep ⟨none, none, [], []⟩)).calls, []⟩

/-- Requests `a` before `b` that `plug_ctx_cmp` does not invert: `a`'s software queue comes no
later, and in one software queue `a`'s start sector comes no later. -/
theorem plugCtxCmp_ne_zero {a b : PlugRq} :
    plugCtxCmp b a ≠ 0 ↔ a.ctx ≤ b.ctx ∧ (a.ctx = b.ctx → a.pos ≤ b.pos) := by
  unfold plugCtxCmp
  split_ifs with h <;> simp only [ne_eq, not_true_eq_false, one_ne_zero, not_false_eq_true,
    false_iff, true_iff] <;> omega

/-! ### The grouping loop -/

/-- A call as the loop makes it: a non-empty batch of one software queue, with the queue of
one of its requests. -/
structure InsertCall.Wf (c : InsertCall) : Prop where
  ne_nil : c.batch ≠ []
  ctx_eq : ∀ rq ∈ c.batch, rq.ctx = c.ctx
  q_eq : ∃ rq ∈ c.batch, c.q = some rq.q

/-- What holds of the loop after it has taken the requests `done`: the calls, with the one still
owed for `ctx_list`, flatten to `done`, go up in software queue, and are each well formed. -/
structure FlushInv (done : List PlugRq) (s : FlushState) : Prop where
  flat : (insertCtxList s).calls.flatMap InsertCall.batch = done
  sorted : (insertCtxList s).calls.Pairwise fun c d => c.ctx < d.ctx
  wf : ∀ c ∈ (insertCtxList s).calls, c.Wf
  start : s.thisCtx = none → s.ctxList = [] ∧ s.calls = []
  top : ∀ t, s.thisCtx = some t →
    (∃ x ∈ done, x.ctx = t) ∧ ∀ c ∈ (insertCtxList s).calls, c.ctx ≤ t

theorem flushInv_init : FlushInv [] ⟨none, none, [], []⟩ :=
  ⟨rfl, List.Pairwise.nil, by simp [insertCtxList], fun _ => ⟨rfl, rfl⟩, by simp⟩

/-- A request of the software queue of the previous one joins `ctx_list`. -/
theorem flushPlugStep_same {s : FlushState} {rq : PlugRq} (h : s.thisCtx = some rq.ctx) :
    (insertCtxList (flushPlugStep s rq)).calls =
      s.calls ++ [⟨s.thisQ, rq.ctx, s.ctxList ++ [rq]⟩] := by
  simp [flushPlugStep, insertCtxList, h]

/-- A request of another software queue hands `ctx_list` over and starts a new one. -/
theorem flushPlugStep_new {s : FlushState} {rq : PlugRq} (h : s.thisCtx ≠ some rq.ctx)
    (hstart : s.thisCtx = none → s.ctxList = []) :
    (insertCtxList (flushPlugStep s rq)).calls =
      (insertCtxList s).calls ++ [⟨some rq.q, rq.ctx, [rq]⟩] := by
  rcases ht : s.thisCtx with _ | t
  · simp [flushPlugStep, insertCtxList, ht, hstart ht]
  · have : t ≠ rq.ctx := fun e => h (by rw [ht, e])
    simp [flushPlugStep, insertCtxList, ht, this]

/-- Step lemma: the loop body keeps the invariant, for a request whose software queue comes no
earlier than that of any request taken before it. -/
theorem flushPlugStep_inv {done : List PlugRq} {s : FlushState} {rq : PlugRq}
    (hs : FlushInv done s) (hrq : ∀ x ∈ done, x.ctx ≤ rq.ctx) :
    FlushInv (done ++ [rq]) (flushPlugStep s rq) := by
  by_cases h : s.thisCtx = some rq.ctx
  · -- The last call owed grows by `rq`.
    have hold : (insertCtxList s).calls = s.calls ++ [⟨s.thisQ, rq.ctx, s.ctxList⟩] := by
      simp [insertCtxList, h]
    have hnew := flushPlugStep_same h
    have hthis : (flushPlugStep s rq).thisCtx = some rq.ctx := by simp [flushPlugStep, h]
    have hflat := hs.flat
    have hsorted := hs.sorted
    have hwf := hs.wf
    rw [hold] at hflat hsorted hwf
    have hlast := hwf _ (List.mem_append_right _ (List.mem_singleton_self _))
    refine ⟨?flat, ?sorted, ?wf, ?start, ?top⟩
    case flat => rw [hnew, ← hflat]; simp
    case sorted =>
      rw [hnew]
      simp only [List.pairwise_append, List.pairwise_singleton, List.mem_singleton, true_and]
        at hsorted ⊢
      exact ⟨hsorted.1, fun c hc d hd => by subst hd; exact hsorted.2 c hc ⟨_, _, s.ctxList⟩ rfl⟩
    case wf =>
      rw [hnew]
      intro c hc
      rcases List.mem_append.1 hc with hc | hc
      · exact hwf c (List.mem_append_left _ hc)
      · rw [List.mem_singleton] at hc
        subst hc
        obtain ⟨x, hx, hq⟩ := hlast.q_eq
        refine ⟨by simp, fun y hy => ?_, ⟨x, List.mem_append_left _ hx, hq⟩⟩
        rcases List.mem_append.1 hy with hy | hy
        · exact hlast.ctx_eq y hy
        · rw [List.mem_singleton.1 hy]
    case start => intro h'; rw [hthis] at h'; cases h'
    case top =>
      intro t ht
      rw [hthis] at ht
      cases ht
      obtain ⟨⟨x, hx, hxt⟩, hle⟩ := hs.top _ h
      refine ⟨⟨x, List.mem_append_left _ hx, hxt⟩, fun c hc => ?_⟩
      rw [hnew] at hc
      rcases List.mem_append.1 hc with hc | hc
      · exact hle c (by rw [hold]; exact List.mem_append_left _ hc)
      · rw [List.mem_singleton.1 hc]
  · -- `ctx_list` is handed over, and `rq` starts the next batch.
    have hnew := flushPlugStep_new h fun h' => (hs.start h').1
    have hthis : (flushPlugStep s rq).thisCtx = some rq.ctx := by simp [flushPlugStep, h]
    have hbelow : ∀ c ∈ (insertCtxList s).calls, c.ctx < rq.ctx := by
      intro c hc
      rcases ht : s.thisCtx with _ | t
      · simp [insertCtxList, ht, (hs.start ht).2] at hc
      · obtain ⟨⟨x, hx, hxt⟩, hle⟩ := hs.top t ht
        have := hrq x hx
        have := hle c hc
        have : t ≠ rq.ctx := fun e => h (ht.trans (congrArg some e))
        omega
    refine ⟨?flat, ?sorted, ?wf, ?start, ?top⟩
    case flat => rw [hnew, List.flatMap_append, hs.flat]; simp
    case sorted =>
      rw [hnew, List.pairwise_append]
      exact ⟨hs.sorted, List.pairwise_singleton _ _,
        fun c hc d hd => by rw [List.mem_singleton.1 hd]; exact hbelow c hc⟩
    case wf =>
      rw [hnew]
      intro c hc
      rcases List.mem_append.1 hc with hc | hc
      · exact hs.wf c hc
      · rw [List.mem_singleton.1 hc]
        exact ⟨by simp, by simp, ⟨rq, by simp, rfl⟩⟩
    case start => intro h'; rw [hthis] at h'; cases h'
    case top =>
      intro t ht
      rw [hthis] at ht
      cases ht
      refine ⟨⟨rq, by simp, rfl⟩, fun c hc => ?_⟩
      rw [hnew] at hc
      rcases List.mem_append.1 hc with hc | hc
      · exact Nat.le_of_lt (hbelow c hc)
      · rw [List.mem_singleton.1 hc]

/-- Run lemma: over a list in order of software queue, the loop keeps the invariant. -/
theorem foldl_flushPlugStep_inv : ∀ (l : List PlugRq) {done : List PlugRq} {s : FlushState},
    FlushInv done s → l.Pairwise (fun a b => a.ctx ≤ b.ctx) →
      (∀ x ∈ done, ∀ y ∈ l, x.ctx ≤ y.ctx) → FlushInv (done ++ l) (l.foldl flushPlugStep s)
  | [], done, s, hs, _, _ => by simpa using hs
  | rq :: l, done, s, hs, hl, hdone => by
    rw [List.pairwise_cons] at hl
    have hs' := flushPlugStep_inv hs fun x hx => hdone x hx rq (List.mem_cons_self _ _)
    rw [List.foldl_cons, ← List.singleton_append, ← List.append_assoc]
    refine foldl_flushPlugStep_inv l hs' hl.2 fun x hx y hy => ?_
    rcases List.mem_append.1 hx with hx | hx
    · exact hdone x hx y (List.mem_cons_of_mem _ hy)
    · rw [List.mem_singleton.1 hx]
      exact hl.1 y hy

/-- After a request the loop always has a software queue. -/
@[simp] theorem flushPlugStep_thisCtx (s : FlushState) (rq : PlugRq) :
    (flushPlugStep s rq).thisCtx = some rq.ctx := by
  unfold flushPlugStep
  split_ifs with h
  · rfl
  · exact not_not.1 h

/-- In any order of the requests, the loop body passes its request on: the calls, with the one
still owed for `ctx_list`, flatten to what they did before followed by the request. -/
theorem flushPlugStep_flatMap {s : FlushState} (hstart : s.thisCtx = none → s.ctxList = [])
    (rq : PlugRq) :
    (insertCtxList (flushPlugStep s rq)).calls.flatMap InsertCall.batch =
      (insertCtxList s).calls.flatMap InsertCall.batch ++ [rq] := by
  by_cases h : s.thisCtx = some rq.ctx
  · rw [flushPlugStep_same h]
    simp [insertCtxList, h]
  · rw [flushPlugStep_new h hstart]
    simp

/-- Run lemma: whatever the order of the list, the loop passes every request on, in order. -/
theorem foldl_flushPlugStep_flatMap : ∀ (l : List PlugRq) {s : FlushState},
    (s.thisCtx = none → s.ctxList = []) →
      (insertCtxList (l.foldl flushPlugStep s)).calls.flatMap InsertCall.batch =
        (insertCtxList s).calls.flatMap InsertCall.batch ++ l
  | [], _, _ => by simp
  | rq :: l, s, hs => by
    rw [List.foldl_cons, foldl_flushPlugStep_flatMap l (by simp), flushPlugStep_flatMap hs]
    simp

/-- `blk_mq_flush_plug_list` hands over exactly the list `list_sort` returned, whatever that is. -/
theorem blkMqFlushPlugList_flatMap (listSort : (PlugRq → PlugRq → ℤ) → List PlugRq → List PlugRq)
    (plug : List PlugRq) :
    (blkMqFlushPlugList listSort plug).calls.flatMap InsertCall.batch = listSort plugCtxCmp plug := by
  simpa [blkMqFlushPlugList, insertCtxList] using
    @foldl_flushPlugStep_flatMap (listSort plugCtxCmp plug) ⟨none, none, [], []⟩ fun _ => rfl

/-! ### The batches -/

/-- Batches of distinct software queues, in increasing order: the requests of one software
queue are exactly the batch of its call. -/
theorem filter_flatMap_batch : ∀ {calls : List InsertCall},
    calls.Pairwise (fun c d => c.ctx < d.ctx) → (∀ c ∈ calls, c.Wf) →
      ∀ c ∈ calls, (calls.flatMap InsertCall.batch).filter (fun rq => rq.ctx = c.ctx) = c.batch
  | [], _, _, c, hc => absurd hc (List.not_mem_nil _)
  | d :: calls, hsorted, hwf, c, hc => by
    rw [List.pairwise_cons] at hsorted
    have hrest := filter_flatMap_batch hsorted.2 fun e he => hwf e (List.mem_cons_of_mem _ he)
    rw [List.flatMap_cons, List.filter_append]
    rcases List.mem_cons.1 hc with rfl | hc
    · rw [List.filter_eq_self.2 fun rq hrq => by
          simp [(hwf c (List.mem_cons_self _ _)).ctx_eq rq hrq],
        List.filter_eq_nil_iff.2, List.append_nil]
      intro rq hrq
      obtain ⟨e, he, hrqe⟩ := List.mem_flatMap.1 hrq
      have := hsorted.1 e he
      simp [(hwf e (List.mem_cons_of_mem _ he)).ctx_eq rq hrqe]
      omega
    · rw [hrest c hc, List.filter_eq_nil_iff.2, List.nil_append]
      intro rq hrq
      have := hsorted.1 c hc
      simp [(hwf d (List.mem_cons_self _ _)).ctx_eq rq hrq]
      omega

theorem flush_plug_list_batches
    (listSort : (PlugRq → PlugRq → ℤ) → List PlugRq → List PlugRq) (plug : List PlugRq)
    (hperm : (listSort plugCtxCmp plug).Perm plug)
    (hsorted : (listSort plugCtxCmp plug).Pairwise fun a b => plugCtxCmp b a ≠ 0)
    (hq : ∀ a ∈ plug, ∀ b ∈ plug, a.ctx = b.ctx → a.q = b.q) :
    (blkMqFlushPlugList listSort plug).mqList = [] ∧
    ((blkMqFlushPlugList listSort plug).calls.map InsertCall.ctx).Nodup ∧
    (∀ ctx, ctx ∈ (blkMqFlushPlugList listSort plug).calls.map InsertCall.ctx ↔
      ∃ rq ∈ plug, rq.ctx = ctx) ∧
    (∀ c ∈ (blkMqFlushPlugList listSort plug).calls,
      c.batch ≠ [] ∧ c.batch.Perm (plug.filter fun rq => rq.ctx = c.ctx) ∧
      c.batch.Pairwise (fun a b => a.pos ≤ b.pos) ∧
      ∀ rq ∈ c.batch, c.q = some rq.q ∧ c.ctx = rq.ctx) ∧
    ((blkMqFlushPlugList listSort plug).calls.flatMap InsertCall.batch).Perm plug := by
  obtain ⟨sorted, hs⟩ : ∃ l, listSort plugCtxCmp plug = l := ⟨_, rfl⟩
  rw [hs] at hperm hsorted
  have hinv := foldl_flushPlugStep_inv sorted flushInv_init
    (hsorted.imp fun h => (plugCtxCmp_ne_zero.1 h).1) (by simp)
  rw [List.nil_append] at hinv
  have hmem : ∀ c ∈ (blkMqFlushPlugList listSort plug).calls, ∀ rq ∈ c.batch, rq ∈ plug :=
    fun c hc rq hrq => hperm.subset (hinv.flat ▸
      List.mem_flatMap.2 ⟨c, by simpa [blkMqFlushPlugList, hs] using hc, hrq⟩)
  have hcalls : (blkMqFlushPlugList listSort plug).calls =
      (insertCtxList (sorted.foldl flushPlugStep ⟨none, none, [], []⟩)).calls := by
    rw [blkMqFlushPlugList, hs]
  rw [hcalls] at hmem ⊢
  refine ⟨rfl, (List.pairwise_map.2 hinv.sorted).imp Nat.ne_of_lt, fun ctx => ?_, fun c hc => ?_,
    by rw [hinv.flat]; exact hperm⟩
  · constructor
    · rw [List.mem_map]
      rintro ⟨c, hc, rfl⟩
      obtain ⟨rq, hrq⟩ := List.exists_mem_of_ne_nil _ (hinv.wf c hc).ne_nil
      exact ⟨rq, hmem c hc rq hrq, (hinv.wf c hc).ctx_eq rq hrq⟩
    · rintro ⟨rq, hrq, rfl⟩
      obtain ⟨c, hc, hrqc⟩ := List.mem_flatMap.1 (hinv.flat ▸ hperm.symm.subset hrq)
      exact List.mem_map.2 ⟨c, hc, ((hinv.wf c hc).ctx_eq rq hrqc).symm⟩
  · have hwf := hinv.wf c hc
    have hbatch := filter_flatMap_batch hinv.sorted hinv.wf c hc
    rw [hinv.flat] at hbatch
    refine ⟨hwf.ne_nil, hbatch ▸ hperm.filter _, ?_, fun rq hrq => ?_⟩
    · rw [← hbatch]
      refine (hsorted.sublist (List.filter_sublist _)).imp_of_mem fun ha hb hab => ?_
      have ha' := (List.mem_filter.1 ha).2
      have hb' := (List.mem_filter.1 hb).2
      simp only [decide_eq_true_eq] at ha' hb'
      exact (plugCtxCmp_ne_zero.1 hab).2 (ha'.trans hb'.symm)
    · obtain ⟨x, hx, hqx⟩ := hwf.q_eq
      refine ⟨hqx.trans (congrArg some (hq x (hmem c hc x hx) rq (hmem c hc rq hrq) ?_)),
        (hwf.ctx_eq rq hrq).symm⟩
      rw [hwf.ctx_eq x hx, hwf.ctx_eq rq hrq]

/-- A sort meeting the contract of `list_sort`: an insertion sort that puts `a` before `b` when
`cmp(a, b) <= 0`, as the merges of `list_sort` do. -/
def insertionListSort (cmp : PlugRq → PlugRq → ℤ) (l : List PlugRq) : List PlugRq :=
  l.insertionSort fun a b => cmp a b ≤ 0

/-- Requests of two queues, one software queue with two requests out of sector order. -/
def twoQueuePlug : List PlugRq := [⟨0, 7, 2, 100⟩, ⟨1, 7, 1, 50⟩, ⟨2, 7, 2, 40⟩, ⟨3, 9, 5, 8⟩]

theorem flush_plug_list_batches_insertion_sort :
    (insertionListSort plugCtxCmp twoQueuePlug).Perm twoQueuePlug ∧
    (insertionListSort plugCtxCmp twoQueuePlug).Pairwise (fun a b => plugCtxCmp b a ≠ 0) ∧
    (∀ a ∈ twoQueuePlug, ∀ b ∈ twoQueuePlug, a.ctx = b.ctx → a.q = b.q) ∧
    (blkMqFlushPlugList insertionListSort twoQueuePlug).mqList = [] ∧
    ((blkMqFlushPlugList insertionListSort twoQueuePlug).calls.map InsertCall.ctx).Nodup ∧
    (∀ ctx, ctx ∈ (blkMqFlushPlugList insertionListSort twoQueuePlug).calls.map InsertCall.ctx ↔
      ∃ rq ∈ twoQueuePlug, rq.ctx = ctx) ∧
    (∀ c ∈ (blkMqFlushPlugList insertionListSort twoQueuePlug).calls,
      c.batch ≠ [] ∧ c.batch.Perm (twoQueuePlug.filter fun rq => rq.ctx = c.ctx) ∧
      c.batch.Pairwise (fun a b => a.pos ≤ b.pos) ∧
      ∀ rq ∈ c.batch, c.q = some rq.q ∧ c.ctx = rq.ctx) ∧
    ((blkMqFlushPlugList insertionListSort twoQueuePlug).calls.flatMap InsertCall.batch).Perm
      twoQueuePlug :=
  ⟨by decide, by decide, by decide,
    flush_plug_list_batches insertionListSort twoQueuePlug (by decide) (by decide) (by decide)⟩

end BlkMq
