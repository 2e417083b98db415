import BlkMq.Freeze
import BlkMq.RqMaps

/-!
# Changing `q->nr_requests`

`blk_mq_update_nr_requests` freezes and quiesces the queue, has `blk_mq_tag_update_depth` resize
the tag map of every hardware context that has one (`hctx->sched_tags` when a scheduler is
attached, `hctx->tags` otherwise), stops at the first error, sets `q->nr_requests` only when no
error came, and unquiesces and unfreezes the queue.

Nothing is rolled back on an error: the hardware contexts before the failing one keep their new
depth. The freeze depth comes back to what it was, but `blk_mq_unquiesce_queue` clears
`QUEUE_FLAG_QUIESCED` whatever it was before the call.
-/

namespace BlkMq

/-- A hardware context as `blk_mq_update_nr_requests` sees it: the depth of the tag map
`hctx->tags` and of `hctx->sched_tags`, `none` for `NULL`. -/
structure NrHctx where
  tags : Option ℕ
  schedTags : Option ℕ
  deriving DecidableEq, Repr

/-- The request queue: whether `q->tag_set` is set, `q->queue_hw_ctx`, `q->nr_requests`,
`q->mq_freeze_depth` with `q->q_usage_counter`, and `QUEUE_FLAG_QUIESCED`. -/
structure NrQueue where
  tagSet : Bool
  hctxs : List NrHctx
  nrRequests : ℕ
  freeze : FreezeQueue
  quiesced : Bool
  deriving DecidableEq, Repr

/-- `blk_mq_tag_update_depth` on a tag map of depth `depth`, returning `ret`: the depth after.
Modelled from the spec, the function being outside these sources: on success the map has depth
`nr`, and an error leaves it as it was. -/
def blkMqTagUpdateDepth (depth nr : ℕ) (ret : ℤ) : ℕ := if ret = 0 then nr else depth

/-- The body of the loop of `blk_mq_update_nr_requests` on a hardware context with tags:
`blk_mq_tag_update_depth` on `hctx->sched_tags` when a scheduler is attached, on `hctx->tags`
otherwise, returning `ret`. -/
def NrHctx.updateDepth (h : NrHctx) (nr : ℕ) (ret : ℤ) : NrHctx :=
  match h.schedTags with
  | none => { h with tags := h.tags.map fun d => blkMqTagUpdateDepth d nr ret }
  | some d => { h with schedTags := some (blkMqTagUpdateDepth d nr ret) }

/-- `queue_for_each_hw_ctx` in `blk_mq_update_nr_requests`, from hardware context `i`, where
`blk_mq_tag_update_depth` returns `upd i`: the hardware contexts, and `ret`. -/
def updateNrRequestsLoop (nr : ℕ) (upd : ℕ → ℤ) : ℕ → List NrHctx → List NrHctx × ℤ
  | _, [] => ([], 0)
  | i, h :: hs =>
    if h.tags.isNone then
      let r := updateNrRequestsLoop nr upd (i + 1) hs
      (h :: r.1, r.2)
    else if upd i ≠ 0 then (h.updateDepth nr (upd i) :: hs, upd i)
    else
      let r := updateNrRequestsLoop nr upd (i + 1) hs
      (h.updateDepth nr (upd i) :: r.1, r.2)

/-- `blk_mq_update_nr_requests(q, nr)`: the queue, and the return value. -/
def blkMqUpdateNrRequests (q : NrQueue) (nr : ℕ) (upd : ℕ → ℤ) : NrQueue × ℤ :=
  if !q.tagSet then (q, -EINVAL)
  else
    let q := { q with freeze := blkFreezeQueueStart q.freeze }
    let q := { q with quiesced := true }
    let r := updateNrRequestsLoop nr upd 0 q.hctxs
    let q := { q with hctxs := r.1 }
    let q := if r.2 = 0 then { q with nrRequests := nr } else q
    let q := { q with quiesced := false }
    ({ q with freeze := blkMqUnfreezeQueue q.freeze }, r.2)

/-- A hardware context after a pass in which its `blk_mq_tag_update_depth` succeeded: as it was
when it has no tags, and with its tag map resized to `nr` when it has. -/
def NrHctx.resized (nr : ℕ) (h : NrHctx) : NrHctx :=
  if h.tags.isNone then h else h.updateDepth nr 0

@[simp] theorem NrHctx.updateDepth_of_ne {ret : ℤ} (h : NrHctx) (nr : ℕ) (hret : ret ≠ 0) :
    h.updateDepth nr ret = h := by
  obtain ⟨tags, _ | d⟩ := h <;> cases tags <;> simp [NrHctx.updateDepth, blkMqTagUpdateDepth, hret]

/-- A pass with no error resizes every hardware context that has tags. -/
theorem updateNrRequestsLoop_ok (nr : ℕ) (upd : ℕ → ℤ) :
    ∀ (hs : List NrHctx) (i : ℕ), (updateNrRequestsLoop nr upd i hs).2 = 0 →
      (updateNrRequestsLoop nr upd i hs).1 = hs.map (NrHctx.resized nr)
  | [], _, _ => rfl
  | h :: hs, i, hret => by
    unfold updateNrRequestsLoop at hret ⊢
    by_cases hn : h.tags.isNone
    · simp only [hn, ↓reduceIte] at hret ⊢
      simp only [List.map_cons, NrHctx.resized, hn, ↓reduceIte,
        updateNrRequestsLoop_ok nr upd hs (i + 1) hret]
    · by_cases hu : upd i = 0
      · simp only [hn, hu, Bool.false_eq_true, ne_eq, not_true_eq_false, ↓reduceIte] at hret ⊢
        simp only [List.map_cons, NrHctx.resized, hn, Bool.false_eq_true, ↓reduceIte,
          updateNrRequestsLoop_ok nr upd hs (i + 1) hret]
      · simp only [hn, hu, Bool.false_eq_true, ne_eq, not_false_eq_true, ↓reduceIte] at hret

/-- A pass that returns an error stopped at a hardware context with tags whose
`blk_mq_tag_update_depth` returned that error; every hardware context before it has been
resized, and it and those after it are as they were. -/
theorem updateNrRequestsLoop_error (nr : ℕ) (upd : ℕ → ℤ) :
    ∀ (hs : List NrHctx) (i : ℕ), (updateNrRequestsLoop nr upd i hs).2 ≠ 0 →
      ∃ pre h post, hs = pre ++ h :: post ∧ h.tags.isSome ∧
        upd (i + pre.length) = (updateNrRequestsLoop nr upd i hs).2 ∧
        (updateNrRequestsLoop nr upd i hs).1 = pre.map (NrHctx.resized nr) ++ h :: post
  | [], _, hret => absurd rfl hret
  | h :: hs, i, hret => by
    unfold updateNrRequestsLoop at hret ⊢
    by_cases hn : h.tags.isNone
    · simp only [hn, ↓reduceIte] at hret ⊢
      obtain ⟨pre, g, post, rfl, hg, hupd, hres⟩ := updateNrRequestsLoop_error nr upd hs (i + 1) hret
      refine ⟨h :: pre, g, post, rfl, hg, ?_, ?_⟩
      · rw [← hupd, List.length_cons]; congr 1; omega
      · simp only [hres, List.map_cons, List.cons_append, NrHctx.resized, hn, ↓reduceIte]
    · have hs' : h.tags.isSome := by simpa [Option.isNone_iff_eq_none, Option.isSome_iff_ne_none] using hn
      by_cases hu : upd i = 0
      · simp only [hn, hu, Bool.false_eq_true, ne_eq, not_true_eq_false, ↓reduceIte] at hret ⊢
        obtain ⟨pre, g, post, rfl, hg, hupd, hres⟩ :=
          updateNrRequestsLoop_error nr upd hs (i + 1) hret
        refine ⟨h :: pre, g, post, rfl, hg, ?_, ?_⟩
        · rw [← hupd, List.length_cons]; congr 1; omega
        · simp only [hres, hu, List.map_cons, List.cons_append, NrHctx.resized, hn,
            Bool.false_eq_true, ↓reduceIte]
      · simp only [hn, hu, Bool.false_eq_true, ne_eq, not_false_eq_true, ↓reduceIte,
          NrHctx.updateDepth_of_ne h nr hu]
        exact ⟨[], h, hs, rfl, hs', rfl, rfl⟩

/-- `blk_mq_freeze_queue` then `blk_mq_unfreeze_queue` gives the freeze depth back, and the
state of `q->q_usage_counter` too when it agreed with the depth. -/
theorem blkMqUnfreezeQueue_blkFreezeQueueStart (f : FreezeQueue) :
    (blkMqUnfreezeQueue (blkFreezeQueueStart f)).depth = f.depth ∧
      (f.Agrees → blkMqUnfreezeQueue (blkFreezeQueueStart f) = f) := by
  obtain ⟨d, k⟩ := f
  by_cases hd : d = 0
  · subst hd
    simp [blkMqUnfreezeQueue, blkFreezeQueueStart, percpuRefKill, percpuRefReinit,
      FreezeQueue.Agrees]
  · have h1 : d + 1 ≠ 1 := by omega
    simp [blkMqUnfreezeQueue, blkFreezeQueueStart, hd, h1]

/-- With a tag set, `blk_mq_update_nr_requests` leaves the hardware contexts of its loop, sets
`q->nr_requests` when the loop returned 0, gives the freeze back, and clears
`QUEUE_FLAG_QUIESCED`. -/
theorem blkMqUpdateNrRequests_of_tagSet {q : NrQueue} (hset : q.tagSet = true) (nr : ℕ)
    (upd : ℕ → ℤ) :
    blkMqUpdateNrRequests q nr upd =
      ({ q with
          hctxs := (updateNrRequestsLoop nr upd 0 q.hctxs).1
          nrRequests := if (updateNrRequestsLoop nr upd 0 q.hctxs).2 = 0 then nr else q.nrRequests
          freeze := blkMqUnfreezeQueue (blkFreezeQueueStart q.freeze)
          quiesced := false }, (updateNrRequestsLoop nr upd 0 q.hctxs).2) := by
  simp only [blkMqUpdateNrRequests, hset, Bool.not_true, Bool.false_eq_true, ↓reduceIte]
  split <;> rfl

/-- When `blk_mq_update_nr_requests` returns 0, every hardware context with tags has its tag map
resized, `q->nr_requests` is `nr`, the freeze depth is as it was, and `QUEUE_FLAG_QUIESCED` is
clear. -/
theorem blkMqUpdateNrRequests_ok (q : NrQueue) (nr : ℕ) (upd : ℕ → ℤ)
    (hret : (blkMqUpdateNrRequests q nr upd).2 = 0) :
    (blkMqUpdateNrRequests q nr upd).1.hctxs = q.hctxs.map (NrHctx.resized nr) ∧
      (blkMqUpdateNrRequests q nr upd).1.nrRequests = nr ∧
      (blkMqUpdateNrRequests q nr upd).1.freeze.depth = q.freeze.depth ∧
      (blkMqUpdateNrRequests q nr upd).1.quiesced = false := by
  cases hset : q.tagSet
  · simp [blkMqUpdateNrRequests, hset, EINVAL] at hret
  rw [blkMqUpdateNrRequests_of_tagSet hset] at hret ⊢
  exact ⟨updateNrRequestsLoop_ok nr upd q.hctxs 0 hret, if_pos hret,
    (blkMqUnfreezeQueue_blkFreezeQueueStart q.freeze).1, rfl⟩

/-- When `blk_mq_update_nr_requests` returns an error on a queue with a tag set, the hardware
contexts before the failing one have their tag maps resized and nothing rolls them back;
`q->nr_requests` and the freeze depth are as they were, and `QUEUE_FLAG_QUIESCED` is clear. -/
theorem blkMqUpdateNrRequests_error (q : NrQueue) (nr : ℕ) (upd : ℕ → ℤ) (hset : q.tagSet = true)
    (hret : (blkMqUpdateNrRequests q nr upd).2 ≠ 0) :
    (∃ pre h post, q.hctxs = pre ++ h :: post ∧ h.tags.isSome ∧
        upd pre.length = (blkMqUpdateNrRequests q nr upd).2 ∧
        (blkMqUpdateNrRequests q nr upd).1.hctxs = pre.map (NrHctx.resized nr) ++ h :: post) ∧
      (blkMqUpdateNrRequests q nr upd).1.nrRequests = q.nrRequests ∧
      (blkMqUpdateNrRequests q nr upd).1.freeze.depth = q.freeze.depth ∧
      (blkMqUpdateNrRequests q nr upd).1.quiesced = false := by
  rw [blkMqUpdateNrRequests_of_tagSet hset] at hret ⊢
  obtain ⟨pre, h, post, hq, hh, hupd, hres⟩ := updateNrRequestsLoop_error nr upd q.hctxs 0 hret
  exact ⟨⟨pre, h, post, hq, hh, by rw [← hupd, Nat.zero_add], hres⟩, if_neg hret,
    (blkMqUnfreezeQueue_blkFreezeQueueStart q.freeze).1, rfl⟩

/-- Two hardware contexts with a scheduler attached, their `hctx->sched_tags` at depth 64, on a
queue a driver has quiesced; `nr_requests` goes to 128, and growing the scheduler tags of
hardware context 1 fails with `-ENOMEM`. The call returns the error with the scheduler tags of
hardware context 0 at depth 128, and with `QUEUE_FLAG_QUIESCED` cleared. -/
theorem update_nr_requests_error_keeps_partial_update :
    ∃ r, blkMqUpdateNrRequests ⟨true, [⟨some 64, some 64⟩, ⟨some 64, some 64⟩], 64, ⟨0, false⟩, true⟩
        128 (fun i => if i = 1 then -ENOMEM else 0) = r ∧
      r.2 = -ENOMEM ∧ r.1.hctxs = [⟨some 64, some 128⟩, ⟨some 64, some 64⟩] ∧
      r.1.nrRequests = 64 ∧ r.1.freeze = ⟨0, false⟩ ∧ r.1.quiesced = false := by
  refine ⟨_, rfl, ?_⟩
  decide

end BlkMq
