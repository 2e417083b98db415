import Mathlib.Data.List.Basic
import Mathlib.Order.Basic

/-!
# Freezing a queue

`blk_freeze_queue_start` and `blk_mq_unfreeze_queue` keep `q->mq_freeze_depth` and the state of
`q->q_usage_counter` together: the first increment kills the reference and the last decrement
revives it. Each function is an atomic update of the depth followed, in a separate step, by
`percpu_ref_kill` or `percpu_ref_reinit`. Run one at a time the two stay in step; when an
unfreeze that brought the depth to zero is overtaken by a new freeze, the reinit lands last and
the queue ends up frozen with its reference live.
-/

namespace BlkMq

/-- `q->mq_freeze_depth` and whether `q->q_usage_counter` is killed (`__PERCPU_REF_DEAD`). -/
structure FreezeQueue where
  depth : ℤ
  killed : Bool
  deriving DecidableEq, Repr

/-- `percpu_ref_kill`. Modelled from the spec: the reference is outside these sources; killing a
dead one only warns. -/
def percpuRefKill (q : FreezeQueue) : FreezeQueue := { q with killed := true }

/-- `percpu_ref_reinit`. Modelled from the spec: reviving a live reference only warns. -/
def percpuRefReinit (q : FreezeQueue) : FreezeQueue := { q with killed := false }

/-- `blk_freeze_queue_start`, run without interruption (`blk_mq_run_hw_queues` left out). -/
def blkFreezeQueueStart (q : FreezeQueue) : FreezeQueue :=
  let q := { q with depth := q.depth + 1 }
  if q.depth = 1 then percpuRefKill q else q

/-- `blk_mq_unfreeze_queue`, run without interruption (the wake-up left out). -/
def blkMqUnfreezeQueue (q : FreezeQueue) : FreezeQueue :=
  let q := { q with depth := q.depth - 1 }
  if q.depth = 0 then percpuRefReinit q else q

@[simp]
theorem blkFreezeQueueStart_depth (q : FreezeQueue) : (blkFreezeQueueStart q).depth = q.depth + 1 := by
  unfold blkFreezeQueueStart
  dsimp only
  split_ifs <;> rfl

@[simp]
theorem blkMqUnfreezeQueue_depth (q : FreezeQueue) : (blkMqUnfreezeQueue q).depth = q.depth - 1 := by
  unfold blkMqUnfreezeQueue
  dsimp only
  split_ifs <;> rfl

/-- The reference is killed exactly while the queue is frozen. -/
def FreezeQueue.Agrees (q : FreezeQueue) : Prop :=
  0 ≤ q.depth ∧ (q.killed = true ↔ 0 < q.depth)

instance : DecidablePred FreezeQueue.Agrees := fun _ => inferInstanceAs (Decidable (_ ∧ _))

theorem FreezeQueue.Agrees.freeze {q : FreezeQueue} (h : q.Agrees) :
    (blkFreezeQueueStart q).Agrees := by
  obtain ⟨h0, hk⟩ := h
  unfold blkFreezeQueueStart percpuRefKill
  dsimp only
  split_ifs with h1 <;> refine ⟨by dsimp only; omega, ?_⟩ <;> dsimp only at h1 ⊢
  · simp only [true_iff]; omega
  · rw [hk]; omega

/-- An unfreeze matched by an earlier freeze keeps the two in step. -/
theorem FreezeQueue.Agrees.unfreeze {q : FreezeQueue} (h : q.Agrees) (hpos : 0 < q.depth) :
    (blkMqUnfreezeQueue q).Agrees := by
  obtain ⟨h0, hk⟩ := h
  unfold blkMqUnfreezeQueue percpuRefReinit
  dsimp only
  split_ifs with h1 <;> refine ⟨by dsimp only; omega, ?_⟩ <;> dsimp only at h1 ⊢
  · simp only [Bool.false_eq_true, false_iff]; omega
  · rw [hk]; omega

/-- Where a thread is in `blk_freeze_queue_start` or `blk_mq_unfreeze_queue`. -/
inductive FreezePc
  /-- Entered `blk_freeze_queue_start`: at `atomic_inc_return`. -/
  | freeze
  /-- The increment returned 1: at `percpu_ref_kill`. -/
  | freezeKill
  /-- Entered `blk_mq_unfreeze_queue`: at `atomic_dec_return`. -/
  | unfreeze
  /-- The decrement returned 0: at `percpu_ref_reinit`. -/
  | unfreezeReinit
  /-- Returned. -/
  | done
  deriving DecidableEq, Repr

/-- The queue and the threads calling into it. -/
structure FreezeState where
  queue : FreezeQueue
  threads : List FreezePc
  deriving DecidableEq, Repr

/-- The atomic step of thread `i`; an index with no thread changes nothing. -/
def FreezeState.step (s : FreezeState) (i : ℕ) : FreezeState :=
  let goto (q : FreezeQueue) (pc : FreezePc) : FreezeState := ⟨q, s.threads.set i pc⟩
  match s.threads[i]? with
  | some .freeze =>
    let q := { s.queue with depth := s.queue.depth + 1 }
    goto q (if q.depth = 1 then .freezeKill else .done)
  | some .freezeKill => goto (percpuRefKill s.queue) .done
  | some .unfreeze =>
    let q := { s.queue with depth := s.queue.depth - 1 }
    goto q (if q.depth = 0 then .unfreezeReinit else .done)
  | some .unfreezeReinit => goto (percpuRefReinit s.queue) .done
  | some .done | none => s

/-- The steps of a schedule of threads, in order. -/
def FreezeState.run (s : FreezeState) : List ℕ → FreezeState
  | [] => s
  | i :: rest => (s.step i).run rest

/-- No call is in progress. -/
def FreezeState.Quiescent (s : FreezeState) : Prop := ∀ pc ∈ s.threads, pc = .done

instance : DecidablePred FreezeState.Quiescent :=
  fun s => inferInstanceAs (Decidable (∀ pc ∈ s.threads, pc = .done))

/-- A thread of `blk_freeze_queue_start` run without interruption does what the function does. -/
theorem FreezeState.run_freeze {s : FreezeState} {i : ℕ} (h : s.threads[i]? = some .freeze) :
    (s.run [i, i]).queue = blkFreezeQueueStart s.queue := by
  have hi : i < s.threads.length := (List.getElem?_eq_some_iff.mp h).1
  simp only [run, step, h, blkFreezeQueueStart]
  split_ifs <;> simp [List.getElem?_set_self hi]

/-- A thread of `blk_mq_unfreeze_queue` run without interruption does what the function does. -/
theorem FreezeState.run_unfreeze {s : FreezeState} {i : ℕ} (h : s.threads[i]? = some .unfreeze) :
    (s.run [i, i]).queue = blkMqUnfreezeQueue s.queue := by
  have hi : i < s.threads.length := (List.getElem?_eq_some_iff.mp h).1
  simp only [run, step, h, blkMqUnfreezeQueue]
  split_ifs <;> simp [List.getElem?_set_self hi]

/-- A freeze that completes, an unfreeze matched to it whose decrement reaches zero, then a
second freeze that increments and kills before the unfreeze reinits: every call has returned and
the queue is frozen, with its reference live. -/
theorem freeze_overtakes_unfreeze_reinit :
    FreezeState.run ⟨⟨0, false⟩, [.freeze, .unfreeze, .freeze]⟩ [0, 0, 1, 2, 2, 1] =
        ⟨⟨1, false⟩, [.done, .done, .done]⟩ ∧
      FreezeState.Quiescent ⟨⟨1, false⟩, [.done, .done, .done]⟩ ∧ ¬ FreezeQueue.Agrees ⟨1, false⟩ := by
  decide

end BlkMq
