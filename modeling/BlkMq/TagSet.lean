import BlkMq.Topology

/-!
# Sharing a tag set between queues

`blk_mq_add_queue_tag_set` and `blk_mq_del_queue_tag_set` keep `BLK_MQ_F_TAG_SHARED` in
`set->flags` set while `set->tag_list` holds two queues or more, and copy it to every hardware
context of those queues on the transitions from one queue to two and back. A hardware context
made later has its flags from `blk_mq_init_hctx`, which clears the bit. The set flag stays right
over every sequence of operations; the flags of the hardware contexts stay right as long as
`__blk_mq_update_nr_hw_queues` gives no queue of a shared set a new hardware context, and go
wrong when it does.
-/

namespace BlkMq

/-- A request queue on a tag set: its hardware contexts, which are those below
`q->nr_hw_queues`, and `hctx->flags & BLK_MQ_F_TAG_SHARED` of each. -/
structure SetQueue where
  hw : HwCtxs
  wellFormed : hw.WellFormed
  shared : ℕ → Bool

namespace SetQueue

/-- `q->queue_hw_ctx` as `blk_mq_init_allocated_queue` finds it: no hardware context. -/
def empty : SetQueue := ⟨⟨0, fun _ => false⟩, HwCtxs.wellFormed_empty, fun _ => false⟩

/-- `blk_mq_realloc_hw_ctxs` with the flags: a hardware context the loop keeps keeps its flags,
and one it allocates gets `set->flags & ~BLK_MQ_F_TAG_SHARED` from `blk_mq_init_hctx`. -/
def realloc (q : SetQueue) (setNrHwQueues : ℕ) (ok : ℕ → Bool) : SetQueue :=
  ⟨blkMqReallocHwCtxs setNrHwQueues ok q.hw, q.wellFormed.realloc.1,
    fun j => if q.hw.allocated j then q.shared j else false⟩

/-- Every hardware context of the queue has the bit as given. -/
def HctxsShared (q : SetQueue) (b : Bool) : Prop := ∀ j < q.hw.nrHwQueues, q.shared j = b

instance (q : SetQueue) (b : Bool) : Decidable (q.HctxsShared b) :=
  inferInstanceAs (Decidable (∀ j < q.hw.nrHwQueues, q.shared j = b))

theorem hctxsShared_empty (b : Bool) : empty.HctxsShared b := fun _ hj => absurd hj (Nat.not_lt_zero _)

/-- Reallocation keeps the flags agreeing, unless the bit is set and the queue gets new hardware
contexts. -/
theorem HctxsShared.realloc {q : SetQueue} {b : Bool} (h : q.HctxsShared b) {setNr : ℕ}
    {ok : ℕ → Bool} (hgrow : b = true → setNr ≤ q.hw.nrHwQueues) :
    (q.realloc setNr ok).HctxsShared b := by
  intro j hj
  have hle := (@HwCtxs.WellFormed.realloc _ setNr ok q.wellFormed).2.1
  simp only [SetQueue.realloc] at hj ⊢
  split_ifs with hal
  · exact h j ((q.wellFormed j).mp hal)
  · cases b
    · rfl
    · exact absurd ((q.wellFormed j).mpr (by have := hgrow rfl; omega)) hal

end SetQueue

/-- `queue_set_hctx_shared`: the bit set or cleared in every hardware context of the queue (the
`q->shared_hctx_restart` count left out). -/
def queueSetHctxShared (q : SetQueue) (shared : Bool) : SetQueue :=
  { q with shared := fun j => if j < q.hw.nrHwQueues then shared else q.shared j }

theorem queueSetHctxShared_hctxsShared (q : SetQueue) (shared : Bool) :
    (queueSetHctxShared q shared).HctxsShared shared :=
  fun _ hj => if_pos hj

/-- A tag set: `set->flags & BLK_MQ_F_TAG_SHARED`, `set->nr_hw_queues` and the queues of
`set->tag_list` in order. -/
structure TagSet where
  shared : Bool
  nrHwQueues : ℕ
  tagList : List SetQueue

/-- `blk_mq_alloc_tag_set`: no queue on the list, and the bit clear. -/
def TagSet.init (nrHwQueues : ℕ) : TagSet := ⟨false, nrHwQueues, []⟩

/-- `blk_mq_update_tag_set_depth`: `queue_set_hctx_shared` on every queue of the list (each
between a freeze and an unfreeze, left out here: see `FreezeQueue`). -/
def blkMqUpdateTagSetDepth (set : TagSet) (shared : Bool) : TagSet :=
  { set with tagList := set.tagList.map (queueSetHctxShared · shared) }

/-- `blk_mq_del_queue_tag_set` of the queue at position `k` of `set->tag_list`: unlink it, and if
one queue is left, clear the bit in the set and in that queue. -/
def blkMqDelQueueTagSet (set : TagSet) (k : ℕ) : TagSet :=
  let set := { set with tagList := set.tagList.eraseIdx k }
  if set.tagList.length = 1 then blkMqUpdateTagSetDepth { set with shared := false } false else set

/-- `blk_mq_add_queue_tag_set`: on the transition from one queue to two, set the bit in the set
and in the queue already there; then set it in the new queue if the set is shared, and link the
new queue at the tail. -/
def blkMqAddQueueTagSet (set : TagSet) (q : SetQueue) : TagSet :=
  let set := if !set.tagList.isEmpty && !set.shared then
    blkMqUpdateTagSetDepth { set with shared := true } true else set
  let q := if set.shared then queueSetHctxShared q true else q
  { set with tagList := set.tagList ++ [q] }

/-- The tag-set steps of `blk_mq_init_allocated_queue` for a new queue: `blk_mq_realloc_hw_ctxs`
on an empty `q->queue_hw_ctx`, the error return when no hardware context was allocated, and
`blk_mq_add_queue_tag_set`. -/
def blkMqInitAllocatedQueueTagSet (set : TagSet) (ok : ℕ → Bool) : TagSet :=
  let q := SetQueue.empty.realloc set.nrHwQueues ok
  if q.hw.nrHwQueues = 0 then set else blkMqAddQueueTagSet set q

/-- `__blk_mq_update_nr_hw_queues`: the count is capped at `nr_cpu_ids`; below 1 or unchanged
nothing happens; otherwise `set->nr_hw_queues` is set and `blk_mq_realloc_hw_ctxs` runs on every
queue of the list, the `k`th with allocation pattern `ok k` (the freezes, the new CPU map and
`blk_mq_queue_reinit` left out: see `blkMqMapSwqueue`). -/
def __blkMqUpdateNrHwQueues (set : TagSet) (nrCpuIds nrHwQueues : ℕ) (ok : ℕ → ℕ → Bool) :
    TagSet :=
  let nr := min nrHwQueues nrCpuIds
  if nr < 1 ∨ nr = set.nrHwQueues then set
  else { set with nrHwQueues := nr, tagList := set.tagList.mapIdx fun k q => q.realloc nr (ok k) }

/-- The operations on a tag set, each made under `set->tag_list_lock`. -/
inductive SetOp
  /-- `blk_mq_init_allocated_queue` of a new queue, with its allocation pattern. -/
  | initQueue (ok : ℕ → Bool)
  /-- `blk_mq_del_queue_tag_set` of the queue at a position of `set->tag_list`. -/
  | delQueue (k : ℕ)
  /-- `blk_mq_update_nr_hw_queues`. -/
  | updateNrHwQueues (nrHwQueues : ℕ) (ok : ℕ → ℕ → Bool)

namespace TagSet

variable (nrCpuIds : ℕ)

/-- One operation. -/
def apply (set : TagSet) : SetOp → TagSet
  | .initQueue ok => blkMqInitAllocatedQueueTagSet set ok
  | .delQueue k => blkMqDelQueueTagSet set k
  | .updateNrHwQueues n ok => __blkMqUpdateNrHwQueues set nrCpuIds n ok

/-- The operations of a list, in order. -/
def run (set : TagSet) : List SetOp → TagSet
  | [] => set
  | op :: ops => (set.apply nrCpuIds op).run ops

/-- `set->flags` has the bit exactly when `set->tag_list` holds two queues or more. -/
def SharedIffTwo (set : TagSet) : Prop := set.shared = true ↔ 2 ≤ set.tagList.length

/-- Every hardware context of every queue on the list has the bit exactly when the set has it. -/
def HctxsAgree (set : TagSet) : Prop := ∀ q ∈ set.tagList, q.HctxsShared set.shared

instance (set : TagSet) : Decidable set.HctxsAgree :=
  inferInstanceAs (Decidable (∀ q ∈ set.tagList, q.HctxsShared set.shared))

/-- An operation gives no queue of a shared set a new hardware context: an update of a shared
set asks no queue for more hardware contexts than it has. -/
def KeepsHctxs (set : TagSet) : SetOp → Prop
  | .updateNrHwQueues n _ => set.shared = true → ∀ q ∈ set.tagList, min n nrCpuIds ≤ q.hw.nrHwQueues
  | _ => True

/-- Every operation of a run keeps the hardware contexts of a shared set. -/
def RunKeepsHctxs : TagSet → List SetOp → Prop
  | _, [] => True
  | set, op :: ops => set.KeepsHctxs nrCpuIds op ∧ (set.apply nrCpuIds op).RunKeepsHctxs ops

variable {nrCpuIds}

@[simp] theorem blkMqUpdateTagSetDepth_length (set : TagSet) (b : Bool) :
    (blkMqUpdateTagSetDepth set b).tagList.length = set.tagList.length :=
  List.length_map _ _

theorem blkMqUpdateTagSetDepth_hctxsShared (set : TagSet) (b : Bool) :
    ∀ q ∈ (blkMqUpdateTagSetDepth set b).tagList, q.HctxsShared b := by
  simp only [blkMqUpdateTagSetDepth, List.mem_map]
  rintro _ ⟨q, -, rfl⟩
  exact queueSetHctxShared_hctxsShared q b

@[simp] theorem blkMqUpdateTagSetDepth_shared (set : TagSet) (b : Bool) :
    (blkMqUpdateTagSetDepth set b).shared = set.shared := rfl

theorem sharedIffTwo_init (nr : ℕ) : (init nr).SharedIffTwo := by simp [init, SharedIffTwo]

theorem hctxsAgree_init (nr : ℕ) : (init nr).HctxsAgree := by simp [init, HctxsAgree]

/-- `blk_mq_add_queue_tag_set` keeps the set flag right. -/
theorem SharedIffTwo.add {set : TagSet} (h : set.SharedIffTwo) (q : SetQueue) :
    (blkMqAddQueueTagSet set q).SharedIffTwo := by
  have hl : set.tagList.isEmpty = true ↔ set.tagList.length = 0 := by
    rw [List.isEmpty_iff, List.length_eq_zero]
  unfold SharedIffTwo blkMqAddQueueTagSet at *
  cases hs : set.shared <;> cases he : set.tagList.isEmpty <;>
    simp only [hs, he, Bool.not_true, Bool.not_false, Bool.and_true, Bool.and_false,
      Bool.false_eq_true, if_true, if_false, blkMqUpdateTagSetDepth_shared, List.length_append,
      blkMqUpdateTagSetDepth_length, List.length_singleton, true_iff, false_iff, iff_true] at h hl ⊢ <;>
    omega

/-- `blk_mq_del_queue_tag_set` keeps the set flag right. -/
theorem SharedIffTwo.del {set : TagSet} (h : set.SharedIffTwo) (k : ℕ) :
    (blkMqDelQueueTagSet set k).SharedIffTwo := by
  unfold SharedIffTwo blkMqDelQueueTagSet at *
  dsimp only
  split_ifs with h1
  · simp [h1]
  · rw [List.length_eraseIdx] at h1 ⊢
    cases hs : set.shared <;> simp only [hs, Bool.false_eq_true, true_iff, false_iff, not_le] at h ⊢ <;>
      split_ifs at h1 ⊢ <;> omega

/-- `__blk_mq_update_nr_hw_queues` changes neither the set flag nor the list. -/
theorem SharedIffTwo.update {set : TagSet} (h : set.SharedIffTwo) (n : ℕ) (ok : ℕ → ℕ → Bool) :
    (__blkMqUpdateNrHwQueues set nrCpuIds n ok).SharedIffTwo := by
  unfold __blkMqUpdateNrHwQueues
  dsimp only
  split_ifs
  · exact h
  · simpa [SharedIffTwo] using h

theorem SharedIffTwo.apply {set : TagSet} (h : set.SharedIffTwo) :
    ∀ op, (set.apply nrCpuIds op).SharedIffTwo
  | .initQueue ok => by
    unfold TagSet.apply blkMqInitAllocatedQueueTagSet
    dsimp only
    split_ifs
    exacts [h, h.add _]
  | .delQueue k => h.del k
  | .updateNrHwQueues n ok => h.update n ok

theorem SharedIffTwo.run {set : TagSet} (h : set.SharedIffTwo) :
    ∀ ops, (set.run nrCpuIds ops).SharedIffTwo
  | [] => h
  | op :: ops => (h.apply op).run ops

/-- `blk_mq_add_queue_tag_set` of a queue whose hardware contexts are unshared keeps the flags of
the hardware contexts right. -/
theorem HctxsAgree.add {set : TagSet} (h : set.HctxsAgree) {q : SetQueue}
    (hq : q.HctxsShared false) : (blkMqAddQueueTagSet set q).HctxsAgree := by
  unfold HctxsAgree blkMqAddQueueTagSet at *
  dsimp only
  split_ifs with ht hs hs <;> simp only [List.mem_append, List.mem_singleton]
  · rintro _ (hmem | rfl)
    exacts [blkMqUpdateTagSetDepth_hctxsShared _ true _ hmem, queueSetHctxShared_hctxsShared q true]
  · exact absurd rfl hs
  · rintro _ (hmem | rfl)
    exacts [h _ hmem, hs ▸ queueSetHctxShared_hctxsShared q true]
  · rintro _ (hmem | rfl)
    exacts [h _ hmem, Bool.eq_false_iff.mpr hs ▸ hq]

/-- `blk_mq_del_queue_tag_set` keeps the flags of the hardware contexts right. -/
theorem HctxsAgree.del {set : TagSet} (h : set.HctxsAgree) (k : ℕ) :
    (blkMqDelQueueTagSet set k).HctxsAgree := by
  unfold HctxsAgree blkMqDelQueueTagSet at *
  dsimp only
  split_ifs
  · exact blkMqUpdateTagSetDepth_hctxsShared _ false
  · exact fun q hq => h q (List.mem_of_mem_eraseIdx hq)

/-- `__blk_mq_update_nr_hw_queues` keeps the flags of the hardware contexts right when it gives
no queue of a shared set a new hardware context. -/
theorem HctxsAgree.update {set : TagSet} (h : set.HctxsAgree) {n : ℕ} {ok : ℕ → ℕ → Bool}
    (hkeep : set.KeepsHctxs nrCpuIds (.updateNrHwQueues n ok)) :
    (__blkMqUpdateNrHwQueues set nrCpuIds n ok).HctxsAgree := by
  unfold __blkMqUpdateNrHwQueues
  dsimp only
  split_ifs
  · exact h
  · simp only [HctxsAgree, List.mem_mapIdx]
    rintro _ ⟨k, hk, rfl⟩
    exact (h _ (List.getElem_mem hk)).realloc fun hs => hkeep hs _ (List.getElem_mem hk)

theorem HctxsAgree.apply {set : TagSet} (h : set.HctxsAgree) :
    ∀ op, set.KeepsHctxs nrCpuIds op → (set.apply nrCpuIds op).HctxsAgree
  | .initQueue ok, _ => by
    unfold TagSet.apply blkMqInitAllocatedQueueTagSet
    dsimp only
    split_ifs
    exacts [h, h.add ((SetQueue.hctxsShared_empty false).realloc Bool.noConfusion)]
  | .delQueue k, _ => h.del k
  | .updateNrHwQueues _ _, hkeep => h.update hkeep

theorem HctxsAgree.run {set : TagSet} (h : set.HctxsAgree) :
    ∀ ops, set.RunKeepsHctxs nrCpuIds ops → (set.run nrCpuIds ops).HctxsAgree
  | [], _ => h
  | op :: ops, ⟨hop, hops⟩ => (h.apply op hop).run ops hops

/-- From a new tag set, `set->flags` has the bit exactly when two queues or more share the set
after every sequence of operations, and the hardware contexts agree with it after every
sequence that gives no queue of a shared set a new hardware context. -/
theorem consistent_run (nr : ℕ) (ops : List SetOp) :
    ((init nr).run nrCpuIds ops).SharedIffTwo ∧
      ((init nr).RunKeepsHctxs nrCpuIds ops → ((init nr).run nrCpuIds ops).HctxsAgree) :=
  ⟨(sharedIffTwo_init nr).run ops, (hctxsAgree_init nr).run ops⟩

end TagSet

/-- A set of one hardware queue on two CPUs, two queues initialised on it, then
`blk_mq_update_nr_hw_queues(set, 2)`: the set is shared and hardware context 0 of each queue has
the bit, but hardware context 1, made by `blk_mq_init_hctx` during the update, has it clear. -/
theorem update_nr_hw_queues_unshared_hctx :
    ∃ s, (TagSet.init 1).run 2
        [.initQueue fun _ => true, .initQueue fun _ => true, .updateNrHwQueues 2 fun _ _ => true] = s ∧
      s.shared = true ∧ s.tagList.map (fun q => (List.range q.hw.nrHwQueues).map q.shared) =
        [[true, false], [true, false]] ∧ ¬ s.HctxsAgree :=
  ⟨_, rfl, by decide⟩

end BlkMq
