import Mathlib.Data.List.Basic
import Mathlib.Data.List.Nodup
import Mathlib.Data.Nat.Defs
import Mathlib.Logic.Function.Basic

/-!
# Allocating the request maps of a tag set

`blk_mq_alloc_tag_set` checks the depth and the reserved tags the driver asks for, clamps them,
and has `blk_mq_alloc_rq_maps` allocate, for every hardware queue, a tag map (`struct
blk_mq_tags` with its `rqs` and `static_rqs` arrays) and the pages of its requests. When an
allocation fails, `__blk_mq_alloc_rq_maps` unwinds the hardware queues done so far and
`blk_mq_alloc_rq_maps` tries again with half the depth.

The unwind calls `blk_mq_free_rq_map` only: the request pages (and the driver's per-request
state) stay allocated, and `set->tags[i]` keeps pointing at the freed map until the next round
overwrites it. The pages of an unwound round are then reachable from nowhere. The checks of
`blk_mq_alloc_tag_set`, for their part, come before the clamps to `BLK_MQ_MAX_DEPTH` and, in a
crash kernel, to 64 tags, which can take the depth below `reserved_tags + BLK_MQ_TAG_MIN`.

`blk_mq_free_tag_set` frees, through `blk_mq_free_map_and_requests`, the tag map each
`set->tags[i]` points at and the request pages on its `page_list`. After a successful
`blk_mq_alloc_tag_set` the tag maps allocated are exactly those of `set->tags[0 .. nr_hw_queues)`:
the teardown frees all of them, and of the request pages exactly the reachable ones, so the pages
of an unwound round are never freed.

Memory is a heap of numbered objects: tag maps, and request pages that belong to a tag map.
-/

namespace BlkMq

open Function (update)

/-- The tag maps and request pages allocated, and `set->tags`. -/
structure RqMapHeap where
  /-- The next fresh address. -/
  next : ℕ
  /-- The tag maps allocated: `struct blk_mq_tags` with `rqs` and `static_rqs`. -/
  maps : List ℕ
  /-- The request pages allocated, each with the tag map whose `page_list` holds it. -/
  pages : List (ℕ × ℕ)
  /-- `set->tags[i]`. -/
  setTags : ℕ → Option ℕ

/-- Nothing allocated. -/
def RqMapHeap.empty : RqMapHeap := ⟨0, [], [], fun _ => none⟩

/-- The request pages reachable from `set->tags[0 .. n)`. -/
def RqMapHeap.reachablePages (s : RqMapHeap) (n : ℕ) : List (ℕ × ℕ) :=
  s.pages.filter fun p => (List.range n).any fun i => s.setTags i == some p.2

/-- What the allocations of `__blk_mq_alloc_rq_map` return: `blk_mq_alloc_rq_map`, and
`blk_mq_alloc_rqs`. -/
structure AllocOutcome where
  /-- `blk_mq_alloc_rq_map` returns a tag map. -/
  map : Bool
  /-- `blk_mq_alloc_rqs` returns 0. -/
  rqs : Bool
  deriving DecidableEq, Repr

/-- `blk_mq_alloc_rq_map`: a new tag map, or `NULL`. -/
def blkMqAllocRqMap (s : RqMapHeap) (ok : Bool) : RqMapHeap × Option ℕ :=
  if ok then ({ s with next := s.next + 1, maps := s.maps ++ [s.next] }, some s.next) else (s, none)

/-- `blk_mq_alloc_rqs` for tag map `m`: the request pages on `tags->page_list`. On a failure
it frees, through `blk_mq_free_rqs`, the pages it got before, and leaves none. -/
def blkMqAllocRqs (s : RqMapHeap) (m : ℕ) (ok : Bool) : RqMapHeap × Bool :=
  if ok then ({ s with next := s.next + 1, pages := s.pages ++ [(s.next, m)] }, true) else (s, false)

/-- `blk_mq_free_rq_map(tags)`: free `rqs`, `static_rqs` and the tag map. -/
def blkMqFreeRqMap (s : RqMapHeap) (m : ℕ) : RqMapHeap := { s with maps := s.maps.erase m }

/-- `__blk_mq_alloc_rq_map(set, hctx_idx)`. -/
def __blkMqAllocRqMap (s : RqMapHeap) (hctxIdx : ℕ) (o : AllocOutcome) : RqMapHeap × Bool :=
  let r := blkMqAllocRqMap s o.map
  let s := { r.1 with setTags := update r.1.setTags hctxIdx r.2 }
  match r.2 with
  | none => (s, false)
  | some m =>
    let a := blkMqAllocRqs s m o.rqs
    if a.2 then (a.1, true)
    else ({ blkMqFreeRqMap a.1 m with setTags := update a.1.setTags hctxIdx none }, false)

/-- The loop of `__blk_mq_alloc_rq_maps` from hardware queue `i`, with `k` to go: the heap, and
the index that failed, if one did. -/
def allocRqMapsFrom (o : ℕ → AllocOutcome) : RqMapHeap → ℕ → ℕ → RqMapHeap × Option ℕ
  | s, _, 0 => (s, none)
  | s, i, k + 1 =>
    let r := __blkMqAllocRqMap s i (o i)
    if r.2 then allocRqMapsFrom o r.1 (i + 1) k else (r.1, some i)

/-- The unwind of `__blk_mq_alloc_rq_maps`, `while (--i >= 0) blk_mq_free_rq_map(set->tags[i])`. -/
def allocRqMapsUnwind (s : RqMapHeap) : ℕ → RqMapHeap
  | 0 => s
  | i + 1 =>
    allocRqMapsUnwind (match s.setTags i with | some m => blkMqFreeRqMap s m | none => s) i

/-- `__blk_mq_alloc_rq_maps(set)` with the outcomes `o i` for hardware queue `i`; true when it
returns 0. -/
def __blkMqAllocRqMaps (o : ℕ → AllocOutcome) (s : RqMapHeap) (nrHwQueues : ℕ) : RqMapHeap × Bool :=
  match allocRqMapsFrom o s 0 nrHwQueues with
  | (s, none) => (s, true)
  | (s, some i) => (allocRqMapsUnwind s i, false)

/-- The retry loop of `blk_mq_alloc_rq_maps`, from round `round` at `set->queue_depth` `depth`:
the heap, the depth, and whether the last round succeeded. -/
def allocRqMapsRetry (o : ℕ → ℕ → AllocOutcome) (nrHwQueues reservedTags tagMin : ℕ)
    (round depth : ℕ) (s : RqMapHeap) : RqMapHeap × ℕ × Bool :=
  let r := __blkMqAllocRqMaps (o round) s nrHwQueues
  if r.2 then (r.1, depth, true)
  else if depth / 2 < reservedTags + tagMin then (r.1, depth / 2, false)
  else if h : depth / 2 = 0 then (r.1, 0, false)
  else allocRqMapsRetry o nrHwQueues reservedTags tagMin (round + 1) (depth / 2) r.1
termination_by depth
decreasing_by omega

/-- `blk_mq_alloc_rq_maps(set)`; round `r` of the retry loop meets the outcomes `o r`, and
`tagMin` is `BLK_MQ_TAG_MIN`. Returns the heap, `set->queue_depth`, and whether it returned 0. -/
def blkMqAllocRqMaps (o : ℕ → ℕ → AllocOutcome) (nrHwQueues reservedTags tagMin depth : ℕ)
    (s : RqMapHeap) : RqMapHeap × ℕ × Bool :=
  let r := allocRqMapsRetry o nrHwQueues reservedTags tagMin 0 depth s
  (r.1, r.2.1, r.2.1 != 0 && r.2.2)

/-- Two hardware queues, depth 4, no reserved tags. In the first round the request pages of
hardware queue 1 cannot be had: the unwind frees tag map 0 but not its page 1, and leaves
`set->tags[0]` on it. The second round succeeds and overwrites `set->tags`; page 1 stays
allocated, reachable from no `set->tags[i]`. -/
theorem alloc_rq_maps_unwind_leaks_pages :
    ∃ r, blkMqAllocRqMaps (fun round i => if round = 0 ∧ i = 1 then ⟨true, false⟩ else ⟨true, true⟩)
        2 0 1 4 RqMapHeap.empty = r ∧
      r.2.2 = true ∧ r.1.pages = [(1, 0), (4, 3), (6, 5)] ∧
      r.1.reachablePages 2 = [(4, 3), (6, 5)] := by
  refine ⟨_, rfl, ?_⟩
  rw [blkMqAllocRqMaps, allocRqMapsRetry, allocRqMapsRetry]
  decide

/-- `__blk_mq_alloc_rq_map` when both allocations succeed: a tag map at `next`, its page at
`next + 1`, and `set->tags[hctx_idx]` on the map. -/
theorem __blkMqAllocRqMap_ok (s : RqMapHeap) (hctxIdx : ℕ) :
    (__blkMqAllocRqMap s hctxIdx ⟨true, true⟩).2 = true ∧
      (__blkMqAllocRqMap s hctxIdx ⟨true, true⟩).1.pages = s.pages ++ [(s.next + 1, s.next)] ∧
      (__blkMqAllocRqMap s hctxIdx ⟨true, true⟩).1.setTags = update s.setTags hctxIdx (some s.next) := by
  simp [__blkMqAllocRqMap, blkMqAllocRqMap, blkMqAllocRqs]

theorem allocRqMapsFrom_succ_of_ok {o : ℕ → AllocOutcome} {i : ℕ} (hi : o i = ⟨true, true⟩)
    (s : RqMapHeap) (k : ℕ) :
    allocRqMapsFrom o s i (k + 1) = allocRqMapsFrom o (__blkMqAllocRqMap s i ⟨true, true⟩).1 (i + 1) k := by
  simp only [allocRqMapsFrom, hi, (__blkMqAllocRqMap_ok s i).1, ↓reduceIte]

/-- A round in which every allocation succeeds from hardware queue `i` on fails nowhere. -/
theorem allocRqMapsFrom_of_ok (o : ℕ → AllocOutcome) :
    ∀ (k : ℕ) (s : RqMapHeap) (i : ℕ), (∀ j < k, o (i + j) = ⟨true, true⟩) →
      (allocRqMapsFrom o s i k).2 = none
  | 0, _, _, _ => rfl
  | k + 1, s, i, ho => by
    have hi : o i = ⟨true, true⟩ := ho 0 (Nat.succ_pos k)
    rw [allocRqMapsFrom_succ_of_ok hi]
    exact allocRqMapsFrom_of_ok o k _ (i + 1)
      (fun j hj => by rw [Nat.add_right_comm, Nat.add_assoc]; exact ho (j + 1) (by omega))

/-- In such a round every request page found or added belongs to a tag map that some
`set->tags[j]` points at. -/
theorem allocRqMapsFrom_reachable (o : ℕ → AllocOutcome) :
    ∀ (k : ℕ) (s : RqMapHeap) (i : ℕ), (∀ j < k, o (i + j) = ⟨true, true⟩) →
      (∀ p ∈ s.pages, ∃ j < i, s.setTags j = some p.2) →
      ∀ p ∈ (allocRqMapsFrom o s i k).1.pages, ∃ j < i + k,
        (allocRqMapsFrom o s i k).1.setTags j = some p.2
  | 0, s, i, _, hs => fun p hp => by simpa using hs p hp
  | k + 1, s, i, ho, hs => by
    obtain ⟨-, hpages, htags⟩ := __blkMqAllocRqMap_ok s i
    have hs' : ∀ p ∈ (__blkMqAllocRqMap s i ⟨true, true⟩).1.pages,
        ∃ j < i + 1, (__blkMqAllocRqMap s i ⟨true, true⟩).1.setTags j = some p.2 := by
      intro p hp
      rw [hpages, List.mem_append, List.mem_singleton] at hp
      rw [htags]
      rcases hp with hp | rfl
      · obtain ⟨j, hj, hjp⟩ := hs p hp
        exact ⟨j, by omega, by rw [Function.update_noteq (by omega)]; exact hjp⟩
      · exact ⟨i, by omega, by simp⟩
    have hi : o i = ⟨true, true⟩ := ho 0 (Nat.succ_pos k)
    rw [allocRqMapsFrom_succ_of_ok hi, show i + (k + 1) = i + 1 + k by omega]
    exact allocRqMapsFrom_reachable o k _ (i + 1)
      (fun j hj => by rw [Nat.add_right_comm, Nat.add_assoc]; exact ho (j + 1) (by omega)) hs'

theorem __blkMqAllocRqMaps_of_ok {o : ℕ → AllocOutcome} {nrHwQueues : ℕ}
    (ho : ∀ i < nrHwQueues, o i = ⟨true, true⟩) (s : RqMapHeap) :
    __blkMqAllocRqMaps o s nrHwQueues = ((allocRqMapsFrom o s 0 nrHwQueues).1, true) := by
  have h := allocRqMapsFrom_of_ok o nrHwQueues s 0 (fun j hj => by simpa using ho j hj)
  rw [__blkMqAllocRqMaps]
  split <;> simp_all

/-- The unwind of `__blk_mq_alloc_rq_maps` frees tag maps only: it keeps every request page and
leaves every `set->tags[i]` as it was. -/
theorem allocRqMapsUnwind_keeps : ∀ (s : RqMapHeap) (i : ℕ),
    (allocRqMapsUnwind s i).pages = s.pages ∧ (allocRqMapsUnwind s i).setTags = s.setTags
  | _, 0 => ⟨rfl, rfl⟩
  | s, i + 1 => by
    rw [allocRqMapsUnwind]
    obtain ⟨h1, h2⟩ := allocRqMapsUnwind_keeps (match s.setTags i with
      | some m => blkMqFreeRqMap s m | none => s) i
    rw [h1, h2]
    split <;> exact ⟨rfl, rfl⟩

/-- When the first round allocates everything, every request page `blk_mq_alloc_rq_maps`
leaves is reachable from `set->tags[0 .. nr_hw_queues)`. -/
theorem blkMqAllocRqMaps_reachable_of_first_round (o : ℕ → ℕ → AllocOutcome)
    (nrHwQueues reservedTags tagMin depth : ℕ) (ho : ∀ i < nrHwQueues, o 0 i = ⟨true, true⟩) :
    (blkMqAllocRqMaps o nrHwQueues reservedTags tagMin depth RqMapHeap.empty).1.pages =
      (blkMqAllocRqMaps o nrHwQueues reservedTags tagMin depth RqMapHeap.empty).1.reachablePages
        nrHwQueues := by
  have hreach := allocRqMapsFrom_reachable (o 0) nrHwQueues RqMapHeap.empty 0
    (fun j hj => by simpa using ho j hj) (fun p hp => by simp [RqMapHeap.empty] at hp)
  rw [blkMqAllocRqMaps, allocRqMapsRetry]
  simp only [__blkMqAllocRqMaps_of_ok ho, ↓reduceIte, RqMapHeap.reachablePages]
  refine (List.filter_eq_self.mpr fun p hp => ?_).symm
  obtain ⟨j, hj, hjp⟩ := hreach p (by simpa using hp)
  exact List.any_eq_true.mpr ⟨j, List.mem_range.mpr (by simpa using hj), by simp [hjp]⟩

/-- The depth-halving loop only returns success at a depth it has checked: at most the depth it
started from, and, when that one had room for the reserved tags and `BLK_MQ_TAG_MIN` more, one
that still has. -/
theorem allocRqMapsRetry_depth (o : ℕ → ℕ → AllocOutcome) (nrHwQueues reservedTags tagMin : ℕ)
    (round depth : ℕ) (s : RqMapHeap)
    (hok : (allocRqMapsRetry o nrHwQueues reservedTags tagMin round depth s).2.2 = true) :
    (allocRqMapsRetry o nrHwQueues reservedTags tagMin round depth s).2.1 ≤ depth ∧
      (reservedTags + tagMin ≤ depth →
        reservedTags + tagMin ≤ (allocRqMapsRetry o nrHwQueues reservedTags tagMin round depth s).2.1) := by
  induction round, depth, s using allocRqMapsRetry.induct o nrHwQueues reservedTags tagMin with
  | case1 round depth s r hr =>
    dsimp only [r] at hr
    rw [allocRqMapsRetry]
    simp only [hr, ↓reduceIte]
    omega
  | case2 round depth s r hr hlt =>
    dsimp only [r] at hr
    rw [allocRqMapsRetry] at hok
    simp only [hr, hlt, Bool.false_eq_true, ↓reduceIte] at hok
  | case3 round depth s r hr hge hz =>
    dsimp only [r] at hr
    rw [allocRqMapsRetry] at hok
    simp only [hr, hz, Bool.false_eq_true, ↓reduceIte, dite_true, ite_self] at hok
  | case4 round depth s r hr hge hz ih =>
    dsimp only [r] at hr ih
    rw [allocRqMapsRetry] at hok ⊢
    simp only [hr, hge, hz, Bool.false_eq_true, ↓reduceIte, dite_false] at hok ⊢
    have := ih hok
    omega

/-! ## `blk_mq_alloc_tag_set` -/

/-- The fields of `struct blk_mq_tag_set` that `blk_mq_alloc_tag_set` checks and sets. -/
structure TagSetParams where
  /-- `set->nr_hw_queues`. -/
  nrHwQueues : ℕ
  /-- `set->queue_depth`. -/
  queueDepth : ℕ
  /-- `set->reserved_tags`. -/
  reservedTags : ℕ
  /-- `set->ops->queue_rq` is set. -/
  queueRq : Bool
  deriving DecidableEq, Repr

/-- What `blk_mq_alloc_tag_set` meets besides the tag set. -/
structure AllocTagSetEnv where
  /-- `is_kdump_kernel()`. -/
  kdump : Bool
  /-- `nr_cpu_ids`. -/
  nrCpuIds : ℕ
  /-- The `kzalloc_node` of `set->tags` succeeds. -/
  tags : Bool
  /-- The `kzalloc_node` of `set->mq_map` succeeds. -/
  mqMap : Bool
  /-- What `blk_mq_update_queue_map` returns. -/
  updateQueueMap : ℤ
  /-- The outcomes of the allocations of `blk_mq_alloc_rq_maps`, by round and hardware queue. -/
  outcome : ℕ → ℕ → AllocOutcome

/-- `EINVAL`. -/
def EINVAL : ℤ := 22

/-- `ENOMEM`. -/
def ENOMEM : ℤ := 12

/-- The clamps of `blk_mq_alloc_tag_set`, after its checks: the depth to `BLK_MQ_MAX_DEPTH`, one
hardware queue and at most 64 tags in a crash kernel, and no more hardware queues than CPUs. -/
def allocTagSetClamp (maxDepth : ℕ) (env : AllocTagSetEnv) (set : TagSetParams) : TagSetParams :=
  let set := if set.queueDepth > maxDepth then { set with queueDepth := maxDepth } else set
  let set := if env.kdump then { set with nrHwQueues := 1, queueDepth := min 64 set.queueDepth }
    else set
  if set.nrHwQueues > env.nrCpuIds then { set with nrHwQueues := env.nrCpuIds } else set

/-- The allocations of `blk_mq_alloc_tag_set`, past its checks and clamps: `set->mq_map`,
`blk_mq_update_queue_map` and `blk_mq_alloc_rq_maps`, with `set->tags` zeroed. On an error
`set->tags` is freed and reads `NULL`. -/
def allocTagSetMaps (tagMin : ℕ) (env : AllocTagSetEnv) (set : TagSetParams) (s : RqMapHeap) :
    TagSetParams × RqMapHeap × ℤ :=
  if !env.mqMap then (set, s, -ENOMEM)
  else if env.updateQueueMap ≠ 0 then (set, s, env.updateQueueMap)
  else
    let r := blkMqAllocRqMaps env.outcome set.nrHwQueues set.reservedTags tagMin set.queueDepth s
    if r.2.2 then ({ set with queueDepth := r.2.1 }, r.1, 0)
    else ({ set with queueDepth := r.2.1 }, { r.1 with setTags := fun _ => none }, -ENOMEM)

/-- `blk_mq_alloc_tag_set(set)`, with `BLK_MQ_TAG_MIN` `tagMin` and `BLK_MQ_MAX_DEPTH`
`maxDepth`: the tag set, the heap, and the return value. -/
def blkMqAllocTagSet (tagMin maxDepth : ℕ) (env : AllocTagSetEnv) (set : TagSetParams)
    (s : RqMapHeap) : TagSetParams × RqMapHeap × ℤ :=
  if set.nrHwQueues = 0 then (set, s, -EINVAL)
  else if set.queueDepth = 0 then (set, s, -EINVAL)
  else if set.queueDepth < set.reservedTags + tagMin then (set, s, -EINVAL)
  else if !set.queueRq then (set, s, -EINVAL)
  else if !env.tags then (allocTagSetClamp maxDepth env set, { s with setTags := fun _ => none }, -ENOMEM)
  else allocTagSetMaps tagMin env (allocTagSetClamp maxDepth env set) { s with setTags := fun _ => none }

@[simp] theorem neg_EINVAL_ne_zero : -EINVAL ≠ 0 := by decide

@[simp] theorem neg_ENOMEM_ne_zero : -ENOMEM ≠ 0 := by decide

/-- The allocations return 0 only when `blk_mq_alloc_rq_maps` does, and leave the depth it
reached. -/
theorem allocTagSetMaps_eq_zero (tagMin : ℕ) (env : AllocTagSetEnv) (set : TagSetParams)
    (s : RqMapHeap) (h0 : (allocTagSetMaps tagMin env set s).2.2 = 0) :
    (blkMqAllocRqMaps env.outcome set.nrHwQueues set.reservedTags tagMin set.queueDepth s).2.2 = true ∧
      (allocTagSetMaps tagMin env set s).1 = { set with queueDepth :=
        (blkMqAllocRqMaps env.outcome set.nrHwQueues set.reservedTags tagMin set.queueDepth s).2.1 } := by
  unfold allocTagSetMaps at h0 ⊢
  dsimp only at h0 ⊢
  generalize blkMqAllocRqMaps env.outcome set.nrHwQueues set.reservedTags tagMin set.queueDepth s = r
    at h0 ⊢
  split_ifs at h0 ⊢ <;> simp_all [ENOMEM]

/-- What the clamps leave: the reserved tags; the depth cut to `BLK_MQ_MAX_DEPTH`, and to 64 in
a crash kernel; one hardware queue in a crash kernel, and never more than the CPUs. -/
theorem allocTagSetClamp_spec (maxDepth : ℕ) (env : AllocTagSetEnv) (set : TagSetParams) :
    (allocTagSetClamp maxDepth env set).reservedTags = set.reservedTags ∧
      (allocTagSetClamp maxDepth env set).queueDepth =
        (if env.kdump then min 64 (min set.queueDepth maxDepth) else min set.queueDepth maxDepth) ∧
      (allocTagSetClamp maxDepth env set).nrHwQueues =
        min (if env.kdump then 1 else set.nrHwQueues) env.nrCpuIds := by
  unfold allocTagSetClamp
  dsimp only
  split_ifs <;> (try dsimp only at *) <;> simp only [*, ↓reduceIte, true_and] <;> omega

/-- `blk_mq_alloc_rq_maps` returns 0 only at a depth other than 0 that its loop checked. -/
theorem blkMqAllocRqMaps_depth (o : ℕ → ℕ → AllocOutcome) (nrHwQueues reservedTags tagMin depth : ℕ)
    (s : RqMapHeap) (hok : (blkMqAllocRqMaps o nrHwQueues reservedTags tagMin depth s).2.2 = true) :
    0 < (blkMqAllocRqMaps o nrHwQueues reservedTags tagMin depth s).2.1 ∧
      (blkMqAllocRqMaps o nrHwQueues reservedTags tagMin depth s).2.1 ≤ depth ∧
      (reservedTags + tagMin ≤ depth →
        reservedTags + tagMin ≤ (blkMqAllocRqMaps o nrHwQueues reservedTags tagMin depth s).2.1) := by
  simp only [blkMqAllocRqMaps, Bool.and_eq_true, bne_iff_ne, ne_eq] at hok ⊢
  exact ⟨Nat.pos_of_ne_zero hok.1, allocRqMapsRetry_depth o _ _ _ _ _ _ hok.2⟩

/-- `blk_mq_alloc_tag_set` returns 0 only past its checks and its allocation of `set->tags`,
with what its allocations after that return. -/
theorem blkMqAllocTagSet_eq_zero (tagMin maxDepth : ℕ) (env : AllocTagSetEnv) (set : TagSetParams)
    (s : RqMapHeap) (h0 : (blkMqAllocTagSet tagMin maxDepth env set s).2.2 = 0) :
    set.nrHwQueues ≠ 0 ∧ set.reservedTags + tagMin ≤ set.queueDepth ∧
      blkMqAllocTagSet tagMin maxDepth env set s =
        allocTagSetMaps tagMin env (allocTagSetClamp maxDepth env set) { s with setTags := fun _ => none } := by
  rw [blkMqAllocTagSet] at h0
  split_ifs at h0 with h1 h2 h3 h4 h5
  iterate 4 exact absurd h0 neg_EINVAL_ne_zero
  · exact absurd h0 neg_ENOMEM_ne_zero
  · refine ⟨h1, Nat.not_lt.mp h3, ?_⟩
    rw [blkMqAllocTagSet, if_neg h1, if_neg h2, if_neg h3, if_neg h4, if_neg h5]

/-- When `blk_mq_alloc_tag_set` returns 0 and its clamps leave room for the reserved tags and
`BLK_MQ_TAG_MIN` more (`reserved_tags + BLK_MQ_TAG_MIN` at most `BLK_MQ_MAX_DEPTH`, and at most
64 in a crash kernel), the tag set has the bounds its checks are there to give. -/
theorem blkMqAllocTagSet_bounds (tagMin maxDepth : ℕ) (env : AllocTagSetEnv) (set : TagSetParams)
    (s : RqMapHeap) (hcpu : 0 < env.nrCpuIds) (hmax : set.reservedTags + tagMin ≤ maxDepth)
    (hkdump : env.kdump = true → set.reservedTags + tagMin ≤ 64)
    (h0 : (blkMqAllocTagSet tagMin maxDepth env set s).2.2 = 0) :
    (blkMqAllocTagSet tagMin maxDepth env set s).1.reservedTags + tagMin ≤
        (blkMqAllocTagSet tagMin maxDepth env set s).1.queueDepth ∧
      (blkMqAllocTagSet tagMin maxDepth env set s).1.queueDepth ≤ maxDepth ∧
      1 ≤ (blkMqAllocTagSet tagMin maxDepth env set s).1.nrHwQueues ∧
      (blkMqAllocTagSet tagMin maxDepth env set s).1.nrHwQueues ≤ env.nrCpuIds := by
  obtain ⟨hnr0, hchk, heq⟩ := blkMqAllocTagSet_eq_zero tagMin maxDepth env set s h0
  rw [heq] at h0 ⊢
  obtain ⟨hok, heq⟩ := allocTagSetMaps_eq_zero _ _ _ _ h0
  obtain ⟨hres, hq, hnr⟩ := allocTagSetClamp_spec maxDepth env set
  rw [heq]
  generalize allocTagSetClamp maxDepth env set = c at hok hres hq hnr ⊢
  obtain ⟨-, hle, hmin⟩ := blkMqAllocRqMaps_depth _ _ _ _ _ _ hok
  generalize (blkMqAllocRqMaps env.outcome c.nrHwQueues c.reservedTags tagMin c.queueDepth _).2.1 = d
    at hle hmin ⊢
  dsimp only
  rw [hres] at hmin ⊢
  rw [hq] at hle hmin
  rw [hnr]
  cases hk : env.kdump <;> simp only [hk, Bool.false_eq_true, ↓reduceIte, true_implies] at hle hmin hkdump ⊢ <;> omega

/-- When its first round allocates everything, `blk_mq_alloc_rq_maps` returns 0 at the depth it
was given, if that is not 0. -/
theorem blkMqAllocRqMaps_of_ok {o : ℕ → ℕ → AllocOutcome} {nrHwQueues depth : ℕ}
    (ho : ∀ i < nrHwQueues, o 0 i = ⟨true, true⟩) (hd : 0 < depth) (reservedTags tagMin : ℕ)
    (s : RqMapHeap) :
    (blkMqAllocRqMaps o nrHwQueues reservedTags tagMin depth s).2.1 = depth ∧
      (blkMqAllocRqMaps o nrHwQueues reservedTags tagMin depth s).2.2 = true := by
  rw [blkMqAllocRqMaps, allocRqMapsRetry]
  simp [__blkMqAllocRqMaps_of_ok ho, Nat.pos_iff_ne_zero.mp hd]

/-- With every allocation succeeding, `blk_mq_alloc_tag_set` returns 0 on a tag set that passes
its checks, and leaves the tag set as its clamps made it. -/
theorem blkMqAllocTagSet_of_ok (tagMin maxDepth : ℕ) (env : AllocTagSetEnv) (set : TagSetParams)
    (s : RqMapHeap) (hnr : set.nrHwQueues ≠ 0) (hd0 : set.queueDepth ≠ 0)
    (hdepth : set.reservedTags + tagMin ≤ set.queueDepth) (hq : set.queueRq = true)
    (htags : env.tags = true) (hmq : env.mqMap = true) (hmap : env.updateQueueMap = 0)
    (ho : ∀ i < (allocTagSetClamp maxDepth env set).nrHwQueues, env.outcome 0 i = ⟨true, true⟩)
    (hpos : 0 < (allocTagSetClamp maxDepth env set).queueDepth) :
    (blkMqAllocTagSet tagMin maxDepth env set s).2.2 = 0 ∧
      (blkMqAllocTagSet tagMin maxDepth env set s).1 = allocTagSetClamp maxDepth env set := by
  obtain ⟨hd, hok⟩ := blkMqAllocRqMaps_of_ok ho hpos (allocTagSetClamp maxDepth env set).reservedTags
    tagMin { s with setTags := fun _ => none }
  simp only [blkMqAllocTagSet, allocTagSetMaps, hnr, hd0, Nat.not_lt.mpr hdepth, hq, htags, hmq, hmap,
    hok, hd, Bool.not_true, Bool.false_eq_true, ne_eq, not_true_eq_false, ↓reduceIte, and_true]

/-- Both clamps of `blk_mq_alloc_tag_set` come after its check of the reserved tags. Whatever
`BLK_MQ_TAG_MIN` (one or more) and `BLK_MQ_MAX_DEPTH` (room for 64 tags and `BLK_MQ_TAG_MIN`
more) are, and with every allocation succeeding: a driver that asks for
`BLK_MQ_MAX_DEPTH` reserved tags out of `BLK_MQ_MAX_DEPTH + BLK_MQ_TAG_MIN` passes the check and
gets `BLK_MQ_MAX_DEPTH` tags, all of them reserved; in a crash kernel, one that asks for 64
reserved tags out of `64 + BLK_MQ_TAG_MIN` gets 64. Both calls return 0. -/
theorem alloc_tag_set_clamps_below_reserved (tagMin maxDepth nrCpuIds : ℕ) (hmin : 0 < tagMin)
    (hmax : 64 + tagMin ≤ maxDepth) :
    (∃ r, blkMqAllocTagSet tagMin maxDepth ⟨false, nrCpuIds, true, true, 0, fun _ _ => ⟨true, true⟩⟩
        ⟨1, maxDepth + tagMin, maxDepth, true⟩ RqMapHeap.empty = r ∧
      r.2.2 = 0 ∧ r.1.queueDepth < r.1.reservedTags + tagMin) ∧
    ∃ r, blkMqAllocTagSet tagMin maxDepth ⟨true, nrCpuIds, true, true, 0, fun _ _ => ⟨true, true⟩⟩
        ⟨1, 64 + tagMin, 64, true⟩ RqMapHeap.empty = r ∧
      r.2.2 = 0 ∧ r.1.queueDepth < r.1.reservedTags + tagMin := by
  have below : ∀ (kdump : Bool) (reserved : ℕ),
      0 < (if kdump then min 64 (min (reserved + tagMin) maxDepth) else min (reserved + tagMin) maxDepth) →
      (if kdump then min 64 (min (reserved + tagMin) maxDepth) else min (reserved + tagMin) maxDepth) <
        reserved + tagMin →
      ∃ r, blkMqAllocTagSet tagMin maxDepth ⟨kdump, nrCpuIds, true, true, 0, fun _ _ => ⟨true, true⟩⟩
          ⟨1, reserved + tagMin, reserved, true⟩ RqMapHeap.empty = r ∧
        r.2.2 = 0 ∧ r.1.queueDepth < r.1.reservedTags + tagMin := by
    intro kdump reserved hpos hlt
    obtain ⟨hres, hq, -⟩ := allocTagSetClamp_spec maxDepth
      ⟨kdump, nrCpuIds, true, true, 0, fun _ _ => ⟨true, true⟩⟩ ⟨1, reserved + tagMin, reserved, true⟩
    obtain ⟨h0, heq⟩ := blkMqAllocTagSet_of_ok tagMin maxDepth
      ⟨kdump, nrCpuIds, true, true, 0, fun _ _ => ⟨true, true⟩⟩ ⟨1, reserved + tagMin, reserved, true⟩
      RqMapHeap.empty Nat.one_ne_zero (by dsimp only; omega) (Nat.le_refl _) rfl rfl rfl rfl
      (fun _ _ => rfl) (by rw [hq]; exact hpos)
    exact ⟨_, rfl, h0, by rw [heq, hres, hq]; exact hlt⟩
  exact ⟨below false maxDepth (by simp; omega) (by simp; omega),
    below true 64 (by simp; omega) (by simp; omega)⟩

/-- The failure at `BLK_MQ_TAG_MIN = 1` and `BLK_MQ_MAX_DEPTH = 10240`, on four CPUs. -/
theorem alloc_tag_set_clamps_below_reserved_max_depth :
    0 < 1 ∧ 64 + 1 ≤ 10240 ∧
    (∃ r, blkMqAllocTagSet 1 10240 ⟨false, 4, true, true, 0, fun _ _ => ⟨true, true⟩⟩
        ⟨1, 10240 + 1, 10240, true⟩ RqMapHeap.empty = r ∧
      r.2.2 = 0 ∧ r.1.queueDepth < r.1.reservedTags + 1) ∧
    ∃ r, blkMqAllocTagSet 1 10240 ⟨true, 4, true, true, 0, fun _ _ => ⟨true, true⟩⟩
        ⟨1, 64 + 1, 64, true⟩ RqMapHeap.empty = r ∧
      r.2.2 = 0 ∧ r.1.queueDepth < r.1.reservedTags + 1 :=
  ⟨by decide, by decide, alloc_tag_set_clamps_below_reserved 1 10240 4 (by decide) (by decide)⟩

/-! ## `blk_mq_free_tag_set` -/

/-- `blk_mq_free_rqs(set, tags, hctx_idx)` for tag map `m`: free the pages on `tags->page_list`,
after the driver's `exit_request` for each request of `static_rqs`. -/
def blkMqFreeRqs (s : RqMapHeap) (m : ℕ) : RqMapHeap :=
  { s with pages := s.pages.filter fun p => p.2 != m }

/-- `blk_mq_free_map_and_requests(set, hctx_idx)`. -/
def blkMqFreeMapAndRequests (s : RqMapHeap) (hctxIdx : ℕ) : RqMapHeap :=
  match s.setTags hctxIdx with
  | some m => { blkMqFreeRqMap (blkMqFreeRqs s m) m with setTags := update s.setTags hctxIdx none }
  | none => s

/-- `blk_mq_free_tag_set(set)`: the maps and requests of `set->tags[i]` for every `i` below
`nr_cpu_ids`, then `set->tags` itself, which reads `NULL`. -/
def blkMqFreeTagSet (nrCpuIds : ℕ) (s : RqMapHeap) : RqMapHeap :=
  { (List.range nrCpuIds).foldl blkMqFreeMapAndRequests s with setTags := fun _ => none }

/-- The tag maps allocated are the ones `set->tags[0 .. i)` points at, in order and each once, all
below the next fresh address: the state of a round of `__blk_mq_alloc_rq_maps` that has done the
hardware queues below `i`. -/
structure RqMapHeap.Clean (s : RqMapHeap) (i : ℕ) : Prop where
  maps_eq : s.maps = (List.range i).filterMap s.setTags
  nodup : s.maps.Nodup
  fresh : ∀ m ∈ s.maps, m < s.next

theorem RqMapHeap.clean_zero {s : RqMapHeap} (h : s.maps = []) : s.Clean 0 :=
  ⟨by simp [h], by simp [h], by simp [h]⟩

theorem filterMap_range_update (f : ℕ → Option ℕ) (i : ℕ) (v : Option ℕ) :
    (List.range i).filterMap (update f i v) = (List.range i).filterMap f :=
  List.filterMap_congr fun _ hj => Function.update_noteq (List.mem_range.1 hj).ne _ _

/-- A step of the round keeps the invariant: at `i + 1` when `__blk_mq_alloc_rq_map` succeeds, at
`i` when it fails, having freed the map it got. -/
theorem RqMapHeap.Clean.of_allocRqMap {s : RqMapHeap} {i : ℕ} (hs : s.Clean i) (o : AllocOutcome) :
    (__blkMqAllocRqMap s i o).1.Clean (if (__blkMqAllocRqMap s i o).2 then i + 1 else i) := by
  have hnext : s.next ∉ s.maps := fun h => (hs.fresh _ h).false
  obtain ⟨_ | _, _ | _⟩ := o <;>
    simp only [__blkMqAllocRqMap, blkMqAllocRqMap, blkMqAllocRqs, blkMqFreeRqMap,
      Bool.false_eq_true, ↓reduceIte, Function.update_idem]
  case mk.true.true =>
    refine ⟨?_, List.nodup_append.2 ⟨hs.nodup, List.nodup_singleton _, by simpa using hnext⟩,
      fun m hm => ?_⟩
    · simp [List.range_succ, filterMap_range_update, hs.maps_eq]
    · dsimp only at hm ⊢
      rcases List.mem_append.1 hm with hm | hm
      · exact (hs.fresh m hm).trans (by omega)
      · simp only [List.mem_singleton] at hm; omega
  all_goals
    refine ⟨?_, ?_, fun m hm => ?_⟩
    all_goals simp only [List.erase_append_right _ hnext, List.erase_cons_head, List.append_nil,
      List.mem_append, List.mem_singleton] at *
    · rw [filterMap_range_update]; exact hs.maps_eq
    · exact hs.nodup
    · have := hs.fresh m hm; omega

/-- The loop of `__blk_mq_alloc_rq_maps` keeps the invariant, up to the index it stopped at. -/
theorem RqMapHeap.Clean.of_allocRqMapsFrom (o : ℕ → AllocOutcome) :
    ∀ (k : ℕ) {s : RqMapHeap} {i : ℕ}, s.Clean i →
      (allocRqMapsFrom o s i k).1.Clean ((allocRqMapsFrom o s i k).2.getD (i + k))
  | 0, _, _, hs => hs
  | k + 1, s, i, hs => by
    have h := hs.of_allocRqMap (o i)
    rw [allocRqMapsFrom]
    split_ifs at h ⊢ with hr
    · simpa [Nat.add_right_comm, Nat.add_assoc] using h.of_allocRqMapsFrom o k
    · exact h

/-- The unwind frees, from the last down, every map `set->tags[0 .. i)` points at. -/
theorem RqMapHeap.Clean.unwind_maps : ∀ {i : ℕ} {s : RqMapHeap}, s.Clean i →
    (allocRqMapsUnwind s i).maps = []
  | 0, s, hs => by simpa using hs.maps_eq
  | i + 1, s, hs => by
    rw [allocRqMapsUnwind]
    apply RqMapHeap.Clean.unwind_maps
    have heq := hs.maps_eq
    rw [List.range_succ, List.filterMap_append] at heq
    cases ht : s.setTags i with
    | none => exact ⟨by simpa [ht] using heq, hs.nodup, hs.fresh⟩
    | some m =>
      have heq : s.maps = (List.range i).filterMap s.setTags ++ [m] := by simpa [ht] using heq
      have hnd := List.nodup_append.1 (heq ▸ hs.nodup)
      have hm : m ∉ (List.range i).filterMap s.setTags := fun hm => hnd.2.2 hm (List.mem_singleton_self m)
      have hmaps : (blkMqFreeRqMap s m).maps = (List.range i).filterMap s.setTags := by
        rw [blkMqFreeRqMap, heq, List.erase_append_right _ hm, List.erase_cons_head, List.append_nil]
      exact ⟨hmaps, by rw [hmaps]; exact hnd.1, fun m' hm' => hs.fresh m' (List.mem_of_mem_erase hm')⟩

/-- A round started with no tag map allocated ends with the maps of all `nr_hw_queues` hardware
queues when it succeeds, and with none when it fails. -/
theorem RqMapHeap.Clean.of_allocRqMaps {s : RqMapHeap} (hs : s.Clean 0) (o : ℕ → AllocOutcome)
    (nrHwQueues : ℕ) :
    (__blkMqAllocRqMaps o s nrHwQueues).1.Clean
      (if (__blkMqAllocRqMaps o s nrHwQueues).2 then nrHwQueues else 0) := by
  have h := hs.of_allocRqMapsFrom o nrHwQueues
  rw [__blkMqAllocRqMaps]
  rcases hr : allocRqMapsFrom o s 0 nrHwQueues with ⟨s', _ | f⟩ <;> rw [hr] at h
  · simpa using h
  · exact RqMapHeap.clean_zero h.unwind_maps

/-- The retry loop of `blk_mq_alloc_rq_maps`, started with no tag map allocated, ends on success
with the maps of all `nr_hw_queues` hardware queues. -/
theorem RqMapHeap.Clean.of_allocRqMapsRetry (o : ℕ → ℕ → AllocOutcome)
    (nrHwQueues reservedTags tagMin round depth : ℕ) {s : RqMapHeap} (hs : s.Clean 0)
    (hok : (allocRqMapsRetry o nrHwQueues reservedTags tagMin round depth s).2.2 = true) :
    (allocRqMapsRetry o nrHwQueues reservedTags tagMin round depth s).1.Clean nrHwQueues := by
  induction round, depth, s using allocRqMapsRetry.induct o nrHwQueues reservedTags tagMin with
  | case1 round depth s r hr =>
    dsimp only [r] at hr
    have h := hs.of_allocRqMaps (o round) nrHwQueues
    rw [allocRqMapsRetry]
    simp only [hr, ↓reduceIte] at h ⊢
    exact h
  | case2 round depth s r hr hlt =>
    dsimp only [r] at hr
    rw [allocRqMapsRetry] at hok
    simp only [hr, hlt, Bool.false_eq_true, ↓reduceIte] at hok
  | case3 round depth s r hr hge hz =>
    dsimp only [r] at hr
    rw [allocRqMapsRetry] at hok
    simp only [hr, hz, Bool.false_eq_true, ↓reduceIte, dite_true, ite_self] at hok
  | case4 round depth s r hr hge hz ih =>
    dsimp only [r] at hr ih
    have h := hs.of_allocRqMaps (o round) nrHwQueues
    rw [allocRqMapsRetry] at hok ⊢
    simp only [hr, hge, hz, Bool.false_eq_true, ↓reduceIte, dite_false] at h hok ⊢
    exact ih h hok

/-- `__blk_mq_alloc_rq_map` writes `set->tags[hctx_idx]` only. -/
theorem __blkMqAllocRqMap_setTags_ne (s : RqMapHeap) {i j : ℕ} (hj : j ≠ i) (o : AllocOutcome) :
    (__blkMqAllocRqMap s i o).1.setTags j = s.setTags j := by
  obtain ⟨_ | _, _ | _⟩ := o <;>
    simp [__blkMqAllocRqMap, blkMqAllocRqMap, blkMqAllocRqs, blkMqFreeRqMap, hj]

theorem allocRqMapsFrom_setTags_of_le (o : ℕ → AllocOutcome) :
    ∀ (k : ℕ) (s : RqMapHeap) (i j : ℕ), i + k ≤ j → (allocRqMapsFrom o s i k).1.setTags j = s.setTags j
  | 0, _, _, _, _ => rfl
  | k + 1, s, i, j, hj => by
    rw [allocRqMapsFrom]
    split_ifs
    · rw [allocRqMapsFrom_setTags_of_le o k _ (i + 1) j (by omega),
        __blkMqAllocRqMap_setTags_ne s (by omega)]
    · exact __blkMqAllocRqMap_setTags_ne s (by omega) _

/-- `blk_mq_alloc_rq_maps` writes no `set->tags[j]` at or past `nr_hw_queues`. -/
theorem allocRqMapsRetry_setTags_of_le (o : ℕ → ℕ → AllocOutcome)
    (nrHwQueues reservedTags tagMin round depth : ℕ) (s : RqMapHeap) {j : ℕ} (hj : nrHwQueues ≤ j) :
    (allocRqMapsRetry o nrHwQueues reservedTags tagMin round depth s).1.setTags j = s.setTags j := by
  have hround : ∀ round s, (__blkMqAllocRqMaps (o round) s nrHwQueues).1.setTags j = s.setTags j := by
    intro round s
    have h := allocRqMapsFrom_setTags_of_le (o round) nrHwQueues s 0 j (by omega)
    rw [__blkMqAllocRqMaps]
    rcases hr : allocRqMapsFrom (o round) s 0 nrHwQueues with ⟨s', _ | f⟩ <;> rw [hr] at h
    · exact h
    · rw [(allocRqMapsUnwind_keeps s' f).2]; exact h
  induction round, depth, s using allocRqMapsRetry.induct o nrHwQueues reservedTags tagMin with
  | case4 round depth s r hr hge hz ih =>
    dsimp only [r] at hr ih
    rw [allocRqMapsRetry]
    simp only [hr, hge, hz, Bool.false_eq_true, ↓reduceIte, dite_false]
    rw [ih, hround]
  | _ => rw [allocRqMapsRetry]; split_ifs <;> exact hround _ _

/-- The free loop of `blk_mq_free_tag_set` over distinct hardware queues whose `set->tags` point
at all the maps allocated: no map is left, and a request page stays exactly when none of them
points at its map. -/
theorem foldl_blkMqFreeMapAndRequests (t : ℕ → Option ℕ) : ∀ (l : List ℕ) (s : RqMapHeap),
    l.Nodup → (∀ j ∈ l, s.setTags j = t j) → s.maps = l.filterMap t →
      (l.foldl blkMqFreeMapAndRequests s).maps = [] ∧
        (l.foldl blkMqFreeMapAndRequests s).pages =
          s.pages.filter fun p => !(l.any fun j => t j == some p.2)
  | [], s, _, _, hmaps => ⟨hmaps, by simp⟩
  | j :: l, s, hl, ht, hmaps => by
    obtain ⟨hj, hl⟩ := List.nodup_cons.1 hl
    have hagree : ∀ j' ∈ l, s.setTags j' = t j' := fun j' h => ht j' (List.mem_cons_of_mem _ h)
    rw [List.foldl_cons]
    cases htj : t j with
    | none =>
      have hfree : blkMqFreeMapAndRequests s j = s := by
        simp [blkMqFreeMapAndRequests, ht j (List.mem_cons_self _ _), htj]
      rw [hfree]
      simpa [htj] using foldl_blkMqFreeMapAndRequests t l s hl hagree (by simpa [htj] using hmaps)
    | some m =>
      have hsj := ht j (List.mem_cons_self _ _)
      obtain ⟨h1, h2⟩ := foldl_blkMqFreeMapAndRequests t l (blkMqFreeMapAndRequests s j) hl
        (fun j' h => by
          simp [blkMqFreeMapAndRequests, hsj, htj, ne_of_mem_of_not_mem h hj, hagree j' h])
        (by simp [blkMqFreeMapAndRequests, hsj, htj, blkMqFreeRqMap, blkMqFreeRqs, hmaps])
      refine ⟨h1, h2.trans ?_⟩
      simp only [blkMqFreeMapAndRequests, hsj, htj, blkMqFreeRqMap, blkMqFreeRqs, List.filter_filter]
      refine List.filter_congr fun p _ => ?_
      simp only [List.any_cons, htj, Bool.not_or, Bool.and_comm, bne, Option.some_beq_some]
      rw [Bool.beq_comm]

theorem filterMap_range_of_none {f : ℕ → Option ℕ} {n : ℕ} (hf : ∀ j, n ≤ j → f j = none)
    {N : ℕ} (hN : n ≤ N) : (List.range N).filterMap f = (List.range n).filterMap f := by
  induction N, hN using Nat.le_induction with
  | base => rfl
  | succ N hN ih => simp [List.range_succ, ih, hf N hN]

/-- `blk_mq_free_tag_set`, over `nr_cpu_ids` at least `nr_hw_queues`, on a heap whose tag maps are
those of `set->tags[0 .. nr_hw_queues)` and with no `set->tags[j]` past them: no map is left, and
of the request pages exactly those reachable from no `set->tags[i]`. -/
theorem blkMqFreeTagSet_of_clean {s : RqMapHeap} {n : ℕ} (hs : s.Clean n)
    (hnone : ∀ j, n ≤ j → s.setTags j = none) {nrCpuIds : ℕ} (hn : n ≤ nrCpuIds) :
    (blkMqFreeTagSet nrCpuIds s).maps = [] ∧
      (blkMqFreeTagSet nrCpuIds s).pages = s.pages.filter fun p => p ∉ s.reachablePages n := by
  obtain ⟨h1, h2⟩ := foldl_blkMqFreeMapAndRequests s.setTags (List.range nrCpuIds) s
    (List.nodup_range _) (fun _ _ => rfl) (hs.maps_eq.trans (filterMap_range_of_none hnone hn).symm)
  refine ⟨h1, h2.trans (List.filter_congr fun p hp => ?_)⟩
  have hany : ((List.range nrCpuIds).any fun j => s.setTags j == some p.2) =
      (List.range n).any fun j => s.setTags j == some p.2 := by
    rw [Bool.eq_iff_iff]
    simpa [List.any_eq_true] using
      ⟨fun ⟨j, _, hj⟩ => ⟨j, Nat.lt_of_not_le fun h => by simp [hnone j h] at hj, hj⟩,
        fun ⟨j, hj, hjp⟩ => ⟨j, by omega, hjp⟩⟩
  rw [hany]
  cases h : (List.range n).any fun j => s.setTags j == some p.2 <;>
    simp [RqMapHeap.reachablePages, hp, h]

/-- The allocations of `blk_mq_alloc_tag_set` return 0 with the heap `blk_mq_alloc_rq_maps` left. -/
theorem allocTagSetMaps_heap (tagMin : ℕ) (env : AllocTagSetEnv) (set : TagSetParams)
    (s : RqMapHeap) (h0 : (allocTagSetMaps tagMin env set s).2.2 = 0) :
    (allocTagSetMaps tagMin env set s).2.1 =
      (blkMqAllocRqMaps env.outcome set.nrHwQueues set.reservedTags tagMin set.queueDepth s).1 := by
  unfold allocTagSetMaps at h0 ⊢
  dsimp only at h0 ⊢
  generalize blkMqAllocRqMaps env.outcome set.nrHwQueues set.reservedTags tagMin set.queueDepth s = r
    at h0 ⊢
  split_ifs at h0 ⊢ <;> simp_all [ENOMEM]

/-- `blk_mq_alloc_tag_set` on an empty heap, when it returns 0, leaves the heap of
`blk_mq_alloc_rq_maps`: its tag maps those of `set->tags[0 .. nr_hw_queues)`, and no `set->tags[j]`
past them. -/
theorem blkMqAllocTagSet_clean (tagMin maxDepth : ℕ) (env : AllocTagSetEnv) (set : TagSetParams)
    (h0 : (blkMqAllocTagSet tagMin maxDepth env set RqMapHeap.empty).2.2 = 0) :
    (blkMqAllocTagSet tagMin maxDepth env set RqMapHeap.empty).2.1.Clean
        (blkMqAllocTagSet tagMin maxDepth env set RqMapHeap.empty).1.nrHwQueues ∧
      (∀ j, (blkMqAllocTagSet tagMin maxDepth env set RqMapHeap.empty).1.nrHwQueues ≤ j →
        (blkMqAllocTagSet tagMin maxDepth env set RqMapHeap.empty).2.1.setTags j = none) ∧
      (blkMqAllocTagSet tagMin maxDepth env set RqMapHeap.empty).1.nrHwQueues ≤ env.nrCpuIds ∧
      (blkMqAllocTagSet tagMin maxDepth env set RqMapHeap.empty).2.1 =
        (blkMqAllocRqMaps env.outcome (blkMqAllocTagSet tagMin maxDepth env set RqMapHeap.empty).1.nrHwQueues
          (allocTagSetClamp maxDepth env set).reservedTags tagMin (allocTagSetClamp maxDepth env set).queueDepth
          RqMapHeap.empty).1 := by
  obtain ⟨-, -, heq⟩ := blkMqAllocTagSet_eq_zero tagMin maxDepth env set _ h0
  rw [heq] at h0 ⊢
  obtain ⟨hok, hset⟩ := allocTagSetMaps_eq_zero _ _ _ _ h0
  rw [hset, allocTagSetMaps_heap _ _ _ _ h0]
  simp only [blkMqAllocRqMaps, Bool.and_eq_true] at hok
  refine ⟨RqMapHeap.Clean.of_allocRqMapsRetry _ _ _ _ _ _ (RqMapHeap.clean_zero rfl) hok.2,
    fun j hj => allocRqMapsRetry_setTags_of_le _ _ _ _ _ _ _ hj, ?_, rfl⟩
  rw [(allocTagSetClamp_spec maxDepth env set).2.2]
  omega

/-- Two CPUs and every allocation available, but in the first round of `blk_mq_alloc_rq_maps`
the request pages of hardware queue 1 cannot be had. -/
def lossyTagSetEnv : AllocTagSetEnv :=
  ⟨false, 2, true, true, 0, fun round i => if round = 0 ∧ i = 1 then ⟨true, false⟩ else ⟨true, true⟩⟩

/-- `blk_mq_free_tag_set` after a `blk_mq_alloc_tag_set` that returned 0 frees every tag map, and
of the request pages exactly the ones some `set->tags[i]` reaches: the pages that an unwound round
of `blk_mq_alloc_rq_maps` lost stay allocated. When no allocation of the first round fails,
nothing stays. -/
theorem free_tag_set_frees_reachable (tagMin maxDepth : ℕ) (env : AllocTagSetEnv)
    (set : TagSetParams) (h0 : (blkMqAllocTagSet tagMin maxDepth env set RqMapHeap.empty).2.2 = 0) :
    (blkMqFreeTagSet env.nrCpuIds (blkMqAllocTagSet tagMin maxDepth env set RqMapHeap.empty).2.1).maps = [] ∧
      (blkMqFreeTagSet env.nrCpuIds (blkMqAllocTagSet tagMin maxDepth env set RqMapHeap.empty).2.1).pages =
        (blkMqAllocTagSet tagMin maxDepth env set RqMapHeap.empty).2.1.pages.filter (fun p =>
          p ∉ (blkMqAllocTagSet tagMin maxDepth env set RqMapHeap.empty).2.1.reachablePages
            (blkMqAllocTagSet tagMin maxDepth env set RqMapHeap.empty).1.nrHwQueues) ∧
      ((∀ i < (blkMqAllocTagSet tagMin maxDepth env set RqMapHeap.empty).1.nrHwQueues,
          env.outcome 0 i = ⟨true, true⟩) →
        (blkMqFreeTagSet env.nrCpuIds (blkMqAllocTagSet tagMin maxDepth env set RqMapHeap.empty).2.1).pages = []) := by
  obtain ⟨hclean, hnone, hn, hheap⟩ := blkMqAllocTagSet_clean tagMin maxDepth env set h0
  obtain ⟨h1, h2⟩ := blkMqFreeTagSet_of_clean hclean hnone hn
  refine ⟨h1, h2, fun ho => ?_⟩
  rw [h2, List.filter_eq_nil_iff]
  intro p hp
  rw [hheap, blkMqAllocRqMaps_reachable_of_first_round _ _ _ _ _ ho, ← hheap] at hp
  simpa using hp

/-- Two hardware queues at depth 4 in that environment: `blk_mq_alloc_tag_set` returns 0. -/
theorem free_tag_set_frees_reachable_lossy :
    (blkMqAllocTagSet 1 10240 lossyTagSetEnv ⟨2, 4, 0, true⟩ RqMapHeap.empty).2.2 = 0 ∧
    (blkMqFreeTagSet lossyTagSetEnv.nrCpuIds
        (blkMqAllocTagSet 1 10240 lossyTagSetEnv ⟨2, 4, 0, true⟩ RqMapHeap.empty).2.1).maps = [] ∧
      (blkMqFreeTagSet lossyTagSetEnv.nrCpuIds
          (blkMqAllocTagSet 1 10240 lossyTagSetEnv ⟨2, 4, 0, true⟩ RqMapHeap.empty).2.1).pages =
        (blkMqAllocTagSet 1 10240 lossyTagSetEnv ⟨2, 4, 0, true⟩ RqMapHeap.empty).2.1.pages.filter
          (fun p => p ∉ (blkMqAllocTagSet 1 10240 lossyTagSetEnv ⟨2, 4, 0, true⟩ RqMapHeap.empty).2.1.reachablePages
            (blkMqAllocTagSet 1 10240 lossyTagSetEnv ⟨2, 4, 0, true⟩ RqMapHeap.empty).1.nrHwQueues) ∧
      ((∀ i < (blkMqAllocTagSet 1 10240 lossyTagSetEnv ⟨2, 4, 0, true⟩ RqMapHeap.empty).1.nrHwQueues,
          lossyTagSetEnv.outcome 0 i = ⟨true, true⟩) →
        (blkMqFreeTagSet lossyTagSetEnv.nrCpuIds
          (blkMqAllocTagSet 1 10240 lossyTagSetEnv ⟨2, 4, 0, true⟩ RqMapHeap.empty).2.1).pages = []) := by
  have h0 : (blkMqAllocTagSet 1 10240 lossyTagSetEnv ⟨2, 4, 0, true⟩ RqMapHeap.empty).2.2 = 0 := by
    simp only [blkMqAllocTagSet, allocTagSetMaps, blkMqAllocRqMaps]
    rw [allocRqMapsRetry, allocRqMapsRetry]
    decide
  exact ⟨h0, free_tag_set_frees_reachable 1 10240 lossyTagSetEnv ⟨2, 4, 0, true⟩ h0⟩

/-- There the page the unwound round got for hardware queue 0 is the one the teardown leaves. -/
example : (blkMqFreeTagSet 2 (blkMqAllocTagSet 1 10240 lossyTagSetEnv ⟨2, 4, 0, true⟩
    RqMapHeap.empty).2.1).pages = [(1, 0)] := by
  simp only [blkMqAllocTagSet, allocTagSetMaps, blkMqAllocRqMaps]
  rw [allocRqMapsRetry, allocRqMapsRetry]
  decide

end BlkMq
