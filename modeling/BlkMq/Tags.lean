import Mathlib.Data.Finset.Basic

/-!
# Requests and their tags

The fields of `struct request` and of one hardware context that tag handling reads and
writes (`block/blk-mq.c`, `block/blk-mq.h`): the driver tag `rq->tag`, the scheduler tag
`internal_tag`, the `REQ_MQ_INFLIGHT` flag, the bitmaps of `hctx->tags` and
`hctx->sched_tags`, the array `hctx->tags->rqs[]` and the counter `hctx->nr_active`.
The allocator `blk_mq_get_tag` and the test `blk_mq_tag_busy` are in `blk-mq-tag.c` and
`blk-mq-tag.h`, which are not among the sources: their results are inputs here.
-/

namespace BlkMq

/-- The fields of `struct request` that tag handling reads and writes. A tag of `-1` in
the source is `none` here. -/
structure Request where
  /-- `rq->tag`: the driver tag. -/
  tag : Option ℕ
  /-- `rq_aux(rq)->internal_tag`: the scheduler tag, held when an I/O scheduler is attached. -/
  internalTag : Option ℕ
  /-- `REQ_MQ_INFLIGHT` in `rq->cmd_flags`: the request is counted in `hctx->nr_active`. -/
  inflight : Bool
  deriving DecidableEq, Repr

/-- The allocation state of one `struct blk_mq_tags`. -/
structure TagMap where
  /-- The set bits of the map's bitmap: the tags handed out. -/
  bits : Finset ℕ
  /-- Not in the source: the releases that found their bit already clear. -/
  doubleReleases : ℕ
  deriving DecidableEq

/-- Modelled from the spec: `blk_mq_put_tag` (in `blk-mq-tag.c`, not among the sources)
clears the bit of tag `t` ("Release clears the bit"). A bit found clear is a double
release, which `doubleReleases` counts. -/
def blkMqPutTag (m : TagMap) (t : ℕ) : TagMap :=
  { bits := m.bits.erase t, doubleReleases := m.doubleReleases + if t ∈ m.bits then 0 else 1 }

/-- The bit `blk_mq_get_tag` sets when it hands out the free tag `t`. -/
def TagMap.take (m : TagMap) (t : ℕ) : TagMap := { m with bits := insert t m.bits }

@[simp] theorem blkMqPutTag_bits (m : TagMap) (t : ℕ) : (blkMqPutTag m t).bits = m.bits.erase t :=
  rfl

@[simp] theorem blkMqPutTag_doubleReleases_of_mem {m : TagMap} {t : ℕ} (ht : t ∈ m.bits) :
    (blkMqPutTag m t).doubleReleases = m.doubleReleases := by
  simp [blkMqPutTag, ht]

@[simp] theorem TagMap.take_bits (m : TagMap) (t : ℕ) : (m.take t).bits = insert t m.bits := rfl

@[simp] theorem TagMap.take_doubleReleases (m : TagMap) (t : ℕ) :
    (m.take t).doubleReleases = m.doubleReleases := rfl

/-- The tag state of one hardware context: the request objects by identity, the live ones,
the driver and scheduler tag maps, `hctx->tags->rqs[]` and `hctx->nr_active`. -/
structure TagState where
  /-- The request objects (`static_rqs[]` slots), by identity. -/
  rq : ℕ → Request
  /-- The requests between `__blk_mq_alloc_request` and `__blk_mq_finish_request`. -/
  live : Finset ℕ
  /-- `hctx->tags`: the driver tags. -/
  driverTags : TagMap
  /-- `hctx->sched_tags`: the scheduler tags. -/
  schedTags : TagMap
  /-- `hctx->tags->rqs[]`: the request each driver tag was last given to. -/
  rqs : ℕ → Option ℕ
  /-- `hctx->nr_active`, an `atomic_t`. -/
  nrActive : ℤ

/-- The state `blk_mq_alloc_rqs` leaves: zeroed request objects, no live request, no tag handed
out. -/
def TagState.init : TagState :=
  ⟨fun _ => ⟨none, none, false⟩, ∅, ⟨∅, 0⟩, ⟨∅, 0⟩, fun _ => none, 0⟩

/-- Replace the fields of request `r`. -/
def TagState.setRq (s : TagState) (r : ℕ) (x : Request) : TagState :=
  { s with rq := Function.update s.rq r x }

@[simp] theorem TagState.setRq_rq_self (s : TagState) (r : ℕ) (x : Request) :
    (s.setRq r x).rq r = x := by
  simp [TagState.setRq]

@[simp] theorem TagState.setRq_rq_of_ne (s : TagState) {r r' : ℕ} (x : Request) (h : r' ≠ r) :
    (s.setRq r x).rq r' = s.rq r' := by
  simp [TagState.setRq, h]

@[simp] theorem TagState.setRq_live (s : TagState) (r : ℕ) (x : Request) :
    (s.setRq r x).live = s.live := rfl

@[simp] theorem TagState.setRq_driverTags (s : TagState) (r : ℕ) (x : Request) :
    (s.setRq r x).driverTags = s.driverTags := rfl

@[simp] theorem TagState.setRq_schedTags (s : TagState) (r : ℕ) (x : Request) :
    (s.setRq r x).schedTags = s.schedTags := rfl

@[simp] theorem TagState.setRq_rqs (s : TagState) (r : ℕ) (x : Request) :
    (s.setRq r x).rqs = s.rqs := rfl

@[simp] theorem TagState.setRq_nrActive (s : TagState) (r : ℕ) (x : Request) :
    (s.setRq r x).nrActive = s.nrActive := rfl

/-- The accounting of a driver tag `t` just obtained by request `r`: the bit, `rqs[t] = rq`,
and, when `blk_mq_tag_busy` holds (`busy`), `REQ_MQ_INFLIGHT` and `nr_active`. This is the
common part of `__blk_mq_alloc_request` without a scheduler and of `blk_mq_get_driver_tag`. -/
def TagState.takeDriverTag (s : TagState) (r t : ℕ) (busy : Bool) : TagState :=
  { s.setRq r { s.rq r with tag := some t, inflight := (s.rq r).inflight || busy } with
    driverTags := s.driverTags.take t
    rqs := Function.update s.rqs t (some r)
    nrActive := s.nrActive + if busy then 1 else 0 }

/-- The scheduler tag `t` just obtained by request `r` under `BLK_MQ_REQ_INTERNAL`. -/
def TagState.takeSchedTag (s : TagState) (r t : ℕ) : TagState :=
  { s.setRq r { s.rq r with internalTag := some t } with schedTags := s.schedTags.take t }

/-- `__blk_mq_alloc_request` once `blk_mq_get_tag` returned tag `t`, for the request object
`r` it designates. With `BLK_MQ_REQ_INTERNAL` (`internal`) `t` is a scheduler tag and no
driver tag is held; otherwise `t` is the driver tag. -/
def __blkMqAllocRequest (s : TagState) (r t : ℕ) (internal busy : Bool) : TagState :=
  let s := ({ s with live := insert r s.live } : TagState).setRq r
    { s.rq r with tag := none, internalTag := none }
  if internal then s.takeSchedTag r t else s.takeDriverTag r t busy

/-- `blk_mq_get_driver_tag`: a request holding a driver tag keeps it; otherwise the tag
`blk_mq_get_tag` returned (`got`) is taken. The result tells whether the request holds a
driver tag afterwards. -/
def blkMqGetDriverTag (s : TagState) (r : ℕ) (got : Option ℕ) (busy : Bool) : TagState × Bool :=
  match (s.rq r).tag, got with
  | some _, _ => (s, true)
  | none, none => (s, false)
  | none, some t => (s.takeDriverTag r t busy, true)

/-- `__blk_mq_put_driver_tag`: release the driver tag and drop `REQ_MQ_INFLIGHT` with its
share of `nr_active`. -/
def __blkMqPutDriverTag (s : TagState) (r : ℕ) : TagState :=
  { s.setRq r { s.rq r with tag := none, inflight := false } with
    driverTags := ((s.rq r).tag.map (blkMqPutTag s.driverTags)).getD s.driverTags
    nrActive := s.nrActive - if (s.rq r).inflight then 1 else 0 }

/-- `blk_mq_put_driver_tag`: only a request with both a driver tag and a scheduler tag gives
its driver tag back; without a scheduler the driver tag stays with the request. -/
def blkMqPutDriverTag (s : TagState) (r : ℕ) : TagState :=
  if (s.rq r).tag.isSome && (s.rq r).internalTag.isSome then __blkMqPutDriverTag s r else s

/-- `blk_mq_put_driver_tag_hctx`: `blk_mq_put_driver_tag` with the hardware context given by
the caller instead of looked up; with one hardware context the two coincide. -/
def blkMqPutDriverTagHctx (s : TagState) (r : ℕ) : TagState := blkMqPutDriverTag s r

/-- `__blk_mq_requeue_request`, its tag half: `blk_mq_put_driver_tag`. Its other half, clearing
`REQ_ATOM_STARTED`, is in the completion model. -/
def __blkMqRequeueRequest (s : TagState) (r : ℕ) : TagState := blkMqPutDriverTag s r

/-- `__blk_mq_finish_request`: drop `REQ_MQ_INFLIGHT` (clearing `cmd_flags`), release the
driver tag and the scheduler tag the request holds, and free the request. -/
def __blkMqFinishRequest (s : TagState) (r : ℕ) : TagState :=
  { s.setRq r { s.rq r with inflight := false } with
    nrActive := s.nrActive - if (s.rq r).inflight then 1 else 0
    driverTags := ((s.rq r).tag.map (blkMqPutTag s.driverTags)).getD s.driverTags
    schedTags := ((s.rq r).internalTag.map (blkMqPutTag s.schedTags)).getD s.schedTags
    live := s.live.erase r }

@[simp] theorem TagState.takeDriverTag_rq_self (s : TagState) (r t : ℕ) (busy : Bool) :
    (s.takeDriverTag r t busy).rq r = { s.rq r with tag := some t, inflight := (s.rq r).inflight || busy } := by
  simp [TagState.takeDriverTag]

@[simp] theorem TagState.takeDriverTag_rq_of_ne (s : TagState) {r r' : ℕ} (t : ℕ) (busy : Bool)
    (h : r' ≠ r) : (s.takeDriverTag r t busy).rq r' = s.rq r' := by
  simp [TagState.takeDriverTag, h]

@[simp] theorem TagState.takeDriverTag_live (s : TagState) (r t : ℕ) (busy : Bool) :
    (s.takeDriverTag r t busy).live = s.live := rfl

@[simp] theorem TagState.takeDriverTag_driverTags (s : TagState) (r t : ℕ) (busy : Bool) :
    (s.takeDriverTag r t busy).driverTags = s.driverTags.take t := rfl

@[simp] theorem TagState.takeDriverTag_schedTags (s : TagState) (r t : ℕ) (busy : Bool) :
    (s.takeDriverTag r t busy).schedTags = s.schedTags := rfl

@[simp] theorem TagState.takeDriverTag_rqs (s : TagState) (r t : ℕ) (busy : Bool) :
    (s.takeDriverTag r t busy).rqs = Function.update s.rqs t (some r) := rfl

@[simp] theorem TagState.takeDriverTag_nrActive (s : TagState) (r t : ℕ) (busy : Bool) :
    (s.takeDriverTag r t busy).nrActive = s.nrActive + if busy then 1 else 0 := rfl

@[simp] theorem TagState.takeDriverTag_internalTag (s : TagState) (r t r' : ℕ) (busy : Bool) :
    ((s.takeDriverTag r t busy).rq r').internalTag = (s.rq r').internalTag := by
  by_cases h : r' = r
  · subst h; simp
  · simp [h]

@[simp] theorem TagState.takeSchedTag_tag (s : TagState) (r t r' : ℕ) :
    ((s.takeSchedTag r t).rq r').tag = (s.rq r').tag := by
  by_cases h : r' = r
  · subst h; simp [TagState.takeSchedTag]
  · simp [TagState.takeSchedTag, h]

@[simp] theorem TagState.takeSchedTag_inflight (s : TagState) (r t r' : ℕ) :
    ((s.takeSchedTag r t).rq r').inflight = (s.rq r').inflight := by
  by_cases h : r' = r
  · subst h; simp [TagState.takeSchedTag]
  · simp [TagState.takeSchedTag, h]

@[simp] theorem __blkMqPutDriverTag_rq_self (s : TagState) (r : ℕ) :
    (__blkMqPutDriverTag s r).rq r = { s.rq r with tag := none, inflight := false } := by
  simp [__blkMqPutDriverTag]

@[simp] theorem __blkMqPutDriverTag_rq_of_ne (s : TagState) {r r' : ℕ} (h : r' ≠ r) :
    (__blkMqPutDriverTag s r).rq r' = s.rq r' := by
  simp [__blkMqPutDriverTag, h]

@[simp] theorem __blkMqPutDriverTag_internalTag (s : TagState) (r r' : ℕ) :
    ((__blkMqPutDriverTag s r).rq r').internalTag = (s.rq r').internalTag := by
  by_cases h : r' = r
  · subst h; simp
  · simp [h]

@[simp] theorem blkMqPutDriverTag_of_tag_none {s : TagState} {r : ℕ} (h : (s.rq r).tag = none) :
    blkMqPutDriverTag s r = s := by
  simp [blkMqPutDriverTag, h]

@[simp] theorem blkMqGetDriverTag_of_tag_some {s : TagState} {r t : ℕ} (h : (s.rq r).tag = some t)
    (got : Option ℕ) (busy : Bool) : blkMqGetDriverTag s r got busy = (s, true) := by
  simp [blkMqGetDriverTag, h]

@[simp] theorem blkMqGetDriverTag_internalTag (s : TagState) (r : ℕ) (got : Option ℕ) (busy : Bool)
    (r' : ℕ) : ((blkMqGetDriverTag s r got busy).1.rq r').internalTag = (s.rq r').internalTag := by
  unfold blkMqGetDriverTag
  split <;> simp

theorem blkMqGetDriverTag_rq_of_ne (s : TagState) {r r' : ℕ} (got : Option ℕ) (busy : Bool)
    (h : r' ≠ r) : (blkMqGetDriverTag s r got busy).1.rq r' = s.rq r' := by
  unfold blkMqGetDriverTag
  split <;> simp [h]

/-- `blk_mq_get_driver_tag` fails only for a request without a driver tag, and then changes
nothing. -/
theorem blkMqGetDriverTag_of_false {s : TagState} {r : ℕ} {got : Option ℕ} {busy : Bool}
    (h : (blkMqGetDriverTag s r got busy).2 = false) :
    (blkMqGetDriverTag s r got busy).1 = s ∧ (s.rq r).tag = none := by
  cases htag : (s.rq r).tag <;> cases got <;> simp_all [blkMqGetDriverTag]

@[simp] theorem blkMqPutDriverTag_internalTag (s : TagState) (r r' : ℕ) :
    ((blkMqPutDriverTag s r).rq r').internalTag = (s.rq r').internalTag := by
  unfold blkMqPutDriverTag
  split_ifs <;> simp

theorem blkMqPutDriverTag_rq_of_ne (s : TagState) {r r' : ℕ} (h : r' ≠ r) :
    (blkMqPutDriverTag s r).rq r' = s.rq r' := by
  unfold blkMqPutDriverTag
  split_ifs <;> simp [h]

/-- With a scheduler tag held, `blk_mq_put_driver_tag` leaves the request without a driver tag. -/
theorem blkMqPutDriverTag_tag_self {s : TagState} {r : ℕ} (h : (s.rq r).internalTag.isSome) :
    ((blkMqPutDriverTag s r).rq r).tag = none := by
  unfold blkMqPutDriverTag
  split_ifs with hput
  · simp
  · simpa [h] using hput

end BlkMq
