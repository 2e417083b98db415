import Mathlib.Data.List.Count
import Mathlib.Data.List.Nodup
import BlkMq.Freeze

/-!
# Reinitialising every queue on a CPU hotplug event

On `CPU_DEAD`, `CPU_UP_CANCELED` and `CPU_UP_PREPARE`, `blk_mq_queue_reinit_notify` freezes every
queue on `all_q_list`, remaps each with `blk_mq_queue_reinit`, and unfreezes them all.
`__blk_mq_freeze_all_queue_list` freezes in three rounds to avoid two deadlocks: first the
queues marked `front_queue` (stacked queues such as DM), then the unmarked ones, then those
marked `tail_queue` only (the NVMe admin queue). Each round starts freezing all its queues and
then waits for each. The front and tail queues are moved off `all_q_list` with `list_move`,
which reverses them, and spliced back at its head and its tail.

The notifier is modelled as the sequence of calls it makes into the queues, each recorded as an
event, over the freeze state of every queue (`FreezeQueue`). Per queue, one freeze start and one
unfreeze; every reinit sees the depth one above where it started; and the order of the events
follows from how the event list splits at the boundaries of the rounds.
-/

namespace BlkMq

/-- A queue on `all_q_list`, with `q->front_queue` and `q->tail_queue`. -/
structure ReinitQueue where
  id : ℕ
  frontQueue : Bool
  tailQueue : Bool
  deriving DecidableEq, Repr

/-- Neither marking: the queue stays on `all_q_list` while the others are moved off. -/
def ReinitQueue.middle (q : ReinitQueue) : Bool := !q.frontQueue && !q.tailQueue

/-- `q->tail_queue` without `q->front_queue`: the queue goes to `tail`. -/
def ReinitQueue.tailOnly (q : ReinitQueue) : Bool := !q.frontQueue && q.tailQueue

/-- A call of the notifier into a queue. -/
inductive ReinitEvent
  /-- `blk_freeze_queue_start(q)`. -/
  | freezeStart (q : ReinitQueue)
  /-- `blk_mq_freeze_queue_wait(q)` returning. -/
  | freezeWait (q : ReinitQueue)
  /-- `blk_mq_queue_reinit(q, &online_new)`, with the `mq_freeze_depth` it finds. -/
  | reinit (q : ReinitQueue) (depth : ℤ)
  /-- `blk_mq_unfreeze_queue(q)`. -/
  | unfreeze (q : ReinitQueue)
  deriving DecidableEq, Repr

/-- `all_q_list`, the freeze state of each queue by its identity, and the calls made so far. -/
structure ReinitState where
  allQList : List ReinitQueue
  freeze : ℕ → FreezeQueue
  events : List ReinitEvent

namespace ReinitState

/-- A call into queue `q`: `f` on its freeze state, recorded as `e`. -/
def call (s : ReinitState) (f : FreezeQueue → FreezeQueue) (e : ReinitEvent) (q : ReinitQueue) :
    ReinitState :=
  { s with freeze := Function.update s.freeze q.id (f (s.freeze q.id)), events := s.events ++ [e] }

/-- `blk_freeze_queue_start(q)`. -/
def freezeStart (s : ReinitState) (q : ReinitQueue) : ReinitState :=
  s.call blkFreezeQueueStart (.freezeStart q) q

/-- `blk_mq_freeze_queue_wait(q)` and `del_timer_sync(&q->timeout)`: the wait returns once
`q->q_usage_counter` has drained, and the freeze state is left as it is. -/
def freezeWait (s : ReinitState) (q : ReinitQueue) : ReinitState :=
  s.call id (.freezeWait q) q

/-- `blk_mq_queue_reinit(q, &online_new)`, with the depth its `WARN_ON_ONCE` reads; the remapping
by `blk_mq_map_swqueue` is not modelled here. -/
def queueReinit (s : ReinitState) (q : ReinitQueue) : ReinitState :=
  s.call id (.reinit q (s.freeze q.id).depth) q

/-- `blk_mq_unfreeze_queue(q)`. -/
def unfreeze (s : ReinitState) (q : ReinitQueue) : ReinitState :=
  s.call blkMqUnfreezeQueue (.unfreeze q) q

end ReinitState

/-- The lists `__blk_mq_freeze_all_queue_list` works on: `front`, `all_q_list` and `tail`. -/
structure QueueLists where
  front : List ReinitQueue
  allQ : List ReinitQueue
  tail : List ReinitQueue

/-- One iteration of `list_for_each_entry_safe` over `all_q_list`: `list_move` of a front queue
to the head of `front`, of a tail queue to the head of `tail`; the others stay. -/
def moveQueue (l : QueueLists) (q : ReinitQueue) : QueueLists :=
  if q.frontQueue then { l with front := q :: l.front }
  else if q.tailQueue then { l with tail := q :: l.tail }
  else { l with allQ := l.allQ ++ [q] }

/-- `blk_mq_freeze_queue_list(list)`: start freezing every queue of `list`, then wait for each. -/
def blkMqFreezeQueueList (s : ReinitState) (list : List ReinitQueue) : ReinitState :=
  list.foldl ReinitState.freezeWait (list.foldl ReinitState.freezeStart s)

/-- `__blk_mq_freeze_all_queue_list()`. -/
def __blkMqFreezeAllQueueList (s : ReinitState) : ReinitState :=
  let l := s.allQList.foldl moveQueue ⟨[], [], []⟩
  let s := blkMqFreezeQueueList (blkMqFreezeQueueList (blkMqFreezeQueueList s l.front) l.allQ) l.tail
  { s with allQList := l.front ++ l.allQ ++ l.tail }

/-- `action & ~CPU_TASKS_FROZEN`, as the notifier tells the hotplug events apart. -/
inductive ReinitAction
  | cpuDead
  | cpuUpCanceled
  | cpuUpPrepare
  | other
  deriving DecidableEq, Repr

/-- `blk_mq_queue_reinit_notify(nb, action, hcpu)`, under `all_q_mutex`. -/
def blkMqQueueReinitNotify (action : ReinitAction) (s : ReinitState) : ReinitState :=
  match action with
  | .other => s
  | _ =>
    let s := __blkMqFreezeAllQueueList s
    let s := s.allQList.foldl ReinitState.queueReinit s
    s.allQList.foldl ReinitState.unfreeze s

/-! ### The calls of each loop -/

namespace ReinitState

variable {f : FreezeQueue → FreezeQueue} {e : ReinitQueue → ReinitEvent}

theorem call_depth (s : ReinitState) (e : ReinitEvent) (q : ReinitQueue) (n : ℕ) :
    ((s.call f e q).freeze n).depth =
      if q.id = n then (f (s.freeze n)).depth else (s.freeze n).depth := by
  unfold call
  split_ifs with h
  · subst h
    simp
  · simp [Function.update_noteq (Ne.symm h)]

/-- A loop of calls that leave the freeze state alone only records them. -/
theorem foldl_call_id (e : (ℕ → FreezeQueue) → ReinitQueue → ReinitEvent) :
    ∀ (l : List ReinitQueue) (s : ReinitState),
      l.foldl (fun s q => s.call id (e s.freeze q) q) s =
        { s with events := s.events ++ l.map (e s.freeze) }
  | [], s => by simp
  | q :: l, s => by
    rw [List.foldl_cons, foldl_call_id e l]
    simp [call, Function.update_eq_self]

theorem foldl_call_events (g : ReinitState → ReinitQueue → ReinitState)
    (hg : ∀ s q, g s q = s.call f (e q) q) : ∀ (l : List ReinitQueue) (s : ReinitState),
      (l.foldl g s).events = s.events ++ l.map e ∧ (l.foldl g s).allQList = s.allQList
  | [], s => by simp
  | q :: l, s => by
    rw [List.foldl_cons, (foldl_call_events g hg l _).1, (foldl_call_events g hg l _).2, hg]
    simp [call]

/-- A loop of calls that move the depth by `δ` moves each queue's depth by `δ` per call. -/
theorem foldl_call_depth (g : ReinitState → ReinitQueue → ReinitState) (δ : ℤ)
    (hg : ∀ s q, g s q = s.call f (e q) q) (hf : ∀ x, (f x).depth = x.depth + δ) (n : ℕ) :
    ∀ (l : List ReinitQueue) (s : ReinitState),
      ((l.foldl g s).freeze n).depth = (s.freeze n).depth + δ * l.countP (fun q => q.id = n)
  | [], s => by simp
  | q :: l, s => by
    rw [List.foldl_cons, foldl_call_depth g δ hg hf n l, hg, call_depth, List.countP_cons]
    by_cases h : q.id = n
    · simp only [hf, h, decide_True, if_true, Int.natCast_add, Int.natCast_one, Int.mul_add,
        Int.mul_one]
      omega
    · simp only [h, decide_False, Bool.false_eq_true, if_false, Nat.add_zero]

end ReinitState

/-- The calls of one `blk_mq_freeze_queue_list(list)`. -/
def freezeRoundEvents (list : List ReinitQueue) : List ReinitEvent :=
  list.map .freezeStart ++ list.map .freezeWait

@[simp]
theorem freezeStart_mem_freezeRoundEvents {q : ReinitQueue} {list : List ReinitQueue} :
    .freezeStart q ∈ freezeRoundEvents list ↔ q ∈ list := by
  simp [freezeRoundEvents]

@[simp]
theorem freezeWait_mem_freezeRoundEvents {q : ReinitQueue} {list : List ReinitQueue} :
    .freezeWait q ∈ freezeRoundEvents list ↔ q ∈ list := by
  simp [freezeRoundEvents]

@[simp]
theorem reinit_not_mem_freezeRoundEvents (q : ReinitQueue) (d : ℤ) (list : List ReinitQueue) :
    .reinit q d ∉ freezeRoundEvents list := by
  simp [freezeRoundEvents]

@[simp]
theorem unfreeze_not_mem_freezeRoundEvents (q : ReinitQueue) (list : List ReinitQueue) :
    .unfreeze q ∉ freezeRoundEvents list := by
  simp [freezeRoundEvents]

theorem blkMqFreezeQueueList_events (s : ReinitState) (list : List ReinitQueue) :
    (blkMqFreezeQueueList s list).events = s.events ++ freezeRoundEvents list := by
  unfold blkMqFreezeQueueList
  rw [(ReinitState.foldl_call_events ReinitState.freezeWait (fun _ _ => rfl) _ _).1,
    (ReinitState.foldl_call_events ReinitState.freezeStart (fun _ _ => rfl) _ _).1,
    List.append_assoc, freezeRoundEvents]

theorem blkMqFreezeQueueList_allQList (s : ReinitState) (list : List ReinitQueue) :
    (blkMqFreezeQueueList s list).allQList = s.allQList := by
  unfold blkMqFreezeQueueList
  rw [(ReinitState.foldl_call_events ReinitState.freezeWait (fun _ _ => rfl) _ _).2,
    (ReinitState.foldl_call_events ReinitState.freezeStart (fun _ _ => rfl) _ _).2]

theorem blkMqFreezeQueueList_depth (s : ReinitState) (list : List ReinitQueue) (n : ℕ) :
    ((blkMqFreezeQueueList s list).freeze n).depth =
      (s.freeze n).depth + list.countP (fun q => q.id = n) := by
  unfold blkMqFreezeQueueList
  rw [ReinitState.foldl_call_depth ReinitState.freezeWait 0 (fun _ _ => rfl)
      (fun x => (Int.add_zero _).symm),
    ReinitState.foldl_call_depth ReinitState.freezeStart 1 (fun _ _ => rfl)
      blkFreezeQueueStart_depth]
  omega

/-- The loop of `__blk_mq_freeze_all_queue_list` leaves the front queues, reversed, on `front`,
the unmarked ones in order on `all_q_list`, and the tail-only ones, reversed, on `tail`. -/
theorem foldl_moveQueue : ∀ (qs : List ReinitQueue) (l : QueueLists),
    qs.foldl moveQueue l = ⟨(qs.filter (·.frontQueue)).reverse ++ l.front,
      l.allQ ++ qs.filter ReinitQueue.middle, (qs.filter ReinitQueue.tailOnly).reverse ++ l.tail⟩
  | [], l => by simp
  | q :: qs, l => by
    rw [List.foldl_cons, foldl_moveQueue qs]
    cases hf : q.frontQueue <;> cases ht : q.tailQueue <;>
      simp [moveQueue, hf, ht, List.filter_cons, ReinitQueue.middle, ReinitQueue.tailOnly]

/-- The order `__blk_mq_freeze_all_queue_list` leaves `all_q_list` in. -/
def reinitOrder (allQ : List ReinitQueue) : List ReinitQueue :=
  (allQ.filter (·.frontQueue)).reverse ++ allQ.filter ReinitQueue.middle ++
    (allQ.filter ReinitQueue.tailOnly).reverse

theorem __blkMqFreezeAllQueueList_spec (s : ReinitState) :
    (__blkMqFreezeAllQueueList s).allQList = reinitOrder s.allQList ∧
    (__blkMqFreezeAllQueueList s).events = s.events ++
      (freezeRoundEvents (s.allQList.filter (·.frontQueue)).reverse ++
        (freezeRoundEvents (s.allQList.filter ReinitQueue.middle) ++
          freezeRoundEvents (s.allQList.filter ReinitQueue.tailOnly).reverse)) ∧
    ∀ n, ((__blkMqFreezeAllQueueList s).freeze n).depth =
      (s.freeze n).depth + (reinitOrder s.allQList).countP (fun q => q.id = n) := by
  unfold __blkMqFreezeAllQueueList
  rw [foldl_moveQueue]
  simp only [List.append_nil, List.nil_append]
  refine ⟨rfl, ?_, fun n => ?_⟩
  · simp only [blkMqFreezeQueueList_events, List.append_assoc]
  · simp only [blkMqFreezeQueueList_depth, reinitOrder, List.countP_append, Int.natCast_add]
    omega

/-- The front queues come back reversed, since `list_move` puts each at the head of `front`. -/
example : reinitOrder [⟨1, true, false⟩, ⟨2, false, false⟩, ⟨3, false, true⟩, ⟨4, true, false⟩] =
    [⟨4, true, false⟩, ⟨1, true, false⟩, ⟨2, false, false⟩, ⟨3, false, true⟩] := by
  decide

theorem blkMqQueueReinitNotify_spec (action : ReinitAction) (hact : action ≠ .other)
    (s : ReinitState) :
    (blkMqQueueReinitNotify action s).allQList = reinitOrder s.allQList ∧
    (blkMqQueueReinitNotify action s).events = s.events ++
      (freezeRoundEvents (s.allQList.filter (·.frontQueue)).reverse ++
        (freezeRoundEvents (s.allQList.filter ReinitQueue.middle) ++
          (freezeRoundEvents (s.allQList.filter ReinitQueue.tailOnly).reverse ++
            ((reinitOrder s.allQList).map (fun q => .reinit q ((s.freeze q.id).depth +
                (reinitOrder s.allQList).countP (fun r => r.id = q.id))) ++
              (reinitOrder s.allQList).map .unfreeze)))) ∧
    ∀ n, ((blkMqQueueReinitNotify action s).freeze n).depth = (s.freeze n).depth := by
  have hbody : blkMqQueueReinitNotify action s =
      ((__blkMqFreezeAllQueueList s).allQList.foldl ReinitState.queueReinit
        (__blkMqFreezeAllQueueList s)).allQList.foldl ReinitState.unfreeze
          ((__blkMqFreezeAllQueueList s).allQList.foldl ReinitState.queueReinit
            (__blkMqFreezeAllQueueList s)) := by
    cases action <;> first | rfl | exact absurd rfl hact
  obtain ⟨hl, he, hd⟩ := __blkMqFreezeAllQueueList_spec s
  have hr : (__blkMqFreezeAllQueueList s).allQList.foldl ReinitState.queueReinit
      (__blkMqFreezeAllQueueList s) = { __blkMqFreezeAllQueueList s with
        events := (__blkMqFreezeAllQueueList s).events ++ (__blkMqFreezeAllQueueList s).allQList.map
          fun q => .reinit q ((__blkMqFreezeAllQueueList s).freeze q.id).depth } :=
    ReinitState.foldl_call_id (fun fr q => .reinit q (fr q.id).depth) _ _
  have hu := ReinitState.foldl_call_events ReinitState.unfreeze (fun _ _ => rfl)
  have hud := ReinitState.foldl_call_depth ReinitState.unfreeze (-1) (fun _ _ => rfl)
    (fun x => by rw [blkMqUnfreezeQueue_depth]; omega)
  rw [hbody, hr]
  refine ⟨?_, ?_, fun n => ?_⟩
  · rw [(hu _ _).2]
    exact hl
  · rw [(hu _ _).1]
    simp only [he, hl, hd, List.append_assoc]
  · rw [hud]
    simp only [hd, hl]
    omega

/-! ### The order of the calls -/

theorem reinitOrder_perm (allQ : List ReinitQueue) : (reinitOrder allQ).Perm allQ := by
  refine List.perm_iff_count.2 fun q => ?_
  have hfilter : ∀ p : ReinitQueue → Bool,
      (allQ.filter p).count q = if p q then allQ.count q else 0 := fun p => by
    split_ifs with h
    · exact List.count_filter h
    · exact List.count_eq_zero.2 fun hm => h (List.mem_filter.1 hm).2
  simp only [reinitOrder, List.count_append, List.count_reverse, hfilter, ReinitQueue.middle,
    ReinitQueue.tailOnly]
  by_cases hf : q.frontQueue <;> by_cases ht : q.tailQueue <;> simp [hf, ht]

/-- A queue on a list of distinct queues has its identity once. -/
theorem countP_id_eq_one {allQ : List ReinitQueue} (hnodup : (allQ.map ReinitQueue.id).Nodup)
    {q : ReinitQueue} (hq : q ∈ allQ) : allQ.countP (fun r => r.id = q.id) = 1 := by
  have : allQ.countP (fun r => r.id = q.id) = (allQ.map ReinitQueue.id).count q.id := by
    rw [List.count_eq_countP, List.countP_map]
    rfl
  rw [this]
  exact List.count_eq_one_of_mem hnodup (List.mem_map_of_mem _ hq)

theorem count_map_ne {a : ReinitEvent} (f : ReinitQueue → ReinitEvent) (h : ∀ q, f q ≠ a)
    (l : List ReinitQueue) : (l.map f).count a = 0 :=
  List.count_eq_zero.2 fun hm => let ⟨q, _, hq⟩ := List.mem_map.1 hm; h q hq

theorem count_freezeStart_freezeRoundEvents (q : ReinitQueue) (list : List ReinitQueue) :
    (freezeRoundEvents list).count (.freezeStart q) = list.count q := by
  rw [freezeRoundEvents, List.count_append,
    List.count_map_of_injective _ _ (fun _ _ h => ReinitEvent.freezeStart.inj h),
    count_map_ne _ (fun _ => ReinitEvent.noConfusion), Nat.add_zero]

theorem count_unfreeze_freezeRoundEvents (q : ReinitQueue) (list : List ReinitQueue) :
    (freezeRoundEvents list).count (.unfreeze q) = 0 := by
  rw [freezeRoundEvents, List.count_append, count_map_ne _ (fun _ => ReinitEvent.noConfusion),
    count_map_ne _ (fun _ => ReinitEvent.noConfusion)]

theorem reinit_mem_map_reinit {q : ReinitQueue} {d : ℤ} {g : ReinitQueue → ℤ}
    {list : List ReinitQueue} :
    ReinitEvent.reinit q d ∈ list.map (fun r => ReinitEvent.reinit r (g r)) ↔ q ∈ list ∧ g q = d := by
  simp only [List.mem_map, ReinitEvent.reinit.injEq]
  constructor
  · rintro ⟨r, hr, rfl, rfl⟩
    exact ⟨hr, rfl⟩
  · rintro ⟨hq, rfl⟩
    exact ⟨q, hq, rfl, rfl⟩

theorem count_freezeWait_freezeRoundEvents (q : ReinitQueue) (list : List ReinitQueue) :
    (freezeRoundEvents list).count (.freezeWait q) = list.count q := by
  rw [freezeRoundEvents, List.count_append, count_map_ne _ (fun _ => ReinitEvent.noConfusion),
    List.count_map_of_injective _ _ (fun _ _ h => ReinitEvent.freezeWait.inj h), Nat.zero_add]

/-- In the calls of the notifier, the freeze calls of a queue are those of the three rounds. -/
theorem count_freeze_events {a : ReinitEvent} (hr : ∀ r d, .reinit r d ≠ a)
    (hu : ∀ r, .unfreeze r ≠ a) (F M T X : List ReinitQueue) (g : ReinitQueue → ℤ) :
    (freezeRoundEvents F ++ (freezeRoundEvents M ++ (freezeRoundEvents T ++
      (X.map (fun r => ReinitEvent.reinit r (g r)) ++ X.map ReinitEvent.unfreeze)))).count a =
      (freezeRoundEvents F).count a + (freezeRoundEvents M).count a +
        (freezeRoundEvents T).count a := by
  simp only [List.count_append, count_map_ne _ (fun r => hr r (g r)), count_map_ne _ hu]
  omega

/-- In the calls of the notifier, the unfreezes of a queue are those of its last loop. -/
theorem count_unfreeze_events (q : ReinitQueue) (F M T X : List ReinitQueue)
    (g : ReinitQueue → ℤ) :
    (freezeRoundEvents F ++ (freezeRoundEvents M ++ (freezeRoundEvents T ++
      (X.map (fun r => ReinitEvent.reinit r (g r)) ++ X.map ReinitEvent.unfreeze)))).count
        (ReinitEvent.unfreeze q) =
      X.count q := by
  have h₁ : (X.map fun r => ReinitEvent.reinit r (g r)).count (.unfreeze q) = 0 :=
    List.count_eq_zero.2 (by simp)
  simp only [List.count_append, count_unfreeze_freezeRoundEvents, h₁,
    List.count_map_of_injective _ _ fun _ _ h => ReinitEvent.unfreeze.inj h]
  omega

/-- Every call `a` in `es` comes before every call `b`. -/
def Precedes (es : List ReinitEvent) (a b : ReinitEvent) : Prop :=
  ∀ i j : ℕ, es[i]? = some a → es[j]? = some b → i < j

/-- A call found only in the first part of a split comes before one found only in the second. -/
theorem precedes_of_split (l₁ l₂ : List ReinitEvent) {es : List ReinitEvent} {a b : ReinitEvent}
    (h : es = l₁ ++ l₂) (ha : a ∉ l₂) (hb : b ∉ l₁) : Precedes es a b := by
  subst h
  intro i j hi hj
  have hi' : i < l₁.length := by
    by_contra hc
    rw [List.getElem?_append_right (by omega)] at hi
    exact ha (List.getElem?_mem hi)
  have hj' : l₁.length ≤ j := by
    by_contra hc
    rw [List.getElem?_append_left (by omega)] at hj
    exact hb (List.getElem?_mem hj)
  omega

/-- What `blk_mq_queue_reinit_notify` leaves, for the queues `allQ` it found on `all_q_list`
with the freeze states `freeze`. -/
structure ReinitOrdered (allQ : List ReinitQueue) (freeze : ℕ → FreezeQueue) (s : ReinitState) :
    Prop where
  /-- One `blk_freeze_queue_start`, one `blk_mq_freeze_queue_wait` and one
  `blk_mq_unfreeze_queue` per queue. -/
  once : ∀ q ∈ allQ, s.events.count (.freezeStart q) = 1 ∧ s.events.count (.freezeWait q) = 1 ∧
    s.events.count (.unfreeze q) = 1
  /-- Every freeze depth as it was. -/
  depth_eq : ∀ n, (s.freeze n).depth = (freeze n).depth
  /-- `all_q_list` holds the same queues, front queues first and tail-only queues last. -/
  perm : s.allQList.Perm allQ
  order : ∃ front middle tail, s.allQList = front ++ middle ++ tail ∧
    (∀ q ∈ front, q.frontQueue = true) ∧ (∀ q ∈ middle, q.middle = true) ∧
    ∀ q ∈ tail, q.tailOnly = true
  /-- The freeze of every front queue completes before any other queue starts freezing. -/
  front_first : ∀ q ∈ allQ, ∀ q' ∈ allQ, q.frontQueue = true → q'.frontQueue = false →
    Precedes s.events (.freezeWait q) (.freezeStart q')
  /-- The freeze of every queue but the tail-only ones completes before any tail-only queue
  starts freezing. -/
  tail_last : ∀ q ∈ allQ, ∀ q' ∈ allQ, q.tailOnly = false → q'.tailOnly = true →
    Precedes s.events (.freezeWait q) (.freezeStart q')
  /-- Each queue is reinitialised, frozen: at a depth one above where it started, after its
  freeze completes and before its unfreeze. -/
  reinit_depth : ∀ q ∈ allQ, ∀ d, .reinit q d ∈ s.events ↔ d = (freeze q.id).depth + 1
  reinit_pos : ∀ q ∈ allQ, ∀ d, .reinit q d ∈ s.events → 0 < d
  reinit_frozen : ∀ q ∈ allQ, ∀ d, Precedes s.events (.freezeWait q) (.reinit q d) ∧
    Precedes s.events (.reinit q d) (.unfreeze q)

/-- A DM queue stacked on a plain queue, an NVMe admin queue, and a second stacked queue, none
of them frozen. -/
def stackedQueues : List ReinitQueue := [⟨1, true, false⟩, ⟨2, false, false⟩, ⟨3, false, true⟩,
  ⟨4, true, false⟩]

end BlkMq
