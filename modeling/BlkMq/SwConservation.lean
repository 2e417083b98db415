import BlkMq.SwQueue

/-!
# No request is lost on the software queues

The operations of `SwQueue` move requests between the places blk-mq keeps them: an insertion puts
requests on a software queue, `flush_busy_ctx` splices a software queue onto its caller's list,
`dispatch_rq_from_ctx` hands its caller the first request of one, and the CPU notifier of a
hardware queue splices a dead CPU's software queue onto that queue's dispatch list. A merge only
reads the queue.

We count the requests held on the software queues of a set of CPUs and on the dispatch lists of a
set of hardware queues, and those handed to callers. Over every run of operations on those queues,
they are, up to order, the requests held at the start and those inserted: no operation loses a
request or passes one on twice. Nothing is assumed of the CPU map or of the pending bits, so this
holds also where the notifier of another hardware queue runs first and clears the bit of a
software queue that still holds requests (see `SwQueue`): those requests are stranded, not lost.
A whole `blk_mq_flush_busy_ctxs` is such a run.
-/

namespace BlkMq

open Function (update)

namespace SwOp

/-- The requests an operation puts on a software queue. -/
def added : SwOp → List ℕ
  | insertRequest _ rq _ | queueIo _ rq => [rq]
  | insertRequests _ list => list
  | _ => []

/-- The requests an operation hands to its caller: the list `flush_busy_ctx` splices onto the
caller's, and the request `dispatch_rq_from_ctx` returns. -/
def taken (m : SwMap) (s : SwState) : SwOp → List ℕ
  | flushBusyCtx h b => if s.ctxMap h b then (BlkMq.flushBusyCtx m s h b []).2 else []
  | dispatchRqFromCtx h b => if s.ctxMap h b then (BlkMq.dispatchRqFromCtx m s h b).2.toList else []
  | _ => []

/-- What a run hands to its callers, one operation after another. -/
def runTaken (m : SwMap) : SwState → List SwOp → List ℕ
  | _, [] => []
  | s, op :: ops => op.taken m s ++ runTaken m (op.apply m s) ops

/-- An operation on the counted queues: an insertion onto the software queue of a CPU of `cpus`,
or the notifier of a hardware queue of `hctxs`. -/
def Within (cpus hctxs : List ℕ) : SwOp → Prop
  | insertRequest cpu _ _ | queueIo cpu _ | insertRequests cpu _ => cpu ∈ cpus
  | hctxNotify h _ _ => h ∈ hctxs
  | _ => True

end SwOp

namespace SwState

/-- The requests on the software queues of the CPUs `cpus` and on the dispatch lists of the
hardware queues `hctxs`. -/
def held (cpus hctxs : List ℕ) (s : SwState) : List ℕ :=
  cpus.flatMap s.rqList ++ hctxs.flatMap s.dispatch

/-- Only the software queues of `cpus` hold requests. -/
def Confined (cpus : List ℕ) (s : SwState) : Prop := ∀ c, s.rqList c ≠ [] → c ∈ cpus

end SwState

/-- Replacing the entry of `f` at an index `c` listed once in `xs` by `l` trades `f c` for `l`. -/
theorem flatMap_update_perm (f : ℕ → List ℕ) {c : ℕ} (l : List ℕ) :
    ∀ {xs : List ℕ}, xs.Nodup → c ∈ xs → (xs.flatMap (update f c l) ++ f c).Perm (xs.flatMap f ++ l)
  | x :: xs, hnd, hc => by
    obtain ⟨hx, hnd⟩ := List.nodup_cons.1 hnd
    rw [List.flatMap_cons, List.flatMap_cons]
    by_cases hxc : x = c
    · subst hxc
      rw [Function.update_same,
        List.flatMap_congr fun y hy => Function.update_noteq (ne_of_mem_of_not_mem hy hx) l f]
      exact List.perm_iff_count.2 fun a => by simp only [List.count_append]; omega
    · rw [Function.update_noteq hxc, List.append_assoc, List.append_assoc]
      exact (flatMap_update_perm f l hnd ((List.mem_cons.1 hc).resolve_left (Ne.symm hxc))).append_left _

namespace SwState

variable {cpus hctxs : List ℕ}

@[simp] theorem held_setBit (s : SwState) (h b : ℕ) (v : Bool) :
    (s.setBit h b v).held cpus hctxs = s.held cpus hctxs := rfl

@[simp] theorem held_blkMqHctxMarkPending (m : SwMap) (s : SwState) (h cpu : ℕ) :
    (blkMqHctxMarkPending m s h cpu).held cpus hctxs = s.held cpus hctxs := by
  unfold blkMqHctxMarkPending; split_ifs <;> rfl

theorem Confined.setList {s : SwState} (hs : s.Confined cpus) {c : ℕ} {l : List ℕ}
    (hl : c ∈ cpus ∨ l = []) : (s.setList c l).Confined cpus := fun x hx => by
  rw [setList_rqList] at hx
  split_ifs at hx with hxc
  · exact hxc ▸ hl.resolve_right hx
  · exact hs x hx

/-- Replacing the software queue of a counted CPU, or emptying one. -/
theorem count_held_setList (hcpus : cpus.Nodup) (hctxs : List ℕ) {s : SwState}
    (hs : s.Confined cpus) {c : ℕ} (l : List ℕ) (hl : c ∈ cpus ∨ l = []) (a : ℕ) :
    ((s.setList c l).held cpus hctxs).count a + (s.rqList c).count a =
      (s.held cpus hctxs).count a + l.count a := by
  by_cases hc : c ∈ cpus
  · have := (flatMap_update_perm s.rqList l hcpus hc).count_eq a
    simp only [held, setList, List.count_append] at this ⊢
    omega
  · obtain rfl := hl.resolve_left hc
    have hempty : s.rqList c = [] := by_contra fun h => hc (hs c h)
    simp only [held, setList, hempty,
      List.flatMap_congr fun y hy => Function.update_noteq (ne_of_mem_of_not_mem hy hc) [] s.rqList]

end SwState

namespace SwOp

variable {m : SwMap} {cpus hctxs : List ℕ}

/-- An insertion onto the software queue of a counted CPU adds the requests inserted. -/
theorem count_held_insert (hcpus : cpus.Nodup) {s : SwState} (hs : s.Confined cpus) {cpu : ℕ}
    (hc : cpu ∈ cpus) {l : List ℕ} (new : List ℕ)
    (hl : ∀ a, l.count a = (s.rqList cpu).count a + new.count a) (h : ℕ) :
    (blkMqHctxMarkPending m (s.setList cpu l) h cpu).Confined cpus ∧
      ∀ a, ((blkMqHctxMarkPending m (s.setList cpu l) h cpu).held cpus hctxs).count a =
        (s.held cpus hctxs).count a + new.count a := by
  refine ⟨fun x hx => hs.setList (.inl hc) x (by rwa [blkMqHctxMarkPending_rqList] at hx), fun a => ?_⟩
  have := s.count_held_setList hcpus hctxs hs l (.inl hc) a
  have := hl a
  rw [SwState.held_blkMqHctxMarkPending]
  omega

/-- Step lemma: an operation on the counted queues keeps only their requests on the software
queues, and holds on to, or hands to its caller, every request it found or inserted, and nothing
else. -/
theorem count_held_apply (hcpus : cpus.Nodup) (hhctxs : hctxs.Nodup) {s : SwState}
    (hs : s.Confined cpus) {op : SwOp} (hop : op.Within cpus hctxs) :
    (op.apply m s).Confined cpus ∧ ∀ a, ((op.apply m s).held cpus hctxs).count a +
      (op.taken m s).count a = (s.held cpus hctxs).count a + op.added.count a := by
  cases op with
  | insertRequest cpu rq atHead =>
    simp only [apply, taken, added, __blkMqInsertRequest, __blkMqInsertReqList, List.count_nil,
      Nat.add_zero]
    refine count_held_insert hcpus hs hop [rq] (fun a => ?_) _
    split_ifs <;> simp only [List.count_cons, List.count_nil, List.count_append, Nat.zero_add]
  | queueIo cpu rq =>
    simp only [apply, taken, added, blkMqQueueIo, __blkMqInsertRequest, __blkMqInsertReqList,
      List.count_nil, Nat.add_zero]
    exact count_held_insert hcpus hs hop [rq]
      (fun a => by simp only [Bool.false_eq_true, ↓reduceIte, List.count_append]) _
  | insertRequests cpu list =>
    simp only [apply, taken, added, blkMqInsertRequests, List.count_nil, Nat.add_zero]
    exact count_held_insert hcpus hs hop list (fun a => List.count_append _ _ _) _
  | attemptMerge => exact ⟨hs, fun a => by simp [apply, taken, added]⟩
  | flushBusyCtx h b =>
    simp only [apply, taken, added, List.count_nil, Nat.add_zero]
    split_ifs
    · unfold BlkMq.flushBusyCtx
      split
      · rename_i ctx _
        refine ⟨hs.setList (.inr rfl), fun a => ?_⟩
        have := s.count_held_setList hcpus hctxs hs (c := ctx) [] (.inr rfl) a
        simp only [SwState.held_setBit, List.nil_append, List.count_nil] at this ⊢
        omega
      · exact ⟨hs, fun a => by simp⟩
    · exact ⟨hs, fun a => by simp⟩
  | dispatchRqFromCtx h b =>
    simp only [apply, taken, added, List.count_nil, Nat.add_zero]
    split_ifs
    · unfold BlkMq.dispatchRqFromCtx
      split
      · rename_i ctx _
        split
        · rename_i rq rest hl
          have hc : ctx ∈ cpus := hs ctx (by simp [hl])
          refine ⟨by dsimp only; split_ifs <;> exact hs.setList (.inl hc), fun a => ?_⟩
          have := s.count_held_setList hcpus hctxs hs rest (.inl hc) a
          rw [hl, List.count_cons] at this
          dsimp only
          split_ifs <;> simp only [SwState.held_setBit, Option.toList_some, List.count_singleton] <;>
            omega
        · exact ⟨hs, fun a => by simp⟩
      · exact ⟨hs, fun a => by simp⟩
    · exact ⟨hs, fun a => by simp⟩
  | hctxNotify h action cpu =>
    cases action <;> simp only [apply, taken, added, blkMqHctxNotify, blkMqHctxCpuOffline,
      List.count_nil, Nat.add_zero]
    all_goals first
      | exact ⟨hs, fun _ => trivial⟩
      | split_ifs with hne
        · exact ⟨hs, fun a => rfl⟩
        · refine ⟨hs.setList (.inr rfl), fun a => ?_⟩
          have h1 := s.count_held_setList hcpus hctxs hs (c := cpu) [] (.inr rfl) a
          have h2 := (flatMap_update_perm s.dispatch (s.dispatch h ++ s.rqList cpu) hhctxs
            hop).count_eq a
          simp only [SwState.held, blkMqHctxClearPending, SwState.setBit, SwState.setList,
            List.count_append, List.count_nil] at h1 h2 ⊢
          omega

/-- Run lemma: over every run of operations on the counted queues, the requests held at the end
and those handed to callers on the way are, up to order, those held at the start and those
inserted. -/
theorem held_run_perm (hcpus : cpus.Nodup) (hhctxs : hctxs.Nodup) :
    ∀ (ops : List SwOp) {s : SwState}, s.Confined cpus → (∀ op ∈ ops, op.Within cpus hctxs) →
      ((run m s ops).held cpus hctxs ++ runTaken m s ops).Perm
        (s.held cpus hctxs ++ ops.flatMap added)
  | [], _, _, _ => by simp [runTaken]
  | op :: ops, s, hs, hops => by
    obtain ⟨hs', hcount⟩ := count_held_apply (m := m) hcpus hhctxs hs (hops op (.head _))
    have ih := held_run_perm hcpus hhctxs ops hs' fun o ho => hops o (.tail _ ho)
    refine List.perm_iff_count.2 fun a => ?_
    have h1 := hcount a
    have h2 := ih.count_eq a
    simp only [run_cons, runTaken, List.flatMap_cons, List.count_append] at h2 ⊢
    omega

end SwOp

/-- `flush_busy_ctx` splices onto the end of the list it is given. -/
theorem flushBusyCtx_snd (m : SwMap) (s : SwState) (h b : ℕ) (list : List ℕ) :
    (flushBusyCtx m s h b list).2 = list ++ (flushBusyCtx m s h b []).2 := by
  unfold flushBusyCtx; split <;> simp

/-- `blk_mq_flush_busy_ctxs` hands its caller what its callbacks hand, one bit after another. -/
theorem blkMqFlushBusyCtxs_snd_runTaken (m : SwMap) (s : SwState) (h : ℕ) :
    (blkMqFlushBusyCtxs m s h).2 =
      SwOp.runTaken m s ((List.range (m.ctxs h).length).map (SwOp.flushBusyCtx h)) := by
  suffices ∀ (bits : List ℕ) (acc : SwState × List ℕ), (bits.foldl (flushBit m h) acc).2 =
      acc.2 ++ SwOp.runTaken m acc.1 (bits.map (SwOp.flushBusyCtx h)) from this _ _
  intro bits
  induction bits with
  | nil => intro acc; simp [SwOp.runTaken]
  | cons b bs ih =>
    intro acc
    rw [List.foldl_cons, ih, List.map_cons, SwOp.runTaken]
    simp only [flushBit, SwOp.taken, SwOp.apply]
    split_ifs
    · rw [flushBusyCtx_snd, flushBusyCtx_fst, List.append_assoc]
    · simp

/-- The software-queue operations lose no request and pass none on twice. Over every run of
insertions, merges, callbacks of the bitmap walks and notifier calls on the software queues of the
CPUs `cpus` and the hardware queues `hctxs`, from any state where only those software queues hold
requests, the requests held on them and on the dispatch lists at the end, with those handed to
callers on the way, are up to order the requests held at the start and those inserted. In
particular a whole `blk_mq_flush_busy_ctxs` moves requests from the software queues onto its
caller's list and does nothing else to them. -/
theorem sw_queue_ops_conserve_requests (m : SwMap) (cpus hctxs : List ℕ) (hcpus : cpus.Nodup)
    (hhctxs : hctxs.Nodup) (s : SwState) (hs : s.Confined cpus) :
    (∀ ops : List SwOp, (∀ op ∈ ops, op.Within cpus hctxs) →
      ((SwOp.run m s ops).held cpus hctxs ++ SwOp.runTaken m s ops).Perm
        (s.held cpus hctxs ++ ops.flatMap SwOp.added)) ∧
    ∀ h, ((blkMqFlushBusyCtxs m s h).1.held cpus hctxs ++ (blkMqFlushBusyCtxs m s h).2).Perm
      (s.held cpus hctxs) := by
  refine ⟨fun ops hops => SwOp.held_run_perm hcpus hhctxs ops hs hops, fun h => ?_⟩
  rw [SwOp.blkMqFlushBusyCtxs_fst, blkMqFlushBusyCtxs_snd_runTaken]
  have hnil : ((List.range (m.ctxs h).length).map (SwOp.flushBusyCtx h)).flatMap SwOp.added = [] :=
    List.flatMap_eq_nil_iff.2 fun op hop => by obtain ⟨b, -, rfl⟩ := List.mem_map.1 hop; rfl
  simpa only [hnil, List.append_nil] using SwOp.held_run_perm (m := m) hcpus hhctxs
    ((List.range (m.ctxs h).length).map (SwOp.flushBusyCtx h)) hs
    fun op hop => by obtain ⟨b, -, rfl⟩ := List.mem_map.1 hop; trivial

/-- Two CPUs, each the only one on its hardware queue, from empty queues. -/
theorem sw_queue_ops_conserve_requests_two_cpus :
    [0, 1].Nodup ∧ [0, 1].Nodup ∧ SwState.empty.Confined [0, 1] ∧
    (∀ ops : List SwOp, (∀ op ∈ ops, op.Within [0, 1] [0, 1]) →
      ((SwOp.run ⟨fun cpu => cpu, fun _ => 0, fun h => [h]⟩ .empty ops).held [0, 1] [0, 1] ++
          SwOp.runTaken ⟨fun cpu => cpu, fun _ => 0, fun h => [h]⟩ .empty ops).Perm
        (SwState.empty.held [0, 1] [0, 1] ++ ops.flatMap SwOp.added)) ∧
    ∀ h, ((blkMqFlushBusyCtxs ⟨fun cpu => cpu, fun _ => 0, fun h => [h]⟩ .empty h).1.held [0, 1] [0, 1] ++
        (blkMqFlushBusyCtxs ⟨fun cpu => cpu, fun _ => 0, fun h => [h]⟩ .empty h).2).Perm
      (SwState.empty.held [0, 1] [0, 1]) :=
  have hs : SwState.empty.Confined [0, 1] := fun _ h => absurd rfl h
  ⟨by decide, by decide, hs,
    sw_queue_ops_conserve_requests ⟨fun cpu => cpu, fun _ => 0, fun h => [h]⟩ [0, 1] [0, 1]
      (by decide) (by decide) .empty hs⟩

/-- The run where CPU 1 dies and the notifier of hardware queue 0 runs first: CPU 0's request is
left on its software queue with its bit clear, a flush of hardware queue 0 hands nothing, and
both requests are still held. -/
example : (SwOp.run ⟨fun cpu => cpu, fun _ => 0, fun h => [h]⟩ .empty
      [.queueIo 0 10, .queueIo 1 11, .hctxNotify 0 .cpuDead 1, .flushBusyCtx 0 0]).held [0, 1] [0, 1] =
        [10, 11] ∧
    SwOp.runTaken ⟨fun cpu => cpu, fun _ => 0, fun h => [h]⟩ .empty
      [.queueIo 0 10, .queueIo 1 11, .hctxNotify 0 .cpuDead 1, .flushBusyCtx 0 0] = [] := by
  decide

end BlkMq
