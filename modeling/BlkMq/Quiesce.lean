import Mathlib.Data.List.Basic
import Mathlib.Logic.Function.Basic

/-!
# Quiescing against direct issue

`blk_mq_quiesce_queue` sets `QUEUE_FLAG_QUIESCED` and then waits for every read-side section
begun before: `synchronize_srcu` on each `BLK_MQ_F_BLOCKING` hardware queue, `synchronize_rcu`
once if any queue is not blocking. A direct issue (`blk_mq_try_issue_directly`,
`blk_mq_request_issue_directly`, and each request of `blk_mq_try_issue_list_directly`) holds one
such section, taken by `hctx_lock` on the same flag, around its test of the flag and its call of
`->queue_rq`. Each read-side section is a thread; a grace period records the sections of its
domain present when it starts and completes only when all of them have ended. A quiesce thread
carries one bit of its own (not in the source): its flag is still set, no unquiesce having
cleared it since.
-/

namespace BlkMq

open Function (update)

/-- Where a thread is in `blk_mq_quiesce_queue`. -/
inductive QuiescePc
  /-- At `blk_mq_quiesce_queue_nowait`. -/
  | setFlag
  /-- At hardware queue `i` of `queue_for_each_hw_ctx`; `rcu` is the local `rcu`. -/
  | loop (i : ℕ) (rcu : Bool)
  /-- In `synchronize_srcu(&hctx->queue_rq_srcu)` for hardware queue `i`, waiting for the
  sections `snap` present when it began. -/
  | srcuWait (i : ℕ) (rcu : Bool) (snap : List ℕ)
  /-- In `synchronize_rcu`, waiting for the sections `snap`. -/
  | rcuWait (snap : List ℕ)
  /-- Returned. -/
  | done
  deriving DecidableEq, Repr

/-- Where a thread is in a direct issue of one request. -/
inductive IssuePc
  /-- At `hctx_lock`. -/
  | lock
  /-- At the test of `blk_mq_hctx_stopped(hctx) || blk_queue_quiesced(q)`. -/
  | check
  /-- Past that test with both false: at the elevator, budget and driver-tag tests. -/
  | issue
  /-- In `->queue_rq`, called from `__blk_mq_issue_directly`. -/
  | queueRq
  /-- At `blk_mq_request_bypass_insert`. -/
  | insert
  /-- At `hctx_unlock`. -/
  | unlock
  /-- Returned. -/
  | done
  deriving DecidableEq, Repr

/-- The thread holds its read-side section. -/
def IssuePc.inSection : IssuePc → Bool
  | .check | .issue | .queueRq | .insert | .unlock => true
  | .lock | .done => false

/-- The thread found the queue neither stopped nor quiesced and may call `->queue_rq`. -/
def IssuePc.passed : IssuePc → Bool
  | .issue | .queueRq => true
  | _ => false

theorem IssuePc.inSection_of_passed {pc : IssuePc} (h : pc.passed = true) : pc.inSection = true := by
  cases pc <;> simp_all [passed, inSection]

/-- A thread racing on the quiesced flag. -/
inductive QThread
  /-- `blk_mq_quiesce_queue`; `intact` says no unquiesce has cleared the flag since it set it. -/
  | quiesce (pc : QuiescePc) (intact : Bool)
  /-- `blk_mq_unquiesce_queue` (`blk_mq_run_hw_queues` left out). -/
  | unquiesce (done : Bool)
  /-- A direct issue of request `rq` on hardware queue `h`. -/
  | issue (h rq : ℕ) (pc : IssuePc)
  deriving DecidableEq, Repr

/-- An unquiesce clears every quiesce thread's flag. -/
def QThread.clearIntact : QThread → QThread
  | .quiesce pc _ => .quiesce pc false
  | t => t

/-- A grace-period domain: RCU, or the SRCU of one hardware queue. -/
inductive Domain
  | rcu
  | srcu (h : ℕ)
  deriving DecidableEq, Repr

/-- The hardware queues: `q->nr_hw_queues` and which have `BLK_MQ_F_BLOCKING`. -/
structure QConfig where
  nrHwQueues : ℕ
  blocking : ℕ → Bool

/-- The domain `hctx_lock` takes for hardware queue `h`. -/
def QConfig.domain (cfg : QConfig) (h : ℕ) : Domain := if cfg.blocking h then .srcu h else .rcu

/-- The thread holds a read-side section of domain `d`. -/
def QThread.reader (cfg : QConfig) (d : Domain) : QThread → Bool
  | .issue h _ pc => pc.inSection && cfg.domain h == d
  | _ => false

/-- The flag, the threads, the dispatch lists, and the `->queue_rq` calls made so far. -/
structure QState where
  /-- `QUEUE_FLAG_QUIESCED`. -/
  quiesced : Bool
  threads : List QThread
  /-- `hctx->dispatch`. -/
  dispatch : ℕ → List ℕ
  /-- Every `->queue_rq` call from a direct issue, as (hardware queue, request). -/
  queueRqCalls : List (ℕ × ℕ)

/-- What a step reads besides the flag: `blk_mq_hctx_stopped`, whether the request gets to
`__blk_mq_issue_directly` (no elevator, a budget, a driver tag), and whether `->queue_rq`
returned BUSY. -/
structure QChoice where
  stopped : Bool
  issue : Bool
  busy : Bool

namespace QState

/-- The threads holding a read-side section of domain `d`. -/
def readers (cfg : QConfig) (s : QState) (d : Domain) : List ℕ :=
  (List.range s.threads.length).filter fun j =>
    match s.threads[j]? with
    | some t => t.reader cfg d
    | none => false

/-- Every thread of `snap` has left its read-side section. -/
def left (s : QState) (snap : List ℕ) : Bool :=
  snap.all fun j =>
    match s.threads[j]? with
    | some (.issue _ _ pc) => !pc.inSection
    | _ => true

/-- Move thread `i` to `t`. -/
def setThread (s : QState) (i : ℕ) (t : QThread) : QState := { s with threads := s.threads.set i t }

/-- Thread `i` clears `QUEUE_FLAG_QUIESCED` in `blk_mq_unquiesce_queue` and returns. -/
def unquiesce (s : QState) (i : ℕ) : QState where
  quiesced := false
  threads := (s.threads.set i (.unquiesce true)).map QThread.clearIntact
  dispatch := s.dispatch
  queueRqCalls := s.queueRqCalls

/-- The atomic step of thread `i`, which is `t`. -/
def move (cfg : QConfig) (s : QState) (i : ℕ) (c : QChoice) : QThread → QState
  | .quiesce .setFlag _ => { s.setThread i (.quiesce (.loop 0 false) true) with quiesced := true }
  | .quiesce (.loop k rcu) b =>
    if k < cfg.nrHwQueues then
      if cfg.blocking k then s.setThread i (.quiesce (.srcuWait k rcu (s.readers cfg (.srcu k))) b)
      else s.setThread i (.quiesce (.loop (k + 1) true) b)
    else if rcu then s.setThread i (.quiesce (.rcuWait (s.readers cfg .rcu)) b)
    else s.setThread i (.quiesce .done b)
  | .quiesce (.srcuWait k rcu snap) b =>
    if s.left snap then s.setThread i (.quiesce (.loop (k + 1) rcu) b) else s
  | .quiesce (.rcuWait snap) b => if s.left snap then s.setThread i (.quiesce .done b) else s
  | .quiesce .done _ => s
  | .unquiesce false => s.unquiesce i
  | .unquiesce true => s
  | .issue h rq .lock => s.setThread i (.issue h rq .check)
  | .issue h rq .check =>
    s.setThread i (.issue h rq (if c.stopped || s.quiesced then .insert else .issue))
  | .issue h rq .issue =>
    if c.issue then
      { s.setThread i (.issue h rq .queueRq) with queueRqCalls := s.queueRqCalls ++ [(h, rq)] }
    else s.setThread i (.issue h rq .insert)
  | .issue h rq .queueRq => s.setThread i (.issue h rq (if c.busy then .insert else .unlock))
  | .issue h rq .insert =>
    { s.setThread i (.issue h rq .unlock) with dispatch := update s.dispatch h (s.dispatch h ++ [rq]) }
  | .issue h rq .unlock => s.setThread i (.issue h rq .done)
  | .issue _ _ .done => s

/-- The step of thread `i`; an index with no thread changes nothing. -/
def step (cfg : QConfig) (s : QState) (i : ℕ) (c : QChoice) : QState :=
  match s.threads[i]? with
  | some t => s.move cfg i c t
  | none => s

end QState

/-- The states a run from `s₀` reaches. -/
inductive QRun (cfg : QConfig) (s₀ : QState) : QState → Prop
  | refl : QRun cfg s₀ s₀
  | step {s : QState} (i : ℕ) (c : QChoice) : QRun cfg s₀ s → QRun cfg s₀ (s.step cfg i c)

/-- The steps of a schedule, in order. -/
def QState.run (cfg : QConfig) (s : QState) : List (ℕ × QChoice) → QState
  | [] => s
  | (i, c) :: rest => (s.step cfg i c).run cfg rest

theorem QRun.run {cfg : QConfig} {s₀ s : QState} (h : QRun cfg s₀ s) :
    ∀ schedule : List (ℕ × QChoice), QRun cfg s₀ (s.run cfg schedule)
  | [] => h
  | (i, c) :: rest => QRun.run (.step i c h) rest

/-- A thread at its entry point, a direct issue on an existing hardware queue. -/
def QThread.Fresh (cfg : QConfig) : QThread → Prop
  | .quiesce pc _ => pc = .setFlag
  | .unquiesce d => d = false
  | .issue h _ pc => pc = .lock ∧ h < cfg.nrHwQueues

instance (cfg : QConfig) : DecidablePred (QThread.Fresh cfg)
  | .quiesce _ _ | .unquiesce _ => inferInstanceAs (Decidable (_ = _))
  | .issue _ _ _ => inferInstanceAs (Decidable (_ ∧ _))

/-- Every thread at its entry point. -/
def QState.Fresh (cfg : QConfig) (s : QState) : Prop := ∀ t ∈ s.threads, t.Fresh cfg

instance (cfg : QConfig) : DecidablePred (QState.Fresh cfg) :=
  fun s => inferInstanceAs (Decidable (∀ t ∈ s.threads, t.Fresh cfg))

/-- A quiesce thread at `pc` has still to wait for the section of hardware queue `h` that thread
`j` holds: it has not reached that section's domain, or it is waiting for it with `j` among the
sections it recorded. -/
def QuiescePc.Covers (cfg : QConfig) (j h : ℕ) : QuiescePc → Prop
  | .setFlag => True
  | .loop i rcu => (cfg.blocking h = true → i ≤ h) ∧ (cfg.blocking h = false → h < i → rcu = true)
  | .srcuWait i rcu snap =>
    (cfg.blocking h = true → i < h ∨ i = h ∧ j ∈ snap) ∧ (cfg.blocking h = false → h ≤ i → rcu = true)
  | .rcuWait snap => cfg.blocking h = false ∧ j ∈ snap
  | .done => False

namespace QuiescePc.Covers

variable {cfg : QConfig} {j h k : ℕ} {rcu : Bool} {snap : List ℕ}

/-- Entering `synchronize_srcu` on blocking queue `k` keeps the cover, the issue's section being
among those recorded when it is on `k`. -/
theorem srcuWait (hc : (loop k rcu).Covers cfg j h) (hk : cfg.blocking k = true)
    (hsnap : cfg.blocking h = true → h = k → j ∈ snap) : (QuiescePc.srcuWait k rcu snap).Covers cfg j h := by
  obtain ⟨h1, h2⟩ := hc
  refine ⟨fun hbh => ?_, fun hbh hle => ?_⟩
  · rcases Nat.lt_or_eq_of_le (h1 hbh) with hlt | rfl
    · exact .inl hlt
    · exact .inr ⟨rfl, hsnap hbh rfl⟩
  · rcases Nat.lt_or_eq_of_le hle with hlt | rfl
    · exact h2 hbh hlt
    · simp [hk] at hbh

/-- Passing a queue that is not blocking keeps the cover, `rcu` now set. -/
theorem loop_next (hc : (loop k rcu).Covers cfg j h) (hk : cfg.blocking k = false) :
    (loop (k + 1) true).Covers cfg j h := by
  refine ⟨fun hbh => ?_, fun _ _ => rfl⟩
  have hne : k ≠ h := by rintro rfl; simp [hk] at hbh
  have := hc.1 hbh
  omega

/-- A completed `synchronize_srcu` whose recorded sections do not include the issue's keeps the
cover on the next queue. -/
theorem loop_of_srcuWait (hc : (QuiescePc.srcuWait k rcu snap).Covers cfg j h) (hsnap : j ∉ snap) :
    (loop (k + 1) rcu).Covers cfg j h := by
  refine ⟨fun hbh => ?_, fun hbh hle => hc.2 hbh (Nat.lt_succ_iff.mp hle)⟩
  rcases hc.1 hbh with hlt | ⟨-, hmem⟩
  exacts [hlt, absurd hmem hsnap]

/-- After the loop, `synchronize_rcu` covers an issue on an existing queue, which then is not
blocking. -/
theorem rcuWait (hc : (loop k rcu).Covers cfg j h) (hk : cfg.nrHwQueues ≤ k)
    (hh : h < cfg.nrHwQueues) (hsnap : cfg.blocking h = false → j ∈ snap) :
    (QuiescePc.rcuWait snap).Covers cfg j h := by
  have hbh : cfg.blocking h = false := by
    by_contra hbh
    have := hc.1 (by simpa using hbh)
    omega
  exact ⟨hbh, hsnap hbh⟩

/-- After the loop with `rcu` clear, no issue on an existing queue is left to cover. -/
theorem not_loop_end (hc : (loop k rcu).Covers cfg j h) (hrcu : rcu = false)
    (hk : cfg.nrHwQueues ≤ k) (hh : h < cfg.nrHwQueues) : False := by
  cases hbh : cfg.blocking h
  · exact absurd (hc.2 hbh (by omega)) (by simp [hrcu])
  · have := hc.1 hbh
    omega

end QuiescePc.Covers

/-- The invariant: direct issues are on existing hardware queues; the flag is set while a quiesce
thread past setting it is intact; and an intact quiesce thread has still to wait for every direct
issue past its test of the flag. -/
structure QState.Safe (cfg : QConfig) (s : QState) : Prop where
  valid : ∀ (j h rq : ℕ) (pc : IssuePc), s.threads[j]? = some (.issue h rq pc) → h < cfg.nrHwQueues
  flag : ∀ (q : ℕ) (pc : QuiescePc), s.threads[q]? = some (.quiesce pc true) → pc ≠ .setFlag →
    s.quiesced = true
  covers : ∀ (q : ℕ) (pc : QuiescePc) (j h rq : ℕ) (jp : IssuePc), s.threads[q]? = some (.quiesce pc true) →
    s.threads[j]? = some (.issue h rq jp) → jp.passed = true → pc.Covers cfg j h

namespace QState

variable {cfg : QConfig} {s : QState} {i : ℕ}

theorem step_of_getElem? {t : QThread} (hi : s.threads[i]? = some t) (c : QChoice) :
    s.step cfg i c = s.move cfg i c t := by
  simp only [step, hi]

theorem step_of_getElem?_none (hi : s.threads[i]? = none) (c : QChoice) : s.step cfg i c = s := by
  simp only [step, hi]

theorem getElem?_setThread {t : QThread} (hi : i < s.threads.length) (k : ℕ) :
    (s.setThread i t).threads[k]? = if k = i then some t else s.threads[k]? := by
  unfold setThread
  split_ifs with hk
  · subst hk; exact List.getElem?_set_self hi
  · exact List.getElem?_set_ne fun h => hk h.symm

theorem mem_readers {j : ℕ} {t : QThread} {d : Domain} (hj : s.threads[j]? = some t)
    (ht : t.reader cfg d = true) : j ∈ s.readers cfg d :=
  List.mem_filter.mpr ⟨List.mem_range.mpr (List.getElem?_eq_some_iff.mp hj).1, by simp [hj, ht]⟩

theorem not_inSection_of_left {snap : List ℕ} (hl : s.left snap = true) {j h rq : ℕ} {pc : IssuePc}
    (hj : j ∈ snap) (hpc : s.threads[j]? = some (.issue h rq pc)) : pc.inSection = false := by
  have := List.all_eq_true.mp hl j hj
  simpa [hpc] using this

end QState

namespace QState.Safe

variable {cfg : QConfig} {s : QState} {i : ℕ}

theorem of_fresh (h₀ : s.Fresh cfg) : s.Safe cfg where
  valid _ _ _ _ hj := (h₀ _ (List.getElem?_mem hj)).2
  flag _ _ hq hpc := absurd (h₀ _ (List.getElem?_mem hq)) hpc
  covers _ _ _ _ _ _ hq _ _ := by
    rw [show _ = QuiescePc.setFlag from h₀ _ (List.getElem?_mem hq)]
    trivial

/-- A direct issue moving on within its request keeps the invariant, provided it reaches a place
past the flag test only from one, or with the flag clear. -/
theorem issue_move (hs : s.Safe cfg) {h rq : ℕ} {p p' : IssuePc}
    (hi : s.threads[i]? = some (.issue h rq p))
    (hp : p'.passed = true → p.passed = true ∨ s.quiesced = false) {s' : QState}
    (hth : s'.threads = s.threads.set i (.issue h rq p')) (hq : s'.quiesced = s.quiesced) :
    s'.Safe cfg := by
  have hlt := (List.getElem?_eq_some_iff.mp hi).1
  have hget (k : ℕ) : s'.threads[k]? = if k = i then some (.issue h rq p') else s.threads[k]? := by
    rw [hth]
    split_ifs with hk
    · subst hk; exact List.getElem?_set_self hlt
    · exact List.getElem?_set_ne fun e => hk e.symm
  have hquiesce {q : ℕ} {pc : QuiescePc} {b : Bool} (hq' : s'.threads[q]? = some (.quiesce pc b)) :
      s.threads[q]? = some (.quiesce pc b) := by
    rw [hget] at hq'
    split_ifs at hq' with hk
    · cases hq'
    · exact hq'
  refine ⟨fun j h' rq' pc hj => ?_, fun q pc hq' hpc => hq ▸ hs.flag q pc (hquiesce hq') hpc,
    fun q pc j h' rq' jp hq' hj hjp => ?_⟩
  · rw [hget] at hj
    split_ifs at hj with hk
    · cases hj; exact hs.valid i h rq p hi
    · exact hs.valid j h' rq' pc hj
  · rw [hget] at hj
    split_ifs at hj with hk
    · subst hk
      cases hj
      rcases hp hjp with hpp | hclr
      · exact hs.covers q pc j h rq p (hquiesce hq') hi hpp
      · by_cases hpc : pc = .setFlag
        · subst hpc; trivial
        · exact absurd (hs.flag q pc (hquiesce hq') hpc) (by simp [hclr])
    · exact hs.covers q pc j h' rq' jp (hquiesce hq') hj hjp

/-- A quiesce thread moving on within its call keeps the invariant, provided its new place still
covers every direct issue past the flag test that its old place covered. -/
theorem quiesce_move (hs : s.Safe cfg) {pc pc' : QuiescePc} {b : Bool}
    (hi : s.threads[i]? = some (.quiesce pc b)) (hpc : pc ≠ .setFlag)
    (hcov : b = true → ∀ j h rq jp, s.threads[j]? = some (.issue h rq jp) → jp.passed = true →
      pc.Covers cfg j h → pc'.Covers cfg j h) :
    (s.setThread i (.quiesce pc' b)).Safe cfg := by
  have hlt := (List.getElem?_eq_some_iff.mp hi).1
  have hissue {j h rq : ℕ} {jp : IssuePc} (hj : (s.setThread i (.quiesce pc' b)).threads[j]? =
      some (.issue h rq jp)) : j ≠ i ∧ s.threads[j]? = some (.issue h rq jp) := by
    rw [getElem?_setThread hlt] at hj
    split_ifs at hj with hk
    · cases hj
    · exact ⟨hk, hj⟩
  refine ⟨fun j h rq p hj => hs.valid j h rq p (hissue hj).2, fun q qc hq hqc => ?_,
    fun q qc j h rq jp hq hj hjp => ?_⟩
  · rw [getElem?_setThread hlt] at hq
    split_ifs at hq with hk
    · cases hq; exact hs.flag i pc hi hpc
    · exact hs.flag q qc hq hqc
  · have hj' := (hissue hj).2
    rw [getElem?_setThread hlt] at hq
    split_ifs at hq with hk
    · cases hq; exact hcov rfl j h rq jp hj' hjp (hs.covers i pc j h rq jp hi hj' hjp)
    · exact hs.covers q qc j h rq jp hq hj' hjp

theorem setFlag (hs : s.Safe cfg) {b : Bool} (hi : s.threads[i]? = some (.quiesce .setFlag b)) :
    ({ s.setThread i (.quiesce (.loop 0 false) true) with quiesced := true } : QState).Safe cfg := by
  have hlt := (List.getElem?_eq_some_iff.mp hi).1
  have hget := getElem?_setThread (t := .quiesce (.loop 0 false) true) hlt
  refine ⟨fun j h rq p hj => ?_, fun _ _ _ _ => rfl, fun q pc j h rq jp hq hj hjp => ?_⟩
  · simp only [hget] at hj
    split_ifs at hj
    · cases hj
    · exact hs.valid j h rq p hj
  · simp only [hget] at hq hj
    split_ifs at hj with hji
    · cases hj
    · split_ifs at hq
      · cases hq
        exact ⟨fun _ => Nat.zero_le _, fun _ h => absurd h (Nat.not_lt_zero _)⟩
      · exact hs.covers q pc j h rq jp hq hj hjp

theorem unquiesce (hs : s.Safe cfg) (hi : s.threads[i]? = some (.unquiesce false)) :
    (s.unquiesce i).Safe cfg := by
  have hlt := (List.getElem?_eq_some_iff.mp hi).1
  have hget (k : ℕ) : ((s.threads.set i (.unquiesce true)).map QThread.clearIntact)[k]? =
      (if k = i then some (.unquiesce true) else s.threads[k]?).map QThread.clearIntact := by
    rw [List.getElem?_map]
    split_ifs with hk
    · subst hk; rw [List.getElem?_set_self hlt]
    · rw [List.getElem?_set_ne fun e => hk e.symm]
  have hnq {k : ℕ} {pc : QuiescePc} : ((s.threads.set i (.unquiesce true)).map
      QThread.clearIntact)[k]? ≠ some (.quiesce pc true) := by
    rw [hget]
    split_ifs
    · simp [QThread.clearIntact]
    · cases s.threads[k]? with
      | none => simp
      | some t => cases t <;> simp [QThread.clearIntact]
  refine ⟨fun j h rq p hj => ?_, fun q pc hq _ => absurd hq hnq, fun q pc _ _ _ _ hq => absurd hq hnq⟩
  simp only [QState.unquiesce, hget] at hj
  split_ifs at hj
  · simp [QThread.clearIntact] at hj
  · cases ht : s.threads[j]? with
    | none => simp [ht] at hj
    | some t =>
      rw [ht] at hj
      cases t <;> simp only [Option.map_some', QThread.clearIntact, Option.some.injEq,
        reduceCtorEq] at hj
      obtain ⟨rfl, rfl, rfl⟩ := hj
      exact hs.valid j h rq p ht

/-- Every step keeps the invariant. -/
theorem step (hs : s.Safe cfg) (i : ℕ) (c : QChoice) : (s.step cfg i c).Safe cfg := by
  rcases hi : s.threads[i]? with _ | t
  · rwa [QState.step_of_getElem?_none hi]
  rw [QState.step_of_getElem? hi]
  have hread {j h rq : ℕ} {jp : IssuePc} (hj : s.threads[j]? = some (.issue h rq jp))
      (hjp : jp.passed = true) : j ∈ s.readers cfg (cfg.domain h) :=
    QState.mem_readers hj (by simp [QThread.reader, IssuePc.inSection_of_passed hjp])
  have hgone {snap : List ℕ} (hl : s.left snap = true) {j h rq : ℕ} {jp : IssuePc}
      (hj : s.threads[j]? = some (.issue h rq jp)) (hjp : jp.passed = true) : j ∉ snap :=
    fun hmem => by simpa [IssuePc.inSection_of_passed hjp] using QState.not_inSection_of_left hl hmem hj
  cases t with
  | quiesce pc b =>
    cases pc with
    | setFlag => exact hs.setFlag hi
    | loop k rcu =>
      simp only [QState.move]
      split_ifs with hk hb hr <;> refine hs.quiesce_move hi nofun fun _ j h rq jp hj hjp hc => ?_
      · exact hc.srcuWait hb fun hbh e => by
          subst e; simpa [QConfig.domain, hbh] using hread hj hjp
      · exact hc.loop_next (by simpa using hb)
      · exact hc.rcuWait (by omega) (hs.valid j h rq jp hj) fun hbh => by
          simpa [QConfig.domain, hbh] using hread hj hjp
      · exact (hc.not_loop_end (by simpa using hr) (by omega) (hs.valid j h rq jp hj)).elim
    | srcuWait k rcu snap =>
      simp only [QState.move]
      split_ifs with hl
      · exact hs.quiesce_move hi nofun fun _ j h rq jp hj hjp hc => hc.loop_of_srcuWait (hgone hl hj hjp)
      · exact hs
    | rcuWait snap =>
      simp only [QState.move]
      split_ifs with hl
      · exact hs.quiesce_move hi nofun fun _ j h rq jp hj hjp hc => absurd hc.2 (hgone hl hj hjp)
      · exact hs
    | done => exact hs
  | unquiesce d =>
    cases d
    · exact hs.unquiesce hi
    · exact hs
  | issue h rq pc =>
    cases pc with
    | lock => exact hs.issue_move hi (by simp [IssuePc.passed]) rfl rfl
    | check =>
      refine hs.issue_move hi (fun hp => .inr ?_) rfl rfl
      cases hq : s.quiesced
      · rfl
      · simp [hq, IssuePc.passed] at hp
    | issue =>
      simp only [QState.move]
      split_ifs
      · exact hs.issue_move hi (fun _ => .inl rfl) rfl rfl
      · exact hs.issue_move hi (by simp [IssuePc.passed]) rfl rfl
    | queueRq => exact hs.issue_move hi (by split <;> simp [IssuePc.passed]) rfl rfl
    | insert => exact hs.issue_move hi (by simp [IssuePc.passed]) rfl rfl
    | unlock => exact hs.issue_move hi (by simp [IssuePc.passed]) rfl rfl
    | done => exact hs

end QState.Safe

/-- The invariant holds along every run from threads at their entry points. -/
theorem QRun.safe {cfg : QConfig} {s₀ s : QState} (h₀ : s₀.Fresh cfg) (hrun : QRun cfg s₀ s) :
    s.Safe cfg := by
  induction hrun with
  | refl => exact .of_fresh h₀
  | step i c _ ih => exact ih.step i c

/-- A step begins a `->queue_rq` call only from a direct issue past its test of the flag. -/
theorem QState.step_queueRqCalls {cfg : QConfig} {s : QState} {i : ℕ}
    (hnp : ∀ h rq, s.threads[i]? ≠ some (.issue h rq .issue)) (c : QChoice) :
    (s.step cfg i c).queueRqCalls = s.queueRqCalls := by
  rcases hi : s.threads[i]? with _ | t
  · rw [step_of_getElem?_none hi]
  rw [step_of_getElem? hi]
  cases t with
  | quiesce pc b => cases pc <;> simp only [move] <;> (try split_ifs) <;> rfl
  | unquiesce d => cases d <;> rfl
  | issue h rq pc =>
    cases pc <;> simp only [move] <;> (try split_ifs) <;> first | rfl | exact absurd hi (hnp h rq)

/-- Once `blk_mq_quiesce_queue` has returned, and as long as no unquiesce has cleared the flag it
set, the flag is set, no direct issue is past the flag test, no step begins a `->queue_rq` call
from a direct issue, a direct issue that tests the flag goes on to
`blk_mq_request_bypass_insert`, and that insert appends its request to `hctx->dispatch`. -/
theorem quiesced_blocks_direct_issue {cfg : QConfig} {s₀ s : QState} (h₀ : s₀.Fresh cfg)
    (hrun : QRun cfg s₀ s) {q : ℕ} (hq : s.threads[q]? = some (.quiesce .done true)) :
    s.quiesced = true ∧
      (∀ (j h rq : ℕ) (pc : IssuePc), s.threads[j]? = some (.issue h rq pc) → pc.passed = false) ∧
      (∀ i c, (s.step cfg i c).queueRqCalls = s.queueRqCalls) ∧
      (∀ j h rq c, s.threads[j]? = some (.issue h rq .check) →
        (s.step cfg j c).threads[j]? = some (.issue h rq .insert)) ∧
      ∀ j h rq c, s.threads[j]? = some (.issue h rq .insert) →
        (s.step cfg j c).threads[j]? = some (.issue h rq .unlock) ∧
          (s.step cfg j c).dispatch h = s.dispatch h ++ [rq] := by
  have hs := hrun.safe h₀
  have hflag := hs.flag q .done hq nofun
  have hpassed : ∀ (j h rq : ℕ) (pc : IssuePc), s.threads[j]? = some (.issue h rq pc) → pc.passed = false :=
    fun j h rq pc hj => Bool.eq_false_iff.2 fun hp => (hs.covers q .done j h rq pc hq hj hp).elim
  refine ⟨hflag, hpassed,
    fun i c => QState.step_queueRqCalls (fun h rq hi => Bool.noConfusion (hpassed i h rq _ hi)) c,
    fun j h rq c hj => ?_, fun j h rq c hj => ?_⟩
  all_goals rw [QState.step_of_getElem? hj, QState.move]
  · rw [QState.getElem?_setThread (List.getElem?_eq_some_iff.mp hj).1]
    simp [hflag]
  · exact ⟨QState.getElem?_setThread (List.getElem?_eq_some_iff.mp hj).1 j ▸ by simp,
      Function.update_same _ _ _⟩

theorem quiesced_blocks_direct_issue_two_queues :
    let cfg : QConfig := ⟨2, fun h => h == 1⟩
    let c : QChoice := ⟨false, true, false⟩
    let s := (⟨false, [.quiesce .setFlag false, .issue 0 5 .lock, .issue 1 6 .lock], fun _ => [], []⟩ :
      QState).run cfg [(1, c), (1, c), (0, c), (0, c), (0, c), (0, c), (0, c), (1, c), (1, c),
        (1, c), (0, c)]
    s.quiesced = true ∧
      (∀ (j h rq : ℕ) (pc : IssuePc), s.threads[j]? = some (.issue h rq pc) → pc.passed = false) ∧
      (∀ i c, (s.step cfg i c).queueRqCalls = s.queueRqCalls) ∧
      (∀ j h rq c, s.threads[j]? = some (.issue h rq .check) →
        (s.step cfg j c).threads[j]? = some (.issue h rq .insert)) ∧
      ∀ j h rq c, s.threads[j]? = some (.issue h rq .insert) →
        (s.step cfg j c).threads[j]? = some (.issue h rq .unlock) ∧
          (s.step cfg j c).dispatch h = s.dispatch h ++ [rq] :=
  quiesced_blocks_direct_issue (q := 0) (by decide) (QRun.refl.run _) (by decide)

end BlkMq
