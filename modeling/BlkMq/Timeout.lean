import Mathlib.Algebra.Group.Nat.Basic
import Mathlib.Logic.Function.Basic

/-!
# The timeout scan

`blk_mq_timeout_work` walks the busy tags with `blk_mq_check_expired`, `jiffies` fixed. A
started request whose deadline has passed (`time_after_eq(jiffies, deadline)`) is claimed with
the test-and-set of `REQ_ATOM_COMPLETE` and handed to `blk_mq_rq_timed_out` if the claim
succeeds; among the started requests still pending, the scan keeps in `data.next` the deadline
that comes first, to rearm the queue timer.

Deadlines and `jiffies` are `unsigned long`, here `BitVec w`, and compared with the kernel's
wrap-safe `time_after`. That comparison is not transitive over all of `BitVec w`, but over the
deadlines still pending it orders them by their distance ahead of `jiffies`,
`(deadline - jiffies) mod 2^w`: the scan finds the nearest one, across the wrap as well.
-/

namespace BlkMq

section Jiffies

variable {w : ℕ}

/-- `time_after(a, b)`, `(long)((b) - (a)) < 0` (`include/linux/jiffies.h`, not among the
sources): `a` is after `b`. -/
def timeAfter (a b : BitVec w) : Bool := decide ((b - a).toInt < 0)

/-- `time_after_eq(a, b)`, `(long)((a) - (b)) >= 0`. -/
def timeAfterEq (a b : BitVec w) : Bool := decide (0 ≤ (a - b).toInt)

/-- Subtraction of `unsigned long` values read on the naturals. -/
theorem toNat_sub_eq (x y : BitVec w) :
    (x - y).toNat = if y.toNat ≤ x.toNat then x.toNat - y.toNat else 2 ^ w - y.toNat + x.toNat := by
  have hx := x.isLt
  have hy := y.isLt
  rw [BitVec.toNat_sub]
  split_ifs with h
  · rw [show 2 ^ w - y.toNat + x.toNat = (x.toNat - y.toNat) + 2 ^ w by omega, Nat.add_mod_right,
      Nat.mod_eq_of_lt (by omega)]
  · exact Nat.mod_eq_of_lt (by omega)

/-- A deadline `d` is still pending at `jiffies` exactly when it lies ahead by between 1 and
`2^w / 2`. -/
theorem timeAfterEq_eq_false_iff (jiffies d : BitVec w) :
    timeAfterEq jiffies d = false ↔
      0 < (d - jiffies).toNat ∧ 2 * (d - jiffies).toNat ≤ 2 ^ w := by
  have hj := jiffies.isLt
  have hd := d.isLt
  simp only [timeAfterEq, decide_eq_false_iff_not, BitVec.toInt_pos_iff, toNat_sub_eq]
  split_ifs <;> omega

/-- Between two pending deadlines `time_after` compares their distances ahead of `jiffies`. -/
theorem timeAfter_iff_of_pending {jiffies a b : BitVec w} (ha : timeAfterEq jiffies a = false)
    (hb : timeAfterEq jiffies b = false) :
    timeAfter a b = true ↔ (b - jiffies).toNat < (a - jiffies).toNat := by
  rw [timeAfterEq_eq_false_iff] at ha hb
  have hj := jiffies.isLt
  have ha' := a.isLt
  have hb' := b.isLt
  simp only [timeAfter, decide_eq_true_eq, BitVec.toInt_neg_iff, toNat_sub_eq] at ha hb ⊢
  split_ifs at ha hb ⊢ <;> omega

end Jiffies

/-- A request as the scan finds it on a busy tag. -/
structure ScanRq (w : ℕ) where
  /-- The request. -/
  rq : ℕ
  /-- `REQ_ATOM_STARTED`. -/
  started : Bool
  /-- `rq->deadline`. -/
  deadline : BitVec w
  deriving DecidableEq, Repr

/-- `struct blk_mq_timeout_data`. -/
structure BlkMqTimeoutData (w : ℕ) where
  /-- `next`. -/
  next : BitVec w
  /-- `next_set`. -/
  nextSet : ℕ
  deriving DecidableEq, Repr

/-- The scan's data, the `REQ_ATOM_COMPLETE` bits, and the calls it makes. -/
structure TimeoutScan (w : ℕ) where
  /-- `data`. -/
  data : BlkMqTimeoutData w
  /-- `REQ_ATOM_COMPLETE` of each request, as the scan finds it. -/
  complete : ℕ → Bool
  /-- Calls of `blk_mark_rq_complete`, with the bit each found. -/
  marks : List (ℕ × Bool)
  /-- Calls of `blk_mq_rq_timed_out`. -/
  timedOut : List ℕ

section Scan

variable {w : ℕ}

/-- `blk_mark_rq_complete(rq)`, `test_and_set_bit(REQ_ATOM_COMPLETE, &rq->atomic_flags)`:
returns the bit it found. -/
def blkMarkRqComplete (s : TimeoutScan w) (rq : ℕ) : TimeoutScan w × Bool :=
  ({ s with complete := Function.update s.complete rq true, marks := s.marks ++ [(rq, s.complete rq)] },
    s.complete rq)

/-- `blk_mq_check_expired(hctx, rq, &data, reserved)`. -/
def blkMqCheckExpired (jiffies : BitVec w) (s : TimeoutScan w) (r : ScanRq w) : TimeoutScan w :=
  if !r.started then s
  else if timeAfterEq jiffies r.deadline then
    let m := blkMarkRqComplete s r.rq
    if !m.2 then { m.1 with timedOut := m.1.timedOut ++ [r.rq] } else m.1
  else if s.data.nextSet == 0 || timeAfter s.data.next r.deadline then
    { s with data := ⟨r.deadline, 1⟩ }
  else s

/-- The scan of `blk_mq_timeout_work`: `blk_mq_check_expired` on each request
`blk_mq_queue_tag_busy_iter` visits, from `data = { .next = 0, .next_set = 0 }`, at one value of
`jiffies`. A request's `REQ_ATOM_COMPLETE` is given as the scan finds it, which covers a
completion racing with the scan. -/
def blkMqTimeoutScan (jiffies : BitVec w) (complete : ℕ → Bool) (visits : List (ScanRq w)) :
    TimeoutScan w :=
  visits.foldl (blkMqCheckExpired jiffies) ⟨⟨0, 0⟩, complete, [], []⟩

/-- A started request whose deadline has passed. -/
def ScanRq.expired (jiffies : BitVec w) (r : ScanRq w) : Bool :=
  r.started && timeAfterEq jiffies r.deadline

/-- A started request whose deadline has not passed. -/
def ScanRq.pending (jiffies : BitVec w) (r : ScanRq w) : Bool :=
  r.started && !timeAfterEq jiffies r.deadline

theorem ScanRq.pending_iff {jiffies : BitVec w} {r : ScanRq w} :
    r.pending jiffies = true ↔ r.started = true ∧ timeAfterEq jiffies r.deadline = false := by
  simp [ScanRq.pending]

/-- How far ahead of `jiffies` a deadline lies, modulo `2^w`. -/
def ScanRq.ahead (jiffies : BitVec w) (r : ScanRq w) : ℕ := (r.deadline - jiffies).toNat

/-- What the scan state says of the requests `done` visited so far: the claims made, the
requests timed out, and the nearest pending deadline. -/
structure ScanInv (jiffies : BitVec w) (done : List (ScanRq w)) (s : TimeoutScan w) : Prop where
  marks : s.marks.map Prod.fst = (done.filter (ScanRq.expired jiffies)).map ScanRq.rq
  timedOut : s.timedOut = (s.marks.filter fun m => !m.2).map Prod.fst
  nextSet_le : s.data.nextSet ≤ 1
  nextSet_iff : s.data.nextSet = 1 ↔ ∃ r ∈ done, r.pending jiffies
  next : s.data.nextSet = 1 → ∃ r ∈ done, r.pending jiffies ∧ s.data.next = r.deadline ∧
    ∀ r' ∈ done, r'.pending jiffies → r.ahead jiffies ≤ r'.ahead jiffies

theorem scanInv_init (jiffies : BitVec w) (complete : ℕ → Bool) :
    ScanInv jiffies [] ⟨⟨0, 0⟩, complete, [], []⟩ :=
  ⟨rfl, rfl, Nat.zero_le 1, by simp, by simp⟩

/-- A request that is not pending leaves the nearest pending deadline as it was. -/
theorem ScanInv.next_of_not_pending {jiffies : BitVec w} {done : List (ScanRq w)}
    {s s' : TimeoutScan w} {r : ScanRq w} (hs : ScanInv jiffies done s) (hdata : s'.data = s.data)
    (hr : r.pending jiffies = false) :
    (s'.data.nextSet = 1 ↔ ∃ q ∈ done ++ [r], q.pending jiffies) ∧
      (s'.data.nextSet = 1 → ∃ r₀ ∈ done ++ [r], r₀.pending jiffies ∧ s'.data.next = r₀.deadline ∧
        ∀ r' ∈ done ++ [r], r'.pending jiffies → r₀.ahead jiffies ≤ r'.ahead jiffies) := by
  rw [hdata]
  refine ⟨by simp only [hs.nextSet_iff, List.mem_append, List.mem_singleton, or_and_right,
    exists_or, exists_eq_left, hr, Bool.false_eq_true, or_false], fun h => ?_⟩
  obtain ⟨r₀, hr₀, hp, hnext, hmin⟩ := hs.next h
  refine ⟨r₀, by simp [hr₀], hp, hnext, fun r' hr' hp' => ?_⟩
  rcases List.mem_append.mp hr' with hr' | hr'
  · exact hmin r' hr' hp'
  · simp only [List.mem_singleton] at hr'
    subst hr'
    simp [hr] at hp'

/-- `blk_mq_check_expired` keeps the invariant, with the request it checks added. -/
theorem ScanInv.checkExpired {jiffies : BitVec w} {done : List (ScanRq w)} {s : TimeoutScan w}
    (hs : ScanInv jiffies done s) (r : ScanRq w) :
    ScanInv jiffies (done ++ [r]) (blkMqCheckExpired jiffies s r) := by
  unfold blkMqCheckExpired
  by_cases hst : r.started = false
  · have hexp : r.expired jiffies = false := by simp [ScanRq.expired, hst]
    have hpend : r.pending jiffies = false := by simp [ScanRq.pending, hst]
    simp only [hst, Bool.not_false, ↓reduceIte]
    exact ⟨by simp [hs.marks, hexp], hs.timedOut, hs.nextSet_le,
      (hs.next_of_not_pending rfl hpend).1, (hs.next_of_not_pending rfl hpend).2⟩
  have hst : r.started = true := by simpa using hst
  simp only [hst, Bool.not_true, Bool.false_eq_true, ↓reduceIte]
  by_cases hexp : timeAfterEq jiffies r.deadline = true
  · have hpend : r.pending jiffies = false := by simp [ScanRq.pending, hst, hexp]
    have hexp' : r.expired jiffies = true := by simp [ScanRq.expired, hst, hexp]
    simp only [hexp, ↓reduceIte, blkMarkRqComplete]
    split_ifs with hfound
    · exact ⟨by simp [hs.marks, hexp'], by simp [hs.timedOut, hfound], hs.nextSet_le,
        (hs.next_of_not_pending rfl hpend).1, (hs.next_of_not_pending rfl hpend).2⟩
    · exact ⟨by simp [hs.marks, hexp'], by simp [hs.timedOut, hfound], hs.nextSet_le,
        (hs.next_of_not_pending rfl hpend).1, (hs.next_of_not_pending rfl hpend).2⟩
  have hexp : timeAfterEq jiffies r.deadline = false := by simpa using hexp
  have hpend : r.pending jiffies = true := by simp [ScanRq.pending, hst, hexp]
  have hexp' : r.expired jiffies = false := by simp [ScanRq.expired, hst, hexp]
  have hmarks : s.marks.map Prod.fst = ((done ++ [r]).filter (ScanRq.expired jiffies)).map ScanRq.rq := by
    simp [hs.marks, hexp']
  simp only [hexp, Bool.false_eq_true, ↓reduceIte]
  split_ifs with hnew
  · refine ⟨hmarks, hs.timedOut, Nat.le_refl 1, ⟨fun _ => ⟨r, by simp, hpend⟩, fun _ => rfl⟩,
      fun _ => ⟨r, by simp, hpend, rfl, fun r' hr' hp' => ?_⟩⟩
    rcases List.mem_append.mp hr' with hr' | hr'
    · rcases Bool.or_eq_true_iff.mp hnew with hzero | hafter
      · have : s.data.nextSet ≠ 1 := by simp at hzero; omega
        exact absurd (hs.nextSet_iff.mpr ⟨r', hr', hp'⟩) this
      · obtain ⟨r₀, -, hp₀, hnext, hmin⟩ := hs.next (hs.nextSet_iff.mpr ⟨r', hr', hp'⟩)
        rw [hnext, timeAfter_iff_of_pending (ScanRq.pending_iff.mp hp₀).2 hexp] at hafter
        exact Nat.le_trans (Nat.le_of_lt hafter) (hmin r' hr' hp')
    · simp only [List.mem_singleton] at hr'
      subst hr'
      exact Nat.le_refl _
  · simp only [Bool.or_eq_true, beq_iff_eq, not_or] at hnew
    obtain ⟨hne, hnafter⟩ := hnew
    have hset : s.data.nextSet = 1 := by have := hs.nextSet_le; omega
    obtain ⟨r₀, hr₀, hp₀, hnext, hmin⟩ := hs.next hset
    rw [hnext, Bool.not_eq_true, ← Bool.not_eq_true,
      timeAfter_iff_of_pending (ScanRq.pending_iff.mp hp₀).2 hexp] at hnafter
    refine ⟨hmarks, hs.timedOut, hs.nextSet_le, ⟨fun _ => ⟨r, by simp, hpend⟩, fun _ => hset⟩,
      fun _ => ⟨r₀, by simp [hr₀], hp₀, hnext, fun r' hr' hp' => ?_⟩⟩
    rcases List.mem_append.mp hr' with hr' | hr'
    · exact hmin r' hr' hp'
    · simp only [List.mem_singleton] at hr'
      subst hr'
      exact Nat.le_of_not_lt hnafter

/-- The invariant over a whole scan. -/
theorem ScanInv.foldl {jiffies : BitVec w} :
    ∀ (visits : List (ScanRq w)) {done : List (ScanRq w)} {s : TimeoutScan w},
      ScanInv jiffies done s → ScanInv jiffies (done ++ visits) (visits.foldl (blkMqCheckExpired jiffies) s)
  | [], done, _, hs => by simpa using hs
  | r :: visits, done, _, hs => by
    simpa using ScanInv.foldl visits (hs.checkExpired r)

/-- For every set of requests the scan visits and every value of `jiffies`, wrap included:
`REQ_ATOM_COMPLETE` is claimed once on each started request whose deadline has passed, in visit
order, and the request goes to `blk_mq_rq_timed_out` exactly when the claim finds the bit
clear; `data.next_set` ends 1 exactly when some started request is still pending, and then
`data.next` is the deadline of a pending request nearest ahead of `jiffies`, which no other
pending deadline precedes under `time_after`. -/
theorem timeout_scan_nearest_deadline (jiffies : BitVec w) (complete : ℕ → Bool)
    (visits : List (ScanRq w)) :
    (blkMqTimeoutScan jiffies complete visits).marks.map Prod.fst =
        (visits.filter fun r => r.started && timeAfterEq jiffies r.deadline).map ScanRq.rq ∧
    (blkMqTimeoutScan jiffies complete visits).timedOut =
        ((blkMqTimeoutScan jiffies complete visits).marks.filter fun m => !m.2).map Prod.fst ∧
    ((blkMqTimeoutScan jiffies complete visits).data.nextSet = 1 ↔
        ∃ r ∈ visits, r.started = true ∧ timeAfterEq jiffies r.deadline = false) ∧
    ((blkMqTimeoutScan jiffies complete visits).data.nextSet = 1 →
      ∃ r ∈ visits, r.started = true ∧ timeAfterEq jiffies r.deadline = false ∧
        (blkMqTimeoutScan jiffies complete visits).data.next = r.deadline ∧
        ∀ r' ∈ visits, r'.started = true → timeAfterEq jiffies r'.deadline = false →
          (r.deadline - jiffies).toNat ≤ (r'.deadline - jiffies).toNat ∧
            timeAfter r.deadline r'.deadline = false) := by
  have hs := ScanInv.foldl visits (scanInv_init jiffies complete)
  simp only [List.nil_append] at hs
  have hpend (r : ScanRq w) :
      r.pending jiffies = true ↔ r.started = true ∧ timeAfterEq jiffies r.deadline = false := by
    simp [ScanRq.pending]
  refine ⟨hs.marks, hs.timedOut, by simpa only [hpend] using hs.nextSet_iff, fun h => ?_⟩
  obtain ⟨r, hr, hp, hnext, hmin⟩ := hs.next h
  refine ⟨r, hr, (hpend r).mp hp |>.1, (hpend r).mp hp |>.2, hnext, fun r' hr' hst hexp => ?_⟩
  have hle := hmin r' hr' ((hpend r').mpr ⟨hst, hexp⟩)
  refine ⟨hle, ?_⟩
  rw [← Bool.not_eq_true, timeAfter_iff_of_pending ((hpend r).mp hp).2 hexp]
  exact Nat.not_lt_of_le hle

end Scan

end BlkMq
