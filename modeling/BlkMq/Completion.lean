import Mathlib.Data.List.Basic

/-!
# Completion against timeout

Once a request is started, the driver's completion calls (`blk_mq_complete_request`,
`blk_mq_complete_request_sync`), timeout scans (`blk_mq_check_expired`, then
`blk_mq_rq_timed_out`), `__blk_mq_requeue_request` and `blk_mq_start_request` race on its
bits `REQ_ATOM_STARTED` and `REQ_ATOM_COMPLETE`. Each thread is a program counter; every bit
operation is one atomic step, and the threads interleave in any order. What a step reads
besides the two bits (the fault-injection test, the clock, the driver's timeout handler) is
an argument of the step.
-/

namespace BlkMq

/-- What `->timeout` returns (`enum blk_eh_timer_return`). `other` is any other value, which
`blk_mq_rq_timed_out` reports with `printk` and otherwise ignores. -/
inductive EhReturn
  | handled
  | resetTimer
  | notHandled
  | other
  deriving DecidableEq, Repr

/-- Where a thread is in one of the paths racing on a request. -/
inductive RacePc
  /-- Entered `blk_mq_complete_request` (`sync = false`) or `blk_mq_complete_request_sync`. -/
  | complete (sync : Bool)
  /-- Won `blk_mark_rq_complete`: about to enter `__blk_mq_complete_request`. -/
  | completeWon
  /-- `blk_mq_check_expired`, at its test of `REQ_ATOM_STARTED`. -/
  | scan
  /-- At the comparison of `jiffies` with `rq->deadline`. -/
  | scanDeadline
  /-- The deadline has passed: at `blk_mark_rq_complete`. -/
  | scanMark
  /-- Won it: `blk_mq_rq_timed_out`, at its test of `REQ_ATOM_STARTED`. -/
  | timedOut
  /-- At the call of `->timeout`. -/
  | timeoutHandler
  /-- `BLK_EH_HANDLED`: about to enter `__blk_mq_complete_request`. -/
  | timeoutComplete
  /-- `BLK_EH_RESET_TIMER`: at `blk_clear_rq_complete`. -/
  | timeoutReset
  /-- `__blk_mq_requeue_request`, at its `test_and_clear_bit` of `REQ_ATOM_STARTED`. -/
  | requeue
  /-- `blk_mq_start_request`, at setting `REQ_ATOM_STARTED`. -/
  | start
  /-- `blk_mq_start_request`, at its test of `REQ_ATOM_COMPLETE`. -/
  | startTest
  /-- `blk_mq_start_request`, at clearing `REQ_ATOM_COMPLETE`. -/
  | startClear
  /-- Returned. -/
  | done
  deriving DecidableEq, Repr

/-- The thread holds `REQ_ATOM_COMPLETE`: it won `blk_mark_rq_complete` and has not yet
entered `__blk_mq_complete_request`, cleared the bit or returned. -/
def RacePc.holdsComplete : RacePc → Bool
  | .completeWon | .timedOut | .timeoutHandler | .timeoutComplete | .timeoutReset => true
  | _ => false

/-- The thread is about to enter `__blk_mq_complete_request`. -/
def RacePc.finalizes : RacePc → Bool
  | .completeWon | .timeoutComplete => true
  | _ => false

/-- A thread of `blk_mq_start_request`. -/
def RacePc.isStart : RacePc → Bool
  | .start | .startTest | .startClear => true
  | _ => false

/-- The two bits of the request, the racing threads, and how many times
`__blk_mq_complete_request` was entered (not in the source). -/
structure RaceState where
  /-- `REQ_ATOM_STARTED`. -/
  started : Bool
  /-- `REQ_ATOM_COMPLETE`. -/
  complete : Bool
  /-- The program counters of the racing threads. -/
  threads : List RacePc
  /-- The entries into `__blk_mq_complete_request` so far. -/
  finalized : ℕ
  deriving DecidableEq, Repr

/-- What a step reads besides the two bits: whether `blk_should_fake_timeout` drops a
completion, whether `time_after_eq(jiffies, rq->deadline)` holds, and what `->timeout`
returns. -/
structure RaceChoice where
  /-- `blk_should_fake_timeout(q)`. -/
  fake : Bool
  /-- `time_after_eq(jiffies, rq->deadline)`. -/
  expired : Bool
  /-- The return of `->timeout`. -/
  handler : EhReturn
  deriving DecidableEq, Repr

/-- Move thread `i` to `pc`. -/
def RaceState.goto (s : RaceState) (i : ℕ) (pc : RacePc) : RaceState :=
  { s with threads := s.threads.set i pc }

/-- The atomic step of thread `i`, which is at `pc`. -/
def RaceState.move (s : RaceState) (i : ℕ) (c : RaceChoice) : RacePc → RaceState
  | .complete sync =>
    if !sync && c.fake then s.goto i .done
    else if s.complete then s.goto i .done
    else { s.goto i .completeWon with complete := true }
  | .completeWon => { s.goto i .done with finalized := s.finalized + 1 }
  | .scan => s.goto i (if s.started then .scanDeadline else .done)
  | .scanDeadline => s.goto i (if c.expired then .scanMark else .done)
  | .scanMark =>
    if s.complete then s.goto i .done else { s.goto i .timedOut with complete := true }
  | .timedOut => s.goto i (if s.started then .timeoutHandler else .done)
  | .timeoutHandler =>
    s.goto i (match c.handler with
      | .handled => .timeoutComplete
      | .resetTimer => .timeoutReset
      | .notHandled | .other => .done)
  | .timeoutComplete => { s.goto i .done with finalized := s.finalized + 1 }
  | .timeoutReset => { s.goto i .done with complete := false }
  | .requeue => { s.goto i .done with started := false }
  | .start => { s.goto i .startTest with started := true }
  | .startTest => s.goto i (if s.complete then .startClear else .done)
  | .startClear => { s.goto i .done with complete := false }
  | .done => s

/-- The step of thread `i`; an index with no thread changes nothing. -/
def RaceState.step (s : RaceState) (i : ℕ) (c : RaceChoice) : RaceState :=
  match s.threads[i]? with
  | none => s
  | some pc => s.move i c pc

/-- The states a run reaches from `s₀`, each step made by any thread with any choice. -/
inductive RaceRun (s₀ : RaceState) : RaceState → Prop
  | refl : RaceRun s₀ s₀
  | step {s : RaceState} (i : ℕ) (c : RaceChoice) : RaceRun s₀ s → RaceRun s₀ (s.step i c)

/-- The steps of a schedule, in order. -/
def RaceState.run (s : RaceState) : List (ℕ × RaceChoice) → RaceState
  | [] => s
  | (i, c) :: rest => (s.step i c).run rest

/-- A schedule's final state is reached by a run. -/
theorem RaceRun.run {s₀ s : RaceState} (h : RaceRun s₀ s) :
    ∀ schedule : List (ℕ × RaceChoice), RaceRun s₀ (s.run schedule)
  | [] => h
  | (i, c) :: rest => RaceRun.run (.step i c h) rest

namespace RaceState

variable {s s₀ : RaceState} {i : ℕ} {pc : RacePc}

@[simp] theorem goto_threads (pc' : RacePc) : (s.goto i pc').threads = s.threads.set i pc' := rfl
@[simp] theorem goto_started (pc' : RacePc) : (s.goto i pc').started = s.started := rfl
@[simp] theorem goto_complete (pc' : RacePc) : (s.goto i pc').complete = s.complete := rfl
@[simp] theorem goto_finalized (pc' : RacePc) : (s.goto i pc').finalized = s.finalized := rfl

theorem step_of_getElem? (hpc : s.threads[i]? = some pc) (c : RaceChoice) :
    s.step i c = s.move i c pc := by
  simp only [step, hpc]

theorem step_of_getElem?_none (hpc : s.threads[i]? = none) (c : RaceChoice) : s.step i c = s := by
  unfold step; rw [hpc]

/-- Only the two entries into `__blk_mq_complete_request` count a finalization. -/
theorem move_finalized (c : RaceChoice) (pc : RacePc) :
    (s.move i c pc).finalized = s.finalized + pc.finalizes.toNat := by
  cases pc <;> simp only [move] <;> (try split_ifs) <;> rfl

/-- Once every thread has returned, no step changes anything. -/
theorem step_of_all_done (hdone : ∀ pc ∈ s.threads, pc = .done) (i : ℕ) (c : RaceChoice) :
    s.step i c = s := by
  rcases hpc : s.threads[i]? with _ | pc
  · exact step_of_getElem?_none hpc c
  · rw [step_of_getElem? hpc, hdone pc (List.getElem?_mem hpc)]
    rfl

theorem run_of_all_done (hdone : ∀ pc ∈ s.threads, pc = .done) :
    ∀ schedule : List (ℕ × RaceChoice), s.run schedule = s
  | [] => rfl
  | (i, c) :: rest => by rw [run, step_of_all_done hdone, run_of_all_done hdone rest]

/-- The threads holding `REQ_ATOM_COMPLETE`. -/
def holders (s : RaceState) : ℕ := s.threads.countP RacePc.holdsComplete

private theorem countP_set_add {l : List RacePc} (hpc : l[i]? = some pc) (p : RacePc → Bool)
    (pc' : RacePc) :
    (l.set i pc').countP p + (if p pc then 1 else 0) = l.countP p + (if p pc' then 1 else 0) := by
  obtain ⟨hi, rfl⟩ := List.getElem?_eq_some_iff.mp hpc
  have := List.boole_getElem_le_countP p l i hi
  rw [List.countP_set p l i pc' hi]
  omega

/-- Moving thread `i` from `pc` to `pc'` trades the one for the other among the holders. -/
theorem holders_goto (hpc : s.threads[i]? = some pc) (pc' : RacePc) :
    (s.goto i pc').holders + pc.holdsComplete.toNat = s.holders + pc'.holdsComplete.toNat := by
  simpa only [Bool.toNat, cond_eq_if] using countP_set_add hpc RacePc.holdsComplete pc'

/-- Where the request stands right after `blk_mq_start_request` returned: `REQ_ATOM_STARTED`
set, `REQ_ATOM_COMPLETE` clear, never finalized, and threads that entered their paths but hold
nothing, none of them a further `blk_mq_start_request`. -/
def IssueStart (s : RaceState) : Prop :=
  s.started = true ∧ s.complete = false ∧ s.finalized = 0 ∧
    ∀ pc ∈ s.threads, pc.holdsComplete = false ∧ pc.isStart = false

instance : DecidablePred IssueStart := fun _ => inferInstanceAs (Decidable (_ ∧ _))

/-- The invariant of one issue: no thread starts the request again; the finalizations and the
holders of `REQ_ATOM_COMPLETE` together are at most one; and while the flag is clear there are
neither. -/
structure OneIssue (s : RaceState) : Prop where
  no_start : ∀ pc ∈ s.threads, pc.isStart = false
  at_most_one : s.finalized + s.holders ≤ 1
  of_clear : s.complete = false → s.finalized = 0 ∧ s.holders = 0

theorem IssueStart.oneIssue (h : s.IssueStart) : s.OneIssue := by
  obtain ⟨-, hc, hf, hth⟩ := h
  have hh : s.holders = 0 := List.countP_eq_zero.mpr fun pc hpc => by simp [(hth pc hpc).1]
  exact ⟨fun pc hpc => (hth pc hpc).2, by omega, fun _ => ⟨hf, hh⟩⟩

/-- A holder of `REQ_ATOM_COMPLETE` means the flag is set. -/
theorem OneIssue.complete_of_holds (hs : s.OneIssue) (hpc : s.threads[i]? = some pc)
    (hholds : pc.holdsComplete = true) : s.complete = true := by
  have : 0 < s.holders := List.countP_pos_iff.mpr ⟨pc, List.getElem?_mem hpc, hholds⟩
  by_contra hc
  have := (hs.of_clear (by simpa using hc)).2
  omega

section Moves

theorem OneIssue.no_start_goto (hs : s.OneIssue) {pc' : RacePc} (hstart : pc'.isStart = false) :
    ∀ x ∈ (s.goto i pc').threads, x.isStart = false := fun x hx =>
  (List.mem_or_eq_of_mem_set hx).elim (hs.no_start x) (· ▸ hstart)

/-- The invariant does not read `REQ_ATOM_STARTED`. -/
theorem OneIssue.with_started (hs : s.OneIssue) (b : Bool) : { s with started := b }.OneIssue :=
  ⟨hs.1, hs.2, hs.3⟩

variable (hs : s.OneIssue) (hpc : s.threads[i]? = some pc)
include hs hpc

/-- A move that neither takes nor clears the flag and takes no new hold keeps the invariant. -/
theorem OneIssue.goto {pc' : RacePc} (hstart : pc'.isStart = false)
    (hle : pc'.holdsComplete.toNat ≤ pc.holdsComplete.toNat) : (s.goto i pc').OneIssue := by
  have hh := holders_goto hpc pc'
  have := hs.at_most_one
  refine ⟨hs.no_start_goto hstart, by simp only [goto_finalized]; omega, fun hc => ?_⟩
  obtain ⟨hf, h0⟩ := hs.of_clear hc
  exact ⟨hf, by omega⟩

/-- Winning the test-and-set of a clear flag takes the one hold there can be. -/
theorem OneIssue.mark {pc' : RacePc} (hstart : pc'.isStart = false)
    (hold : pc.holdsComplete = false) (hc : s.complete = false) :
    { s.goto i pc' with complete := true }.OneIssue := by
  have hh := holders_goto hpc pc'
  have h1 := Bool.toNat_le pc'.holdsComplete
  obtain ⟨hf, h0⟩ := hs.of_clear hc
  rw [hold, Bool.toNat_false] at hh
  exact ⟨hs.no_start_goto hstart, show s.finalized + (s.goto i pc').holders ≤ 1 by omega,
    nofun⟩

/-- A holder entering `__blk_mq_complete_request` gives up its hold for the finalization. -/
theorem OneIssue.finalize (hold : pc.holdsComplete = true) :
    { s.goto i .done with finalized := s.finalized + 1 }.OneIssue := by
  have hh := holders_goto hpc .done
  have hc := hs.complete_of_holds hpc hold
  have := hs.at_most_one
  rw [hold] at hh
  refine ⟨hs.no_start_goto rfl, ?_, fun h => absurd (hc.symm.trans h) nofun⟩
  show s.finalized + 1 + (s.goto i .done).holders ≤ 1
  simp only [RacePc.holdsComplete, Bool.toNat_true, Bool.toNat_false] at hh
  omega

/-- A holder clearing the flag was the only one, and nothing was finalized. -/
theorem OneIssue.reset (hold : pc.holdsComplete = true) :
    { s.goto i .done with complete := false }.OneIssue := by
  have hh := holders_goto hpc .done
  have := hs.at_most_one
  rw [hold] at hh
  simp only [RacePc.holdsComplete, Bool.toNat_true, Bool.toNat_false] at hh
  refine ⟨hs.no_start_goto rfl, show s.finalized + (s.goto i .done).holders ≤ 1 by omega,
    fun _ => show s.finalized = 0 ∧ (s.goto i .done).holders = 0 by omega⟩

end Moves

/-- Every step of a thread that is not a start keeps the invariant. -/
theorem OneIssue.step (hs : s.OneIssue) (i : ℕ) (c : RaceChoice) : (s.step i c).OneIssue := by
  rcases hpc : s.threads[i]? with _ | pc
  · rwa [step_of_getElem?_none hpc]
  rw [step_of_getElem? hpc]
  have hns : pc.isStart = false := hs.no_start pc (List.getElem?_mem hpc)
  cases pc with
  | complete sync =>
    simp only [move]
    split_ifs with _ hc
    · exact hs.goto hpc rfl (Nat.zero_le _)
    · exact hs.goto hpc rfl (Nat.zero_le _)
    · exact hs.mark hpc rfl rfl (by simpa using hc)
  | completeWon | timeoutComplete => exact hs.finalize hpc rfl
  | scan | scanDeadline | timedOut =>
    exact hs.goto hpc (by split <;> rfl) (by split <;> decide)
  | scanMark =>
    simp only [move]
    split_ifs with hc
    · exact hs.goto hpc rfl (Nat.zero_le _)
    · exact hs.mark hpc rfl rfl (by simpa using hc)
  | timeoutHandler => exact hs.goto hpc (by split <;> rfl) (by split <;> decide)
  | timeoutReset => exact hs.reset hpc rfl
  | requeue =>
    exact OneIssue.with_started (hs.goto hpc rfl (Nat.zero_le _) : (s.goto i .done).OneIssue) false
  | start | startTest | startClear => cases hns
  | done => exact hs

end RaceState

namespace RaceRun

variable {s₀ s : RaceState}

/-- The invariant holds in every state that a run of one issue reaches. -/
theorem oneIssue (h₀ : s₀.IssueStart) (hrun : RaceRun s₀ s) : s.OneIssue := by
  induction hrun with
  | refl => exact h₀.oneIssue
  | step i c _ ih => exact ih.step i c

/-- After one `blk_mq_start_request` and before the next, the request is finalized at most once,
and a step that finalizes it is made, with `REQ_ATOM_COMPLETE` set, by a completion call that won
`blk_mark_rq_complete` or by a timeout that won it, saw `REQ_ATOM_STARTED` set and got
`BLK_EH_HANDLED` from its handler. -/
theorem finalized_at_most_once (h₀ : s₀.IssueStart) (hrun : RaceRun s₀ s) :
    s.finalized ≤ 1 ∧ ∀ i c, s.finalized < (s.step i c).finalized →
      (s.threads[i]? = some .completeWon ∨ s.threads[i]? = some .timeoutComplete) ∧
        s.complete = true := by
  have hs := hrun.oneIssue h₀
  refine ⟨by have := hs.at_most_one; omega, fun i c hlt => ?_⟩
  rcases hpc : s.threads[i]? with _ | pc
  · rw [RaceState.step_of_getElem?_none hpc] at hlt; omega
  rw [RaceState.step_of_getElem? hpc, RaceState.move_finalized] at hlt
  cases pc <;> simp only [RacePc.finalizes, Bool.toNat_false, Nat.add_zero, lt_self_iff_false]
    at hlt <;> exact ⟨by simp, hs.complete_of_holds hpc rfl⟩

theorem finalized_at_most_once_of_completion :
    let s := (⟨true, false, [.complete false, .scan], 0⟩ : RaceState).run
      [(0, ⟨false, false, .handled⟩), (0, ⟨false, false, .handled⟩)]
    s.finalized ≤ 1 ∧ ∀ i c, s.finalized < (s.step i c).finalized →
      (s.threads[i]? = some .completeWon ∨ s.threads[i]? = some .timeoutComplete) ∧
        s.complete = true :=
  finalized_at_most_once (by decide) (RaceRun.refl.run _)

/-- A driver completion can be lost. A timeout scan wins `REQ_ATOM_COMPLETE` and sees the request
started; the completion call then finds the flag held and returns; the handler returns
`BLK_EH_RESET_TIMER` and `blk_mq_rq_timed_out` clears the flag. Every thread has returned, the
flag is clear, nothing finalized the request, and no further step changes that. -/
theorem completion_lost_to_reset_timer :
    ∃ s, RaceRun ⟨true, false, [.scan, .complete false], 0⟩ s ∧
      s = ⟨true, false, [.done, .done], 0⟩ ∧ ∀ schedule, s.run schedule = s :=
  ⟨_, RaceRun.refl.run [(0, ⟨false, true, .resetTimer⟩), (0, ⟨false, true, .resetTimer⟩),
      (0, ⟨false, true, .resetTimer⟩), (0, ⟨false, true, .resetTimer⟩),
      (1, ⟨false, true, .resetTimer⟩), (0, ⟨false, true, .resetTimer⟩),
      (0, ⟨false, true, .resetTimer⟩)],
    rfl, RaceState.run_of_all_done (by decide)⟩

/-- Within one issue, a completion call that won `REQ_ATOM_COMPLETE` keeps it set, and the
request unfinalized, until it enters `__blk_mq_complete_request`. -/
theorem complete_held_by_winner (h₀ : s₀.IssueStart) (hrun : RaceRun s₀ s) {i : ℕ}
    (hpc : s.threads[i]? = some .completeWon) : s.complete = true ∧ s.finalized = 0 := by
  have hs := hrun.oneIssue h₀
  have : 0 < s.holders := List.countP_pos_iff.mpr ⟨_, List.getElem?_mem hpc, rfl⟩
  exact ⟨hs.complete_of_holds hpc rfl, by have := hs.at_most_one; omega⟩

theorem complete_held_by_winner_of_completion :
    let s := (⟨true, false, [.complete false, .scan], 0⟩ : RaceState).run
      [(0, ⟨false, false, .handled⟩)]
    s.complete = true ∧ s.finalized = 0 :=
  complete_held_by_winner (by decide) (RaceRun.refl.run _) (i := 0) rfl

end RaceRun

end BlkMq
