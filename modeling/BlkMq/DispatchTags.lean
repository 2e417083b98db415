import BlkMq.TagLifecycle

/-!
# Driver tags of the requests dispatch leaves over

With an I/O scheduler attached every request holds a scheduler tag and takes a driver tag only
for the call of `->queue_rq`. `blk_mq_dispatch_rq_list` takes the driver tag of the next request
ahead of time, to set `bd.last`, and gives it back on a busy answer; a driver tag that fails and a
busy answer leave the requests they stop at without one. A budget that fails on a later
iteration stops the loop at a request that still holds the tag taken for it: the request goes
back to `hctx->dispatch` with its driver tag.
-/

namespace BlkMq

/-! ### What the steps of an iteration do to the driver tags -/

section Steps

variable {cfg : HctxConfig} {h : HctxState} {tags : TagState} {rq r : ℕ} {rest : List ℕ}
  {x : DispatchReply}

@[simp] theorem takeNextTag_internalTag (got : Option ℕ) (r : ℕ) :
    ((takeNextTag cfg tags rest got).rq r).internalTag = (tags.rq r).internalTag := by
  unfold takeNextTag
  split <;> simp

theorem takeNextTag_rq_of_not_head {got : Option ℕ} (hr : r ∉ rest.head?) :
    (takeNextTag cfg tags rest got).rq r = tags.rq r := by
  unfold takeNextTag
  split
  · rfl
  · exact blkMqGetDriverTag_rq_of_ne _ _ _ fun e => hr (by simp_all)

theorem putNextTag_rq_of_not_head (hr : r ∉ rest.head?) : (putNextTag tags rest).rq r = tags.rq r := by
  unfold putNextTag
  split
  · rfl
  · exact blkMqPutDriverTag_rq_of_ne _ fun e => hr (by simp_all)

/-- With a scheduler tag held, the next request ends without a driver tag. -/
theorem putNextTag_tag_head (hr : r ∈ rest.head?) (hs : (tags.rq r).internalTag.isSome) :
    ((putNextTag tags rest).rq r).tag = none := by
  unfold putNextTag
  split
  · simp_all
  · simp only [Option.mem_def, List.head?_cons, Option.some.injEq] at hr
    subst hr
    exact blkMqPutDriverTag_tag_self hs

@[simp] theorem acquireDriverTag_internalTag (r : ℕ) :
    ((acquireDriverTag cfg h rq x).1.tags.rq r).internalTag = (h.tags.rq r).internalTag := by
  unfold acquireDriverTag blkMqMarkTagWait
  dsimp only
  split_ifs <;> simp

theorem acquireDriverTag_rq_of_ne (hr : r ≠ rq) :
    (acquireDriverTag cfg h rq x).1.tags.rq r = h.tags.rq r := by
  unfold acquireDriverTag blkMqMarkTagWait
  dsimp only
  split_ifs <;> simp only [blkMqGetDriverTag_rq_of_ne _ _ _ hr]

/-- A failed acquisition leaves the request without a driver tag. -/
theorem acquireDriverTag_tag_of_false (hf : (acquireDriverTag cfg h rq x).2 = false) :
    ((acquireDriverTag cfg h rq x).1.tags.rq rq).tag = none := by
  unfold acquireDriverTag at hf ⊢
  dsimp only at hf ⊢
  split_ifs at hf ⊢ with hgot
  obtain ⟨hs, htag⟩ := blkMqGetDriverTag_of_false (Bool.eq_false_iff.mpr hgot)
  rw [hs] at hf ⊢
  unfold blkMqMarkTagWait at hf ⊢
  dsimp only at hf ⊢
  split_ifs at hf ⊢
  · rw [(blkMqGetDriverTag_of_false hf).1]; exact htag
  · exact htag
  · rw [(blkMqGetDriverTag_of_false hf).1]; exact htag

@[simp] theorem putNextTag_internalTag (r : ℕ) :
    ((putNextTag tags rest).rq r).internalTag = (tags.rq r).internalTag := by
  unfold putNextTag
  split <;> simp

/-- The driver tags after the call of `->queue_rq`: those with the next request's tag taken, and
on a busy answer that tag and the request's own given back. -/
theorem issueRequest_tags (cfg : HctxConfig) (x : DispatchReply) (ls : DispatchLoop) (h : HctxState)
    (rq : ℕ) (rest : List ℕ) :
    match issueRequest cfg x ls h rq rest with
    | .next ls' => ls'.hctx.tags = takeNextTag cfg h.tags rest x.nextTag
    | .stop ls' => ls'.hctx.tags =
        __blkMqRequeueRequest (putNextTag (takeNextTag cfg h.tags rest x.nextTag) rest) rq := by
  unfold issueRequest
  cases x.queueRq <;> rfl

end Steps

/-! ### One iteration, then the loop -/

section Loop

variable {cfg : HctxConfig} {gotBudget : Bool} {x : DispatchReply} {ls : DispatchLoop} {rq : ℕ}
  {rest : List ℕ}

/-- With every request holding a scheduler tag and the ones behind the head no driver tag, an
iteration either stops on a failed budget with nothing changed, or stops leaving every request of
the list without a driver tag, or goes on with the same holding for the rest of the list. -/
theorem dispatchIteration_untagged (cfg : HctxConfig) (gotBudget : Bool) (x : DispatchReply)
    (hrq : rq ∉ rest) (hnd : rest.Nodup)
    (hsched : ∀ r ∈ rq :: rest, (ls.hctx.tags.rq r).internalTag.isSome)
    (hfree : ∀ r ∈ rest, (ls.hctx.tags.rq r).tag = none) :
    match dispatchIteration cfg gotBudget x ls rq rest with
    | .stop ls' => ((!gotBudget && !x.budget) = true ∧ ls' = ls) ∨
        ∀ r ∈ rq :: rest, (ls'.hctx.tags.rq r).tag = none
    | .next ls' => (∀ r ∈ rest, (ls'.hctx.tags.rq r).internalTag.isSome) ∧
        ∀ r ∈ rest.tail, (ls'.hctx.tags.rq r).tag = none := by
  have hne {r : ℕ} (hr : r ∈ rest) : r ≠ rq := fun e => hrq (e ▸ hr)
  have hhead {r : ℕ} (hr : r ∈ rest.tail) : r ∉ rest.head? := by
    cases rest with
    | nil => simp at hr
    | cons nxt tl =>
      simp only [List.head?_cons, Option.mem_def, Option.some.injEq]
      rintro rfl
      exact (List.nodup_cons.mp hnd).1 hr
  unfold dispatchIteration
  by_cases hb : (!gotBudget && !x.budget) = true
  · rw [if_pos hb]
    exact .inl ⟨hb, rfl⟩
  rw [if_neg hb]
  dsimp only
  generalize hls : (if gotBudget = true then ls else _) = ls₁
  have htags : ls₁.hctx.tags = ls.hctx.tags := by subst hls; split_ifs <;> rfl
  by_cases hacq : (acquireDriverTag cfg ls₁.hctx rq x).2 = true
  · rw [if_pos hacq]
    have hit := issueRequest_tags cfg x ls₁ (acquireDriverTag cfg ls₁.hctx rq x).1 rq rest
    rcases hres : issueRequest cfg x ls₁ (acquireDriverTag cfg ls₁.hctx rq x).1 rq rest with ls' | ls'
    · rw [hres] at hit
      refine .inr fun r hr => ?_
      have hs : (ls.hctx.tags.rq r).internalTag.isSome := hsched r hr
      rw [hit]
      rcases List.mem_cons.mp hr with rfl | hr
      · exact blkMqPutDriverTag_tag_self (by simpa [htags] using hs)
      · rw [__blkMqRequeueRequest, blkMqPutDriverTag_rq_of_ne _ (hne hr)]
        by_cases hh : r ∈ rest.head?
        · exact putNextTag_tag_head hh (by simpa [htags] using hs)
        · rw [putNextTag_rq_of_not_head hh, takeNextTag_rq_of_not_head hh,
            acquireDriverTag_rq_of_ne (hne hr), htags]
          exact hfree r hr
    · rw [hres] at hit
      refine ⟨fun r hr => ?_, fun r hr => ?_⟩
      · simpa [hit, htags] using hsched r (List.mem_cons_of_mem _ hr)
      · rw [hit, takeNextTag_rq_of_not_head (hhead hr),
          acquireDriverTag_rq_of_ne (hne (List.mem_of_mem_tail hr)), htags]
        exact hfree r (List.mem_of_mem_tail hr)
  · rw [if_neg hacq]
    refine .inr fun r hr => ?_
    rcases List.mem_cons.mp hr with rfl | hr
    · exact acquireDriverTag_tag_of_false (Bool.eq_false_iff.mpr hacq)
    · rw [acquireDriverTag_rq_of_ne (hne hr), htags]
      exact hfree r hr

/-- The loop, when no budget fails after its first iteration: every request it leaves is
without a driver tag. -/
theorem dispatchLoop_untagged (reply : ℕ → DispatchReply)
    (hbudget : ∀ m, 1 ≤ m → (!gotBudget && !(reply m).budget) = false) :
    ∀ (l : List ℕ) (n : ℕ) (ls : DispatchLoop), l.Nodup →
      (∀ r ∈ l, (ls.hctx.tags.rq r).internalTag.isSome) →
      (∀ r ∈ l.tail, (ls.hctx.tags.rq r).tag = none) →
      (n = 0 → ∀ r ∈ l, (ls.hctx.tags.rq r).tag = none) →
      ∀ r ∈ (dispatchLoop cfg gotBudget reply n ls l).2,
        ((dispatchLoop cfg gotBudget reply n ls l).1.hctx.tags.rq r).tag = none
  | [], _, _, _, _, _, _ => by simp [dispatchLoop]
  | rq :: rest, n, ls, hnd, hsched, hfree, hfirst => by
    obtain ⟨hrq, hnd'⟩ := List.nodup_cons.mp hnd
    have hit := dispatchIteration_untagged cfg gotBudget (reply n) hrq hnd' hsched hfree
    simp only [dispatchLoop]
    rcases hres : dispatchIteration cfg gotBudget (reply n) ls rq rest with ls' | ls' <;>
      rw [hres] at hit
    · rcases hit with ⟨hb, rfl⟩ | hall
      · have hn : n = 0 := by
          by_contra hn
          simp [hbudget n (Nat.one_le_iff_ne_zero.mpr hn)] at hb
        exact hfirst hn
      · exact hall
    · exact dispatchLoop_untagged reply hbudget rest (n + 1) ls' hnd' hit.1 hit.2
        (fun h => absurd h (Nat.succ_ne_zero n))

end Loop

/-- With a scheduler attached and no budget failing after the first request, every request
`blk_mq_dispatch_rq_list` puts back on `hctx->dispatch` is without a driver tag. -/
theorem blkMqDispatchRqList_leftover_untagged (cfg : HctxConfig) (reply : ℕ → DispatchReply)
    (h : HctxState) (list : List ℕ) (gotBudget : Bool) (hnd : list.Nodup)
    (hsched : ∀ r ∈ list, (h.tags.rq r).internalTag.isSome)
    (hfree : ∀ r ∈ list, (h.tags.rq r).tag = none)
    (hbudget : ∀ m, 1 ≤ m → (!gotBudget && !(reply m).budget) = false) :
    ∃ left, (blkMqDispatchRqList cfg reply h list gotBudget).1.dispatch = left ++ h.dispatch ∧
      ∀ r ∈ left, ((blkMqDispatchRqList cfg reply h list gotBudget).1.tags.rq r).tag = none := by
  unfold blkMqDispatchRqList
  dsimp only
  split_ifs
  · exact ⟨[], rfl, by simp⟩
  · obtain ⟨-, -, -, -, -, -, hd, -⟩ := dispatchLoop_split cfg gotBudget reply 0
      ⟨h, DispatchLog.empty, .ok, false, 0, 0⟩ list
    exact ⟨_, by simp [hd], dispatchLoop_untagged reply hbudget list 0 _ hnd hsched
      (fun r hr => hfree r (List.mem_of_mem_tail hr)) fun _ => hfree⟩
  · obtain ⟨-, -, -, -, -, -, hd, -⟩ := dispatchLoop_split cfg gotBudget reply 0
      ⟨h, DispatchLog.empty, .ok, false, 0, 0⟩ list
    exact ⟨[], by simpa using hd, by simp⟩

/-- Two requests holding scheduler tags, neither a driver tag. The first gets its driver tag and,
for `bd.last`, the second gets driver tag 1; the driver takes the first; the budget for the second
fails. The second goes back to `hctx->dispatch` holding driver tag 1. -/
theorem budget_failure_strands_next_tag :
    ∃ hc, (blkMqDispatchRqList ⟨false, false, true⟩
        (fun n => if n = 0 then ⟨true, some 0, none, some 1, .ok⟩ else ⟨false, none, none, none, .ok⟩)
        ⟨(TagOp.alloc 2 1 true false).apply ((TagOp.alloc 1 0 true false).apply TagState.init),
          [], false, false, 0⟩ [1, 2] false).1 = hc ∧
      hc.dispatch = [2] ∧ (hc.tags.rq 2).tag = some 1 ∧ (hc.tags.rq 2).internalTag = some 1 :=
  ⟨_, rfl, by decide⟩

end BlkMq
