import BlkMq.Topology

/-!
# The hardware side of `blk_mq_map_swqueue`

After the CPU loop has put each online CPU's software queue into `hctx->ctxs` of its hardware
context (`blkMqMapSwqueue`), `blk_mq_map_swqueue` gives each hardware context the CPUs in its
`hctx->cpumask` and, in a second loop, its tags: a hardware context with software queues takes
`set->tags[i]` and a `ctx_map` of `nr_ctx` bits; one without gives up its tags, and frees
`set->tags[i]` unless `i` is 0, the fallback of every failed allocation.

The CPU loop allocates missing tags with `__blk_mq_alloc_rq_map` and moves a CPU to hardware
context 0 when that fails, so with `set->tags[0]` allocated every hardware context left with
software queues has tags, whichever allocations fail.
-/

namespace BlkMq

open Function (update)

/-- `cpumask_set_cpu(cpu, hctx->cpumask)` for hardware context `h`, the masks of all hardware
contexts given as one function. -/
def cpumaskSetCpu (mask : ℕ → ℕ → Bool) (h cpu : ℕ) : ℕ → ℕ → Bool :=
  update mask h (update (mask h) cpu true)

@[simp] theorem cpumaskSetCpu_apply (mask : ℕ → ℕ → Bool) (h cpu h' cpu' : ℕ) :
    cpumaskSetCpu mask h cpu h' cpu' = (decide (h' = h ∧ cpu' = cpu) || mask h' cpu') := by
  unfold cpumaskSetCpu
  by_cases hh : h' = h
  · subst hh
    by_cases hc : cpu' = cpu
    · subst hc; simp
    · simp [hc]
  · simp [hh]

/-- `hctx->cpumask` through the CPU loop of `blk_mq_map_swqueue` over the possible CPUs below
`n`: cleared, then each online CPU `i` set in the mask of `blk_mq_map_queue(q, i)`, which
iteration `i` may have moved to hardware context 0. -/
def mapSwqueueCpumask (q : SwMap) (tags online alloc : ℕ → Bool) : ℕ → ℕ → ℕ → Bool
  | 0 => fun _ _ => false
  | n + 1 =>
    if online n then
      cpumaskSetCpu (mapSwqueueCpumask q tags online alloc n)
        ((mapSwqueueCpus q tags online alloc (n + 1)).1.mqMap n) n
    else mapSwqueueCpumask q tags online alloc n

/-- The tags of the tag set and of the hardware contexts. -/
structure HctxTags where
  /-- `set->tags[i] != NULL`. -/
  setTags : ℕ → Bool
  /-- `hctx->tags` of hardware context `i`: `set->tags[j]`, or `NULL`. -/
  tags : ℕ → Option ℕ
  /-- The depth of `hctx->ctx_map`. -/
  ctxMapDepth : ℕ → ℕ

/-- The body of the loop of `blk_mq_map_swqueue` over the hardware contexts, for hardware
context `i` with the software queues `ctxs`. -/
def mapSwqueueHctx (ctxs : List ℕ) (t : HctxTags) (i : ℕ) : HctxTags :=
  if ctxs.length = 0 then
    { t with
      setTags := if i != 0 && t.setTags i then update t.setTags i false else t.setTags
      tags := update t.tags i none }
  else
    { t with
      tags := update t.tags i (if t.setTags i then some i else none)
      ctxMapDepth := update t.ctxMapDepth i ctxs.length }

/-- The loop over the hardware contexts below `n`. -/
def mapSwqueueHctxs (m : SwMap) (t : HctxTags) : ℕ → HctxTags
  | 0 => t
  | n + 1 => mapSwqueueHctx (m.ctxs n) (mapSwqueueHctxs m t n) n

/-- What `blk_mq_map_swqueue` leaves. -/
structure MapSwqueueResult where
  /-- `q->mq_map`, `ctx->index_hw` and `hctx->ctxs[0 .. nr_ctx)`. -/
  sw : SwMap
  /-- `hctx->cpumask` of each hardware context. -/
  cpumask : ℕ → ℕ → Bool
  /-- The tags. -/
  hctxs : HctxTags

/-- `blk_mq_map_swqueue(q, online_mask)` with `nr_cpu_ids` possible CPUs and `q->nr_hw_queues`
hardware contexts. `tags` are the `set->tags` allocated before, `alloc` what
`__blk_mq_alloc_rq_map` returns when the loop calls it for a CPU, and `tags₀`, `depth₀` the
hardware contexts' `tags` and `ctx_map` depths before. -/
def blkMqMapSwqueueWhole (q : SwMap) (tags online alloc : ℕ → Bool) (nrCpuIds nrHwQueues : ℕ)
    (tags₀ : ℕ → Option ℕ) (depth₀ : ℕ → ℕ) : MapSwqueueResult :=
  let r := mapSwqueueCpus q tags online alloc nrCpuIds
  ⟨r.1, mapSwqueueCpumask q tags online alloc nrCpuIds,
    mapSwqueueHctxs r.1 ⟨r.2, tags₀, depth₀⟩ nrHwQueues⟩

/-! ### The CPU loop -/

namespace SwMap

variable {m : SwMap} {tags : ℕ → Bool} {alloc : Bool} {i : ℕ}

/-- One CPU of the loop keeps the tags allocated, leaves its CPU on a hardware context with
tags, and moves no other CPU. -/
theorem mapCpu_tags (h0 : tags 0 = true) :
    (∀ h, tags h = true → (m.mapCpu tags alloc i).2 h = true) ∧
      (m.mapCpu tags alloc i).2 ((m.mapCpu tags alloc i).1.mqMap i) = true ∧
      ∀ j ≠ i, (m.mapCpu tags alloc i).1.mqMap j = m.mqMap j := by
  unfold SwMap.mapCpu
  dsimp only
  split_ifs with ht ha
  · exact ⟨fun _ h => h, by simpa [SwMap.addCtx] using ht, fun j _ => rfl⟩
  · refine ⟨fun h hh => ?_, by simp [SwMap.addCtx], fun j _ => rfl⟩
    by_cases hx : h = m.mqMap i
    · subst hx; simp
    · simp [hx, hh]
  · exact ⟨fun _ h => h, by simpa [SwMap.addCtx] using h0,
      fun j hj => by simp [SwMap.addCtx, Function.update_noteq hj]⟩

end SwMap

/-- Through the CPU loop the tags allocated stay, every online CPU handled sits on a hardware
context with tags, and only online CPUs are listed. -/
theorem mapSwqueueCpus_tags (q : SwMap) (tags online alloc : ℕ → Bool) (h0 : tags 0 = true) :
    ∀ n, (∀ h, tags h = true → (mapSwqueueCpus q tags online alloc n).2 h = true) ∧
      (∀ i < n, online i = true →
        (mapSwqueueCpus q tags online alloc n).2 ((mapSwqueueCpus q tags online alloc n).1.mqMap i) = true) ∧
      ∀ h, ∀ c ∈ (mapSwqueueCpus q tags online alloc n).1.ctxs h, online c = true
  | 0 => ⟨fun _ h => h, fun _ hi => absurd hi (Nat.not_lt_zero _), fun _ _ hc => by
      simp [mapSwqueueCpus] at hc⟩
  | n + 1 => by
    obtain ⟨hmono, hmapped, hlisted⟩ := mapSwqueueCpus_tags q tags online alloc h0 n
    simp only [mapSwqueueCpus]
    split_ifs with hon
    · obtain ⟨hkeep, hself, hother⟩ :=
        @SwMap.mapCpu_tags (mapSwqueueCpus q tags online alloc n).1 _ (alloc n) n (hmono 0 h0)
      refine ⟨fun h hh => hkeep h (hmono h hh), fun i hi honi => ?_, fun h c hc => ?_⟩
      · rcases Nat.lt_succ_iff_lt_or_eq.mp hi with hi | rfl
        · rw [hother i (Nat.ne_of_lt hi)]
          exact hkeep _ (hmapped i hi honi)
        · exact hself
      · rcases SwMap.mem_mapCpu hc with hc | rfl
        · exact hlisted h c hc
        · exact hon
    · refine ⟨hmono, fun i hi honi => ?_, hlisted⟩
      rcases Nat.lt_succ_iff_lt_or_eq.mp hi with hi | rfl
      · exact hmapped i hi honi
      · simp [hon] at honi

/-- A CPU's hardware context, once its iteration is past, does not move. -/
theorem mapSwqueueCpus_mqMap_stable (q : SwMap) (tags online alloc : ℕ → Bool) {i : ℕ} :
    ∀ n, i < n → (mapSwqueueCpus q tags online alloc (n + 1)).1.mqMap i =
      (mapSwqueueCpus q tags online alloc n).1.mqMap i := by
  intro n hi
  simp only [mapSwqueueCpus]
  split_ifs
  · rw [SwMap.mapCpu_fst]
    split_ifs <;> simp [SwMap.addCtx, Function.update_noteq (Nat.ne_of_lt hi)]
  · rfl

/-- `hctx->cpumask` holds exactly the online CPUs handled that map to the hardware context. -/
theorem mapSwqueueCpumask_eq (q : SwMap) (tags online alloc : ℕ → Bool) :
    ∀ n h i, mapSwqueueCpumask q tags online alloc n h i =
      (decide (i < n) && online i && decide ((mapSwqueueCpus q tags online alloc n).1.mqMap i = h))
  | 0, _, _ => by simp [mapSwqueueCpumask]
  | n + 1, h, i => by
    have ih := mapSwqueueCpumask_eq q tags online alloc n h i
    rcases Nat.lt_trichotomy i n with hlt | rfl | hgt
    · have hstable := mapSwqueueCpus_mqMap_stable q tags online alloc n hlt
      have hne : i ≠ n := Nat.ne_of_lt hlt
      simp only [mapSwqueueCpumask]
      split_ifs <;> simp [ih, hne, hstable, hlt, Nat.lt_succ_of_lt hlt]
    · by_cases hon : online i = true <;> simp [mapSwqueueCpumask, hon, ih, eq_comm]
    · have h1 : ¬ i < n + 1 := by omega
      have h2 : ¬ i < n := by omega
      have hne : i ≠ n := by omega
      simp only [mapSwqueueCpumask]
      split_ifs <;> simp [ih, hne, h1, h2]

/-! ### The loop over the hardware contexts -/

/-- What the tags hold for hardware context `i`: `set->tags[i]`, `hctx->tags`, and the depth
of `hctx->ctx_map`. -/
def HctxTags.at (t : HctxTags) (i : ℕ) : Bool × Option ℕ × ℕ :=
  (t.setTags i, t.tags i, t.ctxMapDepth i)

/-- The body of the loop for hardware context `i` leaves every other one alone. -/
theorem mapSwqueueHctx_at_of_ne (ctxs : List ℕ) (t : HctxTags) {i j : ℕ} (hji : j ≠ i) :
    (mapSwqueueHctx ctxs t i).at j = t.at j := by
  unfold mapSwqueueHctx HctxTags.at
  split_ifs <;> simp [Function.update_noteq hji]

/-- The body of the loop for hardware context `i`: without software queues it drops the tags
and frees `set->tags[i]` unless `i` is 0; with some it takes `set->tags[i]` and a `ctx_map` of
`nr_ctx` bits. -/
theorem mapSwqueueHctx_at_self (ctxs : List ℕ) (t : HctxTags) (i : ℕ) :
    (mapSwqueueHctx ctxs t i).at i =
      if ctxs = [] then (t.setTags i && i == 0, none, t.ctxMapDepth i)
      else (t.setTags i, if t.setTags i then some i else none, ctxs.length) := by
  unfold mapSwqueueHctx HctxTags.at
  by_cases hc : ctxs = []
  · by_cases hi : i = 0
    · subst hi; simp [hc]
    · cases hs : t.setTags i <;> simp [hc, hi, hs]
  · simp [hc]

/-- The loop over the hardware contexts below `n` runs the body once for each of them. -/
theorem mapSwqueueHctxs_at (m : SwMap) (t : HctxTags) :
    ∀ n i, (mapSwqueueHctxs m t n).at i =
      if i < n then (mapSwqueueHctx (m.ctxs i) t i).at i else t.at i
  | 0, i => by simp [mapSwqueueHctxs]
  | n + 1, i => by
    have ih := mapSwqueueHctxs_at m t n
    simp only [mapSwqueueHctxs]
    rcases Nat.lt_trichotomy i n with hlt | rfl | hgt
    · rw [mapSwqueueHctx_at_of_ne _ _ (Nat.ne_of_lt hlt), ih, if_pos hlt, if_pos (by omega)]
    · have hself := ih i
      rw [if_neg (Nat.lt_irrefl i)] at hself
      simp only [HctxTags.at, Prod.mk.injEq] at hself
      rw [if_pos (Nat.lt_succ_self i), mapSwqueueHctx_at_self, mapSwqueueHctx_at_self, hself.1,
        hself.2.2]
    · rw [mapSwqueueHctx_at_of_ne _ _ (by omega), ih, if_neg (by omega), if_neg (by omega)]

/-! ### `blk_mq_map_swqueue` -/

/-- What `blk_mq_map_swqueue` is to leave, for the CPUs below `nrCpuIds` that are online and the
hardware contexts below `nrHwQueues`. -/
structure MapSwqueueResult.Consistent (r : MapSwqueueResult) (online : ℕ → Bool)
    (nrCpuIds nrHwQueues : ℕ) : Prop where
  /-- Each online CPU's software queue sits in `hctx->ctxs` of its hardware context at
  `ctx->index_hw`, below `nr_ctx`, and the CPU is in `hctx->cpumask`. -/
  mapped : ∀ i < nrCpuIds, online i = true → r.sw.mqMap i < nrHwQueues ∧
    r.sw.indexHw i < (r.sw.ctxs (r.sw.mqMap i)).length ∧
    (r.sw.ctxs (r.sw.mqMap i))[r.sw.indexHw i]? = some i ∧ r.cpumask (r.sw.mqMap i) i = true
  /-- The `hctx->ctxs` arrays together list each online software queue once. -/
  listed_once :
    ((List.range nrHwQueues).flatMap r.sw.ctxs).Perm ((List.range nrCpuIds).filter online)
  /-- A hardware context with software queues has `set->tags[i]`, allocated, and a `ctx_map`
  of `nr_ctx` bits. -/
  tags_of_ctxs : ∀ h < nrHwQueues, r.sw.ctxs h ≠ [] →
    r.hctxs.tags h = some h ∧ r.hctxs.setTags h = true ∧
      r.hctxs.ctxMapDepth h = (r.sw.ctxs h).length
  /-- A hardware context without software queues has no tags. -/
  no_tags : ∀ h < nrHwQueues, r.sw.ctxs h = [] → r.hctxs.tags h = none
  /-- `set->tags[0]` is not freed. -/
  tags_zero : r.hctxs.setTags 0 = true

/-- The software queues listed in the `hctx->ctxs` arrays are listed once each. -/
theorem SwMap.Listed.nodup_flatMap {m : SwMap} (hm : m.Listed) (n : ℕ) :
    ((List.range n).flatMap m.ctxs).Nodup := by
  have hmem {h c : ℕ} (hc : c ∈ m.ctxs h) : m.mqMap c = h := by
    obtain ⟨b, hb⟩ := List.mem_iff_getElem?.mp hc
    exact (hm h b c hb).1
  refine List.nodup_flatMap.mpr ⟨fun h _ => ?_, ?_⟩
  · refine List.nodup_iff_getElem?_ne_getElem?.mpr fun b₁ b₂ hb hb₂ heq => ?_
    have hc := List.getElem?_eq_getElem (Nat.lt_trans hb hb₂)
    have h₁ := (hm h b₁ _ hc).2
    have h₂ := (hm h b₂ _ (heq ▸ hc)).2
    omega
  · exact (List.nodup_range n).imp fun hne c hc₁ hc₂ => hne ((hmem hc₁).symm.trans (hmem hc₂))

/-- For every online mask, every CPU map whose entries for the online CPUs name hardware
contexts of the queue, `set->tags[0]` allocated, and every pattern of allocation failures,
`blk_mq_map_swqueue` leaves the software queues, masks and tags consistent. -/
theorem map_swqueue_consistent (q : SwMap) (tags online alloc : ℕ → Bool) (nrCpuIds nrHwQueues : ℕ)
    (tags₀ : ℕ → Option ℕ) (depth₀ : ℕ → ℕ)
    (hmap : ∀ i < nrCpuIds, online i = true → q.mqMap i < nrHwQueues) (h0 : tags 0 = true) :
    (blkMqMapSwqueueWhole q tags online alloc nrCpuIds nrHwQueues tags₀ depth₀).Consistent
      online nrCpuIds nrHwQueues := by
  obtain ⟨hlisted, hlt, hmapped⟩ := mapSwqueueCpus_listed q tags online alloc nrCpuIds
  obtain ⟨hmono, htagged, honline⟩ := mapSwqueueCpus_tags q tags online alloc h0 nrCpuIds
  set r := mapSwqueueCpus q tags online alloc nrCpuIds with hr
  show MapSwqueueResult.Consistent ⟨r.1, mapSwqueueCpumask q tags online alloc nrCpuIds,
    mapSwqueueHctxs r.1 ⟨r.2, tags₀, depth₀⟩ nrHwQueues⟩ online nrCpuIds nrHwQueues
  have hhw (i : ℕ) (hi : i < nrCpuIds) (hon : online i = true) : r.1.mqMap i < nrHwQueues := by
    rcases mapSwqueueCpus_mqMap q tags online alloc i nrCpuIds with h | h <;> rw [← hr] at h <;>
      rw [h]
    · exact hmap i hi hon
    · exact Nat.lt_of_le_of_lt (Nat.zero_le _) (hmap i hi hon)
  -- What the loop over the hardware contexts leaves for one of them.
  have hhctx (h : ℕ) (hh : h < nrHwQueues) :
      (mapSwqueueHctxs r.1 ⟨r.2, tags₀, depth₀⟩ nrHwQueues).at h =
        if r.1.ctxs h = [] then (r.2 h && h == 0, none, depth₀ h)
        else (r.2 h, if r.2 h then some h else none, (r.1.ctxs h).length) := by
    rw [mapSwqueueHctxs_at, if_pos hh, mapSwqueueHctx_at_self]
  -- A hardware context with a software queue has tags after the CPU loop.
  have hctxTags {h c : ℕ} (hc : c ∈ r.1.ctxs h) : r.2 h = true := by
    obtain ⟨b, hb⟩ := List.mem_iff_getElem?.mp hc
    rw [← (hlisted h b c hb).1]
    exact htagged c (hlt h c hc) (honline h c hc)
  refine ⟨fun i hi hon => ?_, ?_, fun h hh (hne : r.1.ctxs h ≠ []) => ?_,
    fun h hh (hnil : r.1.ctxs h = []) => ?_, ?_⟩
  · obtain ⟨hb, -⟩ := List.getElem?_eq_some_iff.mp (hmapped i hi hon)
    exact ⟨hhw i hi hon, hb, hmapped i hi hon, by simp [mapSwqueueCpumask_eq, hi, hon]⟩
  · refine (List.perm_ext_iff_of_nodup (hlisted.nodup_flatMap nrHwQueues)
      ((List.nodup_range nrCpuIds).filter _)).mpr fun c => ?_
    simp only [List.mem_flatMap, List.mem_range, List.mem_filter]
    constructor
    · rintro ⟨h, -, hc⟩
      exact ⟨hlt h c hc, honline h c hc⟩
    · rintro ⟨hc, hon⟩
      exact ⟨r.1.mqMap c, hhw c hc hon, List.getElem?_mem (hmapped c hc hon)⟩
  · obtain ⟨c, hc⟩ := List.exists_mem_of_ne_nil _ hne
    have hat := hhctx h hh
    simp only [hne, ↓reduceIte, hctxTags hc, HctxTags.at, Prod.mk.injEq] at hat
    exact ⟨hat.2.1, hat.1, hat.2.2⟩
  · have hat := hhctx h hh
    simp only [hnil, ↓reduceIte, HctxTags.at, Prod.mk.injEq] at hat
    exact hat.2.1
  · by_cases hpos : 0 < nrHwQueues
    · have hat := hhctx 0 hpos
      split_ifs at hat <;>
        simp only [HctxTags.at, Prod.mk.injEq, beq_self_eq_true, Bool.and_true, hmono 0 h0] at hat <;>
        exact hat.1
    · rw [Nat.not_lt, Nat.le_zero] at hpos
      subst hpos
      exact hmono 0 h0

/-- Two online CPUs, each mapped to its own of two hardware contexts; only `set->tags[0]`
exists and the allocation for context 1 fails, so CPU 1 falls back to context 0. -/
theorem map_swqueue_consistent_fallback :
    (∀ i < 2, (fun _ => true) i = true → (SwMap.mk id (fun _ => 0) (fun _ => [])).mqMap i < 2) ∧
      (fun h => h == 0) 0 = true ∧
      (blkMqMapSwqueueWhole ⟨id, fun _ => 0, fun _ => []⟩ (fun h => h == 0) (fun _ => true)
        (fun _ => false) 2 2 (fun _ => none) (fun _ => 0)).Consistent (fun _ => true) 2 2 :=
  ⟨by decide, rfl, map_swqueue_consistent _ _ _ _ 2 2 _ _ (by decide) rfl⟩

end BlkMq
