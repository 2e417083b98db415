import BlkMq.Dispatch
import Mathlib.Algebra.BigOperators.Group.Finset

/-!
# The tag invariant

Requests take driver and scheduler tags in `__blk_mq_alloc_request` and
`blk_mq_get_driver_tag`, and give them back in `blk_mq_put_driver_tag`, on requeue, when the
dispatch loop releases the next request's tag, and in `__blk_mq_finish_request`. Whether a
scheduler is attached and whether the tags are shared may differ from call to call. Over
every sequence of these operations the tag maps, `rqs[]` and `nr_active` agree with what the
live requests hold.
-/

namespace BlkMq

/-- The operations on the tags of one hardware context, with the answers of `blk_mq_get_tag`
and `blk_mq_tag_busy` as arguments. -/
inductive TagOp
  /-- `__blk_mq_alloc_request` handing out request object `r` under tag `t`. -/
  | alloc (r t : ℕ) (internal busy : Bool)
  /-- `blk_mq_get_driver_tag` for `r`, with `blk_mq_get_tag` answering `got`. -/
  | getDriverTag (r : ℕ) (got : Option ℕ) (busy : Bool)
  /-- `blk_mq_put_driver_tag`. -/
  | putDriverTag (r : ℕ)
  /-- `blk_mq_put_driver_tag_hctx`. -/
  | putDriverTagHctx (r : ℕ)
  /-- `__blk_mq_requeue_request`. -/
  | requeue (r : ℕ)
  /-- The release, on a busy answer in `blk_mq_dispatch_rq_list`, of the driver tag of `r`,
  the next request, with `rest` behind it. -/
  | releaseNext (r : ℕ) (rest : List ℕ)
  /-- `__blk_mq_finish_request`. -/
  | finish (r : ℕ)

/-- The effect of an operation. -/
def TagOp.apply : TagOp → TagState → TagState
  | .alloc r t internal busy, s => __blkMqAllocRequest s r t internal busy
  | .getDriverTag r got busy, s => (blkMqGetDriverTag s r got busy).1
  | .putDriverTag r, s => blkMqPutDriverTag s r
  | .putDriverTagHctx r, s => blkMqPutDriverTagHctx s r
  | .requeue r, s => __blkMqRequeueRequest s r
  | .releaseNext r rest, s => putNextTag s (r :: rest)
  | .finish r, s => __blkMqFinishRequest s r

/-- The calls the callers make: allocation of a request object not in use under a tag
`blk_mq_get_tag` found free, and every other operation on a live request. -/
def TagOp.Allowed (s : TagState) : TagOp → Prop
  | .alloc r t internal _ =>
    r ∉ s.live ∧ t ∉ (if internal then s.schedTags else s.driverTags).bits
  | .getDriverTag r got _ => r ∈ s.live ∧ ∀ t ∈ got, t ∉ s.driverTags.bits
  | .putDriverTag r | .putDriverTagHctx r | .requeue r | .releaseNext r _ | .finish r =>
    r ∈ s.live

/-- The tag states reachable from `blk_mq_alloc_rqs` by allowed operations. -/
inductive TagReachable : TagState → Prop
  | init : TagReachable TagState.init
  | step {s : TagState} (op : TagOp) : TagReachable s → op.Allowed s → TagReachable (op.apply s)

/-- The live requests counted in `nr_active`. -/
def TagState.inflightCount (s : TagState) : ℕ :=
  (s.live.filter fun r => (s.rq r).inflight = true).card

/-- The tag invariant of a hardware context. -/
structure TagState.Consistent (s : TagState) : Prop where
  /-- The driver tags handed out are exactly those live requests hold. -/
  driver_bits : ∀ t, t ∈ s.driverTags.bits ↔ ∃ r ∈ s.live, (s.rq r).tag = some t
  /-- `rqs[]` names the live holder of each driver tag. -/
  rqs_holder : ∀ r ∈ s.live, ∀ t, (s.rq r).tag = some t → s.rqs t = some r
  /-- The scheduler tags handed out are exactly those live requests hold. -/
  sched_bits : ∀ t, t ∈ s.schedTags.bits ↔ ∃ r ∈ s.live, (s.rq r).internalTag = some t
  /-- No two live requests hold the same scheduler tag. -/
  sched_unique : ∀ r₁ ∈ s.live, ∀ r₂ ∈ s.live, ∀ t,
    (s.rq r₁).internalTag = some t → (s.rq r₂).internalTag = some t → r₁ = r₂
  /-- `nr_active` counts the live requests marked `REQ_MQ_INFLIGHT`. -/
  nr_active : s.nrActive = s.inflightCount
  /-- A request marked `REQ_MQ_INFLIGHT` is live and holds a driver tag. -/
  inflight_holds : ∀ r, (s.rq r).inflight = true → r ∈ s.live ∧ (s.rq r).tag.isSome
  /-- No release found its bit clear. -/
  no_double_release : s.driverTags.doubleReleases = 0 ∧ s.schedTags.doubleReleases = 0

namespace TagState.Consistent

variable {s : TagState}

/-- No two live requests hold the same driver tag: `rqs[]` names one holder. -/
theorem driver_unique (hs : s.Consistent) {r₁ r₂ t : ℕ} (h₁ : r₁ ∈ s.live) (h₂ : r₂ ∈ s.live)
    (ht₁ : (s.rq r₁).tag = some t) (ht₂ : (s.rq r₂).tag = some t) : r₁ = r₂ := by
  have := (hs.rqs_holder r₁ h₁ t ht₁).symm.trans (hs.rqs_holder r₂ h₂ t ht₂)
  exact Option.some.inj this

/-- A request that is not live is not marked `REQ_MQ_INFLIGHT`. -/
theorem not_inflight (hs : s.Consistent) {r : ℕ} (hr : r ∉ s.live) : (s.rq r).inflight = false := by
  by_contra h
  exact hr (hs.inflight_holds r (by simpa using h)).1

/-- A request without a driver tag is not marked `REQ_MQ_INFLIGHT`. -/
theorem not_inflight_of_tag (hs : s.Consistent) {r : ℕ} (ht : (s.rq r).tag = none) :
    (s.rq r).inflight = false := by
  by_contra h
  simpa [ht] using (hs.inflight_holds r (by simpa using h)).2

end TagState.Consistent

/-- Changing the fields of one live request moves `inflightCount` by the change of its
`REQ_MQ_INFLIGHT` mark. -/
theorem TagState.inflightCount_setRq {s : TagState} {r : ℕ} (hr : r ∈ s.live) (x : Request) :
    (s.setRq r x).inflightCount + (if (s.rq r).inflight then 1 else 0) =
      s.inflightCount + (if x.inflight then 1 else 0) := by
  have hrest : ∑ a ∈ s.live.erase r, (if ((s.setRq r x).rq a).inflight = true then 1 else 0) =
      ∑ a ∈ s.live.erase r, (if (s.rq a).inflight = true then 1 else 0) :=
    Finset.sum_congr rfl fun a ha => by rw [TagState.setRq_rq_of_ne _ _ (Finset.ne_of_mem_erase ha)]
  simp only [TagState.inflightCount, Finset.card_filter, TagState.setRq_live]
  rw [← Finset.add_sum_erase _ _ hr, ← Finset.add_sum_erase s.live _ hr, hrest]
  simp only [TagState.setRq_rq_self]
  omega

/-- The state `blk_mq_alloc_rqs` leaves satisfies the invariant. -/
theorem TagState.init_consistent : TagState.init.Consistent where
  driver_bits := by simp [TagState.init]
  rqs_holder := by simp [TagState.init]
  sched_bits := by simp [TagState.init]
  sched_unique := by simp [TagState.init]
  nr_active := by simp [TagState.init, TagState.inflightCount]
  inflight_holds := by simp [TagState.init]
  no_double_release := by simp [TagState.init]

/-- A live request that was not marked `REQ_MQ_INFLIGHT` adds its new mark to the count. -/
theorem TagState.inflightCount_setRq_of_not_inflight {s : TagState} {r : ℕ} (hr : r ∈ s.live)
    (hinfl : (s.rq r).inflight = false) (x : Request) :
    (s.setRq r x).inflightCount = s.inflightCount + (if x.inflight then 1 else 0) := by
  simpa [hinfl] using TagState.inflightCount_setRq hr x

/-- A live request whose mark is dropped leaves the count. -/
theorem TagState.inflightCount_setRq_of_inflight_false {s : TagState} {r : ℕ} (hr : r ∈ s.live)
    {x : Request} (hx : x.inflight = false) :
    (s.setRq r x).inflightCount + (if (s.rq r).inflight then 1 else 0) = s.inflightCount := by
  simpa [hx] using TagState.inflightCount_setRq hr x

/-- Removing a request from the live set removes its `REQ_MQ_INFLIGHT` mark from the count. -/
theorem TagState.inflightCount_erase {s : TagState} {r : ℕ} (hr : r ∈ s.live) (x : Request) :
    ({ s.setRq r x with live := s.live.erase r } : TagState).inflightCount +
      (if (s.rq r).inflight then 1 else 0) = s.inflightCount := by
  have hrest : ∑ a ∈ s.live.erase r, (if ((s.setRq r x).rq a).inflight = true then 1 else 0) =
      ∑ a ∈ s.live.erase r, (if (s.rq a).inflight = true then 1 else 0) :=
    Finset.sum_congr rfl fun a ha => by rw [TagState.setRq_rq_of_ne _ _ (Finset.ne_of_mem_erase ha)]
  simp only [TagState.inflightCount, Finset.card_filter]
  rw [← Finset.add_sum_erase s.live _ hr, hrest]
  omega

/-! ### A tag map and its holders

Driver and scheduler tags are handled alike: a map, and a field of each request naming the tag
it holds of that kind. The lemmas below say once, for either kind, when the map still agrees
with the live holders after an operation, given how the holders changed (`hheld`). -/

section Holders

variable {m : TagMap} {live live' : Finset ℕ} {g g' : ℕ → Option ℕ} {r t : ℕ}

/-- Holders unchanged: the map still agrees. -/
theorem bits_of_held_iff (hbits : ∀ t, t ∈ m.bits ↔ ∃ r ∈ live, g r = some t)
    (hheld : ∀ r' t, (r' ∈ live' ∧ g' r' = some t) ↔ (r' ∈ live ∧ g r' = some t)) :
    ∀ t, t ∈ m.bits ↔ ∃ r ∈ live', g' r = some t :=
  fun t => (hbits t).trans (exists_congr fun r' => (hheld r' t).symm)

/-- No new holder: no tag gets two holders. -/
theorem unique_of_held_imp
    (huniq : ∀ r₁ ∈ live, ∀ r₂ ∈ live, ∀ t, g r₁ = some t → g r₂ = some t → r₁ = r₂)
    (hheld : ∀ r' t, r' ∈ live' → g' r' = some t → r' ∈ live ∧ g r' = some t) :
    ∀ r₁ ∈ live', ∀ r₂ ∈ live', ∀ t, g' r₁ = some t → g' r₂ = some t → r₁ = r₂ :=
  fun r₁ h₁ r₂ h₂ t e₁ e₂ =>
    huniq r₁ (hheld r₁ t h₁ e₁).1 r₂ (hheld r₂ t h₂ e₂).1 t (hheld r₁ t h₁ e₁).2 (hheld r₂ t h₂ e₂).2

/-- `r` taking tag `t`: the map with the bit of `t` set agrees with the new holders. -/
theorem bits_take (hbits : ∀ t, t ∈ m.bits ↔ ∃ r ∈ live, g r = some t)
    (hheld : ∀ r' t', (r' ∈ live' ∧ g' r' = some t') ↔ (r' = r ∧ t' = t) ∨ (r' ∈ live ∧ g r' = some t')) :
    ∀ t', t' ∈ (m.take t).bits ↔ ∃ r' ∈ live', g' r' = some t' := by
  intro t'
  simp only [TagMap.take_bits, Finset.mem_insert, hbits, hheld, exists_or, exists_eq_left]

/-- `r` taking the free tag `t`: still no tag has two holders. -/
theorem unique_take (hfree : ∀ r' ∈ live, g r' ≠ some t)
    (huniq : ∀ r₁ ∈ live, ∀ r₂ ∈ live, ∀ t, g r₁ = some t → g r₂ = some t → r₁ = r₂)
    (hheld : ∀ r' t', (r' ∈ live' ∧ g' r' = some t') ↔ (r' = r ∧ t' = t) ∨ (r' ∈ live ∧ g r' = some t')) :
    ∀ r₁ ∈ live', ∀ r₂ ∈ live', ∀ t', g' r₁ = some t' → g' r₂ = some t' → r₁ = r₂ := by
  intro r₁ h₁ r₂ h₂ t' e₁ e₂
  rcases (hheld r₁ t').1 ⟨h₁, e₁⟩ with ⟨rfl, ht₁⟩ | ⟨h₁, e₁⟩ <;>
    rcases (hheld r₂ t').1 ⟨h₂, e₂⟩ with ⟨rfl, ht₂⟩ | ⟨h₂, e₂⟩
  · rfl
  · exact (hfree r₂ h₂ (ht₁ ▸ e₂)).elim
  · exact (hfree r₁ h₁ (ht₂ ▸ e₁)).elim
  · exact huniq r₁ h₁ r₂ h₂ t' e₁ e₂

/-- `r` giving back the tag it holds, if any: the map with that bit cleared agrees with the new
holders. -/
theorem bits_put (hbits : ∀ t, t ∈ m.bits ↔ ∃ r ∈ live, g r = some t) (hr : r ∈ live)
    (huniq : ∀ r₁ ∈ live, ∀ r₂ ∈ live, ∀ t, g r₁ = some t → g r₂ = some t → r₁ = r₂)
    (hheld : ∀ r' t, (r' ∈ live' ∧ g' r' = some t) ↔ (r' ∈ live ∧ r' ≠ r ∧ g r' = some t)) :
    ∀ t, t ∈ (((g r).map (blkMqPutTag m)).getD m).bits ↔ ∃ r' ∈ live', g' r' = some t := by
  intro t
  simp only [hheld]
  cases hg : g r with
  | none =>
    simp only [Option.map_none', Option.getD_none, hbits]
    refine exists_congr fun r' => ⟨fun ⟨h', e⟩ => ⟨h', ?_, e⟩, fun ⟨h', _, e⟩ => ⟨h', e⟩⟩
    rintro rfl
    exact absurd (e.symm.trans hg) (Option.some_ne_none t)
  | some t₀ =>
    simp only [Option.map_some', Option.getD_some, blkMqPutTag_bits, Finset.mem_erase, hbits]
    constructor
    · rintro ⟨hne, r', h', e⟩
      exact ⟨r', h', by rintro rfl; exact hne (Option.some.inj (e.symm.trans hg)), e⟩
    · rintro ⟨r', h', hne, e⟩
      exact ⟨by rintro rfl; exact hne (huniq r' h' r hr t e hg), r', h', e⟩

/-- Giving back a tag that is held finds its bit set. -/
theorem doubleReleases_put (hbits : ∀ t, t ∈ m.bits ↔ ∃ r ∈ live, g r = some t) (hr : r ∈ live) :
    (((g r).map (blkMqPutTag m)).getD m).doubleReleases = m.doubleReleases := by
  cases hg : g r with
  | none => rfl
  | some t => exact blkMqPutTag_doubleReleases_of_mem ((hbits t).2 ⟨r, hr, hg⟩)

end Holders

namespace TagState.Consistent

variable {s : TagState}

/-- The first half of `__blk_mq_alloc_request`: a request object not in use becomes live,
holding no tag yet. -/
theorem makeLive (hs : s.Consistent) {r : ℕ} (hr : r ∉ s.live) :
    (({ s with live := insert r s.live } : TagState).setRq r
      { s.rq r with tag := none, internalTag := none }).Consistent := by
  have hinfl := hs.not_inflight hr
  have hheld : ∀ f : Request → Option ℕ, f { s.rq r with tag := none, internalTag := none } = none →
      ∀ r' t, (r' ∈ insert r s.live ∧ f ((({ s with live := insert r s.live } : TagState).setRq r
        { s.rq r with tag := none, internalTag := none }).rq r') = some t) ↔
        (r' ∈ s.live ∧ f (s.rq r') = some t) := by
    intro f hf r' t
    by_cases h : r' = r
    · subst h; simp [hf, hr]
    · simp [h]
  constructor
  · exact bits_of_held_iff hs.driver_bits (hheld Request.tag rfl)
  · intro r' hr' t ht
    obtain ⟨hl, ht'⟩ := (hheld Request.tag rfl r' t).1 ⟨hr', ht⟩
    exact hs.rqs_holder r' hl t ht'
  · exact bits_of_held_iff hs.sched_bits (hheld Request.internalTag rfl)
  · exact unique_of_held_imp hs.sched_unique fun r' t h e =>
      (hheld Request.internalTag rfl r' t).1 ⟨h, e⟩
  · have h := TagState.inflightCount_setRq (s := { s with live := insert r s.live })
      (Finset.mem_insert_self r s.live) { s.rq r with tag := none, internalTag := none }
    have hcount : ({ s with live := insert r s.live } : TagState).inflightCount = s.inflightCount := by
      simp [TagState.inflightCount, Finset.filter_insert, hinfl]
    rw [hcount] at h
    refine hs.nr_active.trans ?_
    simp only [hinfl, Bool.false_eq_true, if_false] at h ⊢
    omega
  · intro r' hinf
    by_cases h' : r' = r
    · subst h'
      simp [hinfl] at hinf
    · rw [TagState.setRq_rq_of_ne _ _ h'] at hinf ⊢
      obtain ⟨hl, ht⟩ := hs.inflight_holds r' hinf
      exact ⟨Finset.mem_insert_of_mem hl, ht⟩
  · exact hs.no_double_release

/-- A live request without a driver tag taking the free driver tag `t`: the common step of
`__blk_mq_alloc_request` without a scheduler and of `blk_mq_get_driver_tag`. -/
theorem takeDriverTag (hs : s.Consistent) {r t : ℕ} (busy : Bool) (hr : r ∈ s.live)
    (htag : (s.rq r).tag = none) (ht : t ∉ s.driverTags.bits) :
    (s.takeDriverTag r t busy).Consistent := by
  have hfree : ∀ r' ∈ s.live, (s.rq r').tag ≠ some t :=
    fun r' h' h => ht ((hs.driver_bits t).2 ⟨r', h', h⟩)
  have hinfl := hs.not_inflight_of_tag htag
  have hheld : ∀ r' t', (r' ∈ s.live ∧ ((s.takeDriverTag r t busy).rq r').tag = some t') ↔
      (r' = r ∧ t' = t) ∨ (r' ∈ s.live ∧ (s.rq r').tag = some t') := by
    intro r' t'
    by_cases h : r' = r
    · subst h; simp [hr, htag, eq_comm]
    · simp [h]
  constructor
  · exact bits_take hs.driver_bits hheld
  · intro r' hr' t' ht'
    simp only [TagState.takeDriverTag_rqs]
    rcases (hheld r' t').1 ⟨hr', ht'⟩ with ⟨rfl, rfl⟩ | ⟨-, hold⟩
    · simp
    · have htt : t' ≠ t := by rintro rfl; exact hfree r' hr' hold
      rw [Function.update_noteq htt]
      exact hs.rqs_holder r' hr' t' hold
  · intro t'
    simpa only [TagState.takeDriverTag_schedTags, TagState.takeDriverTag_live,
      TagState.takeDriverTag_internalTag] using hs.sched_bits t'
  · simpa only [TagState.takeDriverTag_live, TagState.takeDriverTag_internalTag]
      using hs.sched_unique
  · rw [TagState.takeDriverTag_nrActive, hs.nr_active]
    show _ = ((s.setRq r _).inflightCount : ℤ)
    rw [TagState.inflightCount_setRq_of_not_inflight hr hinfl]
    cases busy <;> simp [hinfl]
  · intro r' hinf
    by_cases hne : r' = r
    · subst hne
      exact ⟨hr, by simp⟩
    · rw [TagState.takeDriverTag_rq_of_ne _ _ _ hne] at hinf ⊢
      exact hs.inflight_holds r' hinf
  · simpa using hs.no_double_release

/-- `__blk_mq_put_driver_tag` on a live request. -/
theorem putDriverTag (hs : s.Consistent) {r : ℕ} (hr : r ∈ s.live) :
    (__blkMqPutDriverTag s r).Consistent := by
  have hheld : ∀ r' t, (r' ∈ s.live ∧ ((__blkMqPutDriverTag s r).rq r').tag = some t) ↔
      (r' ∈ s.live ∧ r' ≠ r ∧ (s.rq r').tag = some t) := by
    intro r' t
    by_cases h : r' = r
    · subst h; simp
    · simp [h]
  constructor
  · exact bits_put hs.driver_bits hr (fun _ h₁ _ h₂ _ => hs.driver_unique h₁ h₂) hheld
  · intro r' hr' t' ht'
    obtain ⟨-, hne, ht'⟩ := (hheld r' t').1 ⟨hr', ht'⟩
    exact hs.rqs_holder r' hr' t' ht'
  · intro t'
    simpa only [__blkMqPutDriverTag_internalTag] using hs.sched_bits t'
  · simpa only [__blkMqPutDriverTag_internalTag] using hs.sched_unique
  · have h := TagState.inflightCount_setRq_of_inflight_false hr
      (x := { s.rq r with tag := none, inflight := false }) rfl
    show s.nrActive - _ = ((s.setRq r _).inflightCount : ℤ)
    rw [hs.nr_active]
    cases hi : (s.rq r).inflight <;> simp only [hi, Bool.false_eq_true, ↓reduceIte] at h ⊢ <;>
      omega
  · intro r' hinf
    by_cases hr'r : r' = r
    · subst hr'r
      simp at hinf
    · rw [__blkMqPutDriverTag_rq_of_ne _ hr'r] at hinf ⊢
      exact hs.inflight_holds r' hinf
  · exact ⟨(doubleReleases_put hs.driver_bits hr).trans hs.no_double_release.1,
      hs.no_double_release.2⟩

/-- A live request without a scheduler tag taking the free scheduler tag `t`. -/
theorem takeSchedTag (hs : s.Consistent) {r t : ℕ} (hr : r ∈ s.live)
    (hint : (s.rq r).internalTag = none) (ht : t ∉ s.schedTags.bits) :
    (s.takeSchedTag r t).Consistent := by
  have hheld : ∀ r' t', (r' ∈ s.live ∧ ((s.takeSchedTag r t).rq r').internalTag = some t') ↔
      (r' = r ∧ t' = t) ∨ (r' ∈ s.live ∧ (s.rq r').internalTag = some t') := by
    intro r' t'
    by_cases h : r' = r
    · subst h; simp [TagState.takeSchedTag, hr, hint, eq_comm]
    · simp [TagState.takeSchedTag, h]
  constructor
  · intro t'
    simpa only [TagState.takeSchedTag_tag] using hs.driver_bits t'
  · simpa only [TagState.takeSchedTag_tag] using hs.rqs_holder
  · exact bits_take hs.sched_bits hheld
  · exact unique_take (fun r' h' h => ht ((hs.sched_bits t).2 ⟨r', h', h⟩)) hs.sched_unique hheld
  · have h := TagState.inflightCount_setRq hr { s.rq r with internalTag := some t }
    show s.nrActive = ((s.setRq r _).inflightCount : ℤ)
    rw [hs.nr_active]
    simp only at h ⊢
    omega
  · simpa only [TagState.takeSchedTag_inflight, TagState.takeSchedTag_tag]
      using hs.inflight_holds
  · simpa [TagState.takeSchedTag] using hs.no_double_release

/-- `__blk_mq_finish_request` on a live request. -/
theorem finish (hs : s.Consistent) {r : ℕ} (hr : r ∈ s.live) :
    (__blkMqFinishRequest s r).Consistent := by
  have hrq : ∀ r', r' ≠ r → (__blkMqFinishRequest s r).rq r' = s.rq r' :=
    fun r' h => TagState.setRq_rq_of_ne _ _ h
  have hheld : ∀ (f : Request → Option ℕ) r' t,
      (r' ∈ s.live.erase r ∧ f ((__blkMqFinishRequest s r).rq r') = some t) ↔
        (r' ∈ s.live ∧ r' ≠ r ∧ f (s.rq r') = some t) := by
    intro f r' t
    by_cases h : r' = r
    · simp [h]
    · simp [h, hrq r' h]
  constructor
  · exact bits_put hs.driver_bits hr (fun _ h₁ _ h₂ _ => hs.driver_unique h₁ h₂) (hheld Request.tag)
  · intro r' hr' t' ht'
    obtain ⟨hl, -, ht'⟩ := (hheld Request.tag r' t').1 ⟨hr', ht'⟩
    exact hs.rqs_holder r' hl t' ht'
  · exact bits_put hs.sched_bits hr hs.sched_unique (hheld Request.internalTag)
  · exact unique_of_held_imp hs.sched_unique fun r' t h e =>
      have held := (hheld Request.internalTag r' t).1 ⟨h, e⟩
      ⟨held.1, held.2.2⟩
  · have h := TagState.inflightCount_erase hr { s.rq r with inflight := false }
    show s.nrActive - _ = ((({ s.setRq r _ with live := s.live.erase r }) : TagState).inflightCount : ℤ)
    rw [hs.nr_active]
    cases hi : (s.rq r).inflight <;> simp only [hi, Bool.false_eq_true, ↓reduceIte] at h ⊢ <;>
      omega
  · intro r' hinf
    by_cases hne : r' = r
    · subst hne
      simp [__blkMqFinishRequest] at hinf
    · rw [hrq r' hne] at hinf ⊢
      obtain ⟨hl, ht⟩ := hs.inflight_holds r' hinf
      exact ⟨Finset.mem_erase.mpr ⟨hne, hl⟩, ht⟩
  · exact ⟨(doubleReleases_put hs.driver_bits hr).trans hs.no_double_release.1,
      (doubleReleases_put hs.sched_bits hr).trans hs.no_double_release.2⟩

/-- `__blk_mq_alloc_request` of a request object not in use under a free tag. -/
theorem alloc (hs : s.Consistent) {r t : ℕ} {internal : Bool} (busy : Bool) (hr : r ∉ s.live)
    (ht : t ∉ (if internal then s.schedTags else s.driverTags).bits) :
    (__blkMqAllocRequest s r t internal busy).Consistent := by
  have h₁ := hs.makeLive hr
  unfold __blkMqAllocRequest
  dsimp only
  cases internal with
  | true => exact h₁.takeSchedTag (by simp) (by simp) (by simpa using ht)
  | false => exact h₁.takeDriverTag busy (by simp) (by simp) (by simpa using ht)

/-- `blk_mq_put_driver_tag` on a live request. -/
theorem blkMqPutDriverTag (hs : s.Consistent) {r : ℕ} (hr : r ∈ s.live) :
    (BlkMq.blkMqPutDriverTag s r).Consistent := by
  unfold BlkMq.blkMqPutDriverTag
  split_ifs
  exacts [hs.putDriverTag hr, hs]

end TagState.Consistent

/-- Every allowed operation keeps the tag invariant. -/
theorem TagOp.apply_consistent {s : TagState} (hs : s.Consistent) :
    ∀ {op : TagOp}, op.Allowed s → (op.apply s).Consistent
  | .alloc _ _ _ busy, ⟨hr, ht⟩ => hs.alloc busy hr ht
  | .getDriverTag r got busy, ⟨hr, ht⟩ => by
    simp only [TagOp.apply, blkMqGetDriverTag]
    cases htag : (s.rq r).tag with
    | some _ => exact hs
    | none =>
      cases got with
      | none => exact hs
      | some t => exact hs.takeDriverTag busy hr htag (ht t rfl)
  | .putDriverTag _, hr => hs.blkMqPutDriverTag hr
  | .putDriverTagHctx _, hr => hs.blkMqPutDriverTag hr
  | .requeue _, hr => hs.blkMqPutDriverTag hr
  | .releaseNext _ _, hr => hs.blkMqPutDriverTag hr
  | .finish _, hr => hs.finish hr

/-- The tag invariant in every reachable state, for every sequence of allocations (with or
without `BLK_MQ_REQ_INTERNAL`, shared tags or not), driver-tag acquisitions, releases through
`blk_mq_put_driver_tag` and `blk_mq_put_driver_tag_hctx`, requeues, next-request releases of
the dispatch loop and finishes: the driver tags handed out are exactly those the live
requests hold, held by one request each, with `rqs[]` naming the holder; the scheduler tags
likewise; `nr_active` counts the live requests marked `REQ_MQ_INFLIGHT`, each of which holds
a driver tag; and no release finds its bit already clear. -/
theorem TagReachable.consistent {s : TagState} (h : TagReachable s) : s.Consistent := by
  induction h with
  | init => exact TagState.init_consistent
  | step op _ hop ih => exact TagOp.apply_consistent ih hop

/-- One allocation without a scheduler on shared tags reaches a consistent state. -/
theorem TagReachable.consistent_alloc :
    TagReachable ((TagOp.alloc 3 0 false true).apply TagState.init) ∧
      ((TagOp.alloc 3 0 false true).apply TagState.init).Consistent :=
  have h : TagReachable ((TagOp.alloc 3 0 false true).apply TagState.init) :=
    .step _ .init (by simp [TagOp.Allowed, TagState.init])
  ⟨h, TagReachable.consistent h⟩

end BlkMq
