import Mathlib.Data.List.Basic
import Mathlib.Data.Nat.Defs

/-!
# Carving requests out of page blocks

`blk_mq_alloc_rqs` allocates the `depth` requests of a tag map, each `rq_size` bytes (the request,
the driver's payload `set->cmd_size` and `struct request_aux`, rounded up to a cache line), out of
page blocks of `PAGE_SIZE << order` bytes. Each iteration of its outer loop picks an order of at
most 4 that the bytes still wanted need, allocates a block (falling back to lower orders while a
request still fits), cuts `min(entries_per_page, depth - i)` requests out of it, and records the
block on `tags->page_list`. `BlkMq.blkMqAllocRqs` of the request-map model stands for this
function by its outcome alone.

While requests are carved, each lies inside its block and apart from every other one, and
`left == rq_size * (depth - i)` holds from one iteration to the next. Progress is another matter:
the order-4 block is allocated without checking that one request fits in it. When
`rq_size > PAGE_SIZE << 4`, which no check on `set->cmd_size` rules out, every iteration that
gets its block carves no request, and the loop goes on allocating blocks for as long as the
allocator gives them. When a request fits in an order-4 block, every iteration that does not fail
carves at least one, and `depth` iterations end the run.
-/

namespace BlkMq.AllocRqs

/-- `order_to_size(order)`, `PAGE_SIZE << order`. -/
def orderToSize (pageSize order : ℕ) : ℕ := pageSize <<< order

/-- `round_up(x, y)`, for the power of two `y` it is used with. -/
def roundUp (x y : ℕ) : ℕ := (x + y - 1) / y * y

/-- What `blk_mq_alloc_rqs` works with: `PAGE_SIZE`, `cache_line_size()`, the sizes of
`struct request` and `struct request_aux` (not among the sources), `set->cmd_size`, `depth`,
whether the `k`-th call of `alloc_pages_node` returns a block, and whether `->init_request`
(absent, or returning 0) accepts the request carved as `static_rqs[i]`. -/
structure RqsParams where
  pageSize : ℕ
  cacheLineSize : ℕ
  requestSize : ℕ
  cmdSize : ℕ
  auxSize : ℕ
  depth : ℕ
  alloc : ℕ → Bool
  initRequest : ℕ → Bool

/-- `rq_size`: `sizeof(struct request) + set->cmd_size + sizeof(struct request_aux)`, rounded up
to the cache line. -/
def RqsParams.rqSize (p : RqsParams) : ℕ :=
  roundUp (p.requestSize + p.cmdSize + p.auxSize) p.cacheLineSize

/-- The locals and the tag map of `blk_mq_alloc_rqs`. -/
structure RqsState where
  /-- `i`, the requests carved so far. -/
  i : ℕ
  /-- `left`, the bytes still wanted. -/
  left : ℕ
  /-- `tags->page_list`: `page->private`, the order, of each block. -/
  pages : List ℕ
  /-- `tags->static_rqs[0 .. i)`: the block on `tags->page_list` and the offset in it. -/
  staticRqs : List (ℕ × ℕ)
  /-- The calls of `alloc_pages_node` made so far. -/
  allocs : ℕ
  deriving DecidableEq, Repr

/-- `while (this_order && left < order_to_size(this_order - 1)) this_order--;` -/
def shrinkOrder (pageSize left : ℕ) : ℕ → ℕ
  | 0 => 0
  | o + 1 => if left < orderToSize pageSize o then shrinkOrder pageSize left o else o + 1

/-- The `do ... while (1)` around `alloc_pages_node`, at call `k` and order `order`: the order of
the block it got, or `none`, and the calls made. After a failure it retries one order lower, as
long as there is one and a request fits in it. -/
def allocPageBlock (pageSize rqSize : ℕ) (alloc : ℕ → Bool) : ℕ → ℕ → Option ℕ × ℕ
  | k, 0 => if alloc k then (some 0, k + 1) else (none, k + 1)
  | k, o + 1 =>
    if alloc k then (some (o + 1), k + 1)
    else if orderToSize pageSize o < rqSize then (none, k + 1)
    else allocPageBlock pageSize rqSize alloc (k + 1) o

/-- The inner loop, `to_do` requests from offset `off` of block `blk`: `static_rqs[i]` at each
slot, then `->init_request`; `none` for `goto fail`. -/
def carveRqs (rqSize : ℕ) (initRequest : ℕ → Bool) (blk : ℕ) : ℕ → ℕ → RqsState → Option RqsState
  | 0, _, s => some s
  | toDo + 1, off, s =>
    if initRequest s.i then
      carveRqs rqSize initRequest blk toDo (off + rqSize)
        { s with staticRqs := s.staticRqs ++ [(blk, off)], i := s.i + 1 }
    else none

/-- `to_do`: `min(entries_per_page, depth - i)` for a block of order `order`. -/
def toDo (p : RqsParams) (i order : ℕ) : ℕ :=
  min (orderToSize p.pageSize order / p.rqSize) (p.depth - i)

/-- One iteration of the outer loop of `blk_mq_alloc_rqs`: the state after it, or `none` for
`goto fail`. -/
def allocRqsIteration (p : RqsParams) (s : RqsState) : Option RqsState :=
  match allocPageBlock p.pageSize p.rqSize p.alloc s.allocs (shrinkOrder p.pageSize s.left 4) with
  | (none, _) => none
  | (some order, k) =>
    carveRqs p.rqSize p.initRequest s.pages.length (toDo p s.i order) 0
      { s with pages := s.pages ++ [order], allocs := k,
               left := s.left - toDo p s.i order * p.rqSize }

/-- How a run of `blk_mq_alloc_rqs` stands after a number of iterations of its outer loop. -/
inductive RqsOutcome
  /-- It returned 0. -/
  | done (s : RqsState)
  /-- It returned `-ENOMEM`, after `blk_mq_free_rqs` released the blocks and the requests. -/
  | failed (s : RqsState)
  /-- It is still in the loop. -/
  | running (s : RqsState)
  deriving DecidableEq, Repr

/-- The outer loop, for at most `fuel` iterations. -/
def allocRqsLoop (p : RqsParams) : ℕ → RqsState → RqsOutcome
  | 0, s => if s.i < p.depth then .running s else .done s
  | fuel + 1, s =>
    if s.i < p.depth then
      match allocRqsIteration p s with
      | none => .failed { s with pages := [], staticRqs := [] }
      | some s => allocRqsLoop p fuel s
    else .done s

/-- `blk_mq_alloc_rqs(set, tags, hctx_idx, depth)`, for at most `fuel` iterations of its loop. -/
def blkMqAllocRqs (p : RqsParams) (fuel : ℕ) : RqsOutcome :=
  allocRqsLoop p fuel ⟨0, p.rqSize * p.depth, [], [], 0⟩

/-- The inner loop carves `to_do` consecutive slots of block `blk` from `off`, or fails. -/
theorem carveRqs_eq_some {rqSize : ℕ} {initRequest : ℕ → Bool} {blk : ℕ} :
    ∀ {n off : ℕ} {s s' : RqsState}, carveRqs rqSize initRequest blk n off s = some s' →
      s' = { s with staticRqs := s.staticRqs ++ (List.range n).map fun j => (blk, off + j * rqSize),
                    i := s.i + n }
  | 0, off, s, s', h => by
    cases h
    simp
  | n + 1, off, s, s', h => by
    simp only [carveRqs] at h
    split_ifs at h
    rw [carveRqs_eq_some h, List.range_succ_eq_map]
    simp only [List.map_cons, List.map_map, List.append_assoc, List.singleton_append,
      RqsState.mk.injEq, true_and, and_true, Nat.zero_mul, Nat.add_zero,
      List.append_cancel_left_eq, List.cons.injEq]
    refine ⟨by omega, List.map_congr_left fun j _ => ?_⟩
    simp only [Function.comp, Nat.succ_mul, Prod.mk.injEq, true_and]
    omega

/-! ### The layout of the requests -/

section Layout

variable (p : RqsParams)

/-- Slot `(blk, off)` lies inside block `blk` of `tags->page_list`. -/
def SlotInside (pages : List ℕ) (slot : ℕ × ℕ) : Prop :=
  ∃ order, pages[slot.1]? = some order ∧ slot.2 + p.rqSize ≤ orderToSize p.pageSize order

/-- Two `rq_size`-byte slots do not overlap: they lie in different blocks, or apart in one. -/
def SlotsApart (rqSize : ℕ) (a b : ℕ × ℕ) : Prop :=
  a.1 ≠ b.1 ∨ a.2 + rqSize ≤ b.2 ∨ b.2 + rqSize ≤ a.2

/-- What holds of `blk_mq_alloc_rqs` between two iterations of its outer loop. -/
structure RqsLayout (s : RqsState) : Prop where
  left_eq : s.left = p.rqSize * (p.depth - s.i)
  i_le : s.i ≤ p.depth
  length_eq : s.staticRqs.length = s.i
  inside : ∀ slot ∈ s.staticRqs, SlotInside p s.pages slot
  apart : s.staticRqs.Pairwise (SlotsApart p.rqSize)

theorem rqsLayout_init : RqsLayout p ⟨0, p.rqSize * p.depth, [], [], 0⟩ :=
  ⟨by simp, Nat.zero_le _, rfl, by simp, List.Pairwise.nil⟩

theorem SlotInside.lt_length {pages : List ℕ} {slot : ℕ × ℕ} (h : SlotInside p pages slot) :
    slot.1 < pages.length := by
  obtain ⟨_, ho, _⟩ := h
  exact (List.getElem?_eq_some_iff.1 ho).1

/-- `left -= to_do * rq_size` does not go below zero. -/
theorem toDo_mul_le_left {s : RqsState} (hs : RqsLayout p s) (order : ℕ) :
    toDo p s.i order * p.rqSize ≤ s.left := by
  rw [hs.left_eq, Nat.mul_comm]
  exact Nat.mul_le_mul_left _ (Nat.min_le_right _ _)

/-- The slots of one iteration lie in its new block, which has room for all of them. -/
theorem slotInside_carved {pages : List ℕ} {i order j : ℕ} (hj : j < toDo p i order) :
    SlotInside p (pages ++ [order]) (pages.length, 0 + j * p.rqSize) := by
  refine ⟨order, by simp, ?_⟩
  have hfit : toDo p i order * p.rqSize ≤ orderToSize p.pageSize order :=
    (Nat.mul_le_mul_right _ (Nat.min_le_left _ _)).trans (Nat.div_mul_le_self _ _)
  have hj' := Nat.mul_le_mul_right p.rqSize (Nat.succ_le_of_lt hj)
  rw [Nat.succ_mul] at hj'
  omega

/-- Step lemma: an iteration that does not fail keeps the layout. -/
theorem allocRqsIteration_layout {s s' : RqsState} (hs : RqsLayout p s)
    (h : allocRqsIteration p s = some s') : RqsLayout p s' := by
  unfold allocRqsIteration at h
  rcases hb : allocPageBlock p.pageSize p.rqSize p.alloc s.allocs
    (shrinkOrder p.pageSize s.left 4) with ⟨_ | order, k⟩ <;> rw [hb] at h
  · cases h
  have hle : toDo p s.i order ≤ p.depth - s.i := Nat.min_le_right _ _
  rw [carveRqs_eq_some h]
  constructor
  case left_eq =>
    dsimp only
    rw [hs.left_eq, Nat.sub_add_eq, Nat.mul_sub _ (p.depth - s.i), Nat.mul_comm (toDo p s.i order)]
  case i_le => have := hs.i_le; dsimp only; omega
  case length_eq => simp [hs.length_eq]
  case inside =>
    intro slot hslot
    rcases List.mem_append.1 hslot with hold | hnew
    · obtain ⟨o, ho, hfit⟩ := hs.inside slot hold
      exact ⟨o, by rw [List.getElem?_append_left ((hs.inside slot hold).lt_length p)]; exact ho, hfit⟩
    · obtain ⟨j, hj, rfl⟩ := List.mem_map.1 hnew
      exact slotInside_carved p (List.mem_range.1 hj)
  case apart =>
    refine List.pairwise_append.2 ⟨hs.apart, List.pairwise_map.2 ?_, ?_⟩
    · refine (List.pairwise_lt_range _).imp fun {j k} hjk => Or.inr (Or.inl ?_)
      have := Nat.mul_le_mul_right p.rqSize (Nat.succ_le_of_lt hjk)
      rw [Nat.succ_mul] at this
      dsimp only
      omega
    · intro a ha b hb
      obtain ⟨j, _, rfl⟩ := List.mem_map.1 hb
      exact Or.inl (Nat.ne_of_lt ((hs.inside a ha).lt_length p))

/-- Run lemma: a run that returns 0 has carved all `depth` requests, in the layout. -/
theorem allocRqsLoop_done : ∀ (fuel : ℕ) {s s' : RqsState}, RqsLayout p s →
    allocRqsLoop p fuel s = .done s' → RqsLayout p s' ∧ s'.i = p.depth
  | 0, s, s', hs, h => by
    unfold allocRqsLoop at h
    split_ifs at h with hi
    cases h
    exact ⟨hs, by have := hs.i_le; omega⟩
  | fuel + 1, s, s', hs, h => by
    unfold allocRqsLoop at h
    split_ifs at h with hi
    · rcases hit : allocRqsIteration p s with _ | s₁ <;> rw [hit] at h
      · cases h
      · exact allocRqsLoop_done fuel (allocRqsIteration_layout p hs hit) h
    · cases h
      exact ⟨hs, by have := hs.i_le; omega⟩

theorem alloc_rqs_layout :
    (∀ s s', RqsLayout p s → allocRqsIteration p s = some s' → RqsLayout p s') ∧
    (∀ s, RqsLayout p s → ∀ order, toDo p s.i order * p.rqSize ≤ s.left) ∧
    ∀ fuel s, blkMqAllocRqs p fuel = .done s →
      s.i = p.depth ∧ s.staticRqs.length = p.depth ∧
      (∀ slot ∈ s.staticRqs, SlotInside p s.pages slot) ∧
      s.staticRqs.Pairwise (SlotsApart p.rqSize) := by
  refine ⟨fun _ _ hs h => allocRqsIteration_layout p hs h, fun _ hs => toDo_mul_le_left p hs,
    fun fuel s h => ?_⟩
  obtain ⟨hs, hi⟩ := allocRqsLoop_done p fuel (rqsLayout_init p) h
  exact ⟨hi, hs.length_eq.trans hi, hs.inside, hs.apart⟩

/-! ### Progress -/

theorem orderToSize_le_succ (pageSize o : ℕ) :
    orderToSize pageSize o ≤ orderToSize pageSize (o + 1) := by
  rw [orderToSize, orderToSize, Nat.shiftLeft_eq, Nat.shiftLeft_eq, Nat.pow_succ, ← Nat.mul_assoc]
  omega

/-- The order picked is the largest one, or one in which the bytes still wanted fit. -/
theorem shrinkOrder_eq_or_lt (pageSize left : ℕ) : ∀ o,
    shrinkOrder pageSize left o = o ∨ left < orderToSize pageSize (shrinkOrder pageSize left o)
  | 0 => Or.inl rfl
  | o + 1 => by
    rw [shrinkOrder]
    split_ifs with h
    · refine (shrinkOrder_eq_or_lt pageSize left o).elim (fun h' => Or.inr ?_) Or.inr
      rwa [h']
    · exact Or.inl rfl

/-- A block got after a fallback has room for one request. -/
theorem allocPageBlock_fits {pageSize rqSize : ℕ} {alloc : ℕ → Bool} : ∀ {k o o' k' : ℕ},
    allocPageBlock pageSize rqSize alloc k o = (some o', k') →
      o' = o ∨ rqSize ≤ orderToSize pageSize o'
  | k, 0, o', k', h => by
    unfold allocPageBlock at h
    split_ifs at h <;> cases h
    exact Or.inl rfl
  | k, o + 1, o', k', h => by
    unfold allocPageBlock at h
    split_ifs at h with h₁ h₂
    · cases h
      exact Or.inl rfl
    · cases h
    · rcases allocPageBlock_fits h with rfl | h'
      · exact Or.inr (Nat.le_of_not_lt h₂)
      · exact Or.inr h'

/-- When a request fits in an order-4 block, an iteration that does not fail carves at least
one request. -/
theorem allocRqsIteration_progress {s s' : RqsState} (hs : RqsLayout p s) (hi : s.i < p.depth)
    (hr : 0 < p.rqSize) (hfit : p.rqSize ≤ orderToSize p.pageSize 4)
    (h : allocRqsIteration p s = some s') : s.i < s'.i := by
  unfold allocRqsIteration at h
  rcases hb : allocPageBlock p.pageSize p.rqSize p.alloc s.allocs
    (shrinkOrder p.pageSize s.left 4) with ⟨_ | order, k⟩ <;> rw [hb] at h
  · cases h
  have hleft : p.rqSize ≤ s.left := by
    rw [hs.left_eq]
    exact Nat.le_mul_of_pos_right _ (by omega)
  have hsize : p.rqSize ≤ orderToSize p.pageSize order := by
    rcases allocPageBlock_fits hb with rfl | h'
    · rcases shrinkOrder_eq_or_lt p.pageSize s.left 4 with h4 | h4
      · rwa [h4]
      · omega
    · exact h'
  have hto : 0 < toDo p s.i order := Nat.lt_min.2 ⟨Nat.div_pos hsize hr, by omega⟩
  rw [carveRqs_eq_some h]
  dsimp only
  omega

/-- When a request fits in an order-4 block, `depth - i` iterations end the run: it returns 0
or `-ENOMEM`. -/
theorem allocRqsLoop_ends (hr : 0 < p.rqSize) (hfit : p.rqSize ≤ orderToSize p.pageSize 4) :
    ∀ (fuel : ℕ) {s : RqsState}, RqsLayout p s → p.depth - s.i ≤ fuel →
      ∀ s', allocRqsLoop p fuel s ≠ .running s'
  | 0, s, hs, hf, s' => by
    rw [allocRqsLoop, if_neg (by omega)]
    exact RqsOutcome.noConfusion
  | fuel + 1, s, hs, hf, s' => by
    unfold allocRqsLoop
    split_ifs with hi
    · rcases hit : allocRqsIteration p s with _ | s₁
      · exact RqsOutcome.noConfusion
      · have := allocRqsIteration_progress p hs hi hr hfit hit
        exact allocRqsLoop_ends hr hfit fuel (allocRqsIteration_layout p hs hit) (by omega) s'
    · exact RqsOutcome.noConfusion

theorem blkMqAllocRqs_ends (hr : 0 < p.rqSize) (hfit : p.rqSize ≤ orderToSize p.pageSize 4)
    (s : RqsState) : blkMqAllocRqs p p.depth ≠ .running s :=
  allocRqsLoop_ends p hr hfit p.depth (rqsLayout_init p) (Nat.sub_le _ _) s

/-! ### Requests larger than an order-4 block -/

/-- More bytes are wanted than an order-4 block holds, so the order stays 4. -/
theorem shrinkOrder_four {pageSize left : ℕ} (h : orderToSize pageSize 4 < left) :
    shrinkOrder pageSize left 4 = 4 := by
  have : orderToSize pageSize 3 ≤ orderToSize pageSize 4 := orderToSize_le_succ pageSize 3
  rw [shrinkOrder, if_neg (by omega)]

/-- With `rq_size > PAGE_SIZE << 4`, an iteration whose first allocation succeeds adds an
order-4 block and carves nothing. -/
theorem allocRqsIteration_of_big {s : RqsState} (hbig : orderToSize p.pageSize 4 < p.rqSize)
    (hleft : p.rqSize ≤ s.left) (halloc : p.alloc s.allocs = true) :
    allocRqsIteration p s = some { s with pages := s.pages ++ [4], allocs := s.allocs + 1 } := by
  have hto : toDo p s.i 4 = 0 := by
    rw [toDo, Nat.div_eq_of_lt hbig, Nat.zero_min]
  rw [allocRqsIteration, shrinkOrder_four (Nat.lt_of_lt_of_le hbig hleft), allocPageBlock,
    if_pos halloc]
  dsimp only
  rw [hto, carveRqs, Nat.zero_mul, Nat.sub_zero]

theorem allocRqsLoop_of_big (hbig : orderToSize p.pageSize 4 < p.rqSize)
    (hdepth : 0 < p.depth) (halloc : ∀ k, p.alloc k = true) :
    ∀ (fuel : ℕ) (s : RqsState), s.i = 0 → p.rqSize ≤ s.left →
      allocRqsLoop p fuel s =
        .running { s with pages := s.pages ++ List.replicate fuel 4, allocs := s.allocs + fuel }
  | 0, s, hi, _ => by
    rw [allocRqsLoop, if_pos (by omega)]
    simp
  | fuel + 1, s, hi, hl => by
    rw [allocRqsLoop, if_pos (by omega), allocRqsIteration_of_big p hbig hl (halloc _)]
    dsimp only
    rw [allocRqsLoop_of_big hbig hdepth halloc fuel
      { s with pages := s.pages ++ [4], allocs := s.allocs + 1 } hi hl]
    simp only [List.append_assoc, List.singleton_append, List.replicate_succ, Nat.add_right_comm,
      Nat.add_assoc]

theorem alloc_rqs_loops_on_big_requests (hbig : orderToSize p.pageSize 4 < p.rqSize)
    (hdepth : 0 < p.depth) (halloc : ∀ k, p.alloc k = true) (fuel : ℕ) :
    blkMqAllocRqs p fuel = .running ⟨0, p.rqSize * p.depth, List.replicate fuel 4, [], fuel⟩ := by
  rw [blkMqAllocRqs, allocRqsLoop_of_big p hbig hdepth halloc fuel _ rfl
    (Nat.le_mul_of_pos_right _ hdepth)]
  simp

theorem alloc_rqs_loops_with_cmd_size_64k :
    orderToSize 4096 4 < RqsParams.rqSize ⟨4096, 64, 384, 65536, 8, 64, fun _ => true, fun _ => true⟩ ∧
    0 < 64 ∧ (∀ k : ℕ, (fun _ => true : ℕ → Bool) k = true) ∧
    blkMqAllocRqs ⟨4096, 64, 384, 65536, 8, 64, fun _ => true, fun _ => true⟩ 3 =
      .running ⟨0, RqsParams.rqSize ⟨4096, 64, 384, 65536, 8, 64, fun _ => true, fun _ => true⟩ * 64,
        [4, 4, 4], [], 3⟩ :=
  ⟨by decide, by decide, fun _ => rfl,
    alloc_rqs_loops_on_big_requests _ (by decide) (by decide) (fun _ => rfl) 3⟩

end Layout

end BlkMq.AllocRqs
