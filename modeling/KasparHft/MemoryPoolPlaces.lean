import KasparHft.MemoryPool
import KasparHft.Placement

/-!
# Where the blocks of the pool are

Every block carved is held by the program, in one cache of one thread or among the shared blocks,
and in one of these only.  So what `operator new` takes from a cache is no block the program holds.
-/

namespace KasparHft.MemoryPool

open Boost (CircularBuffer items)

/-! ### Chunks -/

theorem le_alignedSize (sz : Sizes) : sz.sizeofT ≤ alignedSize sz.sizeofT := by
  have hcount := Nat.mul_le_mul_left (sz.sizeofT + cacheLineSize)
    (show 1 ≤ 2 * sz.allocCacheCount from Nat.mul_pos Nat.two_pos sz.allocCacheCount_pos)
  have hfits := sz.chunk_fits
  simp only [alignedSize, cacheLineSize] at *
  rw [Nat.mod_eq_of_lt (by omega)]
  omega

theorem alignedSize_pos (sz : Sizes) : 0 < alignedSize sz.sizeofT :=
  Nat.lt_of_lt_of_le sz.sizeofT_pos (le_alignedSize sz)

/-- The blocks that start at `p` and at `q` have no byte in common. -/
def Apart (size p q : Nat) : Prop := p + size ≤ q ∨ q + size ≤ p

theorem length_chunk (size total : Nat) (blocks : Ptr) :
    (chunk size total blocks).length = total := by
  rw [chunk, List.length_map, List.length_range]

theorem chunk_pairwise (size total : Nat) (blocks : Ptr) :
    (chunk size total blocks).Pairwise (Apart size) := by
  refine List.pairwise_map.mpr (List.pairwise_lt_range.imp fun {i j} hij => .inl ?_)
  calc blocks + i * size + size = blocks + (i + 1) * size := by
        rw [Nat.succ_mul, Nat.add_assoc]
    _ ≤ blocks + j * size := Nat.add_le_add_left (Nat.mul_le_mul_right size hij) blocks

theorem chunk_le {size total : Nat} {blocks p : Ptr} (hp : p ∈ chunk size total blocks) :
    blocks ≤ p ∧ p + size ≤ blocks + total * size := by
  obtain ⟨i, hi, rfl⟩ := List.mem_map.mp hp
  refine ⟨Nat.le_add_right _ _, ?_⟩
  calc blocks + i * size + size = blocks + (i + 1) * size := by
        rw [Nat.succ_mul, Nat.add_assoc]
    _ ≤ blocks + total * size :=
        Nat.add_le_add_left (Nat.mul_le_mul_right size (List.mem_range.mp hi)) blocks

theorem Apart.ne {size p q : Nat} (hsize : 0 < size) (h : Apart size p q) : p ≠ q := by
  rintro rfl
  rcases h with h | h <;> omega

section Pools

variable [Boost.{0}]

/-! ### The stack of shared blocks -/

namespace HybridCB

variable {capacity : Nat} {α : Type} {h : HybridCB capacity α}

theorem contents_pushBack (hcapacity : 0 < capacity) (value : α) :
    (h.pushBack value).contents = h.contents ++ [value] := by
  unfold pushBack
  split
  next hfull =>
      rw [Boost.full_iff] at hfull
      obtain ⟨temp, rest, hitems⟩ := List.exists_cons_of_length_pos (hfull ▸ hcapacity)
      have hroom : (items (Boost.popFront h.cb)).length < capacity := by
        rw [hitems, List.length_cons] at hfull
        simp [hitems, ← hfull]
      simp [contents, hitems, Boost.items_pushBack value hroom]
  next hfree =>
      rw [Bool.not_eq_true, Boost.full_eq_false_iff] at hfree
      simp [contents, Boost.items_pushBack value hfree]

theorem contents_foldl_pushBack (hcapacity : 0 < capacity) (values : List α) :
    (values.foldl pushBack h).contents = h.contents ++ values := by
  induction values generalizing h with
  | nil => exact (List.append_nil _).symm
  | cons value values ih =>
      rw [List.foldl_cons, ih, contents_pushBack hcapacity, List.append_assoc,
        List.singleton_append]

theorem empty_iff : h.empty = true ↔ h.contents = [] := by
  simp [empty, contents, and_comm]

theorem size_eq : h.size = h.contents.length := by
  simp [size, contents, Nat.add_comm]

/-- The back of a stack with items is the last of them, and a pop takes it off. -/
theorem exists_back {h : HybridCB capacity α} (hsome : h.empty = false) :
    ∃ x, h.back? = some x ∧ h.contents = h.popBack.contents ++ [x] := by
  rcases List.eq_nil_or_concat (items h.cb) with hitems | ⟨rest, x, hitems⟩
  · rcases List.eq_nil_or_concat h.overflow with hoverflow | ⟨rest, x, hoverflow⟩
    · simp [empty, hitems, hoverflow] at hsome
    · exact ⟨x, by simp [back?, hitems, hoverflow],
        by simp [contents, popBack, hitems, hoverflow]⟩
  · exact ⟨x, by simp [back?, hitems], by simp [contents, popBack, hitems]⟩

end HybridCB

/-! ### The loops -/

/-- Pushes that find room for all overwrite nothing. -/
theorem pushAll_spec {n : Nat} (cb : CircularBuffer n Ptr) (lost : List Ptr) {ptrs : List Ptr}
    (hroom : (items cb).length + ptrs.length ≤ n) :
    items (pushAll cb lost ptrs).1 = items cb ++ ptrs ∧ (pushAll cb lost ptrs).2 = lost := by
  induction ptrs generalizing cb lost with
  | nil => exact ⟨(List.append_nil _).symm, rfl⟩
  | cons ptr ptrs ih =>
      rw [List.length_cons] at hroom
      have hlt : (items cb).length < n := by omega
      have hitems := Boost.items_pushBack ptr hlt
      obtain ⟨hpushed, hlost⟩ := ih (Boost.pushBack cb ptr) (lost ++ Boost.overwritten cb ptr)
        (by rw [hitems, List.length_append, List.length_singleton]; omega)
      refine ⟨?_, ?_⟩
      · rw [pushAll, hpushed, hitems, List.append_assoc, List.singleton_append]
      · rw [pushAll, hlost, Boost.overwritten_eq_nil ptr hlt, List.append_nil]

/-- The refill moves blocks from the shared ones to the cache, as long as there are some and there
    is room. -/
theorem fill_spec {n m : Nat} (fuel : Nat) {free : HybridCB n Ptr} (cache : CircularBuffer m Ptr)
    (lost : List Ptr) (hfuel : free.contents.length ≤ fuel) :
    (fill fuel free cache lost).2.2 = lost ∧
      ((fill fuel free cache lost).1.contents = [] ∨
        (items (fill fuel free cache lost).2.1).length = m) ∧
      ∃ moved, free.contents.Perm (moved ++ (fill fuel free cache lost).1.contents) ∧
        (items (fill fuel free cache lost).2.1).Perm (moved ++ items cache) := by
  induction fuel generalizing free cache lost with
  | zero =>
      have hnil := List.length_eq_zero_iff.mp (Nat.le_zero.mp hfuel)
      exact ⟨rfl, .inl hnil, [], .refl _, .refl _⟩
  | succ fuel ih =>
      unfold fill
      split
      next hgo =>
          simp only [Bool.and_eq_true, Bool.not_eq_true', Boost.full_eq_false_iff] at hgo
          obtain ⟨hsome, hroom⟩ := hgo
          obtain ⟨ptr, hback, hcontents⟩ := HybridCB.exists_back hsome
          have hitems := Boost.items_pushBack ptr hroom
          have hshorter : free.popBack.contents.length ≤ fuel := by
            rw [hcontents, List.length_append, List.length_singleton] at hfuel
            exact Nat.le_of_succ_le_succ hfuel
          rw [hback]
          obtain ⟨hlost, hend, moved, hfree, hcache⟩ := ih (Boost.pushBack cache ptr)
            (lost ++ Boost.overwritten cache ptr) hshorter
          refine ⟨?_, hend, ptr :: moved, ?_, ?_⟩
          · rw [hlost, Boost.overwritten_eq_nil ptr hroom, List.append_nil]
          · rw [hcontents]
            exact List.perm_append_comm.trans (hfree.cons ptr)
          · refine hcache.trans ?_
            rw [hitems, ← List.append_assoc]
            exact List.perm_append_comm
      next hstop =>
          refine ⟨rfl, ?_, [], .refl _, .refl _⟩
          simp only [Bool.and_eq_true, Bool.not_eq_true', not_and_or, Bool.not_eq_false] at hstop
          exact hstop.imp HybridCB.empty_iff.mp Boost.full_iff.mp

/-! ### Places -/

inductive Place (τ : Type*) where
  | live
  | allocCache (t : τ)
  | freedCache (t : τ)
  | freeBlocks
deriving DecidableEq, Repr

variable {τ : Type*} [DecidableEq τ] {sz : Sizes}

/-- The blocks in each place, where the program holds `live`. -/
def placed (pool : Pool τ sz) (live : List Ptr) : Place τ → List Ptr
  | .live => live
  | .allocCache t => items (pool.caches t).allocCache
  | .freedCache t => items (pool.caches t).freedCache
  | .freeBlocks => pool.freeBlocks.contents

section Calls

variable {pool : Pool τ sz} {live all : List Ptr} {t : τ}

@[simp] theorem caches_setCache (cache : ThreadLocalCache sz) :
    (pool.setCache t cache).caches t = cache := Function.update_self ..

theorem caches_setCache_of_ne (cache : ThreadLocalCache sz) {u : τ} (hne : u ≠ t) :
    (pool.setCache t cache).caches u = pool.caches u := Function.update_of_ne hne ..

@[simp] theorem freeBlocks_setCache (cache : ThreadLocalCache sz) :
    (pool.setCache t cache).freeBlocks = pool.freeBlocks := rfl

/-- Calls on a thread leave the caches of the others; of the places that remain `a` and `b` may
    change. -/
theorem placed_other {pool' : Pool τ sz} {live' : List Ptr} {a b : Place τ}
    (hcaches : ∀ u, u ≠ t → pool'.caches u = pool.caches u)
    (hlive : a = .live ∨ b = .live ∨ live' = live)
    (halloc : a = .allocCache t ∨ b = .allocCache t ∨
      (pool'.caches t).allocCache = (pool.caches t).allocCache)
    (hfreed : a = .freedCache t ∨ b = .freedCache t ∨
      (pool'.caches t).freedCache = (pool.caches t).freedCache)
    (hfree : a = .freeBlocks ∨ b = .freeBlocks ∨ pool'.freeBlocks = pool.freeBlocks) :
    ∀ c, c ≠ a → c ≠ b → placed pool' live' c = placed pool live c := by
  intro c hca hcb
  cases c with
  | live => exact (hlive.resolve_left (Ne.symm hca)).resolve_left (Ne.symm hcb)
  | allocCache u =>
      by_cases hu : u = t
      · subst hu
        exact congrArg items
          ((halloc.resolve_left (Ne.symm hca)).resolve_left (Ne.symm hcb))
      · exact congrArg (fun cache => items cache.allocCache) (hcaches u hu)
  | freedCache u =>
      by_cases hu : u = t
      · subst hu
        exact congrArg items
          ((hfreed.resolve_left (Ne.symm hca)).resolve_left (Ne.symm hcb))
      · exact congrArg (fun cache => items cache.freedCache) (hcaches u hu)
  | freeBlocks =>
      exact congrArg HybridCB.contents
        ((hfree.resolve_left (Ne.symm hca)).resolve_left (Ne.symm hcb))

/-- That a thread has allocated moves nothing. -/
theorem placement_hasAllocated (b : Bool) (h : Placement (placed pool live) all) :
    Placement (placed (pool.setCache t { pool.caches t with hasAllocated := b }) live) all := by
  have hsame : placed (pool.setCache t { pool.caches t with hasAllocated := b }) live =
      placed pool live := by
    funext c
    by_cases hc : c = .live
    · exact hc ▸ rfl
    · exact placed_other (fun u => caches_setCache_of_ne _) (.inl rfl) (.inr (.inr (by simp)))
        (.inr (.inr (by simp))) (.inr (.inr rfl)) c hc hc
  rwa [hsame]

/-- A block goes from its thread's cache to the program. -/
theorem placement_popAllocCache (carved lost : List Ptr) (h : Placement (placed pool live) all)
    (hsome : items (pool.caches t).allocCache ≠ []) :
    ∃ r ptr, popAllocCache pool t carved lost = some r ∧ r.outcome = .returned ptr ∧
      r.carved = carved ∧ r.overwritten = lost ∧ ptr ∉ live ∧
      Placement (placed r.pool (ptr :: live)) all := by
  obtain ⟨rest, ptr, hitems⟩ := (List.eq_nil_or_concat _).resolve_left hsome
  rw [List.concat_eq_append] at hitems
  refine ⟨_, ptr, by simp [popAllocCache, hitems]; rfl, rfl, rfl, rfl, ?_, ?_⟩
  · intro hlive
    have hcache : ptr ∈ placed pool live (.allocCache t) := by simp [placed, hitems]
    cases h.apart hcache (show ptr ∈ placed pool live .live from hlive)
  · refine h.move [ptr] (show Place.allocCache t ≠ .live from nofun) ?_ (.refl _)
      (placed_other (fun u => caches_setCache_of_ne _) (.inr (.inl rfl)) (.inl rfl)
        (.inr (.inr (by simp))) (.inr (.inr rfl)))
    simp only [placed, caches_setCache, Boost.items_popBack hsome, hitems, List.dropLast_concat]
    exact List.perm_append_comm

/-- The refill takes from the shared blocks until there are none or the cache is full. -/
theorem placement_fillAllocCacheFromFreeBlocks (h : Placement (placed pool live) all) :
    Placement (placed (fillAllocCacheFromFreeBlocks pool t).1 live) all ∧
      (fillAllocCacheFromFreeBlocks pool t).2 = [] := by
  obtain ⟨hlost, -, moved, hfree, hcache⟩ := fill_spec pool.freeBlocks.size
    (pool.caches t).allocCache [] (Nat.le_of_eq HybridCB.size_eq.symm)
  refine ⟨h.move moved (show Place.freeBlocks ≠ .allocCache t from nofun) hfree ?_
    (placed_other (fun u => caches_setCache_of_ne _) (.inr (.inr rfl)) (.inr (.inl rfl))
      (.inr (.inr (by simp [fillAllocCacheFromFreeBlocks]))) (.inl rfl)), hlost⟩
  simpa [placed, fillAllocCacheFromFreeBlocks] using hcache

/-- A flush hands the freed blocks of a thread to all. -/
theorem placement_flushFreedCache (h : Placement (placed pool live) all) :
    Placement (placed (flushFreedCache pool t) live) all := by
  refine h.move (items (pool.caches t).freedCache)
    (show Place.freedCache t ≠ .freeBlocks from nofun) ?_ ?_
    (placed_other (fun u => caches_setCache_of_ne _) (.inr (.inr rfl))
      (.inr (.inr (by simp [flushFreedCache]))) (.inl rfl) (.inr (.inl rfl)))
  · simp [placed, flushFreedCache]
  · simp only [placed, flushFreedCache,
      HybridCB.contents_foldl_pushBack sz.freeBlocksCapacity_pos]
    exact List.perm_append_comm

/-- A block that the program held goes to the cache for allocation. -/
theorem placement_pushAllocCache {ptr : Ptr} (h : Placement (placed pool live) all)
    (hlive : ptr ∈ live) (hroom : Boost.full (pool.caches t).allocCache = false) :
    Placement (placed (pushAllocCache pool t ptr).1 (live.erase ptr)) all ∧
      (pushAllocCache pool t ptr).2 = [] := by
  rw [Boost.full_eq_false_iff] at hroom
  refine ⟨h.move [ptr] (show Place.live ≠ .allocCache t from nofun)
    (List.perm_cons_erase hlive) ?_
    (placed_other (fun u => caches_setCache_of_ne _) (.inl rfl) (.inr (.inl rfl))
      (.inr (.inr (by simp [pushAllocCache]))) (.inr (.inr rfl))),
    Boost.overwritten_eq_nil ptr hroom⟩
  simp only [placed, pushAllocCache, caches_setCache, Boost.items_pushBack ptr hroom]
  exact List.perm_append_comm

/-- A block that the program held goes to the cache of freed blocks. -/
theorem placement_pushFreedCache {ptr : Ptr} (h : Placement (placed pool live) all)
    (hlive : ptr ∈ live) (hroom : Boost.full (pool.caches t).freedCache = false) :
    Placement (placed (pushFreedCache pool t ptr).1 (live.erase ptr)) all ∧
      (pushFreedCache pool t ptr).2 = [] := by
  rw [Boost.full_eq_false_iff] at hroom
  refine ⟨h.move [ptr] (show Place.live ≠ .freedCache t from nofun)
    (List.perm_cons_erase hlive) ?_
    (placed_other (fun u => caches_setCache_of_ne _) (.inl rfl)
      (.inr (.inr (by simp [pushFreedCache]))) (.inr (.inl rfl)) (.inr (.inr rfl))),
    Boost.overwritten_eq_nil ptr hroom⟩
  simp only [placed, pushFreedCache, caches_setCache, Boost.items_pushBack ptr hroom]
  exact List.perm_append_comm

/-- New blocks go to the cache that they fill and to the shared ones. -/
theorem placement_carve {ptrs : List Ptr} {n : Nat} (blocks : Ptr)
    (h : Placement (placed pool live) all) (hnodup : ptrs.Nodup) (hfresh : ∀ p ∈ ptrs, p ∉ all)
    (hroom : (items (pool.caches t).allocCache).length + n ≤ sz.allocCacheCount) :
    Placement (placed (carve pool t n ptrs blocks).1 live) (all ++ ptrs) ∧
      (carve pool t n ptrs blocks).2 = [] ∧
      items ((carve pool t n ptrs blocks).1.caches t).allocCache =
        items (pool.caches t).allocCache ++ ptrs.take n := by
  obtain ⟨hpushed, hlost⟩ := pushAll_spec (pool.caches t).allocCache []
    (Nat.le_trans (Nat.add_le_add_left (List.length_take_le n ptrs) _) hroom)
  rw [← List.take_append_drop n ptrs, List.nodup_append] at hnodup
  obtain ⟨htake, hdrop, hne⟩ := hnodup
  let pool' := pool.setCache t
    { pool.caches t with allocCache := (pushAll (pool.caches t).allocCache [] (ptrs.take n)).1 }
  have hcached : Placement (placed pool' live) (all ++ ptrs.take n) := by
    refine h.add (b := .allocCache t) htake (fun p hp => hfresh p (List.mem_of_mem_take hp)) ?_
      fun c hc => placed_other (fun u => caches_setCache_of_ne _) (.inr (.inr rfl)) (.inl rfl)
        (.inr (.inr (by simp))) (.inr (.inr rfl)) c hc hc
    simp only [pool', placed, caches_setCache, hpushed]
    exact List.perm_append_comm
  refine ⟨?_, hlost, by simpa [carve] using hpushed⟩
  rw [← List.take_append_drop n ptrs, ← List.append_assoc, List.take_append_drop]
  have hother : ∀ c, c ≠ .freeBlocks → placed (carve pool t n ptrs blocks).1 live c =
      placed pool' live c := by
    intro c hc
    cases c with
    | freeBlocks => exact absurd rfl hc
    | _ => rfl
  refine hcached.add hdrop ?_ ?_ hother
  · intro p hp hall
    rcases List.mem_append.mp hall with hold | hp'
    · exact hfresh p (List.mem_of_mem_drop hp) hold
    · exact hne p hp' p hp rfl
  · simp only [placed, carve, HybridCB.contents_foldl_pushBack sz.freeBlocksCapacity_pos]
    exact List.perm_append_comm

end Calls

/-! ### Steps -/

/-- How many blocks a call of `operator new` on `t` would carve. -/
def carves (pool : Pool τ sz) (t : τ) : Nat :=
  needed (fillAllocCacheFromFreeBlocks pool t).1 t + sz.allocCacheCount

/-- What `aligned_alloc` returns is no null pointer and overlaps no memory it returned before. -/
def FreshChunk (w : World τ sz) (t : τ) (blocks : Ptr) : Prop :=
  blocks ≠ 0 ∧ ∀ p ∈ w.carved, p + alignedSize sz.sizeofT ≤ blocks ∨
    blocks + carves w.pool t * alignedSize sz.sizeofT ≤ p

instance (w : World τ sz) (t : τ) (blocks : Ptr) : Decidable (FreshChunk w t blocks) :=
  inferInstanceAs (Decidable (_ ∧ _))

/-- Memory for a chunk is fresh, and a block is deleted by the program that holds it, under its
    size. -/
def Allowed (w : World τ sz) : Event τ → Prop
  | .new _ _ none => True
  | .new t _ (some blocks) => FreshChunk w t blocks
  | .delete _ ptr size => ptr = 0 ∨ ptr ∈ w.live ∧ size = sz.sizeofT

instance (w : World τ sz) : (e : Event τ) → Decidable (Allowed w e)
  | .new _ _ none => inferInstanceAs (Decidable True)
  | .new t _ (some blocks) => inferInstanceAs (Decidable (FreshChunk w t blocks))
  | .delete _ _ _ => inferInstanceAs (Decidable (_ ∨ _))

structure Sound (w : World τ sz) : Prop where
  places : Placement (placed w.pool w.live) w.carved
  apart : w.carved.Pairwise (Apart (alignedSize sz.sizeofT))
  nonnull : 0 ∉ w.carved

omit [DecidableEq τ] in
theorem sound_init : Sound ({} : World τ sz) where
  places := .nil fun c => by cases c <;> simp [placed, HybridCB.contents]
  apart := .nil
  nonnull := List.not_mem_nil

/-- What one call of `operator new` comes to: no cache entry overwritten, every block in its one
    place, and a block that the program did not hold. -/
structure NewSpec (w : World τ sz) (size : Nat) (blocks : Option Ptr) (r : NewResult τ sz) :
    Prop where
  overwritten : r.overwritten = []
  notLive : ∀ ptr, r.outcome = .returned ptr → ptr ∉ w.live
  returns : size = sz.sizeofT → blocks ≠ none → ∃ ptr, r.outcome = .returned ptr
  places : Placement (placed r.pool (returnedPtr r.outcome ++ w.live)) (w.carved ++ r.carved)
  carved : r.carved = [] ∨ ∃ t blocks, FreshChunk w t blocks ∧
    r.carved = chunk (alignedSize sz.sizeofT) (carves w.pool t) blocks

/-- A block popped after `carved` was carved. -/
theorem newSpec_pop {w : World τ sz} {size : Nat} {blocks : Option Ptr} {pool : Pool τ sz} {t : τ}
    {carved : List Ptr}
    (h : Placement (placed pool w.live) (w.carved ++ carved))
    (hsome : items (pool.caches t).allocCache ≠ [])
    (hcarved : carved = [] ∨ ∃ t blocks, FreshChunk w t blocks ∧
      carved = chunk (alignedSize sz.sizeofT) (carves w.pool t) blocks) :
    ∃ r, popAllocCache pool t carved [] = some r ∧ NewSpec w size blocks r := by
  obtain ⟨r, ptr, hpop, houtcome, rfl, hlost, hnot, hplaced⟩ :=
    placement_popAllocCache carved [] h hsome
  refine ⟨r, hpop, hlost, fun p hp => ?_, fun _ _ => ⟨ptr, houtcome⟩, houtcome ▸ hplaced, hcarved⟩
  cases houtcome.symm.trans hp
  exact hnot

/-- The memory carved for a chunk is no block there was. -/
theorem FreshChunk.not_mem {w : World τ sz} {t : τ} {blocks p : Ptr} (h : FreshChunk w t blocks)
    (hp : p ∈ chunk (alignedSize sz.sizeofT) (carves w.pool t) blocks) : p ∉ w.carved := by
  intro hold
  obtain ⟨hfirst, hlast⟩ := chunk_le hp
  have hlong : ¬ p + alignedSize sz.sizeofT ≤ p :=
    Nat.not_le_of_lt (Nat.lt_add_of_pos_right (alignedSize_pos sz))
  rcases h.2 p hold with hbefore | hafter
  · exact hlong (Nat.le_trans hbefore hfirst)
  · exact hlong (Nat.le_trans hlast hafter)

theorem needed_hasAllocated (pool : Pool τ sz) (t : τ) (b : Bool) :
    needed (fillAllocCacheFromFreeBlocks
        (pool.setCache t { pool.caches t with hasAllocated := b }) t).1 t =
      needed (fillAllocCacheFromFreeBlocks pool t).1 t := by
  simp [needed, fillAllocCacheFromFreeBlocks, Pool.setCache]

/-- A block popped after a chunk was carved for it. -/
theorem newSpec_carve {w : World τ sz} {pool : Pool τ sz} {t : τ} {blocks : Ptr} {size n : Nat}
    (h : Placement (placed pool w.live) w.carved)
    (hroom : (items (pool.caches t).allocCache).length + n ≤ sz.allocCacheCount) (hn : 0 < n)
    (hcarves : n + sz.allocCacheCount = carves w.pool t) (hfresh : FreshChunk w t blocks) :
    let ptrs := chunk (alignedSize sz.sizeofT) (n + sz.allocCacheCount) blocks
    ∃ r, popAllocCache (carve pool t n ptrs blocks).1 t ptrs
        ([] ++ (carve pool t n ptrs blocks).2) =
      some r ∧ NewSpec w size (some blocks) r := by
  intro ptrs
  have hptrs : ptrs = chunk (alignedSize sz.sizeofT) (carves w.pool t) blocks :=
    congrArg (fun total => chunk (alignedSize sz.sizeofT) total blocks) hcarves
  have hnodup : ptrs.Nodup :=
    (chunk_pairwise _ _ blocks).imp fun hpq => hpq.ne (alignedSize_pos sz)
  obtain ⟨hplaced, hnone, hitems⟩ := placement_carve blocks h hnodup
    (fun p hp => hfresh.not_mem (hptrs ▸ hp)) hroom
  rw [hnone]
  refine newSpec_pop hplaced ?_ (.inr ⟨t, blocks, hfresh, hptrs⟩)
  rw [hitems]
  refine List.append_ne_nil_of_right_ne_nil _ (List.ne_nil_of_length_pos ?_)
  rw [List.length_take, length_chunk]
  exact Nat.lt_min.mpr ⟨hn, Nat.lt_of_lt_of_le hn (Nat.le_add_right _ _)⟩

omit [DecidableEq τ] in
theorem needed_room (pool : Pool τ sz) (t : τ) :
    (items (pool.caches t).allocCache).length + needed pool t ≤ sz.allocCacheCount := by
  rw [needed, Boost.size_eq]
  exact Nat.le_of_eq (Nat.add_sub_of_le (Boost.fits _))

theorem operatorNew_spec {w : World τ sz} (h : Sound w) (t : τ) (size : Nat)
    {blocks : Option Ptr} (hallowed : Allowed w (.new t size blocks)) :
    ∃ r, operatorNew w.pool t size blocks = some r ∧ NewSpec w size blocks r := by
  unfold operatorNew
  split
  next hsize =>
      exact ⟨_, rfl, rfl, nofun, fun heq => absurd heq hsize,
        by simpa [returnedPtr] using h.places, .inl rfl⟩
  next hsize =>
  have hplaces := placement_hasAllocated (t := t) true h.places
  dsimp only
  split
  next hsome =>
      refine newSpec_pop (by rwa [List.append_nil]) (fun hnil => ?_) (.inl rfl)
      simp only [caches_setCache, Bool.not_eq_true'] at hnil hsome
      simp [hnil] at hsome
  next hempty =>
  obtain ⟨hfilled, hlost⟩ := placement_fillAllocCacheFromFreeBlocks (t := t) hplaces
  rw [needed_hasAllocated, hlost]
  split
  next hneeded =>
      rw [if_neg (Nat.not_lt.mpr (not_not.mp hsize ▸ le_alignedSize sz))]
      cases blocks with
      | none =>
          exact ⟨_, rfl, rfl, nofun, fun _ hnone => absurd rfl hnone,
            by simpa [returnedPtr] using hfilled, .inl rfl⟩
      | some blocks =>
          rw [not_not.mp hsize]
          exact newSpec_carve hfilled (needed_hasAllocated w.pool t true ▸ needed_room _ t)
            hneeded rfl hallowed
  next hneeded =>
      refine newSpec_pop (by rwa [List.append_nil]) (fun hnil => ?_) (.inl rfl)
      rw [← needed_hasAllocated w.pool t true, needed, Boost.size_eq, hnil] at hneeded
      exact hneeded sz.allocCacheCount_pos

/-- A deleted block finds room in a cache, after a flush if need be. -/
theorem operatorDelete_spec {w : World τ sz} (h : Sound w) (t : τ) {ptr : Ptr}
    (hlive : ptr ∈ w.live) :
    ∃ pool, operatorDelete w.pool t ptr sz.sizeofT = some (pool, []) ∧
      Placement (placed pool (w.live.erase ptr)) w.carved := by
  have hnull : ptr ≠ 0 := by
    rintro rfl
    exact h.nonnull ((h.places.covers 0).mpr ⟨.live, hlive⟩)
  unfold operatorDelete
  rw [if_neg hnull, if_neg (not_not.mpr rfl)]
  split
  next hroom =>
      simp only [Bool.and_eq_true, Bool.not_eq_true'] at hroom
      obtain ⟨hplaced, hlost⟩ := placement_pushAllocCache h.places hlive hroom.2
      exact ⟨_, congrArg some (Prod.ext rfl hlost), hplaced⟩
  next =>
  split
  next hroom =>
      rw [Bool.not_eq_true'] at hroom
      obtain ⟨hplaced, hlost⟩ := placement_pushFreedCache h.places hlive hroom
      exact ⟨_, congrArg some (Prod.ext rfl hlost), hplaced⟩
  next =>
      have hroom : Boost.full ((flushFreedCache w.pool t).caches t).freedCache = false := by
        rw [Boost.full_eq_false_iff]
        simpa [flushFreedCache] using sz.freedCacheCount_pos
      obtain ⟨hplaced, hlost⟩ :=
        placement_pushFreedCache (placement_flushFreedCache h.places) hlive hroom
      exact ⟨_, congrArg some (Prod.ext rfl hlost), hplaced⟩

/-- What is carved is apart from what was, and no null pointer. -/
theorem NewSpec.sound {w : World τ sz} {size : Nat} {blocks : Option Ptr} {r : NewResult τ sz}
    (h : Sound w) (hnew : NewSpec w size blocks r) :
    Sound { pool := r.pool, carved := w.carved ++ r.carved,
            live := returnedPtr r.outcome ++ w.live } := by
  refine ⟨hnew.places, ?_, ?_⟩
  · rcases hnew.carved with hnone | ⟨t, blocks, hfresh, hchunk⟩
    · rw [hnone, List.append_nil]
      exact h.apart
    · refine List.pairwise_append.mpr ⟨h.apart, hchunk ▸ chunk_pairwise _ _ _, fun p hp q hq => ?_⟩
      obtain ⟨hfirst, hlast⟩ := chunk_le (hchunk ▸ hq)
      exact (hfresh.2 p hp).imp (Nat.le_trans · hfirst) (Nat.le_trans hlast ·)
  · rw [List.mem_append]
    rintro (hold | hzero)
    · exact h.nonnull hold
    · rcases hnew.carved with hnone | ⟨t, blocks, hfresh, hchunk⟩
      · exact List.not_mem_nil (hnone ▸ hzero)
      · exact hfresh.1 (Nat.le_zero.mp (chunk_le (hchunk ▸ hzero)).1)

/-- **One call** keeps every block in its one place and overwrites no cache entry. -/
theorem step_sound {w : World τ sz} {e : Event τ} (h : Sound w) (hallowed : Allowed w e) :
    ∃ w' out, step w e = some (w', out) ∧ Sound w' ∧ ∀ o ∈ out, o.overwritten = [] := by
  cases e with
  | new t size blocks =>
      obtain ⟨r, hnew, hspec⟩ := operatorNew_spec h t size hallowed
      refine ⟨_, _, by rw [step, hnew]; rfl, hspec.sound h, ?_⟩
      simpa using hspec.overwritten
  | delete t ptr size =>
      by_cases hnull : ptr = 0
      · refine ⟨w, [{ overwritten := [] }], ?_, h, by simp⟩
        have hlive : ptr ∉ w.live := fun hin =>
          h.nonnull (hnull ▸ (h.places.covers ptr).mpr ⟨.live, hin⟩)
        simp only [step, operatorDelete, if_pos hnull, List.erase_of_not_mem hlive, Option.map_some]
      · obtain ⟨hlive, rfl⟩ := hallowed.resolve_left hnull
        obtain ⟨pool, hdelete, hplaced⟩ := operatorDelete_spec h t hlive
        refine ⟨{ w with pool := pool, live := w.live.erase ptr }, [{ overwritten := [] }], ?_,
          ⟨hplaced, h.apart, h.nonnull⟩, by simp⟩
        rw [step, hdelete, Option.map_some]

/-- What `operator new` returns is not live, and it returns where it is asked for an object of type
    `T` and there is memory. -/
theorem step_new {w : World τ sz} {t : τ} {size : Nat} {blocks : Option Ptr} (h : Sound w)
    (hallowed : Allowed w (.new t size blocks)) :
    ∃ w' o, step w (.new t size blocks) = some (w', [⟨some o, []⟩]) ∧
      (∀ ptr, o = .returned ptr → ptr ∉ w.live) ∧
      (size = sz.sizeofT → blocks ≠ none → ∃ ptr, o = .returned ptr) := by
  obtain ⟨r, hnew, hspec⟩ := operatorNew_spec h t size hallowed
  refine ⟨{ pool := r.pool, carved := w.carved ++ r.carved,
            live := returnedPtr r.outcome ++ w.live }, r.outcome, ?_, hspec.notLive, hspec.returns⟩
  rw [step, hnew, Option.map_some, hspec.overwritten]

/-! ### Runs -/

theorem run_sound {es : List (Event τ)}
    (hallowed : Machine.AllSteps step Allowed ({} : World τ sz) es) :
    ∃ w out, Machine.run step ({} : World τ sz) es = some (w, out) ∧ Sound w ∧
      ∀ o ∈ out, o.overwritten = [] := by
  refine Machine.exists_run_induction (I := fun out w => Sound w ∧ ∀ o ∈ out, o.overwritten = [])
    ⟨sound_init, nofun⟩ ?_ hallowed
  intro out w e ⟨h, hout⟩ hallowed
  obtain ⟨w', out', hstep, h', hout'⟩ := step_sound h hallowed
  exact ⟨(w', out'), hstep, h', fun o ho => (List.mem_append.mp ho).elim (hout o) (hout' o)⟩

/-- **`operator new` never hands out a live block**, whatever threads the calls are made on and in
    whatever order.  Every block carved is live, in one cache of one thread or among the shared
    blocks, and in one of these only; blocks share no byte; no push overwrites a cache entry; and
    what a call returns was not live. -/
theorem new_never_live (sz : Sizes) (es : List (Event τ))
    (hallowed : Machine.AllSteps step Allowed ({} : World τ sz) es) :
    ∃ w out, Machine.run step ({} : World τ sz) es = some (w, out) ∧
      (∀ p ∈ w.carved, ∃! place, p ∈ placed w.pool w.live place) ∧
      (∀ place, (placed w.pool w.live place).Nodup ∧
        ∀ p ∈ placed w.pool w.live place, p ∈ w.carved) ∧
      w.carved.Pairwise (Apart (alignedSize sz.sizeofT)) ∧
      (∀ o ∈ out, o.overwritten = []) ∧
      ∀ past t size blocks rest m emitted, es = past ++ .new t size blocks :: rest →
        Machine.run step ({} : World τ sz) past = some (m, emitted) →
        ∃ m' o, step m (.new t size blocks) = some (m', [⟨some o, []⟩]) ∧
          (∀ ptr, o = .returned ptr → ptr ∉ m.live) ∧
          (size = sz.sizeofT → blocks ≠ none → ∃ ptr, o = .returned ptr) := by
  obtain ⟨w, out, hrun, h, hout⟩ := run_sound hallowed
  refine ⟨w, out, hrun, fun p => h.places.existsUnique, fun place => ⟨h.places.nodup place, ?_⟩,
    h.apart, hout, ?_⟩
  · exact fun p hp => (h.places.covers p).mpr ⟨place, hp⟩
  · intro past t size blocks rest m emitted hes hpast
    rw [hes, Machine.allSteps_append] at hallowed
    obtain ⟨m₁, out₁, hpast₁, hm, -⟩ := run_sound hallowed.1
    cases hpast₁.symm.trans hpast
    exact step_new hm (Machine.allSteps_cons.mp (hallowed.2 m emitted hpast)).1

end Pools

section Lists

attribute [local instance] Boost.lists

/-- A thread frees more blocks than its caches take, after a chunk of four was carved on another. -/
theorem new_never_live_two_threads :
    ∃ w : World Bool ⟨100, 2, 1, 1, 1, by decide, by decide, by decide, by decide, by decide,
        by decide⟩, ∃ out,
      Machine.run step {} [.new false 100 (some 4096), .new false 100 none, .new false 100 none,
        .delete true 4096 100, .delete true 4224 100, .new false 100 none] = some (w, out) ∧
      w.live = [4480, 4352] ∧ ∀ p ∈ w.carved, ∃! place, p ∈ placed w.pool w.live place := by
  obtain ⟨w, out, hrun, hplaces, -⟩ := new_never_live
    ⟨100, 2, 1, 1, 1, by decide, by decide, by decide, by decide, by decide, by decide⟩
    [.new false 100 (some 4096), .new false 100 none, .new false 100 none,
      .delete true 4096 100, .delete true 4224 100, .new false 100 none] (by decide +kernel)
  have hlive : _ = some w.live := congrArg (Option.map fun r => r.1.live) hrun
  exact ⟨w, out, hrun, Option.some_inj.mp (hlive.symm.trans (by decide +kernel)), hplaces⟩

end Lists

end KasparHft.MemoryPool
