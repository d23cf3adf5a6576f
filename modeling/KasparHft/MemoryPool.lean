import KasparHft.CircularBuffer
import KasparHft.Machine
import Mathlib.Algebra.Group.Nat.Defs
import Mathlib.Logic.Function.Basic

/-!
# The message pool (`actors/MemoryPool.hpp`, `actors/HybridCB.hpp`)

`operator new` takes a block from the cache of its thread, which it refills from the blocks that
all threads share and, when these do not suffice, from fresh memory.  `operator delete` gives a
block to a cache of the thread it is called on, which need not be the thread that asked for it.
Each call is complete before the next, on whichever thread that is.  Threads that end and
`cleanup` are not modelled.

A cache is any `Boost.CircularBuffer`.  Pushes into one record what they overwrite; that they
never overwrite anything is `KasparHft.MemoryPoolPlaces`.
-/

namespace KasparHft.MemoryPool

open Boost (CircularBuffer)

/-- An address; `0` is the null pointer. -/
abbrev Ptr := Nat

variable [Boost.{0}]

/-! ### A stack whose oldest items are in a deque -/

structure HybridCB (capacity : Nat) (α : Type) where
  cb : CircularBuffer capacity α := Boost.new
  overflow : List α := []

namespace HybridCB

variable {capacity : Nat} {α : Type}

def empty (h : HybridCB capacity α) : Bool := Boost.empty h.cb && h.overflow.isEmpty

def size (h : HybridCB capacity α) : Nat := Boost.size h.cb + h.overflow.length

/-- A full ring rotates its front into the deque before the push. -/
def pushBack (h : HybridCB capacity α) (value : α) : HybridCB capacity α :=
  if Boost.full h.cb then
    match Boost.front? h.cb with
    -- a ring of size zero, whose front is undefined
    | none => h
    | some temp =>
        { cb := Boost.pushBack (Boost.popFront h.cb) value, overflow := h.overflow ++ [temp] }
  else { h with cb := Boost.pushBack h.cb value }

def popBack (h : HybridCB capacity α) : HybridCB capacity α :=
  if !Boost.empty h.cb then { h with cb := Boost.popBack h.cb }
  else { h with overflow := h.overflow.dropLast }

def back? (h : HybridCB capacity α) : Option α :=
  if !Boost.empty h.cb then Boost.back? h.cb else h.overflow.getLast?

/-- Bottom of the stack first. -/
def contents (h : HybridCB capacity α) : List α := h.overflow ++ Boost.items h.cb

end HybridCB

/-! ### The pool -/

def cacheLineSize : Nat := 64

/-- The mask clears the bits below a cache line; the sum is a `size_t`. -/
def alignedSize (size : Nat) : Nat :=
  (size + cacheLineSize - 1) % 2 ^ 64 / cacheLineSize * cacheLineSize

/-- The parameters of a pool.  Every pool there is has positive ones, and chunks that a `size_t`
    measures. -/
structure Sizes where
  sizeofT : Nat
  allocCacheCount : Nat
  freedCacheCount : Nat
  freeBlocksCapacity : Nat
  allocatedBlocksCapacity : Nat
  sizeofT_pos : 0 < sizeofT
  allocCacheCount_pos : 0 < allocCacheCount
  freedCacheCount_pos : 0 < freedCacheCount
  freeBlocksCapacity_pos : 0 < freeBlocksCapacity
  allocatedBlocksCapacity_pos : 0 < allocatedBlocksCapacity
  chunk_fits : (sizeofT + cacheLineSize) * (2 * allocCacheCount) < 2 ^ 64

structure ThreadLocalCache (sz : Sizes) where
  allocCache : CircularBuffer sz.allocCacheCount Ptr := Boost.new
  freedCache : CircularBuffer sz.freedCacheCount Ptr := Boost.new
  hasAllocated : Bool := false

structure Pool (τ : Type*) (sz : Sizes) where
  caches : τ → ThreadLocalCache sz := fun _ => {}
  freeBlocks : HybridCB sz.freeBlocksCapacity Ptr := {}
  allocatedBlocks : HybridCB sz.allocatedBlocksCapacity Ptr := {}

inductive Exception where
  | invalidArgument (what : String)
  | overflowError (what : String)
  | badAlloc
deriving DecidableEq, Repr

inductive Outcome where
  | returned (ptr : Ptr)
  | threw (e : Exception)
deriving DecidableEq, Repr

/-- What a call of `operator new` leaves, with the blocks it carved and those it overwrote. -/
structure NewResult (τ : Type*) (sz : Sizes) where
  pool : Pool τ sz
  carved : List Ptr := []
  overwritten : List Ptr := []
  outcome : Outcome

section Code

variable {τ : Type*} [DecidableEq τ] {sz : Sizes}

def Pool.setCache (pool : Pool τ sz) (t : τ) (cache : ThreadLocalCache sz) : Pool τ sz :=
  { pool with caches := Function.update pool.caches t cache }

/-- Push one after the other, recording what the pushes overwrite. -/
def pushAll {n : Nat} (cb : CircularBuffer n Ptr) (lost : List Ptr) :
    List Ptr → CircularBuffer n Ptr × List Ptr
  | [] => (cb, lost)
  | ptr :: ptrs => pushAll (Boost.pushBack cb ptr) (lost ++ Boost.overwritten cb ptr) ptrs

/-- The refill loop, which ends when there is no free block or no room.  Each turn takes a block
    from the shared ones, so their number is fuel enough. -/
def fill {n m : Nat} : Nat → HybridCB n Ptr → CircularBuffer m Ptr → List Ptr →
    HybridCB n Ptr × CircularBuffer m Ptr × List Ptr
  | 0, free, cache, lost => (free, cache, lost)
  | fuel + 1, free, cache, lost =>
      if !free.empty && !Boost.full cache then
        match free.back? with
        | none => (free, cache, lost)
        | some ptr =>
            fill fuel free.popBack (Boost.pushBack cache ptr) (lost ++ Boost.overwritten cache ptr)
      else (free, cache, lost)

def fillAllocCacheFromFreeBlocks (pool : Pool τ sz) (t : τ) : Pool τ sz × List Ptr :=
  let cache := pool.caches t
  let r := fill pool.freeBlocks.size pool.freeBlocks cache.allocCache []
  ({ pool.setCache t { cache with allocCache := r.2.1 } with freeBlocks := r.1 }, r.2.2)

def flushFreedCache (pool : Pool τ sz) (t : τ) : Pool τ sz :=
  let cache := pool.caches t
  { pool.setCache t { cache with freedCache := Boost.new } with
    freeBlocks := (Boost.items cache.freedCache).foldl HybridCB.pushBack pool.freeBlocks }

/-- The blocks of a chunk. -/
def chunk (alignedSize total : Nat) (blocks : Ptr) : List Ptr :=
  (List.range total).map fun i => blocks + i * alignedSize

/-- The first `needed` blocks of a chunk fill the cache of the thread, the others are shared. -/
def carve (pool : Pool τ sz) (t : τ) (needed : Nat) (ptrs : List Ptr) (blocks : Ptr) :
    Pool τ sz × List Ptr :=
  let cache := pool.caches t
  let r := pushAll cache.allocCache [] (ptrs.take needed)
  ({ pool.setCache t { cache with allocCache := r.1 } with
      allocatedBlocks := pool.allocatedBlocks.pushBack blocks
      freeBlocks := (ptrs.drop needed).foldl HybridCB.pushBack pool.freeBlocks }, r.2)

/-- Return the back of the cache; `none` where the cache is empty and its back undefined. -/
def popAllocCache (pool : Pool τ sz) (t : τ) (carved overwritten : List Ptr) :
    Option (NewResult τ sz) :=
  let cache := pool.caches t
  match Boost.back? cache.allocCache with
  | none => none
  | some ptr => some
      { pool := pool.setCache t { cache with allocCache := Boost.popBack cache.allocCache }
        carved := carved
        overwritten := overwritten
        outcome := .returned ptr }

/-- How many blocks a refill leaves to be carved. -/
def needed (pool : Pool τ sz) (t : τ) : Nat :=
  sz.allocCacheCount - Boost.size (pool.caches t).allocCache

/-- `blocks` is what `aligned_alloc` returns, if it is called and does not fail. -/
def operatorNew (pool : Pool τ sz) (t : τ) (size : Nat) (blocks : Option Ptr) :
    Option (NewResult τ sz) :=
  if size ≠ sz.sizeofT then some
    { pool := pool
      outcome := .threw (.invalidArgument "MemoryPool can only allocate objects of type T") }
  else
    let pool := pool.setCache t { pool.caches t with hasAllocated := true }
    if !Boost.empty (pool.caches t).allocCache then popAllocCache pool t [] []
    else
      let filled := fillAllocCacheFromFreeBlocks pool t
      if 0 < needed filled.1 t then
        if alignedSize size < size then some
          { pool := filled.1
            overwritten := filled.2
            outcome := .threw (.overflowError "Size alignment overflow") }
        else
          match blocks with
          | none => some
              { pool := filled.1, overwritten := filled.2, outcome := .threw .badAlloc }
          | some blocks =>
              let total := needed filled.1 t + sz.allocCacheCount
              let ptrs := chunk (alignedSize size) total blocks
              let carved := carve filled.1 t (needed filled.1 t) ptrs blocks
              popAllocCache carved.1 t ptrs (filled.2 ++ carved.2)
      else popAllocCache filled.1 t [] filled.2

def pushAllocCache (pool : Pool τ sz) (t : τ) (ptr : Ptr) : Pool τ sz × List Ptr :=
  let cache := pool.caches t
  (pool.setCache t { cache with allocCache := Boost.pushBack cache.allocCache ptr },
    Boost.overwritten cache.allocCache ptr)

def pushFreedCache (pool : Pool τ sz) (t : τ) (ptr : Ptr) : Pool τ sz × List Ptr :=
  let cache := pool.caches t
  (pool.setCache t { cache with freedCache := Boost.pushBack cache.freedCache ptr },
    Boost.overwritten cache.freedCache ptr)

/-- `none` is `std::terminate`. -/
def operatorDelete (pool : Pool τ sz) (t : τ) (ptr : Ptr) (size : Nat) :
    Option (Pool τ sz × List Ptr) :=
  if ptr = 0 then some (pool, [])
  else if size ≠ sz.sizeofT then none
  else if (pool.caches t).hasAllocated && !Boost.full (pool.caches t).allocCache then
    some (pushAllocCache pool t ptr)
  else if !Boost.full (pool.caches t).freedCache then some (pushFreedCache pool t ptr)
  else some (pushFreedCache (flushFreedCache pool t) t ptr)

end Code

/-! ### The program around the pool -/

/-- The pool with all blocks ever carved and those that the program holds. -/
structure World (τ : Type*) (sz : Sizes) where
  pool : Pool τ sz := {}
  carved : List Ptr := []
  live : List Ptr := []

/-- A complete call, on the thread `t`. -/
inductive Event (τ : Type*) where
  | new (t : τ) (size : Nat) (blocks : Option Ptr)
  | delete (t : τ) (ptr : Ptr) (size : Nat)
deriving DecidableEq, Repr

structure Output where
  outcome : Option Outcome := none
  overwritten : List Ptr
deriving DecidableEq, Repr

def returnedPtr : Outcome → List Ptr
  | .returned ptr => [ptr]
  | .threw _ => []

variable {τ : Type*} [DecidableEq τ] {sz : Sizes}

def step (w : World τ sz) : Event τ → Option (World τ sz × List Output)
  | .new t size blocks =>
      (operatorNew w.pool t size blocks).map fun r =>
        ({ pool := r.pool
           carved := w.carved ++ r.carved
           live := returnedPtr r.outcome ++ w.live },
          [{ outcome := some r.outcome, overwritten := r.overwritten }])
  | .delete t ptr size =>
      (operatorDelete w.pool t ptr size).map fun r =>
        ({ w with pool := r.1, live := w.live.erase ptr }, [{ overwritten := r.2 }])

end KasparHft.MemoryPool
