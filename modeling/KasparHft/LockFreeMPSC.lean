import KasparHft.BoundedFifo
import Mathlib.Data.Nat.Bitwise
import Mathlib.Order.Interval.Finset.Nat

/-!
# The lock-free mailbox (`actors/LockFreeMPSC.hpp`)

A ring of cells, each with a sequence number, and two positions that only grow.  A push claims the
cell of `enqueue_pos_` when its number is that position, a pop the cell of `dequeue_pos_` when its
number is one past it; everything about fullness and emptiness is in these numbers.  Calls are
taken one at a time.  Positions are `size_t` and wrap; their signed difference is the two's
complement one.

The allocation of the ring is taken to succeed: a constructor that memory or `max_size` of a vector
refuses throws, and there is no ring.

The two retry loops are one definition, `claimLoop`.  It runs on fuel, so that a call that never
returns is one that no fuel is enough for.
-/

namespace KasparHft.LockFreeMPSC

open BoundedFifo

variable {α : Type*}

/-- `size_t` arithmetic. -/
def sizeT (n : Nat) : Nat := n % 2 ^ 64

/-- `(intptr_t)`. -/
def intptr (n : Int) : Int := Int.bmod n (2 ^ 64)

/-- `(intptr_t)seq - (intptr_t)pos`. -/
def signedDif (seq pos : Nat) : Int := intptr (intptr seq - intptr pos)

structure Cell (α : Type*) where
  seq : Nat
  data : α
deriving DecidableEq, Repr

structure Ring (α : Type*) where
  buf : List (Cell α)
  mask : Nat
  enqueuePos : Nat := 0
  dequeuePos : Nat := 0
deriving DecidableEq, Repr

/-! ### The code -/

def roundUpPow2Loop (n : Nat) : Nat → Nat → Option Nat
  | 0, _ => none
  | fuel + 1, p => if p < n then roundUpPow2Loop n fuel (sizeT (p <<< 1)) else some p

def roundUpPow2 (fuel n : Nat) : Option Nat := roundUpPow2Loop n fuel 1

/-- The constructor: every cell starts with its own index. -/
def new [Inhabited α] (fuel capacity : Nat) : Option (Ring α) :=
  (roundUpPow2 fuel capacity).map fun size =>
    { buf := (List.range size).map fun i => ⟨i, default⟩
      mask := sizeT (size + (2 ^ 64 - 1)) }

/-- The retry loop of `try_push` and `try_pop`: look at the cell of `pos`, claim it when its
    number is the one wanted, give up when it is behind, and start again from the current
    `position` when it is ahead or another thread was first. -/
def claimLoop (q : Ring α) (position : Nat) (wanted : Nat → Nat) :
    Nat → Nat → Option (Option Nat)
  | 0, _ => none
  | fuel + 1, pos =>
      match q.buf[pos &&& q.mask]? with
      | none => none
      | some cell =>
          if signedDif cell.seq (wanted pos) = 0 then
            -- the compare-and-swap
            if position = pos then some (some pos) else claimLoop q position wanted fuel position
          else if signedDif cell.seq (wanted pos) < 0 then some none
          else claimLoop q position wanted fuel position

def tryPush (fuel : Nat) (q : Ring α) (x : α) : Option (Ring α × Bool) :=
  match claimLoop q q.enqueuePos id fuel q.enqueuePos with
  | none => none
  | some none => some (q, false)
  | some (some pos) =>
      some ({ q with
        enqueuePos := sizeT (pos + 1)
        buf := q.buf.set (pos &&& q.mask) ⟨sizeT (pos + 1), x⟩ }, true)

def tryPop (fuel : Nat) (q : Ring α) : Option (Ring α × Option α) :=
  match claimLoop q q.dequeuePos (fun pos => sizeT (pos + 1)) fuel q.dequeuePos with
  | none => none
  | some none => some (q, none)
  | some (some pos) =>
      match q.buf[pos &&& q.mask]? with
      | none => none
      | some cell =>
          some ({ q with
            dequeuePos := sizeT (pos + 1)
            buf := q.buf.set (pos &&& q.mask) ⟨sizeT (pos + q.mask + 1), cell.data⟩ },
            some cell.data)

def capacity (q : Ring α) : Nat := q.buf.length

/-- One complete call, with its reply. -/
def step (fuel : Nat) (q : Ring α) : Call α → Option (Ring α × List (Reply α))
  | .push x => (tryPush fuel q x).map fun r => (r.1, [.pushed r.2])
  | .pop => (tryPop fuel q).map fun r => (r.1, [.popped r.2])

/-! ### The size of the ring -/

theorem roundUpPow2Loop_of_le {n p : Nat} (fuel : Nat) (hle : n ≤ p) :
    roundUpPow2Loop n (fuel + 1) p = some p := if_neg (Nat.not_lt.mpr hle)

theorem roundUpPow2Loop_of_lt {n p : Nat} (fuel : Nat) (hlt : p < n) :
    roundUpPow2Loop n (fuel + 1) p = roundUpPow2Loop n fuel (sizeT (p <<< 1)) := if_pos hlt

theorem sizeT_double {i : Nat} (hi : i < 63) : sizeT (2 ^ i <<< 1) = 2 ^ (i + 1) := by
  unfold sizeT
  rw [Nat.shiftLeft_eq, ← Nat.pow_add]
  exact Nat.mod_eq_of_lt (Nat.pow_lt_pow_right (by decide) (by omega))

/-- Below `2 ^ 63` the loop stops at a power of two that is large enough. -/
theorem roundUpPow2Loop_stops {n : Nat} (hn : n ≤ 2 ^ 63) (left i : Nat) (hi : i + left = 63) :
    ∃ k, i ≤ k ∧ k ≤ 63 ∧ (2 ^ i < n → i < k) ∧
      roundUpPow2Loop n (left + 1) (2 ^ i) = some (2 ^ k) := by
  induction left generalizing i with
  | zero =>
      cases hi
      exact ⟨63, Nat.le_refl _, Nat.le_refl _, fun hlt => absurd hlt (Nat.not_lt.mpr hn),
        roundUpPow2Loop_of_le 0 hn⟩
  | succ left ih =>
      rcases Nat.lt_or_ge (2 ^ i) n with hlt | hge
      · obtain ⟨k, hik, hk, -, hloop⟩ := ih (i + 1) (by omega)
        refine ⟨k, by omega, hk, fun _ => hik, ?_⟩
        rw [roundUpPow2Loop_of_lt _ hlt, sizeT_double (by omega), hloop]
      · exact ⟨i, Nat.le_refl _, by omega, fun hlt => absurd hlt (Nat.not_lt.mpr hge),
          roundUpPow2Loop_of_le _ hge⟩

/-- Past `2 ^ 63` the doubling overflows to zero and goes on for ever. -/
theorem roundUpPow2Loop_zero {n : Nat} (hn : 0 < n) (fuel : Nat) :
    roundUpPow2Loop n fuel 0 = none := by
  induction fuel with
  | zero => rfl
  | succ fuel ih => rw [roundUpPow2Loop_of_lt fuel hn]; exact ih

theorem roundUpPow2Loop_never {n : Nat} (hn : 2 ^ 63 < n) (fuel i : Nat) (hi : i ≤ 63) :
    roundUpPow2Loop n fuel (2 ^ i) = none := by
  induction fuel generalizing i with
  | zero => rfl
  | succ fuel ih =>
      have hlt : 2 ^ i < n := (Nat.pow_le_pow_right (by decide) hi).trans_lt hn
      rw [roundUpPow2Loop_of_lt fuel hlt]
      rcases Nat.lt_or_eq_of_le hi with hsmall | rfl
      · rw [sizeT_double hsmall]
        exact ih (i + 1) hsmall
      · exact roundUpPow2Loop_zero (by omega) fuel

theorem roundUpPow2_stops {n : Nat} (hn : n ≤ 2 ^ 63) :
    ∃ k, k ≤ 63 ∧ (1 < n → 0 < k) ∧ roundUpPow2 64 n = some (2 ^ k) := by
  obtain ⟨k, -, hk, hpos, hloop⟩ := roundUpPow2Loop_stops hn 63 0 rfl
  exact ⟨k, hk, hpos, hloop⟩

theorem roundUpPow2_never {n : Nat} (hn : 2 ^ 63 < n) (fuel : Nat) : roundUpPow2 fuel n = none :=
  roundUpPow2Loop_never hn fuel 0 (by omega)

/-! ### Positions and cells -/

theorem and_mask {k p : Nat} (hk : k ≤ 64) : sizeT p &&& (2 ^ k - 1) = p % 2 ^ k := by
  unfold sizeT
  rw [Nat.and_two_pow_sub_one_eq_mod, Nat.mod_mod_of_dvd _ (Nat.pow_dvd_pow 2 hk)]

theorem sizeT_sizeT_add (p m : Nat) : sizeT (sizeT p + m) = sizeT (p + m) :=
  Nat.mod_add_mod p (2 ^ 64) m

/-- The difference of two wrapped positions is their true difference, wrapped. -/
theorem signedDif_sizeT (a b : Nat) :
    signedDif (sizeT a) (sizeT b) = Int.bmod ((a : Int) - b) (2 ^ 64) := by
  unfold signedDif intptr sizeT
  rw [Int.sub_bmod_bmod, Int.bmod_sub_bmod]
  push_cast
  exact (Int.emod_sub_bmod _ _).trans (Int.sub_emod_bmod _ _)

theorem signedDif_self (a : Nat) : signedDif (sizeT a) (sizeT a) = 0 := by
  rw [signedDif_sizeT, Int.sub_self]
  exact Int.zero_bmod

theorem signedDif_neg {a b : Nat} (hlt : a < b) (hle : b ≤ a + 2 ^ 63) :
    signedDif (sizeT a) (sizeT b) < 0 := by
  have hdif : Int.bmod ((a : Int) - b) (2 ^ 64) = (a : Int) - b := by
    rw [Int.bmod_eq_iff (by decide)]
    omega
  rw [signedDif_sizeT, hdif]
  omega

/-- Two positions less than a turn apart have different cells. -/
theorem index_ne {n first i j : Nat} (hi : i < n) (hj : j < n) (hij : i ≠ j) :
    (first + i) % n ≠ (first + j) % n := by
  intro hmod
  have hwindow : ∀ m, m < n → first + m ∈ Finset.Ico first (first + n) :=
    fun m hm => Finset.mem_Ico.mpr (by omega)
  have hpos : first + i = first + j := Nat.mod_injOn_Ico first n
    (Finset.mem_coe.mpr (hwindow i hi)) (Finset.mem_coe.mpr (hwindow j hj)) hmod
  exact hij (Nat.add_left_cancel hpos)

section Claim

variable {q : Ring α} (wanted : Nat → Nat) {pos : Nat} {cell : Cell α}

theorem claimLoop_claims (fuel : Nat) (hcell : q.buf[pos &&& q.mask]? = some cell)
    (hdif : signedDif cell.seq (wanted pos) = 0) :
    claimLoop q pos wanted (fuel + 1) pos = some (some pos) := by
  simp only [claimLoop, hcell, hdif, if_true]

theorem claimLoop_gives_up (fuel : Nat) (hcell : q.buf[pos &&& q.mask]? = some cell)
    (hdif : signedDif cell.seq (wanted pos) < 0) :
    claimLoop q pos wanted (fuel + 1) pos = some none := by
  simp only [claimLoop, hcell, hdif, if_true, if_neg (Int.ne_of_lt hdif)]

end Claim

theorem tryPush_claims {q : Ring α} {cell : Cell α} (fuel : Nat) (x : α)
    (hcell : q.buf[q.enqueuePos &&& q.mask]? = some cell)
    (hdif : signedDif cell.seq q.enqueuePos = 0) :
    tryPush (fuel + 1) q x = some ({ q with
      enqueuePos := sizeT (q.enqueuePos + 1)
      buf := q.buf.set (q.enqueuePos &&& q.mask) ⟨sizeT (q.enqueuePos + 1), x⟩ }, true) := by
  unfold tryPush
  rw [claimLoop_claims id fuel hcell hdif]

theorem tryPop_claims {q : Ring α} {cell : Cell α} (fuel : Nat)
    (hcell : q.buf[q.dequeuePos &&& q.mask]? = some cell)
    (hdif : signedDif cell.seq (sizeT (q.dequeuePos + 1)) = 0) :
    tryPop (fuel + 1) q = some ({ q with
      dequeuePos := sizeT (q.dequeuePos + 1)
      buf := q.buf.set (q.dequeuePos &&& q.mask)
        ⟨sizeT (q.dequeuePos + q.mask + 1), cell.data⟩ }, some cell.data) := by
  unfold tryPop
  rw [claimLoop_claims (fun pos => sizeT (pos + 1)) fuel hcell hdif]
  simp only [hcell]

/-! ### The ring holds a queue -/

/-- The ring of `2 ^ k` cells holds `held`, the oldest item at position `first`: the cells of what
    is held are published, the others are free for the next lap. -/
structure Represents (k first : Nat) (held : List α) (q : Ring α) : Prop where
  length : q.buf.length = 2 ^ k
  mask : q.mask = 2 ^ k - 1
  enqueuePos : q.enqueuePos = sizeT (first + held.length)
  dequeuePos : q.dequeuePos = sizeT first
  fits : held.length ≤ 2 ^ k
  published : ∀ i x, held[i]? = some x →
    q.buf[(first + i) % 2 ^ k]? = some ⟨sizeT (first + i + 1), x⟩
  free : ∀ i, held.length ≤ i → i < 2 ^ k →
    ∃ x, q.buf[(first + i) % 2 ^ k]? = some ⟨sizeT (first + i), x⟩

section Calls

variable {k first : Nat} {held : List α} {q : Ring α}

theorem new_represents [Inhabited α] {fuel capacity : Nat} (hk : k ≤ 63)
    (hsize : roundUpPow2 fuel capacity = some (2 ^ k)) :
    ∃ q : Ring α, new fuel capacity = some q ∧ Represents k 0 [] q := by
  refine ⟨_, congrArg (Option.map _) hsize, ?_⟩
  have hpos : 0 < 2 ^ k := Nat.two_pow_pos k
  have hlt : 2 ^ k < 2 ^ 64 := Nat.pow_lt_pow_right (by decide) (by omega)
  constructor
  case length => simp
  case mask =>
    have hwrap : 2 ^ k + (2 ^ 64 - 1) = (2 ^ k - 1) + 2 ^ 64 := by omega
    show sizeT (2 ^ k + (2 ^ 64 - 1)) = 2 ^ k - 1
    unfold sizeT
    rw [hwrap, Nat.add_mod_right]
    exact Nat.mod_eq_of_lt (by omega)
  case enqueuePos => rfl
  case dequeuePos => rfl
  case fits => exact Nat.zero_le _
  case published => intro i x hget; cases hget
  case free =>
    intro i _ hi
    refine ⟨default, ?_⟩
    have hseq : sizeT (0 + i) = i := by
      rw [Nat.zero_add]
      exact Nat.mod_eq_of_lt (by omega)
    have hindex : (0 + i) % 2 ^ k = i := by rw [Nat.zero_add, Nat.mod_eq_of_lt hi]
    rw [hindex, hseq, List.getElem?_map, List.getElem?_range hi]
    rfl

/-- A write to the cell of one position. -/
theorem Represents.getElem?_set_self (h : Represents k first held q) (cell : Cell α) (j : Nat) :
    (q.buf.set ((first + j) % 2 ^ k) cell)[(first + j) % 2 ^ k]? = some cell := by
  have hin : (first + j) % 2 ^ k < q.buf.length := by
    rw [h.length]
    exact Nat.mod_lt _ (Nat.two_pow_pos k)
  exact List.getElem?_set_self hin

/-- It leaves the cells of the other positions of the same turn. -/
theorem getElem?_set_other (buf : List (Cell α)) (cell : Cell α) {i j : Nat} (hj : j < 2 ^ k)
    (hi : i < 2 ^ k) (hne : i ≠ j) :
    (buf.set ((first + j) % 2 ^ k) cell)[(first + i) % 2 ^ k]? = buf[(first + i) % 2 ^ k]? :=
  List.getElem?_set_ne (index_ne hj hi hne.symm)

/-- A full ring: the cell of the next push still holds the oldest item. -/
theorem Represents.tryPush_of_full (h : Represents k first held q) (fuel : Nat) (hpos : 0 < k)
    (hk : k ≤ 63) (x : α) (hfull : held.length = 2 ^ k) :
    tryPush (fuel + 1) q x = some (q, false) := by
  have hturn : 1 < 2 ^ k := Nat.one_lt_two_pow (by omega)
  have hhalf : 2 ^ k ≤ 2 ^ 63 := Nat.pow_le_pow_right (by decide) hk
  obtain ⟨y, hy⟩ : ∃ y, held[0]? = some y :=
    ⟨_, List.getElem?_eq_getElem (by omega)⟩
  have hcell : q.buf[q.enqueuePos &&& q.mask]? = some ⟨sizeT (first + 1), y⟩ := by
    have hindex : (first + held.length) % 2 ^ k = (first + 0) % 2 ^ k := by
      rw [hfull, Nat.add_mod_right, Nat.add_zero]
    rw [h.enqueuePos, h.mask, and_mask (by omega), hindex]
    exact h.published 0 y hy
  have hbehind : signedDif (sizeT (first + 1)) (id q.enqueuePos) < 0 := by
    rw [id, h.enqueuePos]
    exact signedDif_neg (by omega) (by omega)
  unfold tryPush
  rw [claimLoop_gives_up id fuel hcell hbehind]

/-- Where a cell is free, a push claims it. -/
theorem Represents.tryPush_of_lt (h : Represents k first held q) (fuel : Nat) (hk : k ≤ 63) (x : α)
    (hlt : held.length < 2 ^ k) :
    ∃ q', tryPush (fuel + 1) q x = some (q', true) ∧ Represents k first (held ++ [x]) q' := by
  obtain ⟨y, hy⟩ := h.free held.length (Nat.le_refl _) hlt
  have hindex : q.enqueuePos &&& q.mask = (first + held.length) % 2 ^ k := by
    rw [h.enqueuePos, h.mask, and_mask (by omega)]
  have hcell : q.buf[q.enqueuePos &&& q.mask]? = some ⟨sizeT (first + held.length), y⟩ := by
    rw [hindex, hy]
  have hmatch : signedDif (sizeT (first + held.length)) q.enqueuePos = 0 := by
    rw [h.enqueuePos]
    exact signedDif_self _
  have hnext : sizeT (q.enqueuePos + 1) = sizeT (first + held.length + 1) := by
    rw [h.enqueuePos, sizeT_sizeT_add]
  refine ⟨_, tryPush_claims fuel x hcell hmatch, ?_⟩
  rw [hindex, hnext]
  constructor
  case length => exact (List.length_set ..).trans h.length
  case mask => exact h.mask
  case enqueuePos =>
    rw [List.length_append]
    rfl
  case dequeuePos => exact h.dequeuePos
  case fits => rw [List.length_append]; exact hlt
  case published =>
    intro i z hget
    rcases Nat.lt_trichotomy i held.length with hi | rfl | hi
    · rw [List.getElem?_append_left hi] at hget
      exact (getElem?_set_other q.buf _ hlt (by omega) (by omega)).trans (h.published i z hget)
    · rw [List.getElem?_append_right (Nat.le_refl _), Nat.sub_self] at hget
      cases hget
      exact h.getElem?_set_self _ held.length
    · rw [List.getElem?_eq_none (by rw [List.length_append]; exact hi)] at hget
      cases hget
  case free =>
    intro i hge hi
    rw [List.length_append] at hge
    obtain ⟨z, hz⟩ := h.free i (Nat.le_of_succ_le hge) hi
    exact ⟨z, (getElem?_set_other q.buf _ hlt hi (Nat.ne_of_gt hge)).trans hz⟩

theorem Represents.tryPop_of_nil (h : Represents k first ([] : List α) q) (fuel : Nat)
    (hk : k ≤ 63) :
    tryPop (fuel + 1) q = some (q, none) := by
  obtain ⟨y, hy⟩ := h.free 0 (Nat.le_refl _) (Nat.two_pow_pos k)
  have hcell : q.buf[q.dequeuePos &&& q.mask]? = some ⟨sizeT (first + 0), y⟩ := by
    rw [h.dequeuePos, h.mask, and_mask (by omega), ← hy, Nat.add_zero]
  have hbehind : signedDif (sizeT (first + 0)) (sizeT (q.dequeuePos + 1)) < 0 := by
    rw [h.dequeuePos, sizeT_sizeT_add]
    exact signedDif_neg (by omega) (by omega)
  unfold tryPop
  rw [claimLoop_gives_up (fun pos => sizeT (pos + 1)) fuel hcell hbehind]

theorem Represents.tryPop_of_cons {x : α} {rest : List α}
    (h : Represents k first (x :: rest) q) (fuel : Nat) (hk : k ≤ 63) :
    ∃ q', tryPop (fuel + 1) q = some (q', some x) ∧ Represents k (first + 1) rest q' := by
  have hturn : 0 < 2 ^ k := Nat.two_pow_pos k
  have hfits := h.fits
  rw [List.length_cons] at hfits
  have hindex : q.dequeuePos &&& q.mask = (first + 0) % 2 ^ k := by
    rw [h.dequeuePos, h.mask, and_mask (by omega), Nat.add_zero]
  have hcell : q.buf[q.dequeuePos &&& q.mask]? = some ⟨sizeT (first + 0 + 1), x⟩ := by
    rw [hindex]
    exact h.published 0 x rfl
  have hmatch : signedDif (sizeT (first + 0 + 1)) (sizeT (q.dequeuePos + 1)) = 0 := by
    rw [h.dequeuePos, sizeT_sizeT_add]
    exact signedDif_self _
  have hlap : sizeT (q.dequeuePos + q.mask + 1) = sizeT (first + 2 ^ k) := by
    have hsum : q.dequeuePos + q.mask + 1 = sizeT first + 2 ^ k := by
      rw [h.dequeuePos, h.mask]
      omega
    rw [hsum, sizeT_sizeT_add]
  have hother : ∀ i, i + 1 < 2 ^ k →
      (q.buf.set ((first + 0) % 2 ^ k) ⟨sizeT (first + 2 ^ k), x⟩)[(first + (i + 1)) % 2 ^ k]? =
        q.buf[(first + (i + 1)) % 2 ^ k]? :=
    fun i hi => getElem?_set_other q.buf _ hturn hi (Nat.succ_ne_zero i)
  refine ⟨_, tryPop_claims fuel hcell hmatch, ?_⟩
  rw [hindex, hlap]
  constructor
  case length => exact (List.length_set ..).trans h.length
  case mask => exact h.mask
  case enqueuePos =>
    rw [h.enqueuePos, List.length_cons]
    exact congrArg sizeT (by omega)
  case dequeuePos =>
    show sizeT (q.dequeuePos + 1) = _
    rw [h.dequeuePos, sizeT_sizeT_add]
  case fits => omega
  case published =>
    intro i z hget
    have hi : i < rest.length := (List.getElem?_eq_some_iff.mp hget).1
    rw [Nat.add_assoc first 1 i, Nat.add_comm 1 i]
    exact (hother i (by omega)).trans (h.published (i + 1) z hget)
  case free =>
    intro i hge hi
    rw [Nat.add_assoc first 1 i, Nat.add_comm 1 i]
    rcases Nat.lt_or_eq_of_le (show i + 1 ≤ 2 ^ k from hi) with hbefore | hlast
    · obtain ⟨z, hz⟩ := h.free (i + 1) (Nat.succ_le_succ hge) hbefore
      exact ⟨z, (hother i hbefore).trans hz⟩
    · -- the cell just popped is the last one of the next lap
      refine ⟨x, ?_⟩
      have hsame : (first + (i + 1)) % 2 ^ k = (first + 0) % 2 ^ k := by
        rw [hlast, Nat.add_mod_right, Nat.add_zero]
      rw [hsame, hlast]
      exact h.getElem?_set_self _ 0

/-- **Every call on a ring of at least two cells** returns, answers as the queue does, and leaves
    a ring that holds what the queue then holds. -/
theorem Represents.step_simulates (h : Represents k first held q) (fuel : Nat) (hpos : 0 < k)
    (hk : k ≤ 63) (c : Call α) {held' : List α} {out : List (Reply α)}
    (hstep : BoundedFifo.step (2 ^ k) held c = some (held', out)) :
    ∃ q' first', step (fuel + 1) q c = some (q', out) ∧ Represents k first' held' q' := by
  cases c with
  | push x =>
      rcases Nat.lt_or_ge held.length (2 ^ k) with hlt | hfull
      · cases (step_push_of_lt x hlt).symm.trans hstep
        obtain ⟨q', hpush, h'⟩ := h.tryPush_of_lt fuel hk x hlt
        exact ⟨q', first, congrArg (Option.map _) hpush, h'⟩
      · cases (step_push_of_le x hfull).symm.trans hstep
        have hpush := h.tryPush_of_full fuel hpos hk x (Nat.le_antisymm h.fits hfull)
        exact ⟨q, first, congrArg (Option.map _) hpush, h⟩
  | pop =>
      cases held with
      | nil =>
          cases hstep
          exact ⟨q, first, congrArg (Option.map _) (h.tryPop_of_nil fuel hk), h⟩
      | cons x rest =>
          cases hstep
          obtain ⟨q', hpop, h'⟩ := h.tryPop_of_cons fuel hk
          exact ⟨q', first + 1, congrArg (Option.map _) hpop, h'⟩

end Calls

/-! ### The bounded queue -/

/-- A mailbox made with this argument is a bounded queue of its `capacity()`: every call of every
    sequence returns, its replies are those of the queue, and what was accepted is what was
    returned followed by what is held. -/
def RefinesFifo (α : Type*) [Inhabited α] (argument : Nat) : Prop :=
  ∃ fuel, ∃ q : Ring α, new fuel argument = some q ∧ ∀ calls : List (Call α),
    ∃ q' replies held, Machine.run (step fuel) q calls = some (q', replies) ∧
      Machine.run (BoundedFifo.step (capacity q)) [] calls = some (held, replies) ∧
      accepted calls replies = returned replies ++ held

theorem refinesFifo_of_le [Inhabited α] {argument : Nat} (htwo : 2 ≤ argument)
    (hle : argument ≤ 2 ^ 63) : RefinesFifo α argument := by
  obtain ⟨k, hk, hpos, hsize⟩ := roundUpPow2_stops hle
  obtain ⟨q, hnew, hq⟩ := new_represents (α := α) hk hsize
  refine ⟨64, q, hnew, fun calls => ?_⟩
  have hcapacity : capacity q = 2 ^ k := hq.length
  have hsim : ∀ (q : Ring α) (held : List α) (c : Call α) held' out,
      (∃ first, Represents k first held q) → True → BoundedFifo.step (2 ^ k) held c =
        some (held', out) →
      ∃ q', step 64 q c = some (q', out) ∧ ∃ first, Represents k first held' q' := by
    rintro q held c held' out ⟨first, h⟩ - hstep
    obtain ⟨q', first', hq', h'⟩ := h.step_simulates 63 (hpos htwo) hk c hstep
    exact ⟨q', hq', first', h'⟩
  obtain ⟨held, replies, hfifo⟩ :=
    Machine.exists_run (BoundedFifo.step_total (capacity q)) ([] : List α) calls
  obtain ⟨q', hrun, -⟩ := Machine.run_simulation
    (R := fun q held => ∃ first, Represents k first held q) (P := fun _ _ => True)
    ⟨0, hq⟩ hsim (Machine.allSteps_true _ _) (hcapacity ▸ hfifo)
  exact ⟨q', replies, held, hrun, hfifo, accepted_eq_returned_append hfifo⟩

/-- A ring of one cell takes a second push over the first. -/
theorem not_refinesFifo_of_lt [Inhabited α] {argument : Nat} (hlt : argument < 2) :
    ¬ RefinesFifo α argument := by
  rintro ⟨fuel, q, hnew, hcalls⟩
  cases fuel with
  | zero => cases hnew
  | succ fuel =>
      have hsize : roundUpPow2 (fuel + 1) argument = some 1 :=
        roundUpPow2Loop_of_le fuel (Nat.le_of_lt_succ hlt)
      obtain ⟨q₀, hnew₀, hq⟩ := new_represents (α := α) (k := 0) (Nat.zero_le _) hsize
      cases hnew₀.symm.trans hnew
      obtain ⟨q', replies, held, hrun, hfifo, -⟩ := hcalls [.push default, .push default]
      obtain ⟨q₁, hfirst, h₁⟩ := hq.tryPush_of_lt fuel (by omega) default (by simp)
      have hnext : q₁.enqueuePos = sizeT (0 + 0 + 1) := h₁.enqueuePos
      have hcell : q₁.buf[q₁.enqueuePos &&& q₁.mask]? = some ⟨sizeT (0 + 0 + 1), default⟩ := by
        have hindex : (0 + 0 + 1) % 2 ^ 0 = (0 + 0) % 2 ^ 0 := rfl
        rw [h₁.mask, hnext, and_mask (by omega), hindex]
        exact h₁.published 0 default rfl
      have hmatch : signedDif (sizeT (0 + 0 + 1)) q₁.enqueuePos = 0 := by
        rw [hnext]
        exact signedDif_self _
      have hsecond := tryPush_claims fuel (default : α) hcell hmatch
      have hcapacity : capacity q = 1 := hq.length
      obtain ⟨_, _, _, hs₁, hr₁, rfl⟩ := Machine.run_cons.mp hrun
      cases (congrArg (Option.map _) hfirst).symm.trans hs₁
      obtain ⟨_, _, _, hs₂, hr₂, rfl⟩ := Machine.run_cons.mp hr₁
      cases (congrArg (Option.map _) hsecond).symm.trans hs₂
      rw [hcapacity] at hfifo
      cases hr₂
      cases hfifo

/-- **What the mailbox is for, exactly**: a bounded queue for every argument from 2 to `2 ^ 63`,
    and for no other. -/
theorem refinesFifo_iff (α : Type*) [Inhabited α] (argument : Nat) :
    RefinesFifo α argument ↔ 2 ≤ argument ∧ argument ≤ 2 ^ 63 := by
  constructor
  · intro hrefines
    refine ⟨Nat.not_lt.mp fun hlt => not_refinesFifo_of_lt hlt hrefines,
      Nat.not_lt.mp fun hlarge => ?_⟩
    obtain ⟨fuel, q, hnew, -⟩ := hrefines
    unfold new at hnew
    rw [roundUpPow2_never hlarge] at hnew
    cases hnew
  · rintro ⟨htwo, hle⟩
    exact refinesFifo_of_le htwo hle

/-- A mailbox of one cell says that it took both of two pushes. -/
theorem not_refinesFifo_one : ¬ RefinesFifo Nat 1 := not_refinesFifo_of_lt (by decide)

end KasparHft.LockFreeMPSC
