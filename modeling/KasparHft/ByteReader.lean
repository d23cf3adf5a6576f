import KasparHft.LittleEndian
import Mathlib.Data.List.Basic
import Mathlib.Data.List.Range
import Mathlib.Order.Basic

/-!
# Readers of bytes

A reader takes bytes from memory at a cursor, and may not take those at `stop` or behind it.
The addresses it takes them from are noted, so that it can be said which ones these are: a
`Reader` carries the proof that its cursor neither goes back nor passes `stop`, and that it reads
only what the cursor passes over, once and in order.

`Reads r bs a` says that `r` makes `a` of the bytes `bs`, whatever stands behind them; there is
one rule for each way to make a reader.
-/

namespace ByteReader

/-- Where a reader is, and the addresses that were read. -/
structure Cursor where
  ptr : ℕ
  reads : List ℕ
deriving DecidableEq, Repr

/-- From one cursor to another: not back, not past `stop`, and what was read lies between. -/
structure Advances (stop : ℕ) (c c' : Cursor) : Prop where
  le : c.ptr ≤ c'.ptr
  within : c'.ptr ≤ stop
  reads : ∃ new, c'.reads = c.reads ++ new ∧ (∀ a ∈ new, c.ptr ≤ a ∧ a < c'.ptr) ∧
    new.Pairwise (· < ·)

theorem Advances.refl {stop : ℕ} {c : Cursor} (h : c.ptr ≤ stop) : Advances stop c c where
  le := le_rfl
  within := h
  reads := ⟨[], by simp⟩

theorem Advances.trans {stop : ℕ} {c₁ c₂ c₃ : Cursor} (h : Advances stop c₁ c₂)
    (h' : Advances stop c₂ c₃) : Advances stop c₁ c₃ := by
  obtain ⟨new, hreads, hbetween, hordered⟩ := h.reads
  obtain ⟨new', hreads', hbetween', hordered'⟩ := h'.reads
  have hle := h.le
  have hle' := h'.le
  refine ⟨hle.trans hle', h'.within, new ++ new', ?_, ?_, ?_⟩
  · rw [hreads', hreads, List.append_assoc]
  · intro a ha
    rcases List.mem_append.mp ha with ha | ha
    · have := hbetween a ha
      omega
    · have := hbetween' a ha
      omega
  · refine List.pairwise_append.mpr ⟨hordered, hordered', fun a ha b hb => ?_⟩
    -- the second part begins where the first one ends
    exact (hbetween a ha).2.trans_le (hbetween' b hb).1

/-- A reader of the memory before `stop`. -/
structure Reader (α : Type) where
  run : (ℕ → UInt8) → ℕ → Cursor → α × Cursor
  advances : ∀ mem stop c, c.ptr ≤ stop → Advances stop c (run mem stop c).2

variable {α β : Type}

instance : Monad Reader where
  pure a := ⟨fun _ _ c => (a, c), fun _ _ _ h => .refl h⟩
  bind x f :=
    { run := fun mem stop c =>
        let r := x.run mem stop c
        (f r.1).run mem stop r.2
      advances := fun mem stop c h =>
        (x.advances mem stop c h).trans
          ((f _).advances mem stop _ (x.advances mem stop c h).within) }

theorem advances_range {stop n : ℕ} {c : Cursor} (h : c.ptr + n ≤ stop) :
    Advances stop c ⟨c.ptr + n, c.reads ++ List.range' c.ptr n⟩ where
  le := Nat.le_add_right _ _
  within := h
  reads := by
    refine ⟨List.range' c.ptr n, rfl, fun a ha => ?_, List.pairwise_lt_range'⟩
    exact List.mem_range'_1.mp ha

/-- The next `n` bytes, if there are so many. -/
def take (n : ℕ) : Reader (Option (List UInt8)) where
  run mem stop c :=
    if c.ptr + n > stop then (none, c)
    else (some ((List.range' c.ptr n).map mem), ⟨c.ptr + n, c.reads ++ List.range' c.ptr n⟩)
  advances := by
    intro mem stop c h
    split
    next => exact .refl h
    next hfits => exact advances_range (not_lt.mp hfits)

/-- `r`, if anything is left. -/
def ifLeft (d : α) (r : Reader α) : Reader α where
  run mem stop c := if c.ptr < stop then r.run mem stop c else (d, c)
  advances := by
    intro mem stop c h
    split
    next => exact r.advances mem stop c h
    next => exact .refl h

/-- `r` up to `n` times, while anything is left. -/
def many (r : Reader α) : ℕ → Reader (List α)
  | 0 => pure []
  | n + 1 => ifLeft [] (List.cons <$> r <*> many r n)

/-- A number of `n` bytes, the least significant first; 0 when they are not there. -/
def number (n : ℕ) : Reader ℕ := (fun bs => bs.elim 0 LittleEndian.ofBytes) <$> take n

/-! ### What a reader makes of bytes -/

/-- `r` makes `a` of `bs`, and stops behind them. -/
def Reads (r : Reader α) (bs : List UInt8) (a : α) : Prop :=
  ∀ mem stop c, (List.range' c.ptr bs.length).map mem = bs → c.ptr + bs.length ≤ stop →
    (r.run mem stop c).1 = a ∧ (r.run mem stop c).2.ptr = c.ptr + bs.length

theorem reads_pure (a : α) : Reads (pure a) [] a := fun _ _ _ _ _ => ⟨rfl, rfl⟩

theorem Reads.bind {r : Reader α} {f : α → Reader β} {bs bs' : List UInt8} {a : α} {b : β}
    (h : Reads r bs a) (h' : Reads (f a) bs' b) : Reads (r >>= f) (bs ++ bs') b := by
  intro mem stop c hmem hfits
  rw [List.length_append] at hfits ⊢
  rw [List.length_append, List.range'_append_1.symm, List.map_append] at hmem
  obtain ⟨hfirst, hsecond⟩ := List.append_inj hmem (by simp)
  obtain ⟨hvalue, hptr⟩ := h mem stop c hfirst (by omega)
  rw [← hptr] at hsecond
  obtain ⟨hvalue', hptr'⟩ := h' mem stop _ hsecond (by omega)
  change ((f (r.run mem stop c).1).run mem stop (r.run mem stop c).2).1 = b ∧
    ((f (r.run mem stop c).1).run mem stop (r.run mem stop c).2).2.ptr = _
  rw [hvalue]
  exact ⟨hvalue', by omega⟩

theorem Reads.map {r : Reader α} {bs : List UInt8} {a : α} (h : Reads r bs a) (f : α → β) :
    Reads (f <$> r) bs (f a) := by
  have hbind := h.bind (reads_pure (f a)) (f := fun x => pure (f x))
  rwa [List.append_nil] at hbind

theorem Reads.seq {r : Reader (α → β)} {r' : Reader α} {bs bs' : List UInt8} {f : α → β} {a : α}
    (h : Reads r bs f) (h' : Reads r' bs' a) : Reads (r <*> r') (bs ++ bs') (f a) :=
  h.bind (h'.map f) (f := fun g => g <$> r')

theorem reads_take (bs : List UInt8) : Reads (take bs.length) bs (some bs) := by
  intro mem stop c hmem hfits
  change (ite _ _ _ : _ × Cursor).1 = _ ∧ (ite _ _ _ : _ × Cursor).2.ptr = _
  rw [if_neg (not_lt.mpr hfits), hmem]
  exact ⟨rfl, rfl⟩

theorem Reads.ifLeft {r : Reader α} {bs : List UInt8} {a : α} (h : Reads r bs a) (hne : bs ≠ [])
    (d : α) : Reads (ifLeft d r) bs a := by
  intro mem stop c hmem hfits
  have hpos := List.length_pos_iff.mpr hne
  change (ite _ _ _ : _ × Cursor).1 = _ ∧ (ite _ _ _ : _ × Cursor).2.ptr = _
  rw [if_pos (by omega)]
  exact h mem stop c hmem hfits

/-- **As many as were written are read**, as each of them is some bytes. -/
theorem reads_many {r : Reader α} {write : α → List UInt8} {xs : List α}
    (h : ∀ x ∈ xs, Reads r (write x) x) (hne : ∀ x, write x ≠ []) :
    Reads (many r xs.length) (xs.flatMap write) xs := by
  induction xs with
  | nil => exact reads_pure []
  | cons x xs ih =>
      obtain ⟨hx, hxs⟩ := List.forall_mem_cons.mp h
      rw [List.flatMap_cons]
      refine Reads.ifLeft ((hx.map List.cons).seq (ih hxs)) ?_ []
      simp [hne x]

theorem reads_number {n v : ℕ} (h : v < 256 ^ n) :
    Reads (number n) (LittleEndian.toBytes n v) v := by
  have htake := (reads_take (LittleEndian.toBytes n v)).map
    fun bs => bs.elim 0 LittleEndian.ofBytes
  rw [LittleEndian.length_toBytes] at htake
  change Reads (number n) _ (LittleEndian.ofBytes (LittleEndian.toBytes n v)) at htake
  rwa [LittleEndian.ofBytes_toBytes_of_lt h] at htake

end ByteReader
