import Mathlib.Algebra.Order.Field.Basic
import Mathlib.Data.Nat.Cast.Order.Ring
import Mathlib.Tactic.Linarith
import Mathlib.Tactic.Ring

/-!
# Time-weighted means of a step function

A value that changes at some instants is recorded as segments, each a stretch of time
and the value held over it.  Segments that follow one another without a gap cover the
time between their ends once (`Tiles.coversOnce`), and their integral over the length of
that time lies between any bounds of the values (`Tiles.mean_mem`).
-/

namespace TimeWeighted

/-- A value held from `start` until just before `stop`. -/
structure Segment (R : Type*) where
  start : ℕ
  stop : ℕ
  value : R
deriving DecidableEq

variable {R : Type*}

/-- The instant lies in the segment. -/
def Segment.Holds (g : Segment R) (t : ℕ) : Prop := g.start ≤ t ∧ t < g.stop

instance (g : Segment R) (t : ℕ) : Decidable (g.Holds t) :=
  inferInstanceAs (Decidable (_ ∧ _))

def Segment.length (g : Segment R) : ℕ := g.stop - g.start

/-- The same stretch of time with a function of the value. -/
def Segment.map {S : Type*} (f : R → S) (g : Segment R) : Segment S := ⟨g.start, g.stop, f g.value⟩

/-- Each instant from `a` until just before `b` lies in one segment, and no other instant lies in
    any. -/
def CoversOnce (a b : ℕ) (gs : List (Segment R)) : Prop :=
  ∀ t, gs.countP (fun g => g.Holds t) = if a ≤ t ∧ t < b then 1 else 0

/-- The segments follow one another from `a` to `b`, none of them empty. -/
def Tiles : ℕ → ℕ → List (Segment R) → Prop
  | a, b, [] => a = b
  | a, b, g :: gs => g.start = a ∧ a < g.stop ∧ Tiles g.stop b gs

/-! ### Following and covering -/

variable {a b c : ℕ} {g : Segment R} {gs hs : List (Segment R)}

theorem Tiles.refl (a : ℕ) : Tiles a a ([] : List (Segment R)) := rfl

theorem Tiles.le (h : Tiles a b gs) : a ≤ b := by
  induction gs generalizing a with
  | nil => exact Nat.le_of_eq h
  | cons g gs ih =>
      obtain ⟨-, hlt, hrest⟩ := h
      exact Nat.le_trans (Nat.le_of_lt hlt) (ih hrest)

theorem Tiles.append (hg : Tiles a b gs) (hh : Tiles b c hs) : Tiles a c (gs ++ hs) := by
  induction gs generalizing a with
  | nil =>
      cases hg
      exact hh
  | cons g gs ih => exact ⟨hg.1, hg.2.1, ih hg.2.2⟩

theorem Tiles.eq_nil (h : Tiles a a gs) : gs = [] := by
  cases gs with
  | nil => rfl
  | cons g gs =>
      have hle := h.2.2.le
      have hlt := h.2.1
      omega

theorem coversOnce_nil (h : b ≤ a) : CoversOnce a b ([] : List (Segment R)) := by
  intro t
  rw [List.countP_nil, if_neg (by omega)]

/-- One more segment from where the last one stopped. -/
theorem Tiles.concat (hg : Tiles a b gs) (hlt : b < c) (v : R) :
    Tiles a c (gs ++ [⟨b, c, v⟩]) :=
  hg.append ⟨rfl, hlt, rfl⟩

theorem Tiles.map {S : Type*} (f : R → S) (h : Tiles a b gs) : Tiles a b (gs.map (.map f)) := by
  induction gs generalizing a with
  | nil => exact h
  | cons g gs ih => exact ⟨h.1, h.2.1, ih h.2.2⟩

/-- **Following segments cover.**  Each instant lies in exactly one of them. -/
theorem Tiles.coversOnce (h : Tiles a b gs) : CoversOnce a b gs := by
  intro t
  induction gs generalizing a with
  | nil =>
      have hab : a = b := h
      exact coversOnce_nil (Nat.le_of_eq hab.symm) t
  | cons g gs ih =>
      obtain ⟨hstart, hlt, hrest⟩ := h
      have hle := hrest.le
      rw [List.countP_cons, ih hrest]
      by_cases hin : g.Holds t
      · obtain ⟨hfrom, hto⟩ := hin
        rw [if_neg (by omega), if_pos (decide_eq_true ⟨hfrom, hto⟩), if_pos (by omega)]
      · have hout : ¬ (g.start ≤ t ∧ t < g.stop) := hin
        rw [if_neg (show ¬ decide (g.Holds t) = true by simpa using hin)]
        by_cases hlater : g.stop ≤ t ∧ t < b
        · rw [if_pos hlater, if_pos (by omega)]
        · rw [if_neg hlater, if_neg (by omega)]

/-! ### Integrals -/

section Integrals

variable [Field R]

/-- Value times length, summed. -/
def integral (gs : List (Segment R)) : R := (gs.map fun g => g.value * (g.length : R)).sum

@[simp] theorem integral_nil : integral ([] : List (Segment R)) = 0 := rfl

@[simp] theorem integral_cons (g : Segment R) (gs : List (Segment R)) :
    integral (g :: gs) = g.value * (g.length : R) + integral gs := by
  simp only [integral, List.map_cons, List.sum_cons]

theorem integral_concat (gs : List (Segment R)) (g : Segment R) :
    integral (gs ++ [g]) = integral gs + g.value * (g.length : R) := by
  simp only [integral, List.map_append, List.sum_append, List.map_cons, List.map_nil,
    List.sum_cons, List.sum_nil, add_zero]

variable [LinearOrder R] [IsStrictOrderedRing R] {lo hi : R}

theorem Segment.integral_mem (hbounds : lo ≤ g.value ∧ g.value ≤ hi) :
    lo * (g.length : R) ≤ g.value * (g.length : R) ∧
      g.value * (g.length : R) ≤ hi * (g.length : R) :=
  ⟨mul_le_mul_of_nonneg_right hbounds.1 (Nat.cast_nonneg _),
    mul_le_mul_of_nonneg_right hbounds.2 (Nat.cast_nonneg _)⟩

theorem Tiles.integral_mem (h : Tiles a b gs) (hbounds : ∀ g ∈ gs, lo ≤ g.value ∧ g.value ≤ hi) :
    lo * ((b - a : ℕ) : R) ≤ integral gs ∧ integral gs ≤ hi * ((b - a : ℕ) : R) := by
  induction gs generalizing a with
  | nil =>
      cases h
      simp
  | cons g gs ih =>
      obtain ⟨hstart, hlt, hrest⟩ := h
      rw [List.forall_mem_cons] at hbounds
      have hhead := Segment.integral_mem hbounds.1
      have htail := ih hrest hbounds.2
      have hsplit : b - a = g.length + (b - g.stop) := by
        have hle := hrest.le
        unfold Segment.length
        omega
      rw [hsplit, Nat.cast_add, mul_add, mul_add, integral_cons]
      exact ⟨add_le_add hhead.1 htail.1, add_le_add hhead.2 htail.2⟩

/-- **The mean of a step function** lies between any bounds of its values. -/
theorem Tiles.mean_mem (h : Tiles a b gs) (hlt : a < b)
    (hbounds : ∀ g ∈ gs, lo ≤ g.value ∧ g.value ≤ hi) :
    lo ≤ integral gs / ((b - a : ℕ) : R) ∧ integral gs / ((b - a : ℕ) : R) ≤ hi := by
  have hspan : (0 : R) < ((b - a : ℕ) : R) := Nat.cast_pos.mpr (Nat.sub_pos_of_lt hlt)
  obtain ⟨hlo, hhi⟩ := h.integral_mem hbounds
  exact ⟨(le_div_iff₀ hspan).mpr hlo, (div_le_iff₀ hspan).mpr hhi⟩

end Integrals

end TimeWeighted
