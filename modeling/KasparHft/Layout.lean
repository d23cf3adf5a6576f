import KasparHft.LittleEndian
import Mathlib.Data.List.Basic
import Mathlib.Tactic.Common

/-!
# Packed layouts

How a value lies in memory when nothing is left between its parts: numbers as little-endian
bytes, arrays and tuples as their parts one behind another.  A `Layout` carries the proofs that
all its values are of one size and come back as they were.
-/

open LittleEndian

class Layout (α : Type) where
  size : ℕ
  write : α → List UInt8
  read : List UInt8 → α
  length_write : ∀ a, (write a).length = size
  read_write : ∀ a, read (write a) = a

namespace Layout

/-- A number of `n` bytes. -/
abbrev ofNat {α : Type} (n : ℕ) (toNat : α → ℕ) (ofNat : ℕ → α) (h : ∀ a, toNat a < 256 ^ n)
    (hback : ∀ a, ofNat (toNat a) = a) : Layout α where
  size := n
  write a := toBytes n (toNat a)
  read bs := ofNat (ofBytes bs)
  length_write a := length_toBytes n _
  read_write a := by rw [ofBytes_toBytes_of_lt (h a), hback]

instance : Layout UInt8 := ofNat 1 UInt8.toNat UInt8.ofNat UInt8.toNat_lt fun _ => UInt8.ofNat_toNat

instance : Layout UInt16 :=
  ofNat 2 UInt16.toNat UInt16.ofNat UInt16.toNat_lt fun _ => UInt16.ofNat_toNat

instance : Layout UInt32 :=
  ofNat 4 UInt32.toNat UInt32.ofNat UInt32.toNat_lt fun _ => UInt32.ofNat_toNat

instance : Layout UInt64 :=
  ofNat 8 UInt64.toNat UInt64.ofNat UInt64.toNat_lt fun _ => UInt64.ofNat_toNat

/-- A value that lies in memory as another does. -/
abbrev via {α β : Type} [Layout β] (f : α → β) (g : β → α) (h : ∀ a, g (f a) = a) : Layout α where
  size := size β
  write a := write (f a)
  read bs := g (read bs)
  length_write a := length_write (f a)
  read_write a := by rw [read_write, h]

instance : Layout Int8 := via Int8.toUInt8 UInt8.toInt8 fun _ => rfl

instance : Layout Int32 := via Int32.toUInt32 UInt32.toInt32 fun _ => rfl

instance : Layout Int64 := via Int64.toUInt64 UInt64.toInt64 fun _ => rfl

theorem ofBool_back (b : Bool) : ((if b then 1 else 0 : UInt8) != 0) = b := by
  cases b <;> rfl

instance : Layout Bool := via (fun b => if b then (1 : UInt8) else 0) (fun v => v != 0) ofBool_back

variable {α β : Type} [Layout α] [Layout β]

/-- A tuple: its first part, and the rest behind it. -/
instance : Layout (α × β) where
  size := size α + size β
  write p := write p.1 ++ write p.2
  read bs := (read (bs.take (size α)), read (bs.drop (size α)))
  length_write p := by rw [List.length_append, length_write, length_write]
  read_write p := by
    rw [List.take_left' (length_write p.1), List.drop_left' (length_write p.1), read_write,
      read_write]

theorem length_flatMap_write (l : List α) : (l.flatMap write).length = l.length * size α := by
  induction l with
  | nil => simp
  | cons a l ih =>
      rw [List.flatMap_cons, List.length_append, length_write, ih, List.length_cons, Nat.succ_mul,
        Nat.add_comm]

/-- The element of an array stands where those before it leave off. -/
theorem flatMap_write_getElem (l : List α) (i : ℕ) (h : i < l.length) :
    ((l.flatMap write).drop (i * size α)).take (size α) = write l[i] := by
  induction l generalizing i with
  | nil => simp at h
  | cons a l ih =>
      rw [List.flatMap_cons]
      cases i with
      | zero =>
          rw [Nat.zero_mul, List.drop_zero, List.take_left' (length_write a)]
          rfl
      | succ i =>
          have hdrop : (i + 1) * size α = (write a).length + i * size α := by
            rw [length_write, Nat.succ_mul, Nat.add_comm]
          rw [hdrop, List.drop_length_add_append, List.getElem_cons_succ]
          exact ih i (Nat.lt_of_succ_lt_succ h)

/-- An array: its elements one behind another. -/
instance (n : ℕ) : Layout (Vector α n) where
  size := n * size α
  write v := v.toList.flatMap write
  read bs := Vector.ofFn fun i => read ((bs.drop (i * size α)).take (size α))
  length_write v := by rw [length_flatMap_write, Vector.length_toList]
  read_write v := by
    ext i hi
    rw [Vector.getElem_ofFn, flatMap_write_getElem _ i (by rwa [Vector.length_toList]), read_write,
      Vector.getElem_toList]

end Layout
