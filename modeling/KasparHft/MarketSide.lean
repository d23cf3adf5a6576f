import Mathlib.Data.Int.Notation
import Mathlib.Tactic.Common

/-!
# Sides

The two sides of a market, `en::bs::BUY` and `en::bs::SEL`, shared by the fill slate,
the books, the order manager and the positions.
-/

namespace KasparHft

/-- A side of the market. -/
inductive Side where
  | buy
  | sel
deriving DecidableEq, Repr

/-- The other side. -/
def Side.other : Side → Side
  | .buy => .sel
  | .sel => .buy

/-- A buy counts up, a sell counts down. -/
def Side.sign : Side → ℤ
  | .buy => 1
  | .sel => -1

@[simp] theorem Side.sign_buy : Side.buy.sign = 1 := rfl

@[simp] theorem Side.sign_sel : Side.sel.sign = -1 := rfl

theorem Side.sign_of_ne {a b : Side} (h : a ≠ b) : a.sign = -b.sign := by
  cases a <;> cases b <;> simp_all

end KasparHft
