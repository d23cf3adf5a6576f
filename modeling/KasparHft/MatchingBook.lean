import KasparHft.Machine
import KasparHft.MarketSide
import KasparHft.PriceTime

/-!
# What a matching engine is for

The requests that a matching engine takes, the events it answers with, and the book that it
stands for: two queues in price-time priority (`KasparHft.PriceTime`).  `Book.call` is what the
calls mean.  How the engine keeps the queues is another matter (`KasparHft.MatchingEngine`).

`Book.Sound` is what a book always is: each queue in order, no order twice, none without
quantity, and no bid at or above an ask.
-/

namespace KasparHft.MatchingEngine

open PriceTime

/-- An event produced by the book.  `H` is the handle of an originator. -/
inductive Event (H : Type) where
  | ack (receiver : H) (orderId restingQty : ℕ)
  | fill (receiver : H) (orderId : ℕ) (side : Side) (price qty leavesQty counterOrderId tradeId : ℕ)
  | canceled (receiver : H) (orderId canceledQty : ℕ)
  | replaced (receiver : H) (orderId newPrice newQty : ℕ)
  | rejected (receiver : H) (orderId : ℕ) (reason : String)
  | bbo (bid ask : Option (ℕ × ℕ))
deriving DecidableEq, Repr

/-- The calls on a book. -/
inductive Call (H : Type) where
  | place (orderId : ℕ) (side : Side) (price qty : ℕ) (who : H)
  | cancel (orderId : ℕ) (who : H)
  | replace (orderId newPrice newQty : ℕ) (who : H)
deriving DecidableEq, Repr

variable {H : Type}

abbrev Order (H : Type) := Maker ℕ ℕ H

/-! ### Prices -/

/-- Of two prices on a side the one that is matched first. -/
def better : Side → ℕ → ℕ → Prop
  | .buy, p, q => q < p
  | .sel, p, q => p < q

instance : (side : Side) → DecidableRel (better side)
  | .buy => fun p q => inferInstanceAs (Decidable (q < p))
  | .sel => fun p q => inferInstanceAs (Decidable (p < q))

theorem better_priority : (side : Side) → Priority (better side)
  | .buy => ⟨fun p => Nat.lt_irrefl p, fun hpq hqr => Nat.lt_trans hqr hpq,
      fun p q => (Nat.lt_trichotomy p q).elim (fun h => .inr (.inr h))
        (fun h => h.elim (fun h => .inr (.inl h)) .inl)⟩
  | .sel => ⟨fun p => Nat.lt_irrefl p, Nat.lt_trans, Nat.lt_trichotomy⟩

/-- A price of the other side at which an order with this limit trades. -/
def suits (side : Side) (limit px : ℕ) : Bool :=
  match side with
  | .buy => px ≤ limit
  | .sel => limit ≤ px

/-- What a price suits, every better one does. -/
theorem suits_of_better {side : Side} {limit p q : ℕ} (hp : suits side limit p = true)
    (hq : ¬ better side.other p q) : suits side limit q = true := by
  cases side <;> simp only [suits, better, Side.other, decide_eq_true_eq] at * <;> omega

/-! ### The book -/

structure Book (H : Type) where
  bids : List (Order H) := []
  asks : List (Order H) := []
  nextTradeId : ℕ := 1

def Book.of (b : Book H) : Side → List (Order H)
  | .buy => b.bids
  | .sel => b.asks

def Book.set (b : Book H) (side : Side) (orders : List (Order H)) : Book H :=
  match side with
  | .buy => { b with bids := orders }
  | .sel => { b with asks := orders }

section Sides

variable (b : Book H) (side : Side) (orders : List (Order H))

@[simp] theorem Book.of_set : (b.set side orders).of side = orders := by cases side <;> rfl

@[simp] theorem Book.of_set_other : (b.set side orders).of side.other = b.of side.other := by
  cases side <;> rfl

@[simp] theorem Book.of_set_other' : (b.set side.other orders).of side = b.of side := by
  cases side <;> rfl

@[simp] theorem Book.nextTradeId_set : (b.set side orders).nextTradeId = b.nextTradeId := by
  cases side <;> rfl

@[simp] theorem Book.of_nextTradeId (t : ℕ) :
    Book.of { b with nextTradeId := t } side = b.of side := by cases side <;> rfl

end Sides

theorem eq_or_eq_other (s side : Side) : s = side ∨ s = side.other := by
  cases s <;> cases side <;> decide

theorem forall_side {P : Side → Prop} (side : Side) (h₁ : P side) (h₂ : P side.other) :
    ∀ s, P s := by
  intro s
  rcases eq_or_eq_other s side with rfl | rfl
  · exact h₁
  · exact h₂

@[simp] theorem other_other (side : Side) : side.other.other = side := by cases side <;> rfl

/-- The top of a queue: its price and the quantity there. -/
def best (orders : List (Order H)) : Option (ℕ × ℕ) :=
  orders.head?.map fun m => (m.price, quantity (level orders m.price))

def Book.bbo (b : Book H) : Option (ℕ × ℕ) × Option (ℕ × ℕ) := (best b.bids, best b.asks)

/-- The event for a top of book that changed. -/
def bboNote (before after : Option (ℕ × ℕ) × Option (ℕ × ℕ)) : List (Event H) :=
  if after = before then [] else [.bbo after.1 after.2]

/-- The resting order with an id. -/
def Book.find (b : Book H) (orderId : ℕ) : Option (Side × Order H) :=
  match b.bids.find? fun m => m.id = orderId with
  | some m => some (.buy, m)
  | none => (b.asks.find? fun m => m.id = orderId).map fun m => (.sel, m)

/-- The events of a taker's hits: one for each side of each trade, at the maker's price. -/
def fills (orderId : ℕ) (side : Side) (who : H) :
    ℕ → ℕ → List (Hit ℕ ℕ H) → List (Event H)
  | _, _, [] => []
  | want, tradeId, h :: hits =>
      .fill h.maker.owner h.maker.id side.other h.maker.price h.qty h.leaves orderId tradeId ::
        .fill who orderId side h.maker.price h.qty (want - h.qty) h.maker.id tradeId ::
          fills orderId side who (want - h.qty) (tradeId + 1) hits

/-- A limit order enters: match what crosses, rest the rest. -/
def Book.enter (b : Book H) (orderId : ℕ) (side : Side) (price qty : ℕ) (who : H) :
    Book H × List (Event H) :=
  let swept := sweep (suits side price) (b.of side.other) qty
  let matched : Book H :=
    { b.set side.other swept.2.1 with nextTradeId := b.nextTradeId + swept.1.length }
  let trades := fills orderId side who qty b.nextTradeId swept.1
  if swept.2.2 = 0 then (matched, trades)
  else
    (matched.set side (file (better side) ⟨orderId, price, swept.2.2, who⟩ (matched.of side)),
      trades ++ [.ack who orderId swept.2.2])

def Book.place (b : Book H) (orderId : ℕ) (side : Side) (price qty : ℕ) (who : H) :
    Book H × List (Event H) :=
  if qty = 0 ∨ price = 0 then (b, [.rejected who orderId "price and qty must be positive"])
  else if (b.find orderId).isSome then (b, [.rejected who orderId "duplicate order_id"])
  else
    let entered := b.enter orderId side price qty who
    (entered.1, entered.2 ++ bboNote b.bbo entered.1.bbo)

/-- The book without an order of a side. -/
def Book.remove (b : Book H) (side : Side) (orderId : ℕ) : Book H :=
  b.set side ((b.of side).filter fun m => m.id ≠ orderId)

def Book.cancel (b : Book H) (orderId : ℕ) (who : H) : Book H × List (Event H) :=
  match b.find orderId with
  | none => (b, [.rejected who orderId "cancel: unknown order"])
  | some (side, m) =>
      let left := b.remove side orderId
      (left, .canceled m.owner orderId m.qty :: bboNote b.bbo left.bbo)

def Book.replace (b : Book H) (orderId newPrice newQty : ℕ) (who : H) :
    Book H × List (Event H) :=
  match b.find orderId with
  | none => (b, [.rejected who orderId "replace: unknown order"])
  | some (side, m) =>
      if newPrice = 0 ∨ newQty = 0 then
        (b, [.rejected who orderId "replace: price and qty must be positive"])
      else
        let entered := (b.remove side orderId).enter orderId side newPrice newQty m.owner
        (entered.1, .replaced m.owner orderId newPrice newQty ::
          (entered.2 ++ bboNote b.bbo entered.1.bbo))

def Book.call (b : Book H) : Call H → Book H × List (Event H)
  | .place orderId side price qty who => b.place orderId side price qty who
  | .cancel orderId who => b.cancel orderId who
  | .replace orderId newPrice newQty who => b.replace orderId newPrice newQty who

def Book.step (b : Book H) (c : Call H) : Option (Book H × List (Event H)) := some (b.call c)

/-! ### Sound books -/

structure Book.Sound (b : Book H) : Prop where
  queued : ∀ side, Queued (better side) (b.of side)
  nodup : ∀ side, ((b.of side).map Maker.id).Nodup
  apart : ∀ side, ∀ m ∈ b.of side, ∀ n ∈ b.of side.other, m.id ≠ n.id
  positive : ∀ side, ∀ m ∈ b.of side, 0 < m.qty
  uncrossed : ∀ x ∈ b.bids, ∀ y ∈ b.asks, x.price < y.price

theorem sound_empty : Book.Sound ({} : Book H) where
  queued side := by cases side <;> exact List.Pairwise.nil
  nodup side := by cases side <;> exact List.nodup_nil
  apart side := by cases side <;> exact fun m hm => absurd hm List.not_mem_nil
  positive side := by cases side <;> exact fun m hm => absurd hm List.not_mem_nil
  uncrossed x hx := absurd hx List.not_mem_nil

section Steps

variable {b : Book H} {side : Side} {orderId price qty : ℕ} {who : H} {m : Order H}

/-- No price of the other side suits an order that rests. -/
theorem Book.Sound.not_suits (h : b.Sound) (hm : m ∈ b.of side) {n : Order H}
    (hn : n ∈ b.of side.other) : suits side m.price n.price = false := by
  cases side with
  | buy => simpa [suits] using h.uncrossed m hm n hn
  | sel => simpa [suits] using h.uncrossed n hn m hm

theorem uncrossed_of_not_suits (side : Side)
    (h : ∀ m ∈ b.of side, ∀ n ∈ b.of side.other, suits side m.price n.price = false) :
    ∀ x ∈ b.bids, ∀ y ∈ b.asks, x.price < y.price := by
  intro x hx y hy
  cases side with
  | buy => simpa [suits] using h x hx y hy
  | sel => simpa [suits] using h y hy x hx

/-! An order is found where it rests. -/

theorem Book.find_eq_none :
    b.find orderId = none ↔ ∀ side, ∀ m ∈ b.of side, m.id ≠ orderId := by
  unfold Book.find
  constructor
  · intro hnone side m hm hid
    split at hnone
    next => cases hnone
    next hbids =>
      rw [Option.map_eq_none_iff] at hnone
      cases side with
      | buy => simpa [hid] using List.find?_eq_none.mp hbids m hm
      | sel => simpa [hid] using List.find?_eq_none.mp hnone m hm
  · intro hnone
    have hfind : ∀ side, (b.of side).find? (fun m => m.id = orderId) = none := fun side =>
      List.find?_eq_none.mpr fun m hm => by simpa using hnone side m hm
    have hbids : b.bids.find? (fun m => m.id = orderId) = none := hfind .buy
    have hasks : b.asks.find? (fun m => m.id = orderId) = none := hfind .sel
    rw [hbids, hasks]
    rfl

theorem Book.mem_of_find (h : b.find orderId = some (side, m)) :
    m ∈ b.of side ∧ m.id = orderId := by
  unfold Book.find at h
  split at h
  next m' hbids =>
    cases h
    exact ⟨List.mem_of_find?_eq_some hbids, by simpa using List.find?_some hbids⟩
  next =>
    obtain ⟨m', hasks, heq⟩ := Option.map_eq_some_iff.mp h
    cases heq
    exact ⟨List.mem_of_find?_eq_some hasks, by simpa using List.find?_some hasks⟩

/-- The only order with its id. -/
theorem Book.Sound.eq_of_id (h : b.Sound) {s : Side} {n : Order H} (hm : m ∈ b.of side)
    (hn : n ∈ b.of s) (hid : n.id = m.id) : s = side ∧ n = m := by
  rcases eq_or_eq_other s side with rfl | rfl
  · exact ⟨rfl, List.inj_on_of_nodup_map (h.nodup s) hn hm hid⟩
  · exact absurd hid.symm (h.apart side m hm n hn)

theorem Book.Sound.find_of_mem (h : b.Sound) (hm : m ∈ b.of side) :
    b.find m.id = some (side, m) := by
  rcases hfind : b.find m.id with _ | ⟨s, n⟩
  · exact absurd rfl (Book.find_eq_none.mp hfind side m hm)
  · obtain ⟨hn, hid⟩ := Book.mem_of_find hfind
    obtain ⟨rfl, rfl⟩ := h.eq_of_id hm hn hid
    rfl

/-! Entering. -/

/-- The book after a taker has taken what it can. -/
def Book.matched (b : Book H) (side : Side) (price qty : ℕ) : Book H :=
  { b.set side.other (sweep (suits side price) (b.of side.other) qty).2.1 with
    nextTradeId := b.nextTradeId + (sweep (suits side price) (b.of side.other) qty).1.length }

@[simp] theorem Book.of_matched : (b.matched side price qty).of side = b.of side := by
  unfold Book.matched
  rw [Book.of_nextTradeId, Book.of_set_other']

@[simp] theorem Book.of_matched_other : (b.matched side price qty).of side.other =
    (sweep (suits side price) (b.of side.other) qty).2.1 := by
  unfold Book.matched
  rw [Book.of_nextTradeId, Book.of_set]

theorem Book.enter_filled (hleft : (sweep (suits side price) (b.of side.other) qty).2.2 = 0) :
    b.enter orderId side price qty who = (b.matched side price qty,
      fills orderId side who qty b.nextTradeId
        (sweep (suits side price) (b.of side.other) qty).1) := by
  unfold Book.enter
  dsimp only
  rw [if_pos hleft]
  rfl

theorem Book.enter_rests (hleft : (sweep (suits side price) (b.of side.other) qty).2.2 ≠ 0) :
    b.enter orderId side price qty who =
      ((b.matched side price qty).set side
        (file (better side)
          ⟨orderId, price, (sweep (suits side price) (b.of side.other) qty).2.2, who⟩ (b.of side)),
      fills orderId side who qty b.nextTradeId
        (sweep (suits side price) (b.of side.other) qty).1 ++
          [.ack who orderId (sweep (suits side price) (b.of side.other) qty).2.2]) := by
  unfold Book.enter
  dsimp only
  rw [if_neg hleft]
  have hof : (b.matched side price qty).of side = b.of side := Book.of_matched
  unfold Book.matched at hof
  rw [hof]
  rfl

theorem Book.Sound.matched (h : b.Sound) : (b.matched side price qty).Sound := by
  have hswept := swept (suits side price) (b.of side.other) qty
  rcases hsweep : sweep (suits side price) (b.of side.other) qty with ⟨hits, kept, left⟩
  rw [hsweep] at hswept
  have hother : (b.matched side price qty).of side.other = kept := by
    rw [Book.of_matched_other, hsweep]
  have htags := hswept.tags
  have hprices : (kept.map Maker.price).Sublist ((b.of side.other).map Maker.price) := by
    rw [map_price_eq_tag, map_price_eq_tag]
    exact htags.sublist.map _
  have hids : (kept.map Maker.id).Sublist ((b.of side.other).map Maker.id) := by
    rw [map_id_eq_tag, map_id_eq_tag]
    exact htags.sublist.map _
  have hmem : ∀ n ∈ kept, ∃ n' ∈ b.of side.other, n'.id = n.id ∧ n'.price = n.price := by
    intro n hn
    obtain ⟨n', hn', htag⟩ := List.mem_map.mp (htags.subset (List.mem_map_of_mem hn))
    exact ⟨n', hn', congrArg (fun t => t.1) htag, congrArg (fun t => t.2.1) htag⟩
  refine ⟨forall_side side ?_ ?_, forall_side side ?_ ?_,
    forall_side side ?_ ?_, forall_side side ?_ ?_, ?_⟩
  · rw [Book.of_matched]
    exact h.queued side
  · rw [hother]
    have hsorted := (h.queued side.other)
    rw [Queued, ← List.pairwise_map (f := Maker.price) (R := fun p q => ¬ better side.other q p)]
      at hsorted ⊢
    exact hsorted.sublist hprices
  · rw [Book.of_matched]
    exact h.nodup side
  · rw [hother]
    exact (h.nodup side.other).sublist hids
  · rw [Book.of_matched, hother]
    intro m hm n hn
    obtain ⟨n', hn', hid, -⟩ := hmem n hn
    exact hid ▸ h.apart side m hm n' hn'
  · rw [hother, other_other, Book.of_matched]
    intro n hn m hm
    obtain ⟨n', hn', hid, -⟩ := hmem n hn
    exact hid ▸ (h.apart side m hm n' hn').symm
  · rw [Book.of_matched]
    exact h.positive side
  · rw [hother]
    exact hswept.positive (h.positive side.other)
  · refine uncrossed_of_not_suits side ?_
    rw [Book.of_matched, hother]
    intro m hm n hn
    obtain ⟨n', hn', -, hprice⟩ := hmem n hn
    exact hprice ▸ h.not_suits hm hn'

/-- A newcomer that crosses nothing rests. -/
theorem Book.Sound.filed (h : b.Sound) (hfresh : ∀ s, ∀ n ∈ b.of s, n.id ≠ m.id)
    (hpos : 0 < m.qty) (hnot : ∀ n ∈ b.of side.other, suits side m.price n.price = false) :
    (b.set side (file (better side) m (b.of side))).Sound := by
  have hperm := file_perm (better side) m (b.of side)
  have hmem : ∀ n, n ∈ file (better side) m (b.of side) ↔ n = m ∨ n ∈ b.of side := fun n =>
    hperm.mem_iff.trans List.mem_cons
  refine ⟨forall_side side ?_ ?_, forall_side side ?_ ?_,
    forall_side side ?_ ?_, forall_side side ?_ ?_, ?_⟩
  · rw [Book.of_set]
    exact (h.queued side).file (better_priority side)
  · rw [Book.of_set_other]
    exact h.queued side.other
  · rw [Book.of_set, (hperm.map _).nodup_iff, List.map_cons, List.nodup_cons]
    refine ⟨fun hid => ?_, h.nodup side⟩
    obtain ⟨n, hn, hnid⟩ := List.mem_map.mp hid
    exact hfresh side n hn hnid
  · rw [Book.of_set_other]
    exact h.nodup side.other
  · rw [Book.of_set, Book.of_set_other]
    intro n hn n' hn'
    rcases (hmem n).mp hn with rfl | hn
    · exact (hfresh side.other n' hn').symm
    · exact h.apart side n hn n' hn'
  · rw [Book.of_set_other, other_other, Book.of_set]
    intro n hn n' hn'
    rcases (hmem n').mp hn' with rfl | hn'
    · exact hfresh side.other n hn
    · exact (h.apart side n' hn' n hn).symm
  · rw [Book.of_set]
    intro n hn
    rcases (hmem n).mp hn with rfl | hn
    · exact hpos
    · exact h.positive side n hn
  · rw [Book.of_set_other]
    exact h.positive side.other
  · refine uncrossed_of_not_suits side ?_
    rw [Book.of_set, Book.of_set_other]
    intro n hn n' hn'
    rcases (hmem n).mp hn with rfl | hn
    · exact hnot n' hn'
    · exact h.not_suits hn hn'

/-- Orders that a match leaves are orders there were. -/
theorem Book.exists_of_matched {s : Side} {n : Order H}
    (hn : n ∈ (b.matched side price qty).of s) :
    ∃ n' ∈ b.of s, n'.id = n.id ∧ n'.price = n.price ∧ n'.owner = n.owner := by
  rcases eq_or_eq_other s side with rfl | rfl
  · rw [Book.of_matched] at hn
    exact ⟨n, hn, rfl, rfl, rfl⟩
  · rw [Book.of_matched_other] at hn
    have hswept := swept (suits side price) (b.of side.other) qty
    obtain ⟨n', hn', htag⟩ :=
      List.mem_map.mp (hswept.tags.subset (List.mem_map_of_mem hn))
    exact ⟨n', hn', congrArg (fun t => t.1) htag, congrArg (fun t => t.2.1) htag,
      congrArg (fun t => t.2.2) htag⟩

/-- Nothing that is left suits a taker that is left with something. -/
theorem Book.Sound.stops (h : b.Sound)
    (hleft : (sweep (suits side price) (b.of side.other) qty).2.2 ≠ 0) :
    ∀ n ∈ (b.matched side price qty).of side.other, suits side price n.price = false := by
  intro n hn
  have hqueued : Queued (better side.other) ((b.matched side price qty).of side.other) :=
    h.matched.queued side.other
  rw [Book.of_matched_other] at hn hqueued
  have hstops := (swept (suits side price) (b.of side.other) qty).stops hleft
  by_contra hsuits
  rcases hhead : (sweep (suits side price) (b.of side.other) qty).2.1.head? with _ | first
  · rw [List.head?_eq_none_iff.mp hhead] at hn
    exact List.not_mem_nil hn
  · have hbest := hqueued.head_best (better_priority side.other) hhead n hn
    have hfirst := suits_of_better (by simpa using hsuits) hbest
    exact absurd (hstops first hhead) (by simp [hfirst])

/-- **What rests crosses nothing.** -/
theorem Book.Sound.enter (h : b.Sound) (hfresh : ∀ s, ∀ n ∈ b.of s, n.id ≠ orderId) :
    (b.enter orderId side price qty who).1.Sound := by
  have hmatched : (b.matched side price qty).Sound := h.matched
  by_cases hleft : (sweep (suits side price) (b.of side.other) qty).2.2 = 0
  · rw [Book.enter_filled hleft]
    exact hmatched
  · rw [Book.enter_rests hleft]
    have hside : (b.matched side price qty).of side = b.of side := Book.of_matched
    rw [← hside]
    refine hmatched.filed (fun s n hn => ?_) (Nat.pos_of_ne_zero hleft) (h.stops hleft)
    obtain ⟨n', hn', hid, -⟩ := Book.exists_of_matched hn
    exact hid ▸ hfresh s n' hn'

theorem Book.Sound.remove (h : b.Sound) (side : Side) (orderId : ℕ) :
    (b.remove side orderId).Sound := by
  have hsub : ((b.of side).filter fun m => m.id ≠ orderId).Sublist (b.of side) :=
    List.filter_sublist
  unfold Book.remove
  refine ⟨forall_side side ?_ ?_, forall_side side ?_ ?_,
    forall_side side ?_ ?_, forall_side side ?_ ?_, ?_⟩
  · rw [Book.of_set]
    exact (h.queued side).sublist hsub
  · rw [Book.of_set_other]
    exact h.queued side.other
  · rw [Book.of_set]
    exact (h.nodup side).sublist (hsub.map _)
  · rw [Book.of_set_other]
    exact h.nodup side.other
  · rw [Book.of_set, Book.of_set_other]
    exact fun m hm n hn => h.apart side m (hsub.subset hm) n hn
  · rw [Book.of_set_other, other_other, Book.of_set]
    exact fun m hm n hn => (h.apart side n (hsub.subset hn) m hm).symm
  · rw [Book.of_set]
    exact fun m hm => h.positive side m (hsub.subset hm)
  · rw [Book.of_set_other]
    exact h.positive side.other
  · refine uncrossed_of_not_suits side ?_
    rw [Book.of_set, Book.of_set_other]
    exact fun m hm n hn => h.not_suits (hsub.subset hm) hn

/-- An order that was taken out is nowhere. -/
theorem Book.Sound.fresh_of_remove (h : b.Sound) (hfind : b.find orderId = some (side, m)) :
    ∀ s, ∀ n ∈ (b.remove side orderId).of s, n.id ≠ orderId := by
  obtain ⟨hm, rfl⟩ := Book.mem_of_find hfind
  refine forall_side side (fun n hn => ?_) fun n hn => ?_
  · rw [Book.remove, Book.of_set] at hn
    simpa using (List.mem_filter.mp hn).2
  · rw [Book.remove, Book.of_set_other] at hn
    exact (h.apart side m hm n hn).symm

/-! Every call keeps a book sound. -/

theorem Book.Sound.place (h : b.Sound) (orderId : ℕ) (side : Side) (price qty : ℕ) (who : H) :
    (b.place orderId side price qty who).1.Sound := by
  unfold Book.place
  split
  next => exact h
  next =>
    split
    next => exact h
    next hnone => exact h.enter (Book.find_eq_none.mp (Option.not_isSome_iff_eq_none.mp hnone))

theorem Book.Sound.cancel (h : b.Sound) (orderId : ℕ) (who : H) :
    (b.cancel orderId who).1.Sound := by
  unfold Book.cancel
  split
  next => exact h
  next side m hfind => exact h.remove side orderId

theorem Book.Sound.replace (h : b.Sound) (orderId newPrice newQty : ℕ) (who : H) :
    (b.replace orderId newPrice newQty who).1.Sound := by
  unfold Book.replace
  split
  next => exact h
  next side m hfind =>
    split
    next => exact h
    next => exact (h.remove side orderId).enter (h.fresh_of_remove hfind)

theorem Book.Sound.call (h : b.Sound) (c : Call H) : (b.call c).1.Sound := by
  cases c with
  | place orderId side price qty who => exact h.place orderId side price qty who
  | cancel orderId who => exact h.cancel orderId who
  | replace orderId newPrice newQty who => exact h.replace orderId newPrice newQty who

end Steps

end KasparHft.MatchingEngine
