import KasparHft.FillSlateConservation

/-!
# Closing a transaction early

A slate closes its transaction at the first call of another one.  A slate that is told of the
other transaction before it has a call of its own closes early: it is then ahead of a slate that
was not told, by the fills the other one still holds.  The two are the same again at the next
call, which is never one of the transaction that was closed if transactions do not come back.
-/

namespace KasparHft.FillSlate

variable {Px Pl : Type} {s t : Slate Px Pl} {samePx : Px → Px → Bool}

/-- Calls one after another. -/
def Slate.callAll (samePx : Px → Px → Bool) (s : Slate Px Pl) :
    List (Call Px Pl) → Slate Px Pl × List (Released Px Pl)
  | [] => (s, [])
  | c :: cs =>
      let (s₁, o₁) := s.call samePx c
      let (s₂, o₂) := s₁.callAll samePx cs
      (s₂, o₁ ++ o₂)

/-- The fills a slate holds, as they will be released. -/
def Slate.holds (s : Slate Px Pl) : List (Released Px Pl) := s.flush.2

/-- `t` stands where `s` stands, or has closed the transaction that `s` has open; what was
    released is the same but for the fills that `s` then still holds. -/
def Ahead (s t : Slate Px Pl) (os ot : List (Released Px Pl)) : Prop :=
  t = s ∧ ot = os ∨ s.txOpen = true ∧ t = s.closeTx.1 ∧ ot = os ++ s.holds

theorem callAll_singleton (c : Call Px Pl) : s.callAll samePx [c] = s.call samePx c :=
  Prod.ext rfl (List.append_nil _)

theorem callAll_pair (c d : Call Px Pl) :
    s.callAll samePx [c, d] = (((s.call samePx c).1.call samePx d).1,
      (s.call samePx c).2 ++ ((s.call samePx c).1.call samePx d).2) := by
  change (((s.call samePx c).1.callAll samePx [d]).1,
    (s.call samePx c).2 ++ ((s.call samePx c).1.callAll samePx [d]).2) = _
  rw [callAll_singleton]

/-! ### A closed slate -/

theorem closeTx_txOpen (s : Slate Px Pl) : s.closeTx.1.txOpen = false := rfl

/-- Nothing is left to release. -/
theorem closeTx_closeTx (s : Slate Px Pl) : s.closeTx.1.closeTx = (s.closeTx.1, []) := rfl

theorem advance_of_closed (h : s.txOpen = false) (tx : ℕ) : s.advance tx = (s, []) := by
  unfold Slate.advance
  rw [if_neg]
  rintro ⟨hopen, -⟩
  rw [h] at hopen
  cases hopen

theorem advance_of_ne (hopen : s.txOpen = true) {tx : ℕ} (htx : tx ≠ s.tx) :
    s.advance tx = s.closeTx := if_pos ⟨hopen, htx⟩

/-- **A call that is not of the open transaction** closes it, and is then a call on the closed
    slate. -/
theorem call_of_other_tx {c : Call Px Pl} (hopen : s.txOpen = true) (hc : c.tx ≠ some s.tx) :
    s.call samePx c =
      ((s.closeTx.1.call samePx c).1, s.holds ++ (s.closeTx.1.call samePx c).2) := by
  have hclosed := closeTx_txOpen s
  cases c with
  | advance tx =>
      have htx : tx ≠ s.tx := fun heq => hc (congrArg some heq)
      have hright := advance_of_closed hclosed tx
      change s.advance tx = ((s.closeTx.1.advance tx).1, s.holds ++ (s.closeTx.1.advance tx).2)
      rw [hright, advance_of_ne hopen htx, List.append_nil]
      rfl
  | onTrade t =>
      have htx : t.tx ≠ s.tx := fun heq => hc (congrArg some heq)
      change s.onTrade t = ((s.closeTx.1.onTrade t).1, s.holds ++ (s.closeTx.1.onTrade t).2)
      unfold Slate.onTrade
      rw [advance_of_closed hclosed t.tx, advance_of_ne hopen htx]
      rfl
  | onBook oid tx action px =>
      have htx : tx ≠ s.tx := fun heq => hc (congrArg some heq)
      have hright := onBook_of_closed samePx hclosed oid tx action px
      have hleft := onBook_of_ne samePx hopen htx oid action px
      change s.onBook samePx oid tx action px =
        ((s.closeTx.1.onBook samePx oid tx action px).1,
          s.holds ++ (s.closeTx.1.onBook samePx oid tx action px).2)
      rw [hright, hleft, List.append_nil]
      rfl
  | flush =>
      change s.closeTx = (s.closeTx.1.closeTx.1, s.holds ++ s.closeTx.1.closeTx.2)
      rw [closeTx_closeTx, List.append_nil]
      rfl

/-! ### Two slates -/

variable {os ot : List (Released Px Pl)}

theorem Ahead.refl (s : Slate Px Pl) (os : List (Released Px Pl)) : Ahead s s os os :=
  .inl ⟨rfl, rfl⟩

/-- With what they hold, the two have released the same. -/
theorem Ahead.holds (h : Ahead s t os ot) : os ++ s.holds = ot ++ t.holds := by
  rcases h with ⟨rfl, rfl⟩ | ⟨-, rfl, rfl⟩
  · rfl
  · have hnone : s.closeTx.1.holds = [] := congrArg Prod.snd (closeTx_closeTx s)
    rw [hnone, List.append_nil]

/-- Calls of another transaction. -/
theorem callAll_of_other_tx {c : Call Px Pl} (hopen : s.txOpen = true) (hc : c.tx ≠ some s.tx)
    (cs : List (Call Px Pl)) :
    s.callAll samePx (c :: cs) = ((s.closeTx.1.callAll samePx (c :: cs)).1,
      s.holds ++ (s.closeTx.1.callAll samePx (c :: cs)).2) := by
  unfold Slate.callAll
  rw [call_of_other_tx hopen hc]
  simp only [List.append_assoc]

/-- Calls on both, that are not of a transaction that only one has closed. -/
theorem Ahead.callAll (h : Ahead s t os ot) {cs : List (Call Px Pl)}
    (hcs : t ≠ s → ∀ c ∈ cs, c.tx ≠ some s.tx) :
    Ahead (s.callAll samePx cs).1 (t.callAll samePx cs).1 (os ++ (s.callAll samePx cs).2)
        (ot ++ (t.callAll samePx cs).2) ∧
      ((t.callAll samePx cs).1 ≠ (s.callAll samePx cs).1 → t ≠ s ∧ cs = []) := by
  rcases h with ⟨rfl, rfl⟩ | ⟨hopen, rfl, rfl⟩
  · exact ⟨Ahead.refl _ _, fun hne => absurd rfl hne⟩
  · have hne : s.closeTx.1 ≠ s := by
      intro heq
      have hfalse := closeTx_txOpen s
      rw [heq, hopen] at hfalse
      cases hfalse
    cases cs with
    | nil =>
        refine ⟨.inr ⟨hopen, rfl, ?_⟩, fun _ => ⟨hne, rfl⟩⟩
        change os ++ s.holds ++ [] = os ++ [] ++ s.holds
        rw [List.append_nil, List.append_nil]
    | cons c cs =>
        rw [callAll_of_other_tx hopen (hcs hne c List.mem_cons_self) cs, ← List.append_assoc]
        exact ⟨Ahead.refl _ _, fun hne => absurd rfl hne⟩

/-- The second alone is told of a transaction. -/
theorem Ahead.advance (h : Ahead s t os ot) (tx : ℕ) :
    Ahead s (t.advance tx).1 os (ot ++ (t.advance tx).2) := by
  rcases h with ⟨rfl, rfl⟩ | ⟨hopen, rfl, rfl⟩
  · by_cases hnew : t.txOpen = true ∧ tx ≠ t.tx
    · rw [advance_of_ne hnew.1 hnew.2]
      exact .inr ⟨hnew.1, rfl, rfl⟩
    · have hstay : t.advance tx = (t, []) := if_neg hnew
      rw [hstay, List.append_nil]
      exact Ahead.refl t _
  · rw [advance_of_closed (closeTx_txOpen s), List.append_nil]
    exact .inr ⟨hopen, rfl, rfl⟩

/-! ### The open transaction -/

theorem onTrade_tx (s : Slate Px Pl) (t : Trade Px Pl) : (s.onTrade t).1.tx = t.tx := by
  have hindex := indexFill_frame ((s.advance t.tx).1.pushFill t) t (s.advance t.tx).1.fills.length
  have hrel := releaseIfDecided_releases
    (((s.advance t.tx).1.pushFill t).indexFill t (s.advance t.tx).1.fills.length) t.oid
    (s.advance t.tx).1.fills.length
  refine (hrel.tx.trans hindex.2.2.2.1).trans ?_
  dsimp only [Slate.pushFill]
  split
  next hopen => exact advance_tx s t.tx hopen
  next => rfl

/-- A transaction that is open was open before the call, or is that of the call. -/
theorem call_tx (s : Slate Px Pl) (c : Call Px Pl) (h : (s.call samePx c).1.txOpen = true) :
    s.txOpen = true ∧ (s.call samePx c).1.tx = s.tx ∨
      c.tx = some (s.call samePx c).1.tx := by
  cases c with
  | advance tx => exact .inr (congrArg some (advance_tx s tx h).symm)
  | onTrade t => exact .inr (congrArg some (onTrade_tx s t).symm)
  | onBook oid tx action px =>
      change (s.onBook samePx oid tx action px).1.txOpen = true at h
      rcases hopen : s.txOpen with _ | _
      · rw [onBook_of_closed samePx hopen, hopen] at h
        cases h
      · by_cases htx : tx = s.tx
        · exact .inl ⟨rfl, (onBook_releases samePx hopen htx).tx⟩
        · rw [onBook_of_ne samePx hopen htx, closeTx_txOpen] at h
          cases h
  | flush => cases h

theorem callAll_tx {cs : List (Call Px Pl)} {tx : Option ℕ} (hcs : ∀ c ∈ cs, c.tx = tx)
    (h : (s.callAll samePx cs).1.txOpen = true) :
    s.txOpen = true ∧ (s.callAll samePx cs).1.tx = s.tx ∨
      tx = some (s.callAll samePx cs).1.tx := by
  induction cs generalizing s with
  | nil => exact .inl ⟨h, rfl⟩
  | cons c cs ih =>
      obtain ⟨hc, hrest⟩ := List.forall_mem_cons.mp hcs
      rcases ih hrest h with ⟨hopen, htx⟩ | htx
      · have hlast : (s.callAll samePx (c :: cs)).1.tx = (s.call samePx c).1.tx := htx
        rw [hlast]
        rcases call_tx s c hopen with hbefore | hnow
        · exact .inl hbefore
        · exact .inr (hc.symm.trans hnow)
      · exact .inr htx

end KasparHft.FillSlate
