import KasparHft.TradeRouting

/-!
# The replay of a recording

`frame/mda/act/BFA.hpp`: the actor that reads a recording and hands its records to the books of a
backtest.  A book record goes to the one book registered under its instrument.  Every other
record goes to all the books of its venue, but a trade only if its order is in the map of orders,
which every book record but a Delete feeds.

Security definitions are handled before a book sees anything, so the books are those of
`dataAdapter`.  The cut-offs by time, which are off by default, and the statistics of a run are
left out.
-/

namespace KasparHft.HandlerIf

variable {Px : Type}

/-- A record as it is read back: what lives only in the program is zero. -/
def Record.readBack : Record Px → Record Px
  | .mbo r => .mbo { r with ingressQlen := 0, pktEntryIdx := 0, pktSeqNum := 0 }
  | .mboTrd r => .mboTrd { r with ingressQlen := 0, pktEntryIdx := 0, pktSeqNum := 0 }
  | .chr venue => .chr venue
  | .gap venue => .gap venue
  | .eop msgSeqNum sendingTime => .eop msgSeqNum sendingTime

/-- What a book is updated by.  The length of a queue and the place in a packet, which a book copies
    into what it publishes, are no part of it. -/
def Record.l3 : Record Px → L3 Px
  | .mbo r => .mbo r.toMbo
  | .mboTrd r => .mboTrd r.toMboTrd
  | .chr _ => .chr
  | .gap _ => .gap
  | .eop _ _ => .other

/-- What a record loses in a recording updates no book. -/
@[simp] theorem l3_readBack (r : Record Px) : r.readBack.l3 = r.l3 := by
  cases r <;> rfl

def Sent.recorded : Sent Px → Option (Record Px)
  | .binrec r => some r.readBack
  | .book _ _ => none

/-- The recording: what went to the recorder, read back. -/
def recording (o : List (Sent Px)) : List (Record Px) := o.filterMap Sent.recorded

end KasparHft.HandlerIf

namespace KasparHft.Bfa

open AssocMap HandlerIf

variable {Px : Type}

/-- `dataAdapter`: by venue, the book of an instrument; an actor may be null. -/
structure Cfg where
  dataAdapter : ℕ → Map ℤ (Option ℕ)

/-- The members `process` keeps from one record to the next. -/
structure State (Px : Type) where
  mboUnorderedMap : Map ℕ (MboRecord Px) := ∅
  eopDropped : ℕ := 0

/-- The book of an instrument. -/
def Cfg.bookOf (cfg : Cfg) (venue : ℕ) (securityID : ℤ) : Option ℕ :=
  ((cfg.dataAdapter venue).lookup securityID).join

/-- The fast path: to the one book of an instrument. -/
def Cfg.dispatch (cfg : Cfg) (venue : ℕ) (securityID : ℤ) (r : Record Px) :
    List (ℕ × Record Px) :=
  (cfg.bookOf venue securityID).toList.map fun b => (b, r)

/-- The books of a venue. -/
def Cfg.books (cfg : Cfg) (venue : ℕ) : List ℕ :=
  (cfg.dataAdapter venue).entries.filterMap Sigma.snd

/-- The broadcast path: to every book of the venue. -/
def Cfg.broadcast (cfg : Cfg) (venue : ℕ) (r : Record Px) : List (ℕ × Record Px) :=
  (cfg.books venue).map fun b => (b, r)

/-- The update of `mbo_unordered_map`. -/
def State.note (s : State Px) (r : MboRecord Px) : State Px :=
  if r.orderUpdateAction = 2 then { s with mboUnorderedMap := s.mboUnorderedMap.erase r.orderID }
  else { s with mboUnorderedMap := s.mboUnorderedMap.insert r.orderID r }

/-- `process`.  A record of no venue aborts; a trade of an unknown order comes to nothing before
    its venue is looked at. -/
def process (cfg : Cfg) (s : State Px) : Record Px → Option (State Px × List (ℕ × Record Px))
  | .eop _ _ => some ({ s with eopDropped := s.eopDropped + 1 }, [])
  | .mbo r =>
      if r.venue = xUNI then none
      else some (s.note r, cfg.dispatch r.venue r.securityID (.mbo r))
  | .mboTrd r =>
      if (s.mboUnorderedMap.lookup r.orderID).isNone then some (s, [])
      else if r.venue = xUNI then none
      else some (s, cfg.broadcast r.venue (.mboTrd r))
  | .chr venue => if venue = xUNI then none else some (s, cfg.broadcast venue (.chr venue))
  | .gap venue => if venue = xUNI then none else some (s, cfg.broadcast venue (.gap venue))

/-! ### The map -/

/-- The order is in the map. -/
def State.Knows (s : State Px) (orderID : ℕ) : Prop := orderID ∈ s.mboUnorderedMap

theorem note_knows (s : State Px) (r : MboRecord Px) (orderID : ℕ) :
    (s.note r).Knows orderID ↔
      if r.orderID = orderID then r.orderUpdateAction ≠ 2 else s.Knows orderID := by
  unfold State.note State.Knows
  by_cases hid : r.orderID = orderID
  · subst hid
    rw [if_pos rfl]
    split
    next hdelete => simp [hdelete, AList.mem_erase]
    next hkept => simp [hkept, AList.mem_insert]
  · rw [if_neg hid]
    have hne : orderID ≠ r.orderID := Ne.symm hid
    split
    · exact AList.mem_erase.trans (and_iff_right hne)
    · exact (AList.mem_insert _).trans (or_iff_right hne)

end KasparHft.Bfa
