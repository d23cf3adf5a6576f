import KasparHft.Light22Slot
import Mathlib.Algebra.Order.BigOperators.Group.List

/-!
# How far the lights may overfill

The cap on what a side may have working is checked against the total of the shared queue,
which a light reads before it takes the lock.  Between the parts of a handler the other lights
go on.  An order leaves the total when its cancel is asked for; the exchange may fill it until
the cancel is acknowledged.  The position stays within `ord_sz - 1` of the target in every run
in which, whenever an order is placed, the total that its light has read counts all that may
still be filled, and the position is short of the target.
-/

namespace KasparHft.Light22

open Machine AssocMap

/-! ### The exchange -/

/-- The orders that may still be filled, each with what of it the position may still get. -/
structure Venue where
  left : Map ℤ ℤ
  pos : ∀ id sz, left.lookup id = some sz → 0 < sz

namespace Venue

/-- Before the first order. -/
def new : Venue := ⟨∅, fun id sz h => by cases h⟩

/-- The order is filled, rejected or its cancel acknowledged. -/
def close (v : Venue) (id : ℤ) : Venue := ⟨v.left.erase id, forall_erase v.pos⟩

/-- An order arrives, with an id that no order has. -/
def take (v : Venue) (id sz : ℤ) : Option Venue :=
  if h : v.left.lookup id = none ∧ 0 < sz then
    some ⟨v.left.insert id sz, forall_insert v.pos h.2⟩
  else none

/-- An order is filled by no more than what is left of it. -/
def fill (v : Venue) (id sz : ℤ) : Option Venue :=
  match v.left.lookup id with
  | none => none
  | some l =>
      if h : 0 < sz ∧ sz < l then
        some ⟨v.left.insert id (l - sz), forall_insert v.pos (Int.sub_pos.mpr h.2)⟩
      else if sz = l then some (v.close id)
      else none

/-- The sum of what may still be filled. -/
def fillable (v : Venue) : ℤ := total (fun _ sz => sz) v.left

variable {v v' : Venue} {id sz : ℤ}

theorem fillable_nonneg (v : Venue) : 0 ≤ v.fillable := by
  refine List.sum_nonneg fun x hx => ?_
  obtain ⟨e, he, rfl⟩ := List.mem_map.mp hx
  exact Int.le_of_lt (v.pos e.1 e.2 (AList.mem_lookup_iff.mpr he))

theorem fillable_close_le (v : Venue) (id : ℤ) : (v.close id).fillable ≤ v.fillable := by
  unfold fillable close
  rcases hid : v.left.lookup id with _ | l
  · exact Int.le_of_eq (total_erase_of_notMem (AList.lookup_eq_none.mp hid))
  · have hsum := total_erase_of_lookup (f := fun _ sz => sz) hid
    have hpos := v.pos id l hid
    dsimp only at hsum ⊢
    omega

theorem fillable_take (h : v.take id sz = some v') : v'.fillable = v.fillable + sz := by
  unfold take at h
  split at h
  next hnew =>
    obtain rfl := (Option.some.inj h).symm
    unfold fillable
    rw [total_insert, total_erase_of_notMem (AList.lookup_eq_none.mp hnew.1)]
    exact Int.add_comm _ _
  next => cases h

theorem fillable_fill (h : v.fill id sz = some v') : 0 < sz ∧ v'.fillable = v.fillable - sz := by
  unfold fill at h
  split at h
  · cases h
  next l hl =>
    have hsum := total_erase_of_lookup (f := fun _ sz => sz) hl
    split at h
    next hpart =>
      obtain rfl := (Option.some.inj h).symm
      refine ⟨hpart.1, ?_⟩
      unfold fillable
      rw [total_insert]
      omega
    next =>
      split at h
      next hwhole =>
        obtain rfl := (Option.some.inj h).symm
        refine ⟨hwhole ▸ v.pos id l hl, ?_⟩
        change total (fun _ sz => sz) (v.left.erase id) = total (fun _ sz => sz) v.left - sz
        omega
      next => cases h

end Venue

/-! ### Lights and exchange -/

/-- The lights of a side, what each has left of the handler it is in, and the exchange. -/
structure Floor where
  bank : Bank
  venue : Venue
  rest : ℕ → Option Rest

/-- No light is in a handler. -/
def Floor.new (b : Bank) : Floor := ⟨b, .new, fun _ => none⟩

/-- The thread of a light takes its next message or goes on with its handler. -/
inductive Turn where
  | take (mmid : ℕ) (m : Msg)
  | go (mmid : ℕ)

/-- The light whose turn it is. -/
def Turn.mmid : Turn → ℕ
  | .take mmid _ | .go mmid => mmid

/-- A message that sets the target or the order size. -/
def Turn.resets : Turn → Bool
  | .take _ m => m.resets
  | .go _ => false

/-- What the exchange has done when it says so. -/
def Venue.told (v : Venue) : Msg → Venue
  | .cancAck id | .reject id _ => v.close id
  | _ => v

/-- What it has done when a light goes on: a fill counts until the position has it. -/
def Venue.booked (v : Venue) : Rest → Option Venue
  | .addPosition id sz _ => v.fill id sz
  | _ => some v

/-- The exchange takes the orders sent. -/
def Venue.takeAll (v : Venue) (sent : List (ℤ × ℤ)) : Option Venue :=
  sent.foldlM (fun v order => v.take order.1 order.2) v

/-- The desk of a light is put back. -/
def Bank.put (s : Bank) (mmid : ℕ) (d : Desk) : Bank where
  lights := Function.update s.lights mmid d.light
  qcoord := d.qcoord
  position := d.position

/-- A light has done a part of its handler. -/
def Floor.after (s : Floor) (mmid : ℕ) (v : Venue) (p : Part) :
    Option (Floor × List (ℕ × Out)) :=
  (v.takeAll (orders p.out)).map fun v =>
    (⟨s.bank.put mmid p.desk, v, Function.update s.rest mmid p.rest⟩,
      p.out.map fun x => (mmid, x))

/-- One turn; `none` also where the exchange could not have sent what the light handles. -/
def turn (cfg : ℕ → Cfg) (s : Floor) : Turn → Option (Floor × List (ℕ × Out))
  | .take mmid m =>
      if (s.rest mmid).isSome then none
      else
        ((s.bank.desk mmid).start (cfg mmid) mmid m).bind (s.after mmid (s.venue.told m))
  | .go mmid =>
      match s.rest mmid with
      | none => none
      | some r =>
          match s.venue.booked r, (s.bank.desk mmid).resume (cfg mmid) mmid r with
          | some v, some p => s.after mmid v p
          | _, _ => none

/-- How far the position is past the target, in the direction of the side. -/
def overshoot (side : Side) (b : Bank) (target : ℤ) : ℤ := side.sign * (b.position - target)

/-- Every light has this target and this order size. -/
def Bank.Settled (b : Bank) (target ordSz : ℤ) : Prop :=
  ∀ i, (b.lights i).targetpos = target ∧ (b.lights i).ordSz = ordSz

/-- The light places an order in this turn. -/
def placesOrder (cfg : ℕ → Cfg) (s : Floor) (t : Turn) : Bool :=
  match turn cfg s t with
  | none => false
  | some (_, o) => !(orders (o.map Prod.snd)).isEmpty

/-- The total that a light about to place has read. -/
def Floor.workOrds (s : Floor) (mmid : ℕ) : ℤ :=
  match s.rest mmid with
  | some (.sizeAndPlace _ workOrds _ _ _) => workOrds
  | _ => 0

/-- Where a light places an order, the position is short of the target and the total that the
    light has read counts all that may still be filled. -/
def Counted (cfg : ℕ → Cfg) (s : Floor) (t : Turn) : Prop :=
  placesOrder cfg s t = true →
    atTarget (cfg t.mmid).side s.bank.position (s.bank.lights t.mmid).targetpos = false ∧
      s.venue.fillable ≤ s.workOrds t.mmid

instance (cfg : ℕ → Cfg) (s : Floor) (t : Turn) : Decidable (Counted cfg s t) :=
  inferInstanceAs (Decidable (_ → _))

/-! ### One part -/

section OnePart

variable {c : Cfg} {mmid : ℕ} {d d' : Desk} {o : List Out} {m : Msg} {r : Rest} {p : Part}

theorem Acts.position (h : Acts mmid d d' o) : d'.position = d.position := by
  cases h with
  | idle h hsent => exact h.position
  | cancel ord h hsent => exact h.position
  | place id sz px h hsent => exact h.position

/-- The first part of a handler moves no position and places nothing; the console alone sets the
    target and the order size. -/
theorem start_frame (hfixed : m.resets = false) (h : d.start c mmid m = some p) :
    SameSettings d.light p.desk.light ∧ p.desk.position = d.position ∧ orders p.out = [] := by
  cases habout : m.about with
  | none =>
      have hopens := start_opens habout hfixed h
      exact ⟨hopens.settings, hopens.acts.position, hopens.sends⟩
  | some id =>
      cases m with
      | fill id sz stbf =>
          obtain ⟨q, rfl, -⟩ := fillHandler_some h
          exact ⟨⟨rfl, rfl⟩, rfl, rfl⟩
      | cancAck id =>
          obtain ⟨hsent, hset, hpos, -⟩ := cancAck_cases (lastPart_some h).1
          exact ⟨hset, hpos, congrArg orders hsent⟩
      | cancReject id reason =>
          obtain ⟨hsent, hset, hcases⟩ := cancRej_cases (lastPart_some h).1
          refine ⟨hset, ?_, hsent⟩
          rcases hcases with ⟨-, hacts⟩ | ⟨-, -, hpos, -⟩ | ⟨-, -, hkeeps⟩
          · exact hacts.position
          · exact hpos
          · exact hkeeps.position
      | reject id reason =>
          obtain ⟨hsent, hset, hpos, -⟩ := reject_cases (lastPart_some h).1
          exact ⟨hset, hpos, hsent⟩
      | _ => cases habout

/-- The position that a later part leaves. -/
def posAfter (side : Side) (pos : ℤ) : Rest → ℤ
  | .addPosition _ sz _ => addPosition side pos sz
  | _ => pos

/-- A later part moves the position by a fill; an order is placed under the lock, no larger than
    the order size, and only where the total read is below what is left to fill. -/
theorem resume_frame (h : d.resume c mmid r = some p) :
    SameSettings d.light p.desk.light ∧ p.desk.position = posAfter c.side d.position r ∧
      (orders p.out = [] ∨ ∃ pl workOrds alreadyGated draw ack id sz,
        r = .sizeAndPlace pl workOrds alreadyGated draw ack ∧ orders p.out = [(id, sz)] ∧
          sz ≤ d.light.ordSz ∧
          workOrds < c.workMultiple * |d.position - d.light.targetpos|) := by
  cases r with
  | addPosition id sz stbf =>
      obtain ⟨hsent, hset, -, hpos, -⟩ := addPosition_some (lastPart_some h).1
      exact ⟨hset, hpos, .inl (congrArg orders hsent)⟩
  | sizeAndPlace pl workOrds alreadyGated draw ack =>
      obtain ⟨⟨hacts, hset⟩, hroom⟩ := sizeAndPlace_acts (lastPart_some h).1
      refine ⟨hset, hacts.position, ?_⟩
      cases hacts with
      | idle h hsent => exact .inl hsent
      | cancel ord h hsent => exact .inl hsent
      | place id sz px h hsent =>
          refine .inr ⟨pl, workOrds, alreadyGated, draw, ack, id, sz, rfl, hsent, h.le, hroom ?_⟩
          rw [hsent]
          exact List.cons_ne_nil _ _
  | readTotal pl pt alreadyGated draw ack =>
      have hopens : Opens mmid d p := Option.some.inj h ▸ readTotal_opens
      exact ⟨hopens.settings, hopens.acts.position, .inl hopens.sends⟩
  | readLevel px pos pt =>
      have hopens : Opens mmid d p := readLevel_opens h
      exact ⟨hopens.settings, hopens.acts.position, .inl hopens.sends⟩
  | cancelOrder =>
      have hopens := opens_of_cancel h
      exact ⟨hopens.settings, hopens.acts.position, .inl hopens.sends⟩

/-- Short of the target, what is left to fill is the distance to it. -/
theorem abs_of_short {side : Side} {pos target : ℤ} (h : atTarget side pos target = false) :
    |pos - target| = - (side.sign * (pos - target)) := by
  cases side with
  | buy =>
      have hlt : pos < target := by simpa [atTarget] using h
      rw [abs_of_neg (by omega), Side.sign_buy, one_mul]
  | sel =>
      have hlt : target < pos := by simpa [atTarget] using h
      rw [abs_of_pos (by omega), Side.sign_sel]
      omega

/-- What is counted before an order is placed does not take the position to the target. -/
theorem below_of_room {side : Side} {pos target workOrds counted : ℤ} {multiple : ℚ}
    (hmultiple : multiple = 1) (hroom : workOrds < multiple * |pos - target|)
    (hshort : atTarget side pos target = false) (hcounted : counted ≤ workOrds) :
    side.sign * (pos - target) + counted ≤ -1 := by
  rw [hmultiple, one_mul] at hroom
  have hroom : workOrds < |pos - target| := by exact_mod_cast hroom
  rw [abs_of_short hshort] at hroom
  omega

end OnePart

/-! ### One turn -/

section OneTurn

variable {cfg : ℕ → Cfg} {s s' : Floor} {t : Turn} {mmid : ℕ} {v v' : Venue} {p : Part}
  {o : List (ℕ × Out)}

theorem after_some (h : s.after mmid v p = some (s', o)) :
    v.takeAll (orders p.out) = some s'.venue ∧ s'.bank = s.bank.put mmid p.desk ∧
      o = p.out.map fun x => (mmid, x) := by
  obtain ⟨v', htake, heq⟩ := Option.map_eq_some_iff.mp h
  cases heq
  exact ⟨htake, rfl, rfl⟩

/-- The first part of a handler or a later one. -/
theorem turn_cases (h : turn cfg s t = some (s', o)) :
    (∃ m p, t = .take t.mmid m ∧
      (s.bank.desk t.mmid).start (cfg t.mmid) t.mmid m = some p ∧
      s.after t.mmid (s.venue.told m) p = some (s', o)) ∨
    ∃ r v p, t = .go t.mmid ∧ s.rest t.mmid = some r ∧ s.venue.booked r = some v ∧
      (s.bank.desk t.mmid).resume (cfg t.mmid) t.mmid r = some p ∧
      s.after t.mmid v p = some (s', o) := by
  cases t with
  | take mmid m =>
      dsimp only [turn] at h
      split at h
      · cases h
      · obtain ⟨p, hstart, hafter⟩ := Option.bind_eq_some_iff.mp h
        exact .inl ⟨m, p, rfl, hstart, hafter⟩
  | go mmid =>
      dsimp only [turn] at h
      split at h
      · cases h
      next r hrest =>
        split at h
        next v p hbooked hresume => exact .inr ⟨r, v, p, rfl, hrest, hbooked, hresume, h⟩
        next => cases h

theorem snd_told (mmid : ℕ) (o : List Out) : (o.map fun x => (mmid, x)).map Prod.snd = o := by
  rw [List.map_map]
  exact List.map_id' o

theorem put_settled {b : Bank} {d : Desk} {target ordSz : ℤ} (h : b.Settled target ordSz)
    (hset : SameSettings (b.lights mmid) d.light) : (b.put mmid d).Settled target ordSz := by
  intro i
  unfold Bank.put
  dsimp only
  by_cases hi : i = mmid
  · rw [hi, Function.update_self]
    exact ⟨hset.targetpos.trans (h mmid).1, hset.ordSz.trans (h mmid).2⟩
  · rw [Function.update_of_ne hi]
    exact h i

theorem told_fillable_le (v : Venue) (m : Msg) : (v.told m).fillable ≤ v.fillable := by
  cases m with
  | cancAck id | reject id reason => exact v.fillable_close_le id
  | _ => exact Int.le_refl _

/-- A fill moves the position by what it takes off the order. -/
theorem booked_fillable {r : Rest} (side : Side) (pos target : ℤ) (h : v.booked r = some v') :
    side.sign * (posAfter side pos r - target) + v'.fillable =
      side.sign * (pos - target) + v.fillable := by
  cases r with
  | addPosition id sz stbf =>
      obtain ⟨hpos, hsum⟩ := Venue.fillable_fill h
      have hmoved : posAfter side pos (.addPosition id sz stbf) = pos + side.sign * sz :=
        if_neg (by omega)
      rw [hmoved, hsum]
      cases side <;> simp <;> omega
  | _ =>
      obtain rfl := Option.some.inj h
      rfl

/-- All that may still be filled keeps the position within bounds. -/
structure Floor.Within (side : Side) (target ordSz : ℤ) (s : Floor) : Prop where
  settled : s.bank.Settled target ordSz
  bound : overshoot side s.bank target + s.venue.fillable ≤ ordSz - 1

theorem Floor.Within.turn {side : Side} {target ordSz : ℤ} (hside : ∀ i, (cfg i).side = side)
    (hmultiple : ∀ i, (cfg i).workMultiple = 1) (hfixed : t.resets = false)
    (hcounted : Counted cfg s t) (h : s.Within side target ordSz)
    (hs : turn cfg s t = some (s', o)) : s'.Within side target ordSz := by
  have hbound := h.bound
  unfold overshoot at hbound
  rcases turn_cases hs with
    ⟨m, p, htake, hstart, hafter⟩ | ⟨r, v, p, hgo, hrest, hbooked, hresume, hafter⟩
  · -- nothing is placed and nothing filled
    have hfixed : m.resets = false := by
      rw [htake] at hfixed
      exact hfixed
    obtain ⟨hset, hpos, hsent⟩ := start_frame hfixed hstart
    obtain ⟨htaken, hbank, -⟩ := after_some hafter
    rw [hsent] at htaken
    obtain hvenue : s.venue.told m = s'.venue := Option.some.inj htaken
    refine ⟨hbank ▸ put_settled h.settled hset, ?_⟩
    have htold := told_fillable_le s.venue m
    have hmoved : overshoot side s'.bank target = side.sign * (s.bank.position - target) := by
      rw [hbank]
      exact congrArg (fun pos => side.sign * (pos - target)) hpos
    rw [hmoved, ← hvenue]
    omega
  · obtain ⟨hset, hpos, hsends⟩ := resume_frame hresume
    obtain ⟨htaken, hbank, hout⟩ := after_some hafter
    rw [hside] at hpos
    refine ⟨hbank ▸ put_settled h.settled hset, ?_⟩
    have hmoved : overshoot side s'.bank target =
        side.sign * (posAfter side s.bank.position r - target) := by
      rw [hbank]
      exact congrArg (fun pos => side.sign * (pos - target)) hpos
    have hfilled := booked_fillable side s.bank.position target hbooked
    rw [hmoved]
    rcases hsends with
      hnone | ⟨pl, workOrds, alreadyGated, draw, ack, id, sz, rfl, hone, hle, hroom⟩
    · -- nothing is placed: what may still be filled moves to the position
      rw [hnone] at htaken
      obtain rfl := Option.some.inj htaken
      omega
    · -- the order is no larger than the order size, all before it stays below the target
      obtain rfl : s.venue = v := Option.some.inj hbooked
      have hplaces : placesOrder cfg s t = true := by
        unfold placesOrder
        rw [hs]
        dsimp only
        rw [hout, snd_told, hone]
        rfl
      obtain ⟨hshort, hread⟩ := hcounted hplaces
      unfold Floor.workOrds at hread
      rw [hrest] at hread
      have hbelow := below_of_room (hmultiple _) hroom hshort hread
      have htaken : s.venue.take id sz = some s'.venue := by
        rw [hone] at htaken
        simpa [Venue.takeAll] using htaken
      have hgrown := Venue.fillable_take htaken
      obtain ⟨htarget, hsz⟩ := h.settled t.mmid
      change sz ≤ (s.bank.lights t.mmid).ordSz at hle
      change (cfg t.mmid).side.sign * (s.bank.position - (s.bank.lights t.mmid).targetpos) + _ ≤ -1
        at hbelow
      change side.sign * (s.bank.position - target) + _ ≤ _
      rw [hside, htarget] at hbelow
      rw [hsz] at hle
      omega

end OneTurn

/-! ### Runs -/

theorem settled_noOrders : noOrders.Settled 10 10 := fun _ => ⟨rfl, rfl⟩

/-- The light takes the message that a bid was added. -/
def seesBid (mmid exOrderId : ℕ) (ack : ℤ) (px : ℤ := 20) : Turn :=
  .take mmid (bidAdded mmid exOrderId ack px).msg

/-- Both lights read the total before either has placed. -/
example : (run (turn buyers) (.new noOrders)
    [seesBid 1 7 1, seesBid 2 8 2 19, .go 1, .go 2, .go 1, .go 2, .take 1 (.fill 1 10 0), .go 1,
      .take 2 (.fill 2 10 0), .go 2]).map (fun r => r.1.bank.position) = some 20 := by
  decide +kernel

end KasparHft.Light22
