import KasparHft.Light22Acts
import KasparHft.Machine

/-!
# The slot and the shared queue

A light keeps the order it works in a slot, the shared queue keeps a copy of it.  Placing and
cancelling change both.  Of the messages of the order manager some clear the slot without a
look at the queue, some change the queue or the slot without a look at the order they are
about; `InOrder` is what these messages have to meet for the two to stay one.
-/

namespace KasparHft.Light22

open Machine

variable {cfg : ℕ → Cfg} {c : Cfg} {mmid : ℕ} {d d' : Desk} {o : List Out}

/-! ### Agreement -/

/-- The queue lists the order that the light works, and nothing where it works none. -/
structure Matches (q : QCoord) (mmid : ℕ) (slot : Option OrdInfo) : Prop where
  listed_iff : (∃ px e, q.entry px mmid = some e) ↔ ∃ ord, slot = some ord ∧ ord.canc = false
  same : ∀ px e ord, q.entry px mmid = some e → slot = some ord → px = ord.px ∧ e.id = ord.oid

/-- The light's bit in the queue agrees as well: without it a removal would do nothing. -/
structure Agrees (q : QCoord) (mmid : ℕ) (slot : Option OrdInfo) : Prop
    extends Matches q mmid slot where
  bit : q.mmidOrders mmid = true ↔ ∃ ord, slot = some ord ∧ ord.canc = false

section Agreement

variable {q q' : QCoord} {slot : Option OrdInfo} {ord : OrdInfo}

theorem Agrees.congr (h : Agrees q mmid slot) (hentry : ∀ px, q'.entry px mmid = q.entry px mmid)
    (hbit : q'.mmidOrders mmid = q.mmidOrders mmid) : Agrees q' mmid slot := by
  refine ⟨⟨?_, fun px e ord he => ?_⟩, ?_⟩
  · simp only [hentry]
    exact h.listed_iff
  · rw [hentry] at he
    exact h.same px e ord he
  · rw [hbit]
    exact h.bit

theorem Agrees.of_same (h : Agrees q mmid slot) (hsame : SameOrders q q') : Agrees q' mmid slot :=
  h.congr (fun px => hsame.entry px mmid) (congrFun hsame.mmidOrders mmid)

/-- A light that works an order has its entry. -/
theorem Agrees.lists (h : Agrees q mmid (some ord)) (hlive : ord.canc = false) :
    ∃ e, q.entry ord.px mmid = some e ∧ e.id = ord.oid := by
  obtain ⟨px, e, he⟩ := h.listed_iff.mpr ⟨ord, rfl, hlive⟩
  obtain ⟨rfl, hid⟩ := h.same px e ord he rfl
  exact ⟨e, he, hid⟩

/-- A light that works no order has no entry. -/
theorem Agrees.unlisted (h : Agrees q mmid slot) (hslot : ∀ ord, slot = some ord → ord.canc = true)
    (px : ℤ) : q.entry px mmid = none := by
  rcases he : q.entry px mmid with _ | e
  · rfl
  · obtain ⟨ord, hord, hlive⟩ := h.listed_iff.mp ⟨px, e, he⟩
    rw [hslot ord hord] at hlive
    cases hlive

theorem agrees_of_unlisted (hentry : ∀ px, q.entry px mmid = none)
    (hbit : q.mmidOrders mmid = false) (hslot : ∀ ord, slot = some ord → ord.canc = true) :
    Agrees q mmid slot := by
  have hnot : ¬ ∃ ord, slot = some ord ∧ ord.canc = false := by
    rintro ⟨ord, hord, hlive⟩
    rw [hslot ord hord] at hlive
    cases hlive
  refine ⟨⟨⟨?_, fun h => absurd h hnot⟩, fun px e ord he => ?_⟩, ?_⟩
  · rintro ⟨px, e, he⟩
    rw [hentry] at he
    cases he
  · rw [hentry] at he
    cases he
  · rw [hbit]
    exact ⟨fun h => (by cases h), fun h => absurd h hnot⟩

/-- An entry that changes, where the light had no other. -/
theorem Changes.only {before after : Option QCoord.Ord} {px : ℤ}
    (h : Changes q q' px mmid before after) (hother : ∀ p, p ≠ px → q.entry p mmid = none) (p : ℤ) :
    q'.entry p mmid = if p = px then after else none := by
  rw [h.entry]
  by_cases hp : p = px
  · rw [if_pos ⟨hp, rfl⟩, if_pos hp]
  · rw [if_neg fun hpm => hp hpm.1, if_neg hp, hother p hp]

theorem agrees_of_listed {e : QCoord.Ord} {before : Option QCoord.Ord}
    (h : Changes q q' ord.px mmid before (some e))
    (hother : ∀ p, p ≠ ord.px → q.entry p mmid = none) (hid : e.id = ord.oid)
    (hlive : ord.canc = false) : Agrees q' mmid (some ord) := by
  have honly := h.only hother
  refine ⟨⟨⟨fun _ => ⟨ord, rfl, hlive⟩, fun _ => ⟨ord.px, e, ?_⟩⟩, ?_⟩, ?_⟩
  · rw [honly, if_pos rfl]
  · intro px e' ord' he hord
    obtain rfl := Option.some.inj hord
    rw [honly] at he
    split at he
    next hpx =>
      obtain rfl := Option.some.inj he
      exact ⟨hpx, hid⟩
    next => cases he
  · rw [h.bit, if_pos rfl]
    exact ⟨fun _ => ⟨ord, rfl, hlive⟩, fun _ => rfl⟩

/-- The entries of a light that works an order are at its price. -/
theorem Agrees.elsewhere (h : Agrees q mmid (some ord)) (p : ℤ) (hp : p ≠ ord.px) :
    q.entry p mmid = none := by
  rcases he : q.entry p mmid with _ | e
  · rfl
  · exact absurd (h.same p e ord he rfl).1 hp

theorem Agrees.bit_false (h : Agrees q mmid slot)
    (hslot : ∀ ord, slot = some ord → ord.canc = true) : q.mmidOrders mmid = false := by
  rw [Bool.eq_false_iff]
  intro hset
  obtain ⟨ord, hord, hlive⟩ := h.bit.mp hset
  rw [hslot ord hord] at hlive
  cases hlive

/-- Where nothing is listed a slot that works no order may be cleared. -/
theorem Agrees.clear (h : Agrees q mmid (some ord)) (hcanc : ord.canc = true) :
    Agrees q mmid none := by
  have hall : ∀ ord', some ord = some ord' → ord'.canc = true := by
    intro ord' hord
    exact Option.some.inj hord ▸ hcanc
  exact agrees_of_unlisted (h.unlisted hall) (h.bit_false hall) fun ord' hord => by cases hord

/-- Taking the order of the slot out leaves the light without an entry. -/
theorem Agrees.after_removal (h : Agrees q mmid (some ord)) (hq : q.Sound)
    (hrem : Removes q q' ord.px mmid ord.oid) :
    (∀ px, q'.entry px mmid = none) ∧ q'.mmidOrders mmid = false := by
  rcases hrem with ⟨hno, hsame⟩ | ⟨e, -, -, hchange⟩
  · have hbit : q.mmidOrders mmid = false := by
      by_contra hset
      rw [Bool.not_eq_false] at hset
      exact hno ⟨hq.inRange mmid hset, hset⟩
    have hcanc : ∀ ord', some ord = some ord' → ord'.canc = true := by
      intro ord' hord
      by_contra hlive
      rw [h.bit.mpr ⟨ord', hord, Bool.eq_false_iff.mpr hlive⟩] at hbit
      cases hbit
    refine ⟨fun px => ?_, ?_⟩
    · rw [hsame.entry]
      exact h.unlisted hcanc px
    · rw [hsame.mmidOrders, hbit]
  · refine ⟨fun px => ?_, ?_⟩
    · rw [hchange.only h.elsewhere]
      exact ite_self _
    · rw [hchange.bit, if_pos rfl]
      rfl

/-- The order of the slot can be taken out, or down by no more than what is listed. -/
theorem Agrees.removeOrder_isSome {sz : ℤ} {all : Bool} (h : Agrees q mmid (some ord))
    (hask : all = true ∨ 0 < sz) (hle : ∀ e, q.entry ord.px mmid = some e → sz ≤ e.sz) :
    ∃ q' r, q.removeOrder ord.px sz mmid ord.oid all = some (q', r) := by
  unfold QCoord.removeOrder
  rw [if_neg fun hno => hask.elim (fun hall => by rw [hall] at hno; cases hno.1) hno.2]
  split
  · exact ⟨q, 0, rfl⟩
  next hbit =>
    obtain ⟨-, hbit⟩ := not_not.mp hbit
    obtain ⟨ord', hord, hlive⟩ := h.bit.mp hbit
    obtain rfl := Option.some.inj hord
    obtain ⟨e, he, hid⟩ := h.lists hlive
    have hfits := hle e he
    unfold QCoord.entry at he
    rw [he]
    dsimp only
    rw [if_neg (not_not_intro hid), if_neg (Int.not_lt.mpr hfits)]
    split
    · exact ⟨_, _, rfl⟩
    · exact ⟨_, _, rfl⟩

theorem Agrees.removeOrder_all (h : Agrees q mmid (some ord)) (hq : q.Sound) :
    ∃ q', q.removeOrder ord.px 0 mmid ord.oid true = some (q', 0) := by
  obtain ⟨q', r, hrem⟩ : ∃ q' r, q.removeOrder ord.px 0 mmid ord.oid true = some (q', r) :=
    h.removeOrder_isSome (.inl rfl) fun e he => Int.le_of_lt (hq.pos _ _ _ he)
  obtain ⟨rfl, -⟩ := Light22.removeOrder_all hrem
  exact ⟨q', hrem⟩

/-- An entry of a light without an order. -/
theorem not_matches_of_left {px : ℤ} {e : QCoord.Ord} (he : q.entry px mmid = some e) :
    ¬ Matches q mmid none := by
  intro h
  obtain ⟨ord, hord, -⟩ := h.listed_iff.mp ⟨px, e, he⟩
  cases hord

/-- A light that works an order without an entry. -/
theorem not_matches_of_gone (hentry : ∀ px, q.entry px mmid = none) (hlive : ord.canc = false) :
    ¬ Matches q mmid (some ord) := by
  intro h
  obtain ⟨px, e, he⟩ := h.listed_iff.mpr ⟨ord, rfl, hlive⟩
  rw [hentry] at he
  cases he

end Agreement

/-! ### The condition -/

/-- A fill leaves nothing to be filled exactly when it takes all that is listed. -/
def FillsListed (listed : Option QCoord.Ord) (sz stillToBeFilled : ℤ) : Prop :=
  match listed with
  | none => True
  | some e =>
      0 < sz → sz ≤ e.sz → 0 ≤ stillToBeFilled → (stillToBeFilled = 0 ↔ sz = e.sz)

/-- What a message of the order manager has to meet while the slot holds `ord`: a reject, and
    the last fill, is about `ord`; a fill of `ord` fits what is listed; a cancel ack that comes
    while `ord` is not cancelled names `ord` and no cancel request, or another order whose
    cancel was asked for; a cancel reject that clears the slot of `ord`, or cancels `ord` for
    another order, finds it cancelled. -/
def Fits (d : Desk) (mmid : ℕ) (ord : OrdInfo) : Msg → Prop
  | .fill id sz stbf =>
      if id = ord.oid then
        ord.canc = true ∨ FillsListed (d.qcoord.entry ord.px mmid) sz stbf
      else stbf ≠ 0
  | .cancAck id => ord.canc = true ∨ (id ∈ d.light.cancelRequests ↔ id ≠ ord.oid)
  | .cancReject id reason =>
      ord.canc = true ∨ ((reason = .notAcked → id = ord.oid) ∧
        (reason.clears = true → id ≠ ord.oid))
  | .reject id _ => id = ord.oid
  | _ => True

/-- The message meets the condition of its light. -/
def InOrder (d : Desk) (mmid : ℕ) (m : Msg) : Prop :=
  match d.light.ordInfo with
  | none => True
  | some ord => Fits d mmid ord m

/-- A message about another order leaves the slot. -/
def Minds (m : Msg) (slot slot' : Option OrdInfo) : Prop :=
  ∀ id ord, m.about = some id → slot = some ord → id ≠ ord.oid → slot' = some ord

instance : ∀ (listed : Option QCoord.Ord) (sz stbf : ℤ), Decidable (FillsListed listed sz stbf)
  | none, _, _ => inferInstanceAs (Decidable True)
  | some _, _, _ => inferInstanceAs (Decidable (_ → _ → _ → (_ ↔ _)))

instance (d : Desk) (mmid : ℕ) (ord : OrdInfo) : ∀ m, Decidable (Fits d mmid ord m)
  | .fill _ _ _ => inferInstanceAs (Decidable (ite _ _ _))
  | .cancAck _ => inferInstanceAs (Decidable (_ ∨ (_ ↔ _)))
  | .cancReject _ _ => inferInstanceAs (Decidable (_ ∨ ((_ → _) ∧ (_ → _))))
  | .reject id _ => inferInstanceAs (Decidable (id = ord.oid))
  | .endOfBurst .. | .tradeNotify .. | .gapDetected | .clear | .alarm .. | .start | .stop
  | .set _ => inferInstanceAs (Decidable True)

instance (d : Desk) (mmid : ℕ) (m : Msg) : Decidable (InOrder d mmid m) :=
  match h : d.light.ordInfo with
  | none => isTrue (by unfold InOrder; rw [h]; trivial)
  | some ord => decidable_of_iff (Fits d mmid ord m) (by unfold InOrder; rw [h])

/-! ### One message -/

section OneMessage

variable {m : Msg}

theorem Acts.agrees (hq : d.qcoord.Sound) (h : Agrees d.qcoord mmid d.light.ordInfo)
    (hacts : Acts mmid d d' o) : Agrees d'.qcoord mmid d'.light.ordInfo := by
  cases hacts with
  | idle hkeeps hsent =>
      rw [hkeeps.slot]
      exact h.of_same hkeeps.orders
  | cancel ord hcancel hsent =>
      rw [hcancel.slot] at h
      obtain ⟨hentry, hbit⟩ := h.after_removal hq hcancel.removed
      refine agrees_of_unlisted hentry hbit fun ord' hord => ?_
      rw [hcancel.marked] at hord
      obtain rfl := Option.some.inj hord
      rfl
  | place id sz px hplace hsent =>
      rw [hplace.taken]
      have hnone : ∀ ord, d.light.ordInfo = some ord → ord.canc = true := by
        intro ord hord
        rw [hplace.slot] at hord
        cases hord
      exact agrees_of_listed hplace.added (fun p _ => h.unlisted hnone p) rfl rfl

/-- The fill of the order that the light works. -/
theorem fill_own_agrees {ord : OrdInfo} {q' : QCoord} {sz stbf r : ℤ} (hq : d.qcoord.Sound)
    (h : Agrees d.qcoord mmid (some ord)) (hlive : ord.canc = false) (hstbf : 0 ≤ stbf)
    (hfits : FillsListed (d.qcoord.entry ord.px mmid) sz stbf)
    (hrem : d.qcoord.removeOrder ord.px sz mmid ord.oid false = some (q', r)) :
    Agrees q' mmid (if stbf = 0 then none else some ord) := by
  rcases removeOrder_some hrem with ⟨hno, -⟩ | ⟨e, hid, hle, hbit, hcase⟩
  · have hset := h.bit.mpr ⟨ord, rfl, hlive⟩
    exact absurd ⟨hq.inRange mmid hset, hset⟩ hno
  · rcases hcase with ⟨hwhole, -, hchange⟩ | ⟨-, hpos, hne, -, hchange⟩
    · have hsz : e.sz = sz := hwhole.resolve_right (by decide)
      rw [hchange.held] at hfits
      have hall : stbf = 0 :=
        (hfits (hsz ▸ hq.pos _ _ _ hchange.held) (Int.le_of_eq hsz.symm) hstbf).mpr hsz.symm
      rw [if_pos hall]
      refine agrees_of_unlisted (fun p => ?_) ?_ fun ord' hord => by cases hord
      · rw [hchange.only h.elsewhere]
        exact ite_self _
      · rw [hchange.bit, if_pos rfl]
        rfl
    · rw [hchange.held] at hfits
      have hmore : stbf ≠ 0 := by
        intro hzero
        exact hne ((hfits hpos hle hstbf).mp hzero).symm
      rw [if_neg hmore]
      exact agrees_of_listed hchange h.elsewhere rfl hlive

theorem fill_agrees {id sz stbf : ℤ} (hq : d.qcoord.Sound)
    (h : Agrees d.qcoord mmid d.light.ordInfo) (hin : InOrder d mmid (.fill id sz stbf))
    (hs : d.handle c mmid (.fill id sz stbf) = some (d', o)) :
    Agrees d'.qcoord mmid d'.light.ordInfo ∧
      Minds (.fill id sz stbf) d.light.ordInfo d'.light.ordInfo := by
  obtain ⟨hstbf, hslot', hqueue⟩ := fill_cases hs
  unfold InOrder at hin
  rcases hslot : d.light.ordInfo with _ | ord
  · rw [hslot] at h hslot'
    rw [ite_self] at hslot'
    rcases hqueue with ⟨hsame, -⟩ | ⟨ord, r, hord, -⟩
    · rw [hsame, hslot']
      exact ⟨h, fun id ord _ hord => by cases hord⟩
    · rw [hslot] at hord
      cases hord
  · rw [hslot] at hin h hslot'
    simp only [Fits] at hin
    by_cases hid : id = ord.oid
    · rw [if_pos hid] at hin
      refine ⟨?_, fun id' ord' habout hord hne => ?_⟩
      · rcases hqueue with ⟨hsame, hcanc⟩ | ⟨ord', r, hord, -, hlive, hrem⟩
        · rw [hsame, hslot']
          split
          · exact h.clear (hcanc ord hslot hid)
          · exact h
        · obtain rfl := Option.some.inj (hslot.symm.trans hord)
          rw [hslot']
          rw [hid] at hrem
          refine fill_own_agrees hq h hlive hstbf (hin.resolve_left ?_) hrem
          rw [hlive]
          decide
      · obtain rfl := Option.some.inj hord
        obtain rfl := Option.some.inj habout
        exact absurd hid hne
    · rw [if_neg hid] at hin
      rw [if_neg hin] at hslot'
      rw [hslot']
      refine ⟨?_, fun id' ord' _ hord _ => hord⟩
      rcases hqueue with ⟨hsame, -⟩ | ⟨ord', r, hord, hid', -⟩
      · rw [hsame]
        exact h
      · obtain rfl := Option.some.inj (hslot.symm.trans hord)
        exact absurd hid' hid

/-- A message that leaves the slot of another order, or clears that of its own. -/
theorem minds_of_named {id : ℤ} {ord : OrdInfo} {slot : Option OrdInfo} (habout : m.about = some id)
    (hslot : slot = if id = ord.oid then none else some ord) : Minds m (some ord) slot := by
  intro id' ord' habout' hord hne
  obtain rfl := Option.some.inj (habout.symm.trans habout')
  obtain rfl := Option.some.inj hord
  rw [hslot, if_neg hne]

theorem cancAck_agrees {id : ℤ} (hq : d.qcoord.Sound)
    (h : Agrees d.qcoord mmid d.light.ordInfo) (hin : InOrder d mmid (.cancAck id))
    (hs : d.cancAckHandler mmid id = some (d', o)) :
    Agrees d'.qcoord mmid d'.light.ordInfo ∧
      Minds (.cancAck id) d.light.ordInfo d'.light.ordInfo := by
  obtain ⟨-, -, -, ord, hslot, hslot', hqueue⟩ := cancAck_cases hs
  unfold InOrder at hin
  rw [hslot] at hin h ⊢
  simp only [Fits] at hin
  refine ⟨?_, minds_of_named rfl hslot'⟩
  rw [hslot']
  rcases hqueue with ⟨hasked, hsame⟩ | ⟨hnot, hrem⟩
  · rw [hsame]
    split
    next hid => exact h.clear (hin.resolve_right fun hiff => hiff.mp hasked hid)
    next => exact h
  · obtain ⟨hentry, hbit⟩ := h.after_removal hq hrem
    refine agrees_of_unlisted hentry hbit fun ord' hord => ?_
    split at hord
    · cases hord
    next hid =>
      obtain rfl := Option.some.inj hord
      exact hin.resolve_right fun hiff => hnot (hiff.mpr hid)

theorem cancRej_agrees {id : ℤ} {reason : CancRejReason} (hq : d.qcoord.Sound)
    (h : Agrees d.qcoord mmid d.light.ordInfo) (hin : InOrder d mmid (.cancReject id reason))
    (hs : d.cancRejHandler mmid id reason = some (d', o)) :
    Agrees d'.qcoord mmid d'.light.ordInfo ∧
      Minds (.cancReject id reason) d.light.ordInfo d'.light.ordInfo := by
  obtain ⟨-, -, hcases⟩ := cancRej_cases hs
  unfold InOrder at hin
  rcases hcases with ⟨hreason, hacts⟩ | ⟨hclears, hsame, -, ord, hslot, hslot'⟩ | ⟨-, -, hkeeps⟩
  · refine ⟨hacts.agrees hq h, fun id' ord habout hslot hne => ?_⟩
    obtain rfl := Option.some.inj habout
    rw [hslot] at hin
    have hcanc : ord.canc = true := hin.resolve_right fun hboth => hne (hboth.1 hreason)
    exact (hacts.keeps_of_canc hslot hcanc).1.slot.trans hslot
  · rw [hslot] at hin h ⊢
    refine ⟨?_, minds_of_named rfl hslot'⟩
    rw [hslot', hsame]
    split
    next hid => exact h.clear (hin.resolve_right fun hboth => hboth.2 hclears hid)
    next => exact h
  · rw [hkeeps.slot]
    exact ⟨h.of_same hkeeps.orders, fun id' ord' _ hord _ => hord⟩

theorem reject_agrees {id : ℤ} {reason : RejReason} (hq : d.qcoord.Sound)
    (h : Agrees d.qcoord mmid d.light.ordInfo) (hin : InOrder d mmid (.reject id reason))
    (hs : d.rejectHandler mmid reason = some (d', o)) :
    Agrees d'.qcoord mmid d'.light.ordInfo ∧
      Minds (.reject id reason) d.light.ordInfo d'.light.ordInfo := by
  obtain ⟨-, -, -, hslot', hqueue⟩ := reject_cases hs
  unfold InOrder at hin
  rw [hslot']
  rcases hqueue with ⟨hslot, hsame⟩ | ⟨ord, hslot, hrem⟩
  · rw [hslot] at h ⊢
    rw [hsame]
    exact ⟨h, fun id' ord' _ hord => by cases hord⟩
  · rw [hslot] at hin h ⊢
    obtain ⟨hentry, hbit⟩ := h.after_removal hq hrem
    refine ⟨agrees_of_unlisted hentry hbit (fun ord' hord => by cases hord), ?_⟩
    intro id' ord' habout hord hne
    obtain rfl := Option.some.inj habout
    obtain rfl := Option.some.inj hord
    exact absurd hin hne

/-- **A message that meets the condition** keeps the slot and the queue one, and minds what it
    is about. -/
theorem handle_agrees (hq : d.qcoord.Sound) (h : Agrees d.qcoord mmid d.light.ordInfo)
    (hin : InOrder d mmid m) (hs : d.handle c mmid m = some (d', o)) :
    Agrees d'.qcoord mmid d'.light.ordInfo ∧ Minds m d.light.ordInfo d'.light.ordInfo := by
  cases hm : m.about with
  | none =>
      refine ⟨(handle_acts hm hs).1.agrees hq h, fun id ord habout => ?_⟩
      rw [hm] at habout
      cases habout
  | some id =>
      cases m with
      | fill id sz stbf => exact fill_agrees hq h hin hs
      | cancAck id =>
          rw [handle_of_lastPart rfl] at hs
          exact cancAck_agrees hq h hin hs
      | cancReject id reason =>
          rw [handle_of_lastPart rfl] at hs
          exact cancRej_agrees hq h hin hs
      | reject id reason =>
          rw [handle_of_lastPart rfl] at hs
          exact reject_agrees hq h hin hs
      | _ => cases hm

/-! ### A message that does not meet the condition -/

/-- The fill of the order that the light works, where what it leaves is not what is listed. -/
theorem fill_own_violates {ord : OrdInfo} {q' : QCoord} {sz stbf r : ℤ}
    (h : Agrees d.qcoord mmid (some ord)) (hq : d.qcoord.Sound) (hlive : ord.canc = false)
    (hnot : ¬ FillsListed (d.qcoord.entry ord.px mmid) sz stbf)
    (hrem : d.qcoord.removeOrder ord.px sz mmid ord.oid false = some (q', r)) :
    ¬ Matches q' mmid (if stbf = 0 then none else some ord) := by
  rcases removeOrder_some hrem with ⟨hno, -⟩ | ⟨e, hid, hle, hbit, hcase⟩
  · have hset := h.bit.mpr ⟨ord, rfl, hlive⟩
    exact absurd ⟨hq.inRange mmid hset, hset⟩ hno
  · rcases hcase with ⟨hwhole, -, hchange⟩ | ⟨-, hpos, hne, -, hchange⟩
    · -- nothing is listed any more, but something is left to be filled
      have hsz : e.sz = sz := hwhole.resolve_right (by decide)
      rw [hchange.held] at hnot
      have hmore : stbf ≠ 0 := fun hzero => hnot fun _ _ _ => ⟨fun _ => hsz.symm, fun _ => hzero⟩
      rw [if_neg hmore]
      refine not_matches_of_gone (fun p => ?_) hlive
      rw [hchange.only h.elsewhere]
      exact ite_self _
    · -- something is still listed, but nothing is left to be filled
      rw [hchange.held] at hnot
      have hdone : stbf = 0 := by
        by_contra hmore
        exact hnot fun _ _ _ => ⟨fun hzero => absurd hzero hmore, fun heq => absurd heq.symm hne⟩
      rw [if_pos hdone]
      have hstill : q'.entry ord.px mmid = some ⟨ord.oid, e.sz - sz⟩ := by
        rw [hchange.only h.elsewhere, if_pos rfl]
      exact not_matches_of_left hstill

theorem fill_violates {id sz stbf : ℤ} {ord : OrdInfo} (hq : d.qcoord.Sound)
    (hslot : d.light.ordInfo = some ord) (h : Agrees d.qcoord mmid (some ord))
    (hnot : ¬ Fits d mmid ord (.fill id sz stbf))
    (hs : d.handle c mmid (.fill id sz stbf) = some (d', o)) :
    ¬ (Matches d'.qcoord mmid d'.light.ordInfo ∧
      Minds (.fill id sz stbf) (some ord) d'.light.ordInfo) := by
  obtain ⟨-, hslot', hqueue⟩ := fill_cases hs
  rw [hslot] at hslot'
  simp only [Fits] at hnot
  rintro ⟨hmatch, hminds⟩
  split at hnot
  next hid =>
    obtain ⟨hlive, hnot⟩ := not_or.mp hnot
    rw [Bool.not_eq_true] at hlive
    rcases hqueue with ⟨-, hcanc⟩ | ⟨ord', r, hord, -, -, hrem⟩
    · rw [hcanc ord hslot hid] at hlive
      cases hlive
    · obtain rfl := Option.some.inj (hslot.symm.trans hord)
      rw [hid] at hrem
      rw [hslot'] at hmatch
      exact fill_own_violates h hq hlive hnot hrem hmatch
  next hid =>
    have hkept := hminds id ord rfl rfl hid
    rw [hslot', if_pos (not_not.mp hnot)] at hkept
    cases hkept

theorem cancAck_violates {id : ℤ} {ord : OrdInfo} (hq : d.qcoord.Sound)
    (hslot : d.light.ordInfo = some ord) (h : Agrees d.qcoord mmid (some ord))
    (hnot : ¬ Fits d mmid ord (.cancAck id))
    (hs : d.cancAckHandler mmid id = some (d', o)) :
    ¬ Matches d'.qcoord mmid d'.light.ordInfo := by
  obtain ⟨-, -, -, ord', hord, hslot', hqueue⟩ := cancAck_cases hs
  obtain rfl := Option.some.inj (hslot.symm.trans hord)
  simp only [Fits] at hnot
  obtain ⟨hlive, hnot⟩ := not_or.mp hnot
  rw [Bool.not_eq_true] at hlive
  rw [hslot']
  rcases hqueue with ⟨hasked, hsame⟩ | ⟨hunasked, hrem⟩
  · have hid : id = ord.oid := by
      by_contra hne
      exact hnot ⟨fun _ => hne, fun _ => hasked⟩
    obtain ⟨e, he, -⟩ := h.lists hlive
    rw [if_pos hid, hsame]
    exact not_matches_of_left he
  · have hid : id ≠ ord.oid := by
      intro heq
      exact hnot ⟨fun hasked => absurd hasked hunasked, fun hne => absurd heq hne⟩
    rw [if_neg hid]
    exact not_matches_of_gone (h.after_removal hq hrem).1 hlive

theorem cancRej_violates {id : ℤ} {reason : CancRejReason} {ord : OrdInfo}
    (hslot : d.light.ordInfo = some ord) (h : Agrees d.qcoord mmid (some ord))
    (hnot : ¬ Fits d mmid ord (.cancReject id reason))
    (hs : d.cancRejHandler mmid id reason = some (d', o)) :
    ¬ (Matches d'.qcoord mmid d'.light.ordInfo ∧
      Minds (.cancReject id reason) (some ord) d'.light.ordInfo) := by
  simp only [Fits] at hnot
  obtain ⟨hlive, hnot⟩ := not_or.mp hnot
  rw [Bool.not_eq_true] at hlive
  rintro ⟨hmatch, hminds⟩
  by_cases hreason : reason = .notAcked
  · -- the order of the slot is cancelled, whichever order the message names
    subst hreason
    have hid : id ≠ ord.oid := by
      intro heq
      exact hnot ⟨fun _ => heq, fun hclears => by cases hclears⟩
    have hkept := hminds id ord rfl rfl hid
    have hmarked : ∃ ord', d'.light.ordInfo = some ord' ∧ ord'.canc = true := by
      unfold Desk.cancRejHandler Desk.cancelOrder at hs
      dsimp only at hs
      rw [hslot] at hs
      dsimp only at hs
      rw [if_neg (by rw [hlive]; decide)] at hs
      split at hs
      · cases hs
      · split at hs
        · cases hs
        · cases hs
          exact ⟨_, rfl, rfl⟩
    obtain ⟨ord', hord', hcanc⟩ := hmarked
    obtain rfl := Option.some.inj (hkept.symm.trans hord')
    rw [hlive] at hcanc
    cases hcanc
  · obtain ⟨-, -, ⟨heq, -⟩ | ⟨-, hsame, -, ord', hord, hslot'⟩ | ⟨-, hclears, -⟩⟩ :=
      cancRej_cases hs
    · exact hreason heq
    · obtain rfl := Option.some.inj (hslot.symm.trans hord)
      have hid : id = ord.oid := by
        by_contra hne
        exact hnot ⟨fun heq => absurd heq hreason, fun _ => hne⟩
      obtain ⟨e, he, -⟩ := h.lists hlive
      rw [hslot', if_pos hid, hsame] at hmatch
      exact not_matches_of_left he hmatch
    · refine hnot ⟨fun heq => absurd heq hreason, fun htrue => ?_⟩
      rw [hclears] at htrue
      cases htrue

theorem reject_violates {id : ℤ} {reason : RejReason} {ord : OrdInfo}
    (hnot : ¬ Fits d mmid ord (.reject id reason))
    (hs : d.rejectHandler mmid reason = some (d', o)) :
    ¬ Minds (.reject id reason) (some ord) d'.light.ordInfo := by
  obtain ⟨-, -, -, hslot', -⟩ := reject_cases hs
  intro hminds
  have hkept := hminds id ord rfl rfl hnot
  rw [hslot'] at hkept
  cases hkept

/-- A message that does not meet the condition does not stop the light. -/
theorem handle_isSome (hq : d.qcoord.Sound) (h : Agrees d.qcoord mmid d.light.ordInfo)
    (hnot : ¬ InOrder d mmid m) : ∃ d' o, d.handle c mmid m = some (d', o) := by
  unfold InOrder at hnot
  split at hnot
  · exact absurd trivial hnot
  next ord hslot =>
    rw [hslot] at h
    obtain ⟨q', hrem⟩ := h.removeOrder_all hq
    cases m with
    | fill id sz stbf =>
        simp only [Fits] at hnot
        simp only [handle_fill, Desk.fillHandler, hslot]
        split at hnot
        next hid =>
          obtain ⟨hlive, hnot⟩ := not_or.mp hnot
          obtain ⟨e, he, -⟩ := h.lists (Bool.eq_false_iff.mpr hlive)
          rw [he] at hnot
          simp only [FillsListed, Classical.not_imp] at hnot
          obtain ⟨hpos, hle, hstbf, -⟩ := hnot
          have hfits : ∀ e', d.qcoord.entry ord.px mmid = some e' → sz ≤ e'.sz := by
            intro e' he'
            obtain rfl := Option.some.inj (he.symm.trans he')
            exact hle
          obtain ⟨q', r, hrem⟩ : ∃ q' r,
              d.qcoord.removeOrder ord.px sz mmid ord.oid false = some (q', r) :=
            h.removeOrder_isSome (.inr hpos) hfits
          rw [if_neg (fun hor => hor.elim (fun hne => hne hid) hlive), hid, hrem]
          simp only [Option.map_some, Option.bind_some, Desk.addPosition,
            if_neg (Int.not_lt.mpr hstbf)]
          split
          · exact ⟨_, _, rfl⟩
          · exact ⟨_, _, rfl⟩
        next hid =>
          rw [if_pos (.inl hid), not_not.mp hnot]
          exact ⟨_, _, rfl⟩
    | cancAck id =>
        rw [handle_of_lastPart rfl]
        simp only [Desk.cancAckHandler, hslot, hrem]
        by_cases hasked : id ∈ d.light.cancelRequests
        · rw [if_pos hasked]
          exact ⟨_, _, rfl⟩
        · rw [if_neg hasked]
          exact ⟨_, _, rfl⟩
    | cancReject id reason =>
        cases reason with
        | notAcked =>
            rw [handle_of_lastPart rfl]
            simp only [Desk.cancRejHandler, Desk.cancelOrder, hslot, hrem]
            split
            · exact ⟨_, _, rfl⟩
            · exact ⟨_, _, rfl⟩
        | internalOidToCanc | rejectOnMod | filledAlready | cancelledAlready
        | rejectedPreviously | throttle => exact ⟨_, _, rfl⟩
        | fromExchange | fromExchangeBusinessReject | notFound | disconnected | notLoggedIn
        | unknown =>
            rw [handle_of_lastPart rfl]
            simp only [Desk.cancRejHandler, Desk.rejNamed, hslot]
            exact ⟨_, _, rfl⟩
    | reject id reason =>
        rw [handle_of_lastPart rfl]
        simp only [Desk.rejectHandler, hslot, hrem]
        exact ⟨_, _, rfl⟩
    | _ => exact absurd trivial hnot

/-- **A message that does not meet the condition** parts the slot and the queue, or changes
    the slot of an order it is not about. -/
theorem handle_violates (hq : d.qcoord.Sound) (h : Agrees d.qcoord mmid d.light.ordInfo)
    (hnot : ¬ InOrder d mmid m) (hs : d.handle c mmid m = some (d', o)) :
    ¬ (Matches d'.qcoord mmid d'.light.ordInfo ∧ Minds m d.light.ordInfo d'.light.ordInfo) := by
  unfold InOrder at hnot
  split at hnot
  · exact absurd trivial hnot
  next ord hslot =>
    rw [hslot] at h ⊢
    cases m with
    | fill id sz stbf => exact fill_violates hq hslot h hnot hs
    | cancAck id =>
        rw [handle_of_lastPart rfl] at hs
        exact fun hboth => cancAck_violates hq hslot h hnot hs hboth.1
    | cancReject id reason =>
        rw [handle_of_lastPart rfl] at hs
        exact cancRej_violates hslot h hnot hs
    | reject id reason =>
        rw [handle_of_lastPart rfl] at hs
        exact fun hboth => reject_violates hnot hs hboth.2
    | _ => exact absurd trivial hnot

end OneMessage

/-! ### Runs -/

section Runs

variable {s s' : Bank} {e : Event} {es : List Event} {out : List (ℕ × Out)}

/-- The desk of a light. -/
def Bank.desk (s : Bank) (mmid : ℕ) : Desk := ⟨s.lights mmid, s.qcoord, s.position⟩

/-- Every light has the order it works in the shared queue. -/
def Bank.InStep (s : Bank) : Prop := ∀ i, Matches s.qcoord i (s.lights i).ordInfo

/-- The lights before the first order. -/
structure Bank.Fresh (s : Bank) : Prop where
  slots : ∀ i, (s.lights i).ordInfo = none
  qcoord : s.qcoord = {}

theorem step_desk {o : List (ℕ × Out)} (h : step cfg s e = some (s', o)) :
    ∃ o', (s.desk e.mmid).handle (cfg e.mmid) e.mmid e.msg = some (s'.desk e.mmid, o') ∧
      o = o'.map (fun x => (e.mmid, x)) ∧
      ∀ i, i ≠ e.mmid → s'.lights i = s.lights i := by
  obtain ⟨⟨d, o'⟩, hd, heq⟩ := Option.map_eq_some_iff.mp h
  cases heq
  refine ⟨o', ?_, rfl, fun i hne => Function.update_of_ne hne _ _⟩
  unfold Bank.desk
  dsimp only
  rw [Function.update_self]
  exact hd

/-- What a run keeps: the queue is sound and agrees with every slot. -/
structure Bank.Paired (s : Bank) : Prop where
  sound : s.qcoord.Sound
  agrees : ∀ i, Agrees s.qcoord i (s.lights i).ordInfo

theorem paired_of_fresh (h : s.Fresh) : s.Paired where
  sound := h.qcoord ▸ sound_new
  agrees := fun i => by
    rw [h.slots, h.qcoord]
    exact agrees_of_unlisted (fun px => rfl) rfl fun ord hord => by cases hord

theorem Bank.Paired.step {o : List (ℕ × Out)} (h : s.Paired)
    (hin : InOrder (s.desk e.mmid) e.mmid e.msg) (hs : step cfg s e = some (s', o)) :
    s'.Paired ∧ Minds e.msg (s.lights e.mmid).ordInfo (s'.lights e.mmid).ordInfo := by
  obtain ⟨o', hd, -, hothers⟩ := step_desk hs
  have hmove := handle_move hd
  obtain ⟨hagrees, hminds⟩ := handle_agrees h.sound (h.agrees e.mmid) hin hd
  refine ⟨⟨hmove.sound h.sound, fun i => ?_⟩, hminds⟩
  by_cases hi : i = e.mmid
  · rw [hi]
    exact hagrees
  · obtain ⟨hentry, hbit⟩ := hmove.frame hi
    rw [hothers i hi]
    exact (h.agrees i).congr hentry hbit

/-- What is asked of a step: slot and queue agree after it for every light, and the
    message minds what it is about. -/
def StepAgrees (cfg : ℕ → Cfg) (s : Bank) (e : Event) : Prop :=
  ∀ s' o, step cfg s e = some (s', o) →
    s'.InStep ∧ Minds e.msg (s.lights e.mmid).ordInfo (s'.lights e.mmid).ordInfo

theorem stepAgrees_iff (h : s.Paired) :
    StepAgrees cfg s e ↔ InOrder (s.desk e.mmid) e.mmid e.msg := by
  constructor
  · intro hagrees
    by_contra hnot
    obtain ⟨d', o', hd⟩ := handle_isSome (c := cfg e.mmid) h.sound (h.agrees e.mmid) hnot
    have hs : ∃ s' o, step cfg s e = some (s', o) := by
      unfold Bank.desk at hd
      unfold step
      rw [hd]
      exact ⟨_, _, rfl⟩
    obtain ⟨s', o, hs⟩ := hs
    obtain ⟨o'', hd', -⟩ := step_desk hs
    obtain ⟨hstep, hminds⟩ := hagrees s' o hs
    exact handle_violates h.sound (h.agrees e.mmid) hnot hd' ⟨hstep e.mmid, hminds⟩
  · intro hin s' o hs
    obtain ⟨hpaired, hminds⟩ := h.step hin hs
    exact ⟨fun i => (hpaired.agrees i).toMatches, hminds⟩

theorem allSteps_stepAgrees_iff (hpaired : s.Paired) (es : List Event) :
    AllSteps (step cfg) (StepAgrees cfg) s es ↔
      AllSteps (step cfg) (fun s e => InOrder (s.desk e.mmid) e.mmid e.msg) s es := by
  induction es generalizing s with
  | nil => exact Iff.rfl
  | cons e es ih =>
      rw [allSteps_cons, allSteps_cons, stepAgrees_iff hpaired]
      refine and_congr_right fun hin => ?_
      exact forall_congr' fun s' => forall_congr' fun o => forall_congr' fun hs =>
        ih (hpaired.step hin hs).1

/-- **Slot and queue agree after every message, and each message minds what it is about**,
    exactly when every message of the run meets the condition. -/
theorem slots_agree_iff (hfresh : s.Fresh) (es : List Event) :
    AllSteps (step cfg) (StepAgrees cfg) s es ↔
      AllSteps (step cfg) (fun s e => InOrder (s.desk e.mmid) e.mmid e.msg) s es :=
  allSteps_stepAgrees_iff (paired_of_fresh hfresh) es

end Runs

/-! ### Two lights -/

/-- Buying lights that place on every event. -/
def buyers : ℕ → Cfg := fun _ =>
  { side := .buy, mdVenue := 1, placeRateBp := 0, placeAfterNEob := 0, nlevels := 3 }

/-- No orders, the position ten short of the target. -/
def noOrders : Bank where
  lights := fun _ =>
    { levOrdersMax := 10, ordSz := 10, allOrdersMax := 60, targetpos := 10, skip := 0 }

theorem fresh_noOrders : noOrders.Fresh := ⟨fun _ => rfl, rfl⟩

/-- A bid of ten, added to the market as order `exOrderId`; an order that is placed upon it gets
    the id `ack`. -/
def bidAdded (mmid exOrderId : ℕ) (ack : ℤ) (px : ℤ := 20) : Event where
  mmid := mmid
  msg := .endOfBurst
    { side := .buy, exOrderId := exOrderId, orderRef := ⟨0, 0⟩, mev := .add, action := .none
      sz := 10, dispSz := 10, px := px, tim := 5, sendTim := 5, mkt := 1, eoe := true
      recovery := false }
    { bidPx := List.replicate 16 20, askPx := List.replicate 16 22
      bidSz := List.replicate 16 5, askSz := List.replicate 16 5, baddata := false } 0 (some ack)

/-- Partial fills of an order, one of them after its cancel, then a second order that a late
    reject of the first one's cancel leaves alone. -/
def cancelledPartly : List Event :=
  [bidAdded 1 7 1, ⟨1, .fill 1 4 6⟩, ⟨1, .gapDetected⟩, ⟨1, .fill 1 2 4⟩, ⟨1, .cancAck 1⟩,
    bidAdded 1 8 2, bidAdded 2 9 3, ⟨1, .cancReject 1 .notFound⟩, ⟨1, .fill 2 4 0⟩]

theorem cancelledPartly_agrees :
    AllSteps (step buyers) (StepAgrees buyers) noOrders cancelledPartly :=
  (slots_agree_iff fresh_noOrders cancelledPartly).mpr (by decide +kernel)

/-- The exchange rejects the cancel of an order it has filled; the fill comes in when the light
    works another order, and takes that one out of the slot. -/
theorem late_fill_clears_slot :
    ¬ ∀ (cfg : ℕ → Cfg) (s : Bank) (es : List Event), s.Fresh →
      AllSteps (step cfg) (StepAgrees cfg) s es := by
  intro hall
  have hrun := (allSteps_stepAgrees_iff (paired_of_fresh fresh_noOrders) _).mp (hall buyers noOrders
    [bidAdded 1 7 1, ⟨1, .gapDetected⟩, ⟨1, .cancReject 1 .fromExchange⟩, bidAdded 1 8 2,
      ⟨1, .fill 1 10 0⟩] fresh_noOrders)
  revert hrun
  decide +kernel

end KasparHft.Light22
