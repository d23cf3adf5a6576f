import KasparHft.ILinkFills
import KasparHft.ILinkRequests

/-!
# Which message a business reject is about

A business reject names the rejected message by its sequence number.  The handler keeps two maps
from numbers to orders, one written with each order and one with each cancel; neither is emptied
when `ILinkSnd::reset_uuid` starts the numbers again, so a number can be in both with what two
sessions sent under it.

A session is what is sent under one UUID: a bind to the UUID in use goes on with it.  `NextSeqNo`
is taken from `ILinkSnd`; what is sent to negotiate and to establish has no number and is left out.
-/

namespace KasparHft.ILink

open AssocMap Machine

/-! ### The sender of the connection -/

/-- The members of `ILinkSnd` that number what is sent. -/
structure Snd where
  uuid : ℕ := 0
  nextSeqNo : ℕ := 1
deriving DecidableEq, Repr

/-- `reset_uuid`; `epoch` is the clock. -/
def Snd.resetUuid (uuid nextSeqNo epoch : ℕ) : Snd :=
  { uuid := if uuid ≠ 0 then uuid else epoch / 1000, nextSeqNo }

/-- `NextSeqNo++`. -/
def Snd.take (snd : Snd) : Snd := { snd with nextSeqNo := add32 snd.nextSeqNo 1 }

/-- The messages that are sent with a number. -/
def Snd.send (snd : Snd) : Sent → Snd
  | .newOrderSingle _ _ _ _ | .orderCancel _ _ _ | .partyDetailsListRequest _ => snd.take
  | _ => snd

/-- The handler and the sender of its connection. -/
structure Session where
  handler : State := {}
  snd : Snd := {}
  preRegister : Bool := false

/-- What the handler receives, from its clients, the arbiter and the exchange. -/
inductive Msg where
  | resetUUID (epoch : ℕ)
  | doBind (uuid nextseqFromUs lastseqFromCme : ℕ)
  | registerPartyDetails
  | establishmentAck
  | order (m : Som.Order) (cloidStart : String) (hms : ℕ)
  | cancel (id : Int32) (sender : ℕ)
  | executionReport (param : ExecReport)
  | cancelReject (isReplace : Bool) (clOrdID : String) (seqNum : ℕ)
  | businessReject (refID reason seqNum : ℕ)
  | partyDetailsAck (seqNum reqid : ℕ)
  | notApplied (nextSeqNo : ℕ)
  | sequence (nextSeqNo : ℕ) (lapsed : Bool)

/-- A message that changes nothing of the session itself, and the numbers its answers take. -/
def Session.handle (cfg : Cfg) (t : Session) (e : Event) : Option (Session × List Sent) :=
  (ILink.handle cfg t.handler e).map fun r =>
    ({ t with handler := r.1, snd := r.2.foldl Snd.send t.snd }, r.2)

/-- One message of a session. -/
def Session.step (cfg : Cfg) (t : Session) : Msg → Option (Session × List Sent)
  | .resetUUID epoch => some ({ t with snd := .resetUuid 0 1 epoch }, [])
  | .doBind uuid nextseqFromUs lastseqFromCme =>
      -- the clock is not read
      let snd := if uuid ≠ 0 then .resetUuid uuid nextseqFromUs 0 else t.snd
      Session.handle cfg { t with snd } (.bind lastseqFromCme)
  | .registerPartyDetails => some ({ t with snd := t.snd.take }, [])
  | .establishmentAck => some ({ t with snd := if t.preRegister then t.snd.take else t.snd }, [])
  | .order m cloidStart hms => t.handle cfg (.order m cloidStart hms t.snd.nextSeqNo)
  | .cancel id sender => t.handle cfg (.cancel id sender t.snd.nextSeqNo)
  | .executionReport param => t.handle cfg (.executionReport param)
  | .cancelReject isReplace clOrdID seqNum => t.handle cfg (.cancelReject isReplace clOrdID seqNum)
  | .businessReject refID reason seqNum => t.handle cfg (.businessReject refID reason seqNum)
  | .partyDetailsAck seqNum reqid => t.handle cfg (.partyDetailsAck seqNum reqid)
  | .notApplied nextSeqNo => t.handle cfg (.notApplied nextSeqNo)
  | .sequence nextSeqNo lapsed => t.handle cfg (.sequence nextSeqNo lapsed)

/-- The fields that are `uint32_t` and that `check_seq` reads. -/
def Msg.Uint32 : Msg → Prop
  | .doBind _ nextseqFromUs lastseqFromCme => nextseqFromUs < 2 ^ 32 ∧ lastseqFromCme < 2 ^ 32
  | .executionReport param => param.seqNum < 2 ^ 32
  | .cancelReject _ _ seqNum | .businessReject _ _ seqNum | .partyDetailsAck seqNum _ =>
      seqNum < 2 ^ 32
  | .notApplied nextSeqNo | .sequence nextSeqNo _ => nextSeqNo < 2 ^ 32
  | .resetUUID _ | .registerPartyDetails | .establishmentAck | .order _ _ _ | .cancel _ _ => True

instance : DecidablePred Msg.Uint32
  | .doBind _ nextseqFromUs lastseqFromCme =>
      inferInstanceAs (Decidable (nextseqFromUs < 2 ^ 32 ∧ lastseqFromCme < 2 ^ 32))
  | .executionReport param => inferInstanceAs (Decidable (param.seqNum < 2 ^ 32))
  | .cancelReject _ _ seqNum => inferInstanceAs (Decidable (seqNum < 2 ^ 32))
  | .businessReject _ _ seqNum => inferInstanceAs (Decidable (seqNum < 2 ^ 32))
  | .partyDetailsAck seqNum _ => inferInstanceAs (Decidable (seqNum < 2 ^ 32))
  | .notApplied nextSeqNo => inferInstanceAs (Decidable (nextSeqNo < 2 ^ 32))
  | .sequence nextSeqNo _ => inferInstanceAs (Decidable (nextSeqNo < 2 ^ 32))
  | .resetUUID _ | .registerPartyDetails | .establishmentAck | .order _ _ _ | .cancel _ _ =>
      inferInstanceAs (Decidable True)

/-! ### What was sent under a number -/

/-- A message that has a number. -/
inductive Numbered where
  | order (coid : Int32)
  | cancel (coid : Int32)
  | partyDetails
deriving DecidableEq, Repr

/-- A cancel that waits for an exchange order id is answered and not sent. -/
def State.NotAcked (cfg : Cfg) (s : State) (id : Int32) : Prop :=
  cfg.cancelDoNotSendXOrderid = false ∧
    (s.coidToCloid.lookup id).bind s.cloidToXoid.lookup = none ∧ cfg.cancelRequiredXOrderid = true

instance (cfg : Cfg) (s : State) (id : Int32) : Decidable (s.NotAcked cfg id) :=
  inferInstanceAs (Decidable (_ ∧ _))

/-- What a message sends under `NextSeqNo`. -/
def Session.sends (cfg : Cfg) (t : Session) : Msg → Option Numbered
  | .order m _ _ => some (.order m.oid)
  | .cancel id _ => if t.handler.NotAcked cfg id then none else some (.cancel id)
  | .registerPartyDetails | .partyDetailsAck _ _ => some .partyDetails
  | .establishmentAck => if t.preRegister then some .partyDetails else none
  | _ => none

/-- A message that starts another session. -/
def Session.Renews (t : Session) : Msg → Prop
  | .resetUUID _ => True
  | .doBind uuid _ _ => uuid ≠ 0 ∧ uuid ≠ t.snd.uuid
  | _ => False

instance (t : Session) : DecidablePred t.Renews
  | .resetUUID _ => inferInstanceAs (Decidable True)
  | .doBind uuid _ _ => inferInstanceAs (Decidable (uuid ≠ 0 ∧ uuid ≠ t.snd.uuid))
  | .registerPartyDetails | .establishmentAck | .order _ _ _ | .cancel _ _ | .executionReport _
  | .cancelReject _ _ _ | .businessReject _ _ _ | .partyDetailsAck _ _ | .notApplied _
  | .sequence _ _ => inferInstanceAs (Decidable False)

/-- What was sent last under each number of the current session, and the numbers of all orders and
    of all cancels so far, of any session. -/
structure History where
  current : Map ℕ Numbered := ∅
  orders : List ℕ := []
  cancels : List ℕ := []

def History.add (g : History) (n : ℕ) : Numbered → History
  | .order coid => { g with current := g.current.insert n (.order coid), orders := n :: g.orders }
  | .cancel coid =>
      { g with current := g.current.insert n (.cancel coid), cancels := n :: g.cancels }
  | .partyDetails => { g with current := g.current.insert n .partyDetails }

/-- The history after a message. -/
def noteSent (cfg : Cfg) (t : Session) (m : Msg) (g : History) : History :=
  match t.sends cfg m with
  | some sent => g.add t.snd.nextSeqNo sent
  | none => if t.Renews m then { g with current := ∅ } else g

/-- One message, and what was sent. -/
def sessionStep (cfg : Cfg) : Session × History → Msg → Option ((Session × History) × List Sent) :=
  withGhost (Session.step cfg) (noteSent cfg)

/-! ### What one message changes -/

/-- The handler knows the order. -/
def State.Known (s : State) (coid : Int32) : Prop := ∃ order, s.coidToOrder.lookup coid = some order

/-- Neither map of numbers is written, and no order is forgotten. -/
structure State.Keeps (s s' : State) : Prop where
  nos : s'.nosSeqnumToCoid = s.nosSeqnumToCoid
  canc : s'.cancSeqnumToCoid = s.cancSeqnumToCoid
  known : ∀ coid, s.Known coid → s'.Known coid
  lastseq : s.seq.lastseq < 2 ^ 32 → s'.seq.lastseq < 2 ^ 32

theorem State.Keeps.refl (s : State) : s.Keeps s := ⟨rfl, rfl, fun _ h => h, fun h => h⟩

theorem State.Keeps.trans {s s₁ s₂ : State} (h₁ : s.Keeps s₁) (h₂ : s₁.Keeps s₂) : s.Keeps s₂ where
  nos := h₂.nos.trans h₁.nos
  canc := h₂.canc.trans h₁.canc
  known := fun coid h => h₂.known coid (h₁.known coid h)
  lastseq := fun h => h₂.lastseq (h₁.lastseq h)

variable {cfg : Cfg} {s s' : State} {o : List Sent} {n : ℕ}

theorem known_insert {order : Som.Order} {coid coid' : Int32} (h : s.Known coid) :
    ∃ order', (s.coidToOrder.insert coid' order).lookup coid = some order' := by
  by_cases heq : coid = coid'
  · exact ⟨order, by rw [heq, AList.lookup_insert]⟩
  · rw [AList.lookup_insert_ne heq]
    exact h

theorem inbound_eq_some {s : State} {i : Inbound} (h : s.inbound i = some (s', o)) :
    ∃ r, s.seq.inbound i = some r ∧ s' = { s with seq := r.1 } ∧
      o = r.2.map .retransmissionRequest := by
  obtain ⟨r, hr, heq⟩ := Option.map_eq_some_iff.mp h
  cases heq
  exact ⟨r, hr, rfl, rfl⟩

theorem inbound_lastseq {q q' : Seq} {i : Inbound} {rs : List Request} (hi : i.Uint32)
    (hq : q.lastseq < 2 ^ 32) (h : q.inbound i = some (q', rs)) : q'.lastseq < 2 ^ 32 := by
  cases i with
  | business sn =>
      obtain ⟨-, ⟨-, heq, -⟩ | ⟨-, heq, -⟩⟩ := checkSeq_sent h
      · exact heq ▸ hi
      · exact heq ▸ hq
  | partyDetailsAck sn =>
      obtain ⟨-, ⟨-, heq, -⟩ | ⟨-, heq, -⟩⟩ := checkSeq_sent h
      · exact heq ▸ hi
      · exact heq ▸ hi
  | sequence nextSeqNo =>
      have hbeat : q.checkSeq (sub32 nextSeqNo 1) false = some (q', rs) := h
      rw [checkSeq_heartbeat, Option.some.injEq, Prod.mk.injEq] at hbeat
      obtain ⟨rfl, -⟩ := hbeat
      dsimp only
      split
      · exact hq
      · exact Nat.mod_lt _ (by decide)

theorem inbound_keeps {i : Inbound} (hi : i.Uint32) (h : s.inbound i = some (s', o)) :
    s.Keeps s' := by
  obtain ⟨r, hr, rfl, -⟩ := inbound_eq_some h
  exact ⟨rfl, rfl, fun _ h => h, fun hlt => inbound_lastseq hi hlt hr⟩

theorem onReport_keeps {order : Som.Order} {coid : Int32} {param : ExecReport}
    (h : s.onReport cfg order coid param = some (s', o)) : s.Keeps s' := by
  unfold State.onReport at h
  split at h
  case h_1 =>
    split at h
    next => cases h
    next =>
      cases h
      exact ⟨rfl, rfl, fun _ h => h, fun h => h⟩
  case h_6 =>
    -- a trade writes what is left of the order
    rw [Option.some.injEq] at h
    simp only [State.onTrade] at h
    split at h
    · cases h
      exact ⟨rfl, rfl, fun _ h => known_insert h, fun h => h⟩
    · cases h
      exact ⟨rfl, rfl, fun _ h => known_insert h, fun h => h⟩
  all_goals
    cases h
  all_goals
    exact ⟨rfl, rfl, fun _ h => h, fun h => h⟩

theorem executionReport_keeps {param : ExecReport} (hsn : param.seqNum < 2 ^ 32)
    (h : s.executionReportHandler cfg param = some (s', o)) : s.Keeps s' := by
  unfold State.executionReportHandler at h
  split at h
  next => exact inbound_keeps (i := .business param.seqNum) hsn h
  next coid _ =>
    obtain ⟨order, -, h⟩ := Option.bind_eq_some_iff.mp h
    obtain ⟨m, o₁, o₂, hreport, hseq, -⟩ := andThen_eq_some.mp h
    exact (onReport_keeps hreport).trans (inbound_keeps (i := .business param.seqNum) hsn hseq)

theorem cancelReject_keeps {isReplace : Bool} {clOrdID : String} {seqNum : ℕ}
    (hsn : seqNum < 2 ^ 32) (h : s.cancelRejectHandler isReplace clOrdID seqNum = some (s', o)) :
    s.Keeps s' := by
  obtain ⟨coid, -, h⟩ := Option.bind_eq_some_iff.mp h
  obtain ⟨order, -, h⟩ := Option.bind_eq_some_iff.mp h
  obtain ⟨m, o₁, o₂, hsent, hseq, -⟩ := andThen_eq_some.mp h
  cases hsent
  exact inbound_keeps (i := .business seqNum) hsn hseq

theorem businessReject_keeps {refID reason seqNum : ℕ} (hsn : seqNum < 2 ^ 32)
    (h : s.businessRejectHandler refID reason seqNum = some (s', o)) : s.Keeps s' := by
  obtain ⟨m, o₁, o₂, hseq, hrest, -⟩ := andThen_eq_some.mp h
  rw [Option.ite_none_left_eq_some] at hrest
  obtain ⟨rejected, -, heq⟩ := Option.map_eq_some_iff.mp hrest.2
  cases heq
  exact (inbound_keeps (i := .business seqNum) hsn hseq).trans ⟨rfl, rfl, fun _ h => h, fun h => h⟩

/-- What a message records under the number `n`. -/
inductive Effect (s s' : State) (n : ℕ) : Option Numbered → Prop where
  | order {coid : Int32} (hnos : s'.nosSeqnumToCoid = s.nosSeqnumToCoid.insert n coid)
      (hcanc : s'.cancSeqnumToCoid = s.cancSeqnumToCoid)
      (hknown : ∀ c, s.Known c ∨ c = coid → s'.Known c) (hseq : s'.seq = s.seq) :
      Effect s s' n (some (.order coid))
  | cancel {coid : Int32} (hnos : s'.nosSeqnumToCoid = s.nosSeqnumToCoid)
      (hcanc : s'.cancSeqnumToCoid = s.cancSeqnumToCoid.insert n coid)
      (hknown : ∀ c, s.Known c → s'.Known c) (hcoid : s.Known coid) (hseq : s'.seq = s.seq) :
      Effect s s' n (some (.cancel coid))
  | partyDetails (hkeeps : s.Keeps s') : Effect s s' n (some .partyDetails)
  | nothing (hkeeps : s.Keeps s') : Effect s s' n none

theorem orderHandler_effect {m : Som.Order} {cloidStart : String} {hms : ℕ}
    (h : s.orderHandler cfg m cloidStart hms n = some (s', o)) :
    Effect s s' n (some (.order m.oid)) := by
  unfold State.orderHandler at h
  rw [Option.ite_none_left_eq_some] at h
  obtain ⟨cloid, -, h⟩ := Option.bind_eq_some_iff.mp h.2
  rw [Option.ite_none_left_eq_some] at h
  cases h.2
  refine .order rfl rfl ?_ rfl
  rintro c (hc | rfl)
  · exact known_insert hc
  · exact ⟨m, AList.lookup_insert _⟩

theorem cancelHandler_effect {id : Int32} {sender : ℕ}
    (h : s.cancelHandler cfg id sender n = some (s', o)) :
    Effect s s' n (if s.NotAcked cfg id then none else some (.cancel id)) := by
  obtain ⟨order, horder, h⟩ := Option.bind_eq_some_iff.mp h
  obtain ⟨cloid, hcloid, h⟩ := Option.map_eq_some_iff.mp h
  have hwaits : s.NotAcked cfg id ↔ cfg.cancelDoNotSendXOrderid = false ∧
      s.cloidToXoid.lookup cloid = none ∧ cfg.cancelRequiredXOrderid = true := by
    unfold State.NotAcked
    rw [hcloid, Option.bind_some]
  simp only [← hwaits] at h
  split at h
  next hnot =>
    cases h
    rw [if_pos hnot]
    exact .nothing (.refl s)
  next hacked =>
    cases h
    rw [if_neg hacked]
    exact .cancel rfl rfl (fun _ h => h) ⟨order, horder⟩ rfl

variable {t t' : Session} {m : Msg} {g : History}

theorem session_handle {e : Event} (h : t.handle cfg e = some (t', o)) :
    ILink.handle cfg t.handler e = some (t'.handler, o) ∧
      t'.snd = o.foldl Snd.send t.snd ∧ t'.preRegister = t.preRegister := by
  obtain ⟨r, hr, heq⟩ := Option.map_eq_some_iff.mp h
  cases heq
  exact ⟨hr, rfl, rfl⟩

/-- **What one message records.** -/
theorem step_effect (hm : m.Uint32) (h : t.step cfg m = some (t', o)) :
    Effect t.handler t'.handler t.snd.nextSeqNo (t.sends cfg m) := by
  cases m with
  | resetUUID epoch =>
      cases h
      exact .nothing (.refl _)
  | doBind uuid nextseqFromUs lastseqFromCme =>
      have hbind := (session_handle h).1
      rw [ILink.handle, Option.some.injEq, Prod.mk.injEq] at hbind
      rw [← hbind.1]
      exact .nothing ⟨rfl, rfl, fun _ h => h, fun _ => hm.2⟩
  | registerPartyDetails =>
      cases h
      exact .partyDetails (.refl _)
  | establishmentAck =>
      cases h
      simp only [Session.sends]
      split
      · exact .partyDetails (.refl _)
      · exact .nothing (.refl _)
  | order m cloidStart hms => exact orderHandler_effect (session_handle h).1
  | cancel id sender => exact cancelHandler_effect (session_handle h).1
  | executionReport param => exact .nothing (executionReport_keeps hm (session_handle h).1)
  | cancelReject isReplace clOrdID seqNum =>
      exact .nothing (cancelReject_keeps hm (session_handle h).1)
  | businessReject refID reason seqNum =>
      exact .nothing (businessReject_keeps hm (session_handle h).1)
  | partyDetailsAck seqNum reqid =>
      have hack := (session_handle h).1
      rw [ILink.handle] at hack
      obtain ⟨s₁, o₁, o₂, hseq, heq, -⟩ := andThen_eq_some.mp hack
      rw [Option.some.injEq, Prod.mk.injEq] at heq
      rw [← heq.1]
      exact .partyDetails (inbound_keeps (i := .partyDetailsAck seqNum) hm hseq)
  | notApplied nextSeqNo =>
      obtain ⟨s₁, o₁, o₂, heq, hseq, -⟩ := andThen_eq_some.mp (session_handle h).1
      rw [Option.some.injEq, Prod.mk.injEq] at heq
      rw [← heq.1] at hseq
      exact .nothing (inbound_keeps (i := .business nextSeqNo) hm hseq)
  | sequence nextSeqNo lapsed =>
      obtain ⟨s₁, o₁, o₂, heq, hseq, -⟩ := andThen_eq_some.mp (session_handle h).1
      rw [Option.some.injEq, Prod.mk.injEq] at heq
      rw [← heq.1] at hseq
      exact .nothing (inbound_keeps (i := .sequence nextSeqNo) hm hseq)

/-! ### The maps and the history -/

/-- A map from numbers to orders, as the history has it: `ns` are the numbers ever written, and
    the numbers of the session that are of this `kind` are found with their orders. -/
structure Tells (kind : Int32 → Numbered) (s : State) (current : Map ℕ Numbered)
    (k : Map ℕ Int32) (ns : List ℕ) : Prop where
  current : ∀ n coid, current.lookup n = some (kind coid) → k.lookup n = some coid
  none : ∀ n, k.lookup n = none ↔ n ∉ ns
  known : ∀ n coid, k.lookup n = some coid → s.Known coid

section Tells

variable {kind : Int32 → Numbered} {current current' : Map ℕ Numbered} {k : Map ℕ Int32}
  {ns : List ℕ} {coid : Int32}

theorem lookup_insert_iff {α : Type} {k : Map ℕ α} {n n' : ℕ} {v w : α} :
    (k.insert n v).lookup n' = some w ↔ n' = n ∧ v = w ∨ n' ≠ n ∧ k.lookup n' = some w := by
  by_cases heq : n' = n
  · rw [heq, AList.lookup_insert]
    simp
  · rw [AList.lookup_insert_ne heq]
    simp [heq]

theorem Tells.write (h : Tells kind s current k ns) (hkind : kind.Injective) (n : ℕ)
    (hknown : ∀ c, s.Known c ∨ c = coid → s'.Known c) :
    Tells kind s' (current.insert n (kind coid)) (k.insert n coid) (n :: ns) where
  current := by
    intro n' c hn'
    rw [lookup_insert_iff] at hn' ⊢
    rcases hn' with ⟨rfl, heq⟩ | ⟨hne, hn'⟩
    · exact .inl ⟨rfl, hkind heq⟩
    · exact .inr ⟨hne, h.current n' c hn'⟩
  none := by
    intro n'
    by_cases heq : n' = n
    · rw [heq, AList.lookup_insert]
      simp
    · rw [AList.lookup_insert_ne heq, h.none, List.mem_cons, or_iff_right heq]
  known := by
    intro n' c hn'
    rcases lookup_insert_iff.mp hn' with ⟨-, rfl⟩ | ⟨-, hn'⟩
    · exact hknown coid (.inr rfl)
    · exact hknown c (.inl (h.known n' c hn'))

theorem Tells.keep (h : Tells kind s current k ns) (hknown : ∀ c, s.Known c → s'.Known c)
    (hcurrent : ∀ n c, current'.lookup n = some (kind c) → current.lookup n = some (kind c)) :
    Tells kind s' current' k ns where
  current := fun n c hn => h.current n c (hcurrent n c hn)
  none := h.none
  known := fun n c hn => hknown c (h.known n c hn)

/-- A number of another kind tells this map nothing. -/
theorem lookup_insert_kind {what : Numbered} {n : ℕ} (hkind : ∀ c, what ≠ kind c) (n' : ℕ)
    (c : Int32) (h : (current.insert n what).lookup n' = some (kind c)) :
    current.lookup n' = some (kind c) := by
  rcases lookup_insert_iff.mp h with ⟨-, heq⟩ | ⟨-, hn'⟩
  · exact absurd heq (hkind c)
  · exact hn'

end Tells

/-- What the two maps say of the history. -/
structure Recorded (t : Session) (g : History) : Prop where
  nos : Tells .order t.handler g.current t.handler.nosSeqnumToCoid g.orders
  canc : Tells .cancel t.handler g.current t.handler.cancSeqnumToCoid g.cancels
  lastseq : t.handler.seq.lastseq < 2 ^ 32

theorem Recorded.start (uuid : ℕ) (preRegister : Bool) :
    Recorded { snd := { uuid }, preRegister } {} :=
  ⟨⟨fun _ _ h => by simp at h, fun _ => by simp, fun _ _ h => by simp at h⟩,
    ⟨fun _ _ h => by simp at h, fun _ => by simp, fun _ _ h => by simp at h⟩,
    Nat.two_pow_pos 32⟩

/-- Where neither map is written they go on telling, whatever of the session goes on. -/
theorem Recorded.keep {current : Map ℕ Numbered} (h : Recorded t g)
    (hkeeps : t.handler.Keeps t'.handler)
    (hcurrent : ∀ n what, what ≠ .partyDetails → current.lookup n = some what →
      g.current.lookup n = some what) :
    Recorded t' { g with current } where
  nos := by
    rw [hkeeps.nos]
    exact h.nos.keep hkeeps.known fun n c => hcurrent n (.order c) nofun
  canc := by
    rw [hkeeps.canc]
    exact h.canc.keep hkeeps.known fun n c => hcurrent n (.cancel c) nofun
  lastseq := hkeeps.lastseq h.lastseq

theorem Recorded.step (h : Recorded t g) (hm : m.Uint32) (hstep : t.step cfg m = some (t', o)) :
    Recorded t' (noteSent cfg t m g) := by
  have heffect := step_effect hm hstep
  unfold noteSent
  generalize t.sends cfg m = sent at heffect
  cases heffect with
  | order hnos hcanc hknown hseq =>
      refine ⟨?_, ?_, hseq ▸ h.lastseq⟩
      · rw [hnos]
        exact h.nos.write (fun _ _ => Numbered.order.inj) _ hknown
      · rw [hcanc]
        exact h.canc.keep (fun c hc => hknown c (.inl hc)) (lookup_insert_kind nofun)
  | cancel hnos hcanc hknown hcoid hseq =>
      refine ⟨?_, ?_, hseq ▸ h.lastseq⟩
      · rw [hnos]
        exact h.nos.keep hknown (lookup_insert_kind nofun)
      · rw [hcanc]
        refine h.canc.write (fun _ _ => Numbered.cancel.inj) _ ?_
        rintro c (hc | rfl)
        · exact hknown c hc
        · exact hknown c hcoid
  | partyDetails hkeeps =>
      refine h.keep hkeeps fun n' what hwhat hn' => ?_
      rcases lookup_insert_iff.mp hn' with ⟨-, heq⟩ | ⟨-, hn'⟩
      · exact absurd heq.symm hwhat
      · exact hn'
  | nothing hkeeps =>
      dsimp only
      split
      · exact h.keep hkeeps fun n' what _ hn' => by simp at hn'
      · exact h.keep hkeeps fun n' what _ hn' => hn'

/-! ### One business reject -/

/-- What goes to a client. -/
def Sent.toClient : Sent → Bool
  | .ack _ _ _ | .reject _ _ _ | .cancReject _ _ _ | .cancAck _ _ | .fill _ _ => true
  | _ => false

/-- The `Reject` of the order that `nos_seqnum_to_coid` has. -/
def State.orderRejects (s : State) (refID reason : ℕ) : List Sent :=
  ((s.nosSeqnumToCoid.lookup refID).bind fun coid =>
    (s.coidToOrder.lookup coid).map fun order =>
      Sent.reject order.sender coid
        (if reason = 107 then rejectExchlimit else rejectThrottle)).toList

/-- The `CancReject` of the cancel that `canc_seqnum_to_coid` has. -/
def State.cancelRejects (s : State) (refID reason : ℕ) : List Sent :=
  ((s.cancSeqnumToCoid.lookup refID).bind fun coid =>
    (s.coidToOrder.lookup coid).map fun order =>
      Sent.cancReject order.sender coid
        (if reason = 8 then cancRejectThrottle else cancRejectFromexchangeBusinessreject)).toList

/-- The assertion of `check_seq`: a number inside what was requested comes after one that was
    seen. -/
def Seq.Placed (q : Seq) (sn : ℕ) : Prop :=
  add32 q.lastseq 1 < sn → sub32 sn 1 ∉ q.seenSeqnums →
    sn ≤ add32 (q.sendWaiting sn).1.lastseqAdj 1 → (q.seenBelow sn).isSome = true

instance (q : Seq) (sn : ℕ) : Decidable (q.Placed sn) := inferInstanceAs (Decidable (_ → _ → _ → _))

theorem lastSeqNumRequested_lt (q : Seq) : q.lastSeqNumRequested < 2 ^ 32 := by
  unfold Seq.lastSeqNumRequested
  split
  · exact Nat.two_pow_pos 32
  · exact Nat.mod_lt _ (Nat.two_pow_pos 32)

/-- Where the predecessor of `sn` was not seen, only the missing smaller number stops
    `check_seq`. -/
theorem requestGap_isSome_iff {q : Seq} {sn : ℕ} (hsn : sn < 2 ^ 32)
    (hlastseq : q.lastseq < 2 ^ 32) :
    (q.requestGap sn true).isSome = true ↔
      (sub32 sn 1 ∉ q.seenSeqnums → sn ≤ add32 q.lastseqAdj 1 →
        (q.seenBelow sn).isSome = true) := by
  have hmax : max q.lastseq q.lastSeqNumRequested = q.lastseqAdj := rfl
  have hadj : q.lastseqAdj < 2 ^ 32 := max_lt hlastseq (lastSeqNumRequested_lt q)
  simp only [Seq.requestGap, Bool.not_true, Bool.or_false, hmax, List.contains_eq_mem,
    decide_eq_true_eq]
  split
  next hprev => exact iff_of_true rfl fun hunseen => absurd hprev hunseen
  next hprev =>
    split
    next hin =>
      cases hbelow : q.seenBelow sn with
      | none => exact iff_of_false Bool.false_ne_true fun h => absurd (h hprev hin) (by simp)
      | some p =>
          obtain ⟨hseen, hp⟩ := seenBelow_eq_some hbelow
          have hne : p ≠ sub32 sn 1 := fun heq => hprev (heq ▸ hseen)
          rw [sub32_eq hsn (by omega)] at hne
          simp only [add32_eq (show p + 1 < 2 ^ 32 by omega),
            sub32_eq hsn (show p + 1 ≤ sn by omega)]
          rw [if_neg (by omega)]
          exact iff_of_true rfl fun _ _ => rfl
    next hout =>
      have hcount : sub32 (sub32 sn q.lastseqAdj) 1 ≠ 0 := by
        unfold add32 at hout
        unfold sub32
        omega
      rw [if_neg hcount]
      refine iff_of_true ?_ fun _ hin => absurd hin hout
      split
      · rfl
      · rfl

theorem checkSeq_isSome_iff {q : Seq} {sn : ℕ} (hsn : sn < 2 ^ 32) (hlastseq : q.lastseq < 2 ^ 32) :
    (q.checkSeq sn true).isSome = true ↔ q.Placed sn := by
  have hwait := sendWaiting_asking q sn
  have hgap := requestGap_isSome_iff (q := (q.sendWaiting sn).1) hsn (hwait.lastseq ▸ hlastseq)
  simp only [Seq.seenBelow, hwait.seen] at hgap
  simp only [Seq.checkSeq, if_true, hwait.lastseq, Seq.Placed]
  split
  next hlater =>
    rw [Option.isSome_map, hgap]
    exact ⟨fun h _ => h, fun h => h hlater⟩
  next hnext => exact iff_of_true rfl fun hlater => absurd hlater hnext

/-- The handler on a reject, where every order it has a number of is known. -/
theorem businessReject_eq {refID reason sn : ℕ}
    (hknown : ∀ coid, s.nosSeqnumToCoid.lookup refID = some coid → s.Known coid) :
    s.businessRejectHandler refID reason sn = (s.seq.checkSeq sn true).bind fun r =>
      if maxNumRejects < s.busRejectCnt then none
      else some ({ s with seq := r.1, busRejectCnt := s.busRejectCnt + 1 },
        r.2.map .retransmissionRequest ++
          (s.orderRejects refID reason ++ s.cancelRejects refID reason)) := by
  simp only [State.businessRejectHandler, andThen, State.inbound, Seq.inbound]
  cases s.seq.checkSeq sn true with
  | none => rfl
  | some r =>
      simp only [Option.map_some, Option.bind_some]
      split
      next => rfl
      next =>
        unfold State.orderRejects State.cancelRejects
        cases hnos : s.nosSeqnumToCoid.lookup refID with
        | none =>
            cases hcanc : s.cancSeqnumToCoid.lookup refID with
            | none => simp
            | some canceled => cases horder : s.coidToOrder.lookup canceled <;> simp [horder]
        | some coid =>
            obtain ⟨order, horder⟩ := hknown coid hnos
            cases hcanc : s.cancSeqnumToCoid.lookup refID with
            | none => simp [horder]
            | some canceled =>
                cases hcanceled : s.coidToOrder.lookup canceled <;> simp [horder, hcanceled]

/-- The one message that a client gets for a reject of what was sent: about this order, or about
    the cancel of this order, or none. -/
def State.Answers (s : State) (reason : ℕ) (o : List Sent) : Numbered → Prop
  | .order coid => ∃ order, s.coidToOrder.lookup coid = some order ∧
      o.filter Sent.toClient =
        [.reject order.sender coid (if reason = 107 then rejectExchlimit else rejectThrottle)]
  | .cancel coid => ∃ order, s.coidToOrder.lookup coid = some order ∧
      o.filter Sent.toClient = [.cancReject order.sender coid
        (if reason = 8 then cancRejectThrottle else cancRejectFromexchangeBusinessreject)]
  | .partyDetails => o.filter Sent.toClient = []

/-- No message of another kind had the number, in any session so far. -/
def History.Alone (g : History) (n : ℕ) : Numbered → Prop
  | .order _ => n ∉ g.cancels
  | .cancel _ => n ∉ g.orders
  | .partyDetails => n ∉ g.orders ∧ n ∉ g.cancels

instance (g : History) (n : ℕ) : DecidablePred (g.Alone n)
  | .order _ => inferInstanceAs (Decidable (n ∉ g.cancels))
  | .cancel _ => inferInstanceAs (Decidable (n ∉ g.orders))
  | .partyDetails => inferInstanceAs (Decidable (n ∉ g.orders ∧ n ∉ g.cancels))

theorem orderRejects_eq_nil_iff (refID reason : ℕ) {current : Map ℕ Numbered} {ns : List ℕ}
    (h : Tells .order s current s.nosSeqnumToCoid ns) :
    s.orderRejects refID reason = [] ↔ refID ∉ ns := by
  rw [← h.none]
  unfold State.orderRejects
  cases hnos : s.nosSeqnumToCoid.lookup refID with
  | none => simp
  | some coid =>
      obtain ⟨order, horder⟩ := h.known refID coid hnos
      simp [horder]

theorem cancelRejects_eq_nil_iff (refID reason : ℕ) {current : Map ℕ Numbered} {ns : List ℕ}
    (h : Tells .cancel s current s.cancSeqnumToCoid ns) :
    s.cancelRejects refID reason = [] ↔ refID ∉ ns := by
  rw [← h.none]
  unfold State.cancelRejects
  cases hcanc : s.cancSeqnumToCoid.lookup refID with
  | none => simp
  | some coid =>
      obtain ⟨order, horder⟩ := h.known refID coid hcanc
      simp [horder]

theorem rejects_toClient (refID reason : ℕ) (rs : List Request) :
    (rs.map Sent.retransmissionRequest ++
      (s.orderRejects refID reason ++ s.cancelRejects refID reason)).filter Sent.toClient =
    s.orderRejects refID reason ++ s.cancelRejects refID reason := by
  rw [List.filter_append, List.filter_eq_nil_iff.mpr, List.nil_append, List.filter_eq_self]
  · intro m hm
    rcases List.mem_append.mp hm with hm | hm
    · simp only [State.orderRejects, Option.mem_toList, Option.bind_eq_some_iff,
        Option.map_eq_some_iff] at hm
      obtain ⟨coid, -, order, -, rfl⟩ := hm
      rfl
    · simp only [State.cancelRejects, Option.mem_toList, Option.bind_eq_some_iff,
        Option.map_eq_some_iff] at hm
      obtain ⟨coid, -, order, -, rfl⟩ := hm
      rfl
  · intro m hm
    obtain ⟨r, -, rfl⟩ := List.mem_map.mp hm
    exact Bool.false_ne_true

/-- A reject of a message of the session is answered with this message alone, exactly when the
    number was never that of another kind. -/
theorem rejects_answer_iff {refID : ℕ} (reason : ℕ) (rs : List Request) {what : Numbered}
    (h : Recorded t g) (hwhat : g.current.lookup refID = some what) :
    t.handler.Answers reason (rs.map .retransmissionRequest ++
      (t.handler.orderRejects refID reason ++ t.handler.cancelRejects refID reason)) what ↔
    g.Alone refID what := by
  have hnos := orderRejects_eq_nil_iff refID reason h.nos
  have hcanc := cancelRejects_eq_nil_iff refID reason h.canc
  cases what with
  | order coid =>
      have hlookup := h.nos.current refID coid hwhat
      obtain ⟨order, horder⟩ := h.nos.known refID coid hlookup
      have hrejects : t.handler.orderRejects refID reason = [.reject order.sender coid
          (if reason = 107 then rejectExchlimit else rejectThrottle)] := by
        simp [State.orderRejects, hlookup, horder]
      simp only [State.Answers, rejects_toClient]
      rw [hrejects]
      simp only [horder, Option.some.injEq, exists_eq_left', List.append_right_eq_self, hcanc,
        History.Alone]
  | cancel coid =>
      have hlookup := h.canc.current refID coid hwhat
      obtain ⟨order, horder⟩ := h.canc.known refID coid hlookup
      have hrejects : t.handler.cancelRejects refID reason = [.cancReject order.sender coid
          (if reason = 8 then cancRejectThrottle else cancRejectFromexchangeBusinessreject)] := by
        simp [State.cancelRejects, hlookup, horder]
      simp only [State.Answers, rejects_toClient]
      rw [hrejects]
      simp only [horder, Option.some.injEq, exists_eq_left', List.append_left_eq_self, hnos,
        History.Alone]
  | partyDetails =>
      simp only [State.Answers, rejects_toClient, List.append_eq_nil_iff, hnos, hcanc,
        History.Alone]

/-- A business reject of a message of the session finds its own number in place, does not exceed
    the number of rejects, and names a number that only messages of one kind had. -/
def ToldApart (tg : Session × History) : Msg → Prop
  | .businessReject refID _ seqNum => ∀ what ∈ tg.2.current.lookup refID,
      tg.1.handler.seq.Placed seqNum ∧ tg.1.handler.busRejectCnt ≤ maxNumRejects ∧
        tg.2.Alone refID what
  | _ => True

instance (tg : Session × History) : DecidablePred (ToldApart tg)
  | .businessReject refID _ seqNum => inferInstanceAs
      (Decidable (∀ what ∈ tg.2.current.lookup refID, tg.1.handler.seq.Placed seqNum ∧
        tg.1.handler.busRejectCnt ≤ maxNumRejects ∧ tg.2.Alone refID what))
  | .resetUUID _ | .doBind _ _ _ | .registerPartyDetails | .establishmentAck | .order _ _ _
  | .cancel _ _ | .executionReport _ | .cancelReject _ _ _ | .partyDetailsAck _ _ | .notApplied _
  | .sequence _ _ => inferInstanceAs (Decidable True)

/-- The reject of a message of the session gets its one answer. -/
def AnswersReject (cfg : Cfg) (t : Session) (what : Numbered) (refID reason seqNum : ℕ) : Prop :=
  ∃ t' o, t.step cfg (.businessReject refID reason seqNum) = some (t', o) ∧
    t.handler.Answers reason o what

/-- **One business reject.** -/
theorem answersReject_iff {what : Numbered} {refID reason seqNum : ℕ} (h : Recorded t g)
    (hsn : seqNum < 2 ^ 32) (hwhat : g.current.lookup refID = some what) :
    AnswersReject cfg t what refID reason seqNum ↔
      t.handler.seq.Placed seqNum ∧ t.handler.busRejectCnt ≤ maxNumRejects ∧
        g.Alone refID what := by
  have hplaced := checkSeq_isSome_iff hsn h.lastseq
  simp only [AnswersReject, Session.step, Session.handle, handle,
    businessReject_eq (h.nos.known refID), ← hplaced]
  cases t.handler.seq.checkSeq seqNum true with
  | none => simp
  | some r =>
      simp only [Option.bind_some, Option.isSome_some, true_and]
      split
      next hcnt => simp [hcnt]
      next hcnt =>
        have hanswer := rejects_answer_iff reason r.2 h hwhat
        simp [Nat.not_lt.mp hcnt, hanswer]

/-! ### Runs over several sessions -/

/-- Every reject of a message of the session it arrives in gets its one answer. -/
def RejectsAttributed (cfg : Cfg) (t0 : Session) (ms : List Msg) : Prop :=
  ∀ past refID reason seqNum rest t g out what,
    ms = past ++ .businessReject refID reason seqNum :: rest →
    run (sessionStep cfg) (t0, {}) past = some ((t, g), out) → g.current.lookup refID = some what →
    AnswersReject cfg t what refID reason seqNum

section Sample

/-- An order of ten. -/
def sampleNewOrder (oid : Int32) : Msg :=
  .order { venue := 1, sym := 2, sz := 10, px := 100, stillToBeFilled := 10, oid, side := .buy,
           owner := 3, sender := 4 } "STR" 93000

end Sample

end KasparHft.ILink
