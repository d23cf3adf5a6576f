import KasparHft.LockFreeMPSCInterleaved

/-!
# Runs of the threads of the lock-free mailbox

Every order of the steps of any producers and the consumer, from a new ring.  What was claimed is
in one order, that of the claims; what `pop_batch` has returned, what it has drained and what is
still held are that list, cut twice.
-/

namespace KasparHft.LockFreeMPSC

open Machine

variable {τ α : Type*}

/-! ### What is seen -/

def Output.claim : Output τ α → Option (τ × α)
  | .claimed t x => some (t, x)
  | _ => none

/-- What was claimed, by whom. -/
def claims (out : List (Output τ α)) : List (τ × α) := out.filterMap Output.claim

def Output.items : Output τ α → List α
  | .batch items => items
  | _ => []

/-- What `pop_batch` has returned. -/
def batches (out : List (Output τ α)) : List α := out.flatMap Output.items

/-- What the call in progress has drained. -/
def Batch.got : Batch α → List α
  | .pop _ _ got => got
  | .disarm got => got
  | _ => []

/-- The item that a producer has not claimed a position for. -/
def Push.pending : Push α → List α
  | .load x => [x]
  | .look x _ => [x]
  | .claim x _ => [x]
  | _ => []

/-- The calls of `push` of a producer. -/
def pushes [DecidableEq τ] (t : τ) (events : List (Event τ α)) : List α :=
  events.filterMap fun
    | .push t' x => if t' = t then some x else none
    | _ => none

def itemsOf [DecidableEq τ] (t : τ) (C : List (τ × α)) : List α :=
  C.filterMap fun c => if c.1 = t then some c.2 else none

/-- The look after arming is made with nothing drained. -/
def Batch.AgainOk : Batch α → Prop
  | .pop phase _ got => phase = .again → got = []
  | _ => True

section Outputs

variable (out o : List (Output τ α))

theorem claims_append : claims (out ++ o) = claims out ++ claims o := List.filterMap_append ..

theorem batches_append : batches (out ++ o) = batches out ++ batches o := List.flatMap_append ..

theorem itemsOf_append [DecidableEq τ] (t : τ) (C C' : List (τ × α)) :
    itemsOf t (C ++ C') = itemsOf t C ++ itemsOf t C' := List.filterMap_append ..

end Outputs

/-! ### Where a `try_pop` ends -/

/-- After a `try_pop` the consumer has `got`, and nothing is taken that is not released. -/
structure Ends (s : State τ α) (got : List α) (s' : State τ α) (o : List (Output τ α)) :
    Prop where
  ring : s'.ring = s.ring
  producers : s'.producers = s.producers
  first : ∀ deq, s'.consumer.first deq = deq
  ok : ∀ (C : List (τ × α)) q, BatchOk C q s'.consumer
  claims : claims o = []
  got : batches o ++ s'.consumer.got = got
  again : s'.consumer.AgainOk

section Ends

variable {s s' : State τ α} {phase : Phase} {got : List α} {v : α} {o : List (Output τ α)}

theorem drained_ends (hphase : phase ≠ .again) (heq : s.drained phase got = (s', o)) :
    Ends s got s' o := by
  unfold State.drained at heq
  split at heq
  next =>
    cases heq
    exact ⟨rfl, rfl, fun _ => rfl, fun _ _ => trivial, rfl, rfl, fun h => absurd h hphase⟩
  next =>
    cases heq
    refine ⟨rfl, rfl, fun _ => rfl, fun _ _ => trivial, rfl, ?_, trivial⟩
    exact (List.append_nil _).trans (List.append_nil _)

theorem popped_ends (hagain : phase = .again → got = [])
    (heq : s.popped phase got v = (s', o)) : Ends s (got ++ [v]) s' o := by
  cases phase with
  | again =>
      cases heq
      exact ⟨rfl, rfl, fun _ => rfl, fun _ _ => trivial, rfl, rfl, trivial⟩
  | drain => exact drained_ends (by decide) heq
  | after => exact drained_ends (by decide) heq

theorem popFailed_ends (hagain : phase = .again → got = [])
    (heq : s.popFailed phase got = (s', o)) : Ends s got s' o := by
  cases phase with
  | again =>
      cases heq
      exact ⟨rfl, rfl, fun _ => rfl, fun _ _ => trivial, rfl, (hagain rfl).symm, trivial⟩
  | drain =>
      cases got with
      | nil =>
          cases heq
          exact ⟨rfl, rfl, fun _ => rfl, fun _ _ => trivial, rfl, rfl, trivial⟩
      | cons v got =>
          cases heq
          refine ⟨rfl, rfl, fun _ => rfl, fun _ _ => trivial, rfl, ?_, trivial⟩
          exact (List.append_nil _).trans (List.append_nil _)
  | after =>
      cases heq
      refine ⟨rfl, rfl, fun _ => rfl, fun _ _ => trivial, rfl, ?_, trivial⟩
      exact (List.append_nil _).trans (List.append_nil _)

/-- A pop that took an item reports no empty ring. -/
theorem drained_reports (heq : s.drained phase got = (s', o)) (out : Output τ α) (hout : out ∈ o) :
    out = .batch got := by
  unfold State.drained at heq
  split at heq
  next => cases heq; cases hout
  next => cases heq; exact List.mem_singleton.mp hout

theorem popped_reports (heq : s.popped phase got v = (s', o)) (out : Output τ α) (hout : out ∈ o) :
    out = .batch (got ++ [v]) := by
  cases phase with
  | again => cases heq; cases hout
  | drain => exact drained_reports heq out hout
  | after => exact drained_reports heq out hout

theorem popFailed_reports (heq : s.popFailed phase got = (s', o)) (t : τ) : .full t ∉ o := by
  intro hout
  cases phase with
  | again => cases heq; cases List.mem_singleton.mp hout
  | drain =>
      cases got with
      | nil => cases heq; cases List.mem_singleton.mp hout
      | cons v got =>
          cases heq
          rcases List.mem_pair.mp hout with h | h <;> cases h
  | after =>
      cases heq
      rcases List.mem_pair.mp hout with h | h <;> cases h

end Ends

/-! ### A step keeps the invariant -/

theorem sizeT_small {n : Nat} (hn : n < 2 ^ 63) : sizeT n = n :=
  Nat.mod_eq_of_lt (hn.trans (by decide))

section Moves

variable [DecidableEq τ] {s s' : State τ α} {t : τ} {o : List (Output τ α)} {k : Nat}
  {C : List (τ × α)}

/-- A producer leaves what is the consumer's. -/
theorem PushMove.frame (hmove : PushMove s t s' o) :
    s'.consumer = s.consumer ∧ s'.ring.dequeuePos = s.ring.dequeuePos ∧ batches o = [] ∧
      s'.parked = s.parked ∧ s'.locked = s.locked := by
  cases hmove with
  | writes x pos ring hat hring =>
      obtain ⟨cell, -, rfl⟩ := modifyCell_eq_some hring
      exact ⟨rfl, rfl, rfl, rfl, rfl⟩
  | publishes x pos ring hat hring =>
      obtain ⟨cell, -, rfl⟩ := modifyCell_eq_some hring
      exact ⟨rfl, rfl, rfl, rfl, rfl⟩
  | _ => exact ⟨rfl, rfl, rfl, rfl, rfl⟩

omit [DecidableEq τ] in
/-- The consumer leaves what is the producers'. -/
theorem BatchMove.frame (hagain : s.consumer.AgainOk) (hmove : BatchMove s s' o) :
    s'.producers = s.producers ∧ claims o = [] ∧ s'.consumer.AgainOk := by
  cases hmove with
  | nothing phase pos got cell hat hcell hdif s' o heq =>
      rw [hat] at hagain
      have hends := popFailed_ends hagain heq
      exact ⟨hends.producers, hends.claims, hends.again⟩
  | releases phase pos got v ring hat hring s' o heq =>
      rw [hat] at hagain
      have hends := popped_ends hagain heq
      exact ⟨hends.producers, hends.claims, hends.again⟩
  | disarms got hat s' o heq =>
      have hends := drained_ends (by decide) heq
      exact ⟨hends.producers, hends.claims, hends.again⟩
  | load phase got hat => rw [hat] at hagain; exact ⟨rfl, rfl, hagain⟩
  | ready phase pos got cell hat hcell hdif => rw [hat] at hagain; exact ⟨rfl, rfl, hagain⟩
  | late phase pos got hat => rw [hat] at hagain; exact ⟨rfl, rfl, hagain⟩
  | takes phase pos got hat hpos => rw [hat] at hagain; exact ⟨rfl, rfl, hagain⟩
  | loses phase pos got hat => rw [hat] at hagain; exact ⟨rfl, rfl, hagain⟩
  | reads phase pos got cell hat hcell => rw [hat] at hagain; exact ⟨rfl, rfl, hagain⟩
  | calls hat => exact ⟨rfl, rfl, nofun⟩
  | arms hat => exact ⟨rfl, rfl, fun _ => rfl⟩
  | unlocks hat => exact ⟨rfl, rfl, nofun⟩
  | _ => exact ⟨rfl, rfl, trivial⟩

/-- The item of a call is pending until it is claimed. -/
theorem PushMove.pending (hmove : PushMove s t s' o) (t' : τ) :
    itemsOf t' (claims o) ++ (s'.producers t').pending = (s.producers t').pending := by
  have hset : ∀ {at_ : Push α}, at_.pending = (s.producers t).pending →
      (Function.update s.producers t at_ t').pending = (s.producers t').pending := by
    intro at_ hpending
    by_cases heq : t' = t
    · subst heq
      rw [Function.update_self, hpending]
    · rw [Function.update_of_ne heq]
  cases hmove with
  | wins x pos hat hpos =>
      change itemsOf t' [(t, x)] ++ (Function.update s.producers t (.write x pos) t').pending = _
      by_cases heq : t' = t
      · subst heq
        rw [Function.update_self, hat]
        simp [itemsOf, Push.pending]
      · rw [Function.update_of_ne heq]
        simp [itemsOf, Ne.symm heq]
  | load x hat => exact hset (congrArg Push.pending hat).symm
  | free x pos cell hat hcell hdif => exact hset (congrArg Push.pending hat).symm
  | full x pos cell hat hcell hdif => exact hset (congrArg Push.pending hat).symm
  | late x pos hat => exact hset (congrArg Push.pending hat).symm
  | loses x pos hat => exact hset (congrArg Push.pending hat).symm
  | writes x pos ring hat hring => exact hset (congrArg Push.pending hat).symm
  | publishes x pos ring hat hring => exact hset (congrArg Push.pending hat).symm
  | seesParked hat hparked => exact hset (congrArg Push.pending hat).symm
  | returns hat hparked => exact hset (congrArg Push.pending hat).symm
  | locks hat hlocked => exact hset (congrArg Push.pending hat).symm
  | notifies hat => exact hset (congrArg Push.pending hat).symm

omit [DecidableEq τ] in
/-- Who makes a position claimed it. -/
theorem Sound.maker {q : Ring α} {producers : τ → Push α} {consumer : Batch α} {p : Nat} {x : α}
    (h : Sound k C q producers consumer) (hmade : ∃ t, (producers t).making = some p)
    (hget : C[p]? = some (t, x)) :
    ∃ pos, producers t = .write x pos ∨ producers t = .publish x pos := by
  obtain ⟨t', ht'⟩ := hmade
  have hknown := h.producer t'
  generalize hat : producers t' = at_ at ht' hknown
  cases at_ with
  | write y pos =>
      cases ht'
      cases hknown.2.1.symm.trans hget
      exact ⟨p, .inl hat⟩
  | publish y pos =>
      cases ht'
      cases hknown.2.1.symm.trans hget
      exact ⟨p, .inr hat⟩
  | _ => cases ht'

theorem PushMove.sound (hmove : PushMove s t s' o) (hk : 0 < k)
    (hsmall : C.length + 2 ^ k < 2 ^ 63) (h : Sound k C s.ring s.producers s.consumer) :
    Sound k (C ++ claims o) s'.ring s'.producers s'.consumer := by
  have hset : ∀ {next : Push α}, next.making = (s.producers t).making →
      PushOk k (s.consumer.first s.ring.dequeuePos) C s.ring t next →
      Sound k (C ++ []) s.ring (Function.update s.producers t next) s.consumer := by
    intro next hmaking hok
    rw [List.append_nil]
    exact h.setProducer t hmaking hok
  have hknown := h.producer t
  cases hmove with
  | load x hat => exact hset (congrArg Push.making hat).symm h.enqueuePos.le
  | free x pos cell hat hcell hdif =>
      rw [hat] at hknown
      have hpos : pos ≤ C.length := hknown
      have hseq := h.seq_le hcell
      have hturn := Nat.two_pow_pos k
      rw [signedDif_small (by omega) (by omega)] at hdif
      exact hset (congrArg Push.making hat).symm ⟨hpos, h.lt_of_free hk hcell (by omega)⟩
  | full x pos cell hat hcell hdif => exact hset (congrArg Push.making hat).symm trivial
  | late x pos hat => exact hset (congrArg Push.making hat).symm trivial
  | wins x pos hat hpos =>
      have hclaimed := h.claimed hat hpos
      have hlen := hpos.symm.trans h.enqueuePos
      have hturn := Nat.two_pow_pos k
      rw [← sizeT_small (n := pos + 1) (by omega)] at hclaimed
      exact hclaimed
  | loses x pos hat => exact hset (congrArg Push.making hat).symm h.enqueuePos.le
  | writes x pos ring hat hring =>
      have hwritten := h.written hat hring
      rw [← List.append_nil C] at hwritten
      exact hwritten
  | publishes x pos ring hat hring =>
      rw [hat] at hknown
      have hlt := (List.getElem?_eq_some_iff.mp hknown.2.1).1
      have hturn := Nat.two_pow_pos k
      rw [sizeT_small (by omega)] at hring
      have hpublished := h.published hat hring
      rw [← List.append_nil C] at hpublished
      exact hpublished
  | seesParked hat hparked => exact hset (congrArg Push.making hat).symm trivial
  | returns hat hparked => exact hset (congrArg Push.making hat).symm trivial
  | locks hat hlocked => exact hset (congrArg Push.making hat).symm trivial
  | notifies hat => exact hset (congrArg Push.making hat).symm trivial

section Consumer

omit [DecidableEq τ]

theorem Sound.ends {got : List α} (h : Sound k C s.ring s.producers s.consumer)
    (hfirst : s.consumer.first s.ring.dequeuePos = s.ring.dequeuePos) (hends : Ends s got s' o) :
    Sound k C s'.ring s'.producers s'.consumer := by
  rw [hends.ring, hends.producers]
  exact h.setConsumer ((hends.first _).trans hfirst.symm) (hends.ok C s.ring)

theorem BatchMove.sound (hmove : BatchMove s s' o) (hsmall : C.length + 2 ^ k < 2 ^ 63)
    (hagain : s.consumer.AgainOk) (h : Sound k C s.ring s.producers s.consumer) :
    Sound k C s'.ring s'.producers s'.consumer := by
  have hknown := h.batch
  cases hmove with
  | calls hat => exact h.setConsumer (by rw [hat]; rfl) trivial
  | load phase got hat => exact h.setConsumer (by rw [hat]; rfl) rfl
  | ready phase pos got cell hat hcell hdif =>
      rw [hat] at hknown
      have hpos : pos = s.ring.dequeuePos := hknown
      have hseq := h.seq_le hcell
      have hle := h.dequeuePos
      have hturn := Nat.two_pow_pos k
      rw [sizeT_small (by omega), signedDif_small (by omega) (by omega)] at hdif
      rcases h.published_or_free (by rw [hat]; exact hpos.symm) hcell with ⟨-, hpub⟩ | ⟨heq, -⟩
      · exact h.setConsumer (by rw [hat]; rfl) ⟨hpos, hpub⟩
      · omega
  | nothing phase pos got cell hat hcell hdif s' o heq =>
      rw [hat] at hagain
      exact h.ends (by rw [hat]; rfl) (popFailed_ends hagain heq)
  | late phase pos got hat => exact h.setConsumer (by rw [hat]; rfl) trivial
  | takes phase pos got hat hpos =>
      rw [hat] at h hknown
      have hlt := hknown.2.lt
      have hturn := Nat.two_pow_pos k
      rw [sizeT_small (by omega)]
      exact h.taken
  | loses phase pos got hat => exact h.setConsumer (by rw [hat]; rfl) rfl
  | reads phase pos got cell hat hcell =>
      rw [hat] at hknown
      obtain ⟨hdeq, hpub⟩ := hknown
      obtain ⟨t, x, hget, hx⟩ := id hpub
      cases hcell.symm.trans hx
      exact h.setConsumer (by rw [hat]; rfl) ⟨hdeq, hpub, t, hget⟩
  | releases phase pos got v ring hat hring s' o heq =>
      rw [hat] at h hagain hknown
      have hlt := hknown.2.1.lt
      have hturn := Nat.two_pow_pos k
      have hlap : pos + s.ring.mask + 1 = pos + 2 ^ k := by
        rw [h.mask]
        omega
      rw [hlap, sizeT_small (by omega)] at hring
      have hends := popped_ends hagain heq
      rw [hends.ring, hends.producers]
      exact h.released hring (hends.first _) (hends.ok _ _)
  | locks hat hlocked => exact h.setConsumer (by rw [hat]; rfl) trivial
  | arms hat => exact h.setConsumer (by rw [hat]; rfl) trivial
  | wakes hat => exact h.setConsumer (by rw [hat]; rfl) trivial
  | unparks hat => exact h.setConsumer (by rw [hat]; rfl) trivial
  | unlocks hat => exact h.setConsumer (by rw [hat]; rfl) trivial
  | disarms got hat s' o heq =>
      have hends := drained_ends (by decide) heq
      rw [hends.ring, hends.producers]
      exact h.setConsumer ((hends.first _).trans (by rw [hat]; rfl)) (hends.ok _ _)

/-- What is drained and what is returned are the first of what was claimed. -/
def Taken (C : List (τ × α)) (done : List α) (s : State τ α) : Prop :=
  done ++ s.consumer.got = (C.map Prod.snd).take (s.consumer.first s.ring.dequeuePos)

theorem Taken.ends {done got : List α} (hends : Ends s got s' o)
    (h : done ++ got = (C.map Prod.snd).take s.ring.dequeuePos) :
    Taken C (done ++ batches o) s' := by
  unfold Taken
  rw [hends.ring, hends.first, List.append_assoc, hends.got, h]

theorem BatchMove.taken (hmove : BatchMove s s' o) (hagain : s.consumer.AgainOk)
    (h : Sound k C s.ring s.producers s.consumer) {done : List α} (htaken : Taken C done s) :
    Taken C (done ++ batches o) s' := by
  unfold Taken at htaken
  have hstay : ∀ {consumer' : Batch α} {ring : Ring α}, consumer'.got = s.consumer.got →
      consumer'.first ring.dequeuePos = s.consumer.first s.ring.dequeuePos →
      (done ++ []) ++ consumer'.got = (C.map Prod.snd).take (consumer'.first ring.dequeuePos) := by
    intro consumer' ring hgot hfirst
    rw [List.append_nil, hgot, hfirst]
    exact htaken
  cases hmove with
  | nothing phase pos got cell hat hcell hdif s' o heq =>
      rw [hat] at hagain htaken
      exact .ends (popFailed_ends hagain heq) htaken
  | releases phase pos got v ring hat hring s' o heq =>
      rw [hat] at h hagain htaken
      obtain ⟨hdeq, -, t, hget⟩ := h.batch
      have hends := popped_ends hagain heq
      refine .ends hends ?_
      obtain ⟨cell, -, rfl⟩ := modifyCell_eq_some hring
      have hv : (C.map Prod.snd)[pos]? = some v := by rw [List.getElem?_map, hget]; rfl
      calc done ++ (got ++ [v]) = (C.map Prod.snd).take pos ++ [v] := by
            rw [← List.append_assoc]
            exact congrArg (· ++ [v]) htaken
        _ = (C.map Prod.snd).take s.ring.dequeuePos := by
            rw [hdeq, List.take_add_one, hv]
            rfl
  | disarms got hat s' o heq =>
      rw [hat] at htaken
      exact .ends (drained_ends (by decide) heq) htaken
  | takes phase pos got hat hpos => exact hstay (by rw [hat]; rfl) (by rw [hat]; exact hpos.symm)
  | calls hat => exact hstay (by rw [hat]; rfl) (by rw [hat]; rfl)
  | load phase got hat => exact hstay (by rw [hat]; rfl) (by rw [hat]; rfl)
  | ready phase pos got cell hat hcell hdif => exact hstay (by rw [hat]; rfl) (by rw [hat]; rfl)
  | late phase pos got hat => exact hstay (by rw [hat]; rfl) (by rw [hat]; rfl)
  | loses phase pos got hat => exact hstay (by rw [hat]; rfl) (by rw [hat]; rfl)
  | reads phase pos got cell hat hcell => exact hstay (by rw [hat]; rfl) (by rw [hat]; rfl)
  | locks hat hlocked => exact hstay (by rw [hat]; rfl) (by rw [hat]; rfl)
  | arms hat => exact hstay (by rw [hat]; rfl) (by rw [hat]; rfl)
  | wakes hat => exact hstay (by rw [hat]; rfl) (by rw [hat]; rfl)
  | unparks hat => exact hstay (by rw [hat]; rfl) (by rw [hat]; rfl)
  | unlocks hat => exact hstay (by rw [hat]; rfl) (by rw [hat]; rfl)

end Consumer

/-! What the outputs tell. -/

theorem PushMove.reports (hmove : PushMove s t s' o) :
    .empty ∉ o ∧ ∀ t', .full t' ∈ o → ∃ x pos cell, s.producers t = .look x pos ∧
      s.ring.cell pos = some cell ∧ signedDif cell.seq pos < 0 := by
  cases hmove with
  | full x pos cell hat hcell hdif =>
      exact ⟨fun h => (nomatch List.mem_singleton.mp h),
        fun _ _ => ⟨x, pos, cell, hat, hcell, hdif⟩⟩
  | wins | returns | notifies =>
      exact ⟨fun h => (nomatch List.mem_singleton.mp h),
        fun _ h => (nomatch List.mem_singleton.mp h)⟩
  | _ => exact ⟨nofun, nofun⟩

omit [DecidableEq τ] in
theorem BatchMove.reports (hmove : BatchMove s s' o) :
    (∀ t, .full t ∉ o) ∧ (.empty ∈ o → ∃ phase pos got cell,
      s.consumer = .pop phase (.look pos) got ∧ s.ring.cell pos = some cell ∧
        signedDif cell.seq (sizeT (pos + 1)) < 0) := by
  cases hmove with
  | nothing phase pos got cell hat hcell hdif s' o heq =>
      exact ⟨popFailed_reports heq, fun _ => ⟨phase, pos, got, cell, hat, hcell, hdif⟩⟩
  | releases phase pos got v ring hat hring s' o heq =>
      exact ⟨fun t h => (nomatch popped_reports heq _ h), fun h => (nomatch popped_reports heq _ h)⟩
  | disarms got hat s' o heq =>
      exact ⟨fun t h => (nomatch drained_reports heq _ h), fun h => (nomatch drained_reports heq _ h)⟩
  | _ => exact ⟨fun _ => nofun, nofun⟩

end Moves

/-! ### Runs -/

/-- What holds after the events of a run. -/
structure Kept [DecidableEq τ] (k : Nat) (events : List (Event τ α)) (out : List (Output τ α))
    (s : State τ α) : Prop where
  claimed : (claims out).length ≤ events.length
  sound : Sound k (claims out) s.ring s.producers s.consumer
  again : s.consumer.AgainOk
  taken : Taken (claims out) (batches out) s
  calls : ∀ t, itemsOf t (claims out) ++ (s.producers t).pending = pushes t events

section Runs

variable [DecidableEq τ] {k : Nat} {events : List (Event τ α)} {out o : List (Output τ α)}
  {s s' : State τ α} {e : Event τ α}

theorem pushes_concat (t : τ) (events : List (Event τ α)) (e : Event τ α) :
    pushes t (events ++ [e]) = pushes t events ++ pushes t [e] := List.filterMap_append ..

theorem pushes_other {t : τ} (hother : ∀ x, e ≠ .push t x) : pushes t [e] = [] := by
  cases e with
  | push t' x =>
      have hne : t' ≠ t := by
        rintro rfl
        exact hother x rfl
      simp [pushes, hne]
  | _ => rfl

omit [DecidableEq τ] in
theorem claims_le_one {t : τ} [DecidableEq τ] (hmove : PushMove s t s' o) :
    (claims o).length ≤ 1 := by
  cases hmove with
  | wins => exact Nat.le_refl _
  | _ => exact Nat.zero_le _

/-- **A step keeps the invariant** while the positions are below half of `size_t`. -/
theorem Kept.step (hk : 0 < k) (hsmall : events.length + 2 ^ k < 2 ^ 63)
    (h : Kept k events out s) (hstep : threadStep s e = some (s', o)) :
    Kept k (events ++ [e]) (out ++ o) s' := by
  have hpositions : (claims out).length + 2 ^ k < 2 ^ 63 :=
    (Nat.add_le_add_right h.claimed _).trans_lt hsmall
  have hevents : (events ++ [e]).length = events.length + 1 := List.length_append
  rcases threadStep_cases hstep with ⟨t, x, rfl, hat, rfl, rfl⟩ | ⟨t, he, hmove⟩ | ⟨he, hmove⟩
  · rw [List.append_nil]
    refine ⟨h.claimed.trans (by omega), ?_, h.again, h.taken, fun t' => ?_⟩
    · exact h.sound.setProducer t (congrArg Push.making hat).symm trivial
    · rw [pushes_concat, ← h.calls t', List.append_assoc]
      refine congrArg (itemsOf t' (claims out) ++ ·) ?_
      change (Function.update s.producers t (.load x) t').pending = _
      by_cases heq : t' = t
      · subst heq
        rw [Function.update_self, hat]
        simp [pushes, Push.pending]
      · rw [Function.update_of_ne heq, pushes_other (by rintro y ⟨rfl, -⟩; exact heq rfl),
          List.append_nil]
  · obtain ⟨hconsumer, hdeq, hbatches, -, -⟩ := hmove.frame
    refine ⟨?_, ?_, hconsumer ▸ h.again, ?_, fun t' => ?_⟩
    · have hone := claims_le_one hmove
      have hclaimed := h.claimed
      rw [claims_append, List.length_append, hevents]
      omega
    · rw [claims_append]
      exact hmove.sound hk hpositions h.sound
    · have hle := h.sound.first_le
      unfold Taken
      rw [batches_append, hbatches, List.append_nil, hconsumer, hdeq, claims_append, List.map_append,
        List.take_append_of_le_length (by rwa [List.length_map])]
      exact h.taken
    · have hother : ∀ x, e ≠ .push t' x := by
        rintro x rfl
        rcases he with he | he <;> cases he
      rw [claims_append, itemsOf_append, List.append_assoc, hmove.pending t', pushes_concat,
        pushes_other hother, List.append_nil]
      exact h.calls t'
  · obtain ⟨hproducers, hclaims, hagain⟩ := hmove.frame h.again
    have hsame : claims (out ++ o) = claims out := by
      rw [claims_append, hclaims, List.append_nil]
    refine ⟨?_, ?_, hagain, ?_, fun t' => ?_⟩
    · rw [hsame, hevents]
      exact Nat.le_succ_of_le h.claimed
    · rw [hsame]
      exact hmove.sound hpositions h.again h.sound
    · rw [hsame, batches_append]
      exact hmove.taken h.again h.sound h.taken
    · have hother : ∀ x, e ≠ .push t' x := by
        rintro x rfl
        exact he trivial
      rw [hsame, hproducers, pushes_concat, pushes_other hother, List.append_nil]
      exact h.calls t'

/-- A new ring, nobody in a call. -/
theorem kept_new [Inhabited α] {argument : Nat} {q : Ring α} (htwo : 2 ≤ argument)
    (hnew : new 64 argument = some q) :
    ∃ k, 0 < k ∧ capacity q = 2 ^ k ∧ Kept k [] [] ({ ring := q } : State τ α) := by
  have hle : argument ≤ 2 ^ 63 := by
    by_contra hlarge
    unfold new at hnew
    rw [roundUpPow2_never (Nat.not_le.mp hlarge)] at hnew
    cases hnew
  obtain ⟨k, hk, hpos, hsize⟩ := roundUpPow2_stops hle
  obtain ⟨_, hnew', hq⟩ := new_represents (α := α) hk hsize
  cases hnew'.symm.trans hnew
  have hturn : 2 ^ k ≤ 2 ^ 63 := Nat.pow_le_pow_right (by decide) hk
  have hfree : ∀ p, p < 2 ^ k → ∃ x, q.cell p = some ⟨p, x⟩ := by
    intro p hp
    obtain ⟨x, hx⟩ := hq.free p (Nat.zero_le _) hp
    refine ⟨x, ?_⟩
    rw [Nat.zero_add, sizeT_small (hp.trans_le hturn)] at hx
    unfold Ring.cell
    rw [hq.mask, Nat.and_two_pow_sub_one_eq_mod]
    exact hx
  have hdeq : q.dequeuePos = 0 := hq.dequeuePos
  refine ⟨k, hpos htwo, hq.length, Nat.le_refl _, ?_, trivial, ?_, fun t => rfl⟩
  · refine ⟨hq.mask, hq.length, hq.enqueuePos, hdeq.le, Nat.zero_le _, fun p hp hp' => ?_,
      fun _ => trivial, trivial⟩
    have hlt : p < 2 ^ k := by
      have hp'' : p < q.dequeuePos + 2 ^ k := hp'
      omega
    unfold CellOk
    split
    next hin => exact absurd hin (Nat.not_lt_zero p)
    next => exact hfree p hlt
  · exact (List.take_nil).symm

section New

variable [Inhabited α] {argument : Nat} {q : Ring α}

theorem kept_run (htwo : 2 ≤ argument) (hnew : new 64 argument = some q)
    (hshort : events.length + capacity q < 2 ^ 63)
    (hrun : run threadStep ({ ring := q } : State τ α) events = some (s, out)) :
    ∃ k, 0 < k ∧ capacity q = 2 ^ k ∧ Kept k events out s := by
  obtain ⟨k, hk, hcapacity, hkept⟩ := kept_new (τ := τ) htwo hnew
  have hinv := run_invariant
    (I := fun es out s => es.length + 2 ^ k < 2 ^ 63 → Kept k es out s) (fun _ => hkept)
    (fun es os s e s' o hkept hstep hlt => by
      rw [List.length_append, List.length_singleton] at hlt
      exact (hkept (by omega)).step hk (by omega) hstep) hrun
  exact ⟨k, hk, hcapacity, hinv (hcapacity ▸ hshort)⟩

omit [DecidableEq τ] [Inhabited α] in
theorem Taken.length {C : List (τ × α)} {done : List α} (h : Taken C done s)
    (hle : s.consumer.first s.ring.dequeuePos ≤ C.length) :
    (done ++ s.consumer.got).length = s.consumer.first s.ring.dequeuePos := by
  unfold Taken at h
  rw [h, List.length_take, List.length_map]
  exact Nat.min_eq_left hle

/-- **First in, first out, exactly once**, in whatever order the threads take their steps: what
    `pop_batch` has returned, what it has drained and what is held, at most a ring of it, are what
    was claimed, in order; and the claims of a producer are its calls, in order, but for the one
    that it is in. -/
theorem threads_fifo (htwo : 2 ≤ argument) (hnew : new 64 argument = some q)
    (hshort : events.length + capacity q < 2 ^ 63)
    (hrun : run threadStep ({ ring := q } : State τ α) events = some (s, out)) :
    (∃ held, held.length ≤ capacity q ∧
      (claims out).map Prod.snd = batches out ++ s.consumer.got ++ held) ∧
    ∀ t, itemsOf t (claims out) ++ (s.producers t).pending = pushes t events := by
  obtain ⟨k, -, hcapacity, hkept⟩ := kept_run htwo hnew hshort hrun
  have hfits := hkept.sound.fits
  refine ⟨⟨((claims out).map Prod.snd).drop (s.consumer.first s.ring.dequeuePos), ?_, ?_⟩,
    hkept.calls⟩
  · rw [List.length_drop, List.length_map, hcapacity]
    omega
  · have htaken := hkept.taken
    unfold Taken at htaken
    rw [htaken, List.take_append_drop]

/-- **What a thread is told is so**: a push that finds the ring full finds it a whole ring behind,
    and a pop that finds nothing finds nothing claimed, or the next item in the making. -/
theorem threads_answer (htwo : 2 ≤ argument) (hnew : new 64 argument = some q)
    (hshort : events.length + capacity q < 2 ^ 63)
    (hrun : run threadStep ({ ring := q } : State τ α) events = some (s, out))
    (hstep : threadStep s e = some (s', o)) :
    (∀ t, .full t ∈ o →
      (claims out).length = (batches out ++ s.consumer.got).length + capacity q) ∧
    (.empty ∈ o → ∀ t x, (claims out)[(batches out ++ s.consumer.got).length]? = some (t, x) →
      ∃ pos, s.producers t = .write x pos ∨ s.producers t = .publish x pos) := by
  obtain ⟨k, hk, hcapacity, hkept⟩ := kept_run htwo hnew hshort hrun
  have hsound := hkept.sound
  have hturn := Nat.two_pow_pos k
  have hpositions : (claims out).length + 2 ^ k < 2 ^ 63 :=
    (Nat.add_le_add_right hkept.claimed _).trans_lt (hcapacity ▸ hshort)
  rw [hkept.taken.length hsound.first_le, hcapacity]
  rcases threadStep_cases hstep with ⟨t, x, rfl, -, -, rfl⟩ | ⟨t, -, hmove⟩ | ⟨-, hmove⟩
  · exact ⟨nofun, nofun⟩
  · obtain ⟨hempty, hfull⟩ := hmove.reports
    refine ⟨fun t' ht' => ?_, fun h => absurd h hempty⟩
    obtain ⟨x, pos, cell, hat, hcell, hdif⟩ := hfull t' ht'
    have hknown := hsound.producer t
    rw [hat] at hknown
    have hpos : pos ≤ (claims out).length := hknown
    have hseq := hsound.seq_le hcell
    rw [signedDif_small (by omega) (by omega)] at hdif
    exact hsound.full_of_lt hpos hcell (by omega)
  · obtain ⟨hfull, hempty⟩ := hmove.reports
    refine ⟨fun t' ht' => absurd ht' (hfull t'), fun h t x hget => ?_⟩
    obtain ⟨phase, pos, got, cell, hat, hcell, hdif⟩ := hempty h
    have hknown := hsound.batch
    rw [hat] at hknown hget
    have hpos : pos = s.ring.dequeuePos := hknown
    subst hpos
    have hseq := hsound.seq_le hcell
    have hle := hsound.dequeuePos
    rw [sizeT_small (by omega), signedDif_small (by omega) (by omega)] at hdif
    rcases hsound.published_or_free (by rw [hat]; rfl) hcell with ⟨heq, -⟩ | ⟨-, hnone | hmade⟩
    · omega
    · exact nomatch hnone.symm.trans hget
    · exact hsound.maker hmade hget

/-- **No two threads are at the data of one cell**: neither two producers that write, nor a
    producer that writes and the consumer that reads. -/
theorem threads_apart (htwo : 2 ≤ argument) (hnew : new 64 argument = some q)
    (hshort : events.length + capacity q < 2 ^ 63)
    (hrun : run threadStep ({ ring := q } : State τ α) events = some (s, out)) {t : τ} {x : α}
    {pos : Nat} (hat : s.producers t = .write x pos) :
    (∀ t' x' pos', t' ≠ t → s.producers t' = .write x' pos' →
      pos' &&& s.ring.mask ≠ pos &&& s.ring.mask) ∧
    ∀ phase pos' got, s.consumer = .pop phase (.read pos') got →
      pos' &&& s.ring.mask ≠ pos &&& s.ring.mask := by
  obtain ⟨k, -, -, hkept⟩ := kept_run htwo hnew hshort hrun
  have h := hkept.sound
  have hlap : ∀ {p : Nat} {c : τ × α}, (claims out)[p]? = some c →
      p < s.consumer.first s.ring.dequeuePos + 2 ^ k := fun hget =>
    (List.getElem?_eq_some_iff.mp hget).1.trans_le h.fits
  have hwrites : ∀ {t' x' pos'}, s.producers t' = .write x' pos' →
      PushOk k (s.consumer.first s.ring.dequeuePos) (claims out) s.ring t' (.write x' pos') :=
    fun hat' => hat' ▸ h.producer _
  obtain ⟨hle, hget, y, hfree⟩ := hwrites hat
  rw [h.mask]
  refine ⟨fun t' x' pos' hne hat' => ?_, fun phase pos' got hat' => ?_⟩
  · obtain ⟨hle', hget', -⟩ := hwrites hat'
    rw [Nat.and_two_pow_sub_one_eq_mod, Nat.and_two_pow_sub_one_eq_mod]
    refine mod_ne hle' (hlap hget') hle (hlap hget) ?_
    rintro rfl
    exact hne (Prod.mk.inj (Option.some.inj (hget'.symm.trans hget))).1
  · have hknown := h.batch
    rw [hat'] at hknown
    obtain ⟨-, hpub⟩ := hknown
    have hfirst : s.consumer.first s.ring.dequeuePos = pos' := by rw [hat']; rfl
    rw [Nat.and_two_pow_sub_one_eq_mod, Nat.and_two_pow_sub_one_eq_mod]
    refine mod_ne hfirst.le (hpub.lt.trans_le h.fits) hle (hlap hget) ?_
    rintro rfl
    exact hpub.not_made hfree

end New

end Runs

/-! ### A run -/

/-- The second producer claims the first position and publishes it last, while the consumer
    parks. -/
def interleaving : List (Event Bool Nat) :=
  [.push false 10, .push true 20, .producer false] ++ List.replicate 3 (.producer true) ++
    List.replicate 7 (.producer false) ++ [.popBatch] ++ List.replicate 6 .consumer ++
    List.replicate 5 (.producer true) ++ List.replicate 15 .consumer

/-- The mailbox of two cells. -/
def twoCells : Ring Nat := { buf := [⟨0, 0⟩, ⟨1, 0⟩], mask := 1 }

theorem new_two : new 64 2 = some twoCells := by decide +kernel

/-- The machine run as far as a state of which something is checked. -/
theorem exists_reached (events : List (Event Bool Nat))
    (P : State Bool Nat → List (Output Bool Nat) → Bool)
    (h : (run threadStep ({ ring := twoCells } : State Bool Nat) events).any
      (fun r => P r.1 r.2) = true) :
    ∃ s out, run threadStep ({ ring := twoCells } : State Bool Nat) events = some (s, out) ∧
      P s out = true := by
  obtain ⟨⟨s, out⟩, hrun, hP⟩ := (Option.any_eq_true _ _).mp h
  exact ⟨s, out, hrun, hP⟩

theorem interleaving_fifo : ∃ s out,
    run threadStep ({ ring := twoCells } : State Bool Nat) interleaving = some (s, out) ∧
      batches out = [20, 10] ∧
      (∃ held, held.length ≤ 2 ∧
        (claims out).map Prod.snd = batches out ++ s.consumer.got ++ held) ∧
      ∀ t, itemsOf t (claims out) ++ (s.producers t).pending = pushes t interleaving := by
  obtain ⟨s, out, hrun, hbatches⟩ := exists_reached interleaving
    (fun _ out => batches out = [20, 10]) (by decide +kernel)
  exact ⟨s, out, hrun, of_decide_eq_true hbatches,
    threads_fifo (by decide) new_two (by decide) hrun⟩

/-- The consumer finds nothing: the first item is in the making. -/
theorem interleaving_answers : ∃ s out s' o,
    run threadStep ({ ring := twoCells } : State Bool Nat) (interleaving.take 15) = some (s, out) ∧
      threadStep s .consumer = some (s', o) ∧ .empty ∈ o ∧
      (∀ t, .full t ∈ o → (claims out).length = (batches out ++ s.consumer.got).length + 2) ∧
      (.empty ∈ o → ∀ t x, (claims out)[(batches out ++ s.consumer.got).length]? = some (t, x) →
        ∃ pos, s.producers t = .write x pos ∨ s.producers t = .publish x pos) := by
  obtain ⟨s, out, hrun, hlast⟩ := exists_reached (interleaving.take 15)
    (fun s _ => (threadStep s .consumer).any fun r => .empty ∈ r.2) (by decide +kernel)
  obtain ⟨⟨s', o⟩, hstep, hempty⟩ := (Option.any_eq_true _ _).mp hlast
  exact ⟨s, out, s', o, hrun, hstep, of_decide_eq_true hempty,
    threads_answer (by decide) new_two (by decide) hrun hstep⟩

/-- Both producers are about to write. -/
theorem interleaving_apart : ∃ s out,
    run threadStep ({ ring := twoCells } : State Bool Nat) (interleaving.take 10) = some (s, out) ∧
      s.producers false = .write 10 1 ∧
      (∀ t' x' pos', t' ≠ true → s.producers t' = .write x' pos' →
        pos' &&& s.ring.mask ≠ 0 &&& s.ring.mask) ∧
      ∀ phase pos' got, s.consumer = .pop phase (.read pos') got →
        pos' &&& s.ring.mask ≠ 0 &&& s.ring.mask := by
  obtain ⟨s, out, hrun, hat⟩ := exists_reached (interleaving.take 10)
    (fun s _ => s.producers true = .write 20 0 ∧ s.producers false = .write 10 1)
    (by decide +kernel)
  obtain ⟨hfirst, hsecond⟩ := of_decide_eq_true hat
  exact ⟨s, out, hrun, hsecond, threads_apart (by decide) new_two (by decide) hrun hfirst⟩

end KasparHft.LockFreeMPSC
