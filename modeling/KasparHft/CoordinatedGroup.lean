import KasparHft.CoordinatorGrants

/-!
# A coordinated group

`Group.cpp`: a message handed to a coordinated group waits in it while its token and its request
travel to the coordinator, and is forwarded when a grant comes back.  There is one place to
wait in, and it keeps a pointer.  The message belongs to whoever handed it over: the group's
own thread deletes it when `process_message` returns.

The system is a group that is registered, the coordinator, and what is on its way between them,
in order; the other groups and the console send the coordinator what they like.
-/

namespace KasparHft.CoordinatedGroup

open AssocMap Coordinator Machine

/-- A message to a member of the group. -/
structure Message where
  destination : String
  content : ℕ
deriving DecidableEq, Repr

/-- The members of a `Group` in coordinated mode, registered; `address` is what the coordinator
    replies to, `pendingMessage` a pointer. -/
structure Group where
  name : String
  address : ℕ
  pendingMessage : Option ℕ := none
  pendingActorId : String := ""
  lastGrantedSequence : ℕ := 0
  localTimestamp : ℕ := 0
deriving DecidableEq, Repr

/-- A message processed by an actor. -/
structure Delivery where
  destination : String
  message : Message
deriving DecidableEq, Repr

/-- The full id of a member. -/
def Group.fullId (g : Group) (actor : String) : String := g.name ++ "." ++ actor

/-- `process_message`, for the message `m` at `ptr`: `send_permission_token`, then
    `request_permission`. -/
def Group.processMessage (g : Group) (ptr : ℕ) (m : Message) : Group × List Coordinator.Event :=
  let recipientId := g.fullId m.destination
  ({ g with
      pendingMessage := some ptr
      localTimestamp := g.localTimestamp + 1
      pendingActorId := recipientId },
    [.permissionToken recipientId g.address, .permissionRequest g.name recipientId g.address])

/-- `forward`: the message is processed by its destination, and a `done` sent. -/
def Group.forward (g : Group) (m : Message) : List Delivery × List Coordinator.Event :=
  ([⟨m.destination, m⟩], [.permissionDone (g.fullId m.destination) g.lastGrantedSequence])

/-- `on_permission_grant`; `none` where the message that waits is no longer there to be read. -/
def Group.onPermissionGrant (g : Group) (memory : Map ℕ Message) (grant : Grant) :
    Option (Group × List Delivery × List Coordinator.Event) :=
  let g := { g with lastGrantedSequence := grant.sequence }
  match g.pendingMessage with
  | none => some (g, [], [])
  | some ptr => (memory.lookup ptr).map fun m => ({ g with pendingMessage := none }, g.forward m)

/-- The group, the coordinator, and what is on its way; the messages that were handed over and
    not deleted, each at an address that no other one gets. -/
structure System where
  group : Group
  coordinator : Coordinator.State := {}
  toCoordinator : List Coordinator.Event := []
  toGroup : List Grant := []
  memory : Map ℕ Message := ∅
  allocated : ℕ := 0

/-- The group's thread takes a message from its mailbox; a message is handed to the group by a
    caller that keeps it; a message is deleted; the coordinator handles the next message of the
    group, or one of somebody else; the next grant reaches the group. -/
inductive Event where
  | mailbox (m : Message)
  | processMessage (m : Message)
  | deletes (ptr : ℕ)
  | coordinatorReceives
  | coordinatorReceivesOther (e : Coordinator.Event)
  | grantArrives
deriving DecidableEq, Repr

/-- A message is handed to the group. -/
def System.handOver (s : System) (m : Message) : System :=
  let r := s.group.processMessage s.allocated m
  { s with
    group := r.1
    toCoordinator := s.toCoordinator ++ r.2
    memory := s.memory.insert s.allocated m
    allocated := s.allocated + 1 }

/-- `delete m`. -/
def System.delete (s : System) (ptr : ℕ) : System := { s with memory := s.memory.erase ptr }

/-- The coordinator handles a message, and its grants of the group are on their way. -/
def System.coordinate (s : System) (e : Coordinator.Event) : Option System :=
  (Coordinator.handle s.coordinator e).map fun r =>
    { s with
      coordinator := r.1
      toGroup := s.toGroup ++ r.2.filter (·.dest = s.group.address) }

/-- One step; `none` is an abort of the coordinator, or that a deleted message is read.
    `run_loop` deletes the message it took, in `process_message_internal`. -/
def step (s : System) : Event → Option (System × List Delivery)
  | .mailbox m => some ((s.handOver m).delete s.allocated, [])
  | .processMessage m => some (s.handOver m, [])
  | .deletes ptr => some (s.delete ptr, [])
  | .coordinatorReceives =>
      match s.toCoordinator with
      | [] => some (s, [])
      | e :: rest => (System.coordinate { s with toCoordinator := rest } e).map fun s => (s, [])
  | .coordinatorReceivesOther e => (s.coordinate e).map fun s => (s, [])
  | .grantArrives =>
      match s.toGroup with
      | [] => some (s, [])
      | grant :: rest =>
          (s.group.onPermissionGrant s.memory grant).map fun r =>
            ({ s with
              group := r.1
              toCoordinator := s.toCoordinator ++ r.2.2
              toGroup := rest }, r.2.1)

/-! ### What the coordinator knows of the group -/

/-- The id of a member of the group. -/
def Group.Member (g : Group) (id : String) : Prop := ∃ actor, id = g.fullId actor

/-- The group sends of its members and nobody else does: tokens and requests of members, and
    only these, are to be answered to it. -/
structure Owned (g : Group) (c : Coordinator.State) : Prop where
  tokens : ∀ entry ∈ c.tokenQueue, entry.replyTo = g.address ↔ g.Member entry.actorId
  requests : ∀ id req, c.pendingRequests.lookup id = some req →
    (req.replyTo = g.address ↔ g.Member id)

/-- A message of the group speaks of its members, one of others does not. -/
def SentBy (g : Group) : Coordinator.Event → Prop
  | .permissionToken recipientId sender => sender = g.address ↔ g.Member recipientId
  | .permissionRequest _ actorId sender => sender = g.address ↔ g.Member actorId
  | .permissionDone _ _ => True
  | .get _ => True

/-- The members announced, in the order of their tokens. -/
def announcedOf (g : Group) (c : Coordinator.State) : List String :=
  (c.tokenQueue.filter (·.replyTo = g.address)).map (·.actorId)

/-- A member that asked and was not granted. -/
def Asked (g : Group) (c : Coordinator.State) (id : String) : Prop :=
  g.Member id ∧ id ∈ c.pendingRequests

section Coordinator

variable {g : Group} {c c' : Coordinator.State} {e : Coordinator.Event} {o : List Grant}

theorem Owned.arrive (h : Owned g c) (hby : SentBy g e) : Owned g (c.arrive e) := by
  cases e with
  | permissionToken recipientId sender =>
      cases hgroup : groupOf recipientId with
      | none => simpa [State.arrive, hgroup] using h
      | some grp =>
          simp only [State.arrive, hgroup]
          refine ⟨fun entry hentry => ?_, h.requests⟩
          rcases List.mem_append.mp hentry with hentry | hentry
          · exact h.tokens entry hentry
          · rw [List.mem_singleton.mp hentry]
            exact hby
  | permissionRequest groupId actorId sender =>
      refine ⟨h.tokens, fun id req hlookup => ?_⟩
      change (c.pendingRequests.insert actorId _).lookup id = some req at hlookup
      by_cases heq : id = actorId
      · rw [heq, AList.lookup_insert] at hlookup
        rw [heq, ← Option.some_inj.mp hlookup]
        exact hby
      · rw [AList.lookup_insert_ne heq] at hlookup
        exact h.requests id req hlookup
  | permissionDone actorId sequence => exact h
  | get what =>
      cases what with
      | stop => exact ⟨h.tokens, h.requests⟩
      | «continue» => exact ⟨h.tokens, h.requests⟩
      | step => exact h
      | flush =>
          refine ⟨fun entry hentry => ?_, fun id req hlookup => ?_⟩
          · simp [State.arrive] at hentry
          · simp [State.arrive] at hlookup

/-- What a message of the coordinator is for the group: it is granted nothing, or the first of
    its members announced is granted. -/
inductive Answers (g : Group) (c₁ : Coordinator.State) : List Grant → Coordinator.State → Prop
  where
  | others {o : List Grant} {c' : Coordinator.State}
      (hnone : o.filter (·.dest = g.address) = [])
      (hannounced : (announcedOf g c').Sublist (announcedOf g c₁))
      (hasked : ∀ id, Asked g c' id → Asked g c₁ id) : Answers g c₁ o c'
  | member {grant : Grant} {c' : Coordinator.State} (hdest : grant.dest = g.address)
      (hannounced : announcedOf g c₁ = grant.actorId :: announcedOf g c')
      (hasked : Asked g c₁ grant.actorId)
      (hrest : ∀ id, Asked g c' id → Asked g c₁ id ∧ id ≠ grant.actorId) :
      Answers g c₁ [grant] c'

/-- **What the coordinator does for the group.** -/
theorem handle_answers (h : Owned g c) (hby : SentBy g e)
    (hhandle : Coordinator.handle c e = some (c', o)) :
    Owned g c' ∧ Answers g (c.arrive e) o c' := by
  have harrive := h.arrive hby
  cases handle_coordinates hhandle with
  | keeps => exact ⟨harrive, .others rfl (List.Sublist.refl _) fun _ => id⟩
  | @grants entry req rest paused hcompleted hqueue hreq =>
      have hhead : entry ∈ (c.arrive e).tokenQueue := by rw [hqueue]; exact List.mem_cons_self
      have hmem : entry.actorId ∈ (c.arrive e).pendingRequests :=
        AList.lookup_isSome.mp (by rw [hreq]; rfl)
      have htoken := harrive.tokens entry hhead
      have hrequest := harrive.requests entry.actorId req hreq
      have hasked : ∀ id, g.Member id ∧ id ∈ (c.arrive e).pendingRequests.erase entry.actorId →
          Asked g (c.arrive e) id ∧ id ≠ entry.actorId := by
        rintro id ⟨hmember, hid⟩
        obtain ⟨hne, hid⟩ := AList.mem_erase.mp hid
        exact ⟨⟨hmember, hid⟩, hne⟩
      refine ⟨⟨fun t ht => ?_, fun id r hlookup => ?_⟩, ?_⟩
      · refine harrive.tokens t ?_
        rw [hqueue]
        exact List.mem_cons_of_mem _ ht
      · change ((c.arrive e).pendingRequests.erase entry.actorId).lookup id = some r at hlookup
        by_cases heq : id = entry.actorId
        · rw [heq, AList.lookup_erase] at hlookup
          cases hlookup
        · rw [AList.lookup_erase_ne heq] at hlookup
          exact harrive.requests id r hlookup
      · by_cases hmember : g.Member entry.actorId
        · refine .member (hrequest.mpr hmember) ?_ ⟨hmember, hmem⟩ hasked
          simp [announcedOf, hqueue, htoken.mpr hmember]
        · have hdest : req.replyTo ≠ g.address := fun heq => hmember (hrequest.mp heq)
          refine .others (by simp [hdest]) ?_ fun id hid => (hasked id hid).1
          simp only [announcedOf, hqueue]
          exact ((List.sublist_cons_self _ _).filter _).map _

/-- A message of another group, or of the console. -/
def Foreign (g : Group) : Coordinator.Event → Prop
  | .permissionToken recipientId sender => sender ≠ g.address ∧ ¬ g.Member recipientId
  | .permissionRequest _ actorId sender => sender ≠ g.address ∧ ¬ g.Member actorId
  | .permissionDone _ _ => True
  | .get _ => True

theorem Foreign.sentBy (h : Foreign g e) : SentBy g e := by
  cases e with
  | permissionToken => exact iff_of_false h.1 h.2
  | permissionRequest => exact iff_of_false h.1 h.2
  | permissionDone => trivial
  | get => trivial

/-- At most these members are announced, and at most these asked. -/
structure Holds (g : Group) (c : Coordinator.State) (announced asked : List String) : Prop where
  announced : (announcedOf g c).Sublist announced
  asked : ∀ id, Asked g c id → id ∈ asked

variable {announced asked : List String}

theorem Holds.foreign (h : Holds g c announced asked) (hforeign : Foreign g e) :
    Holds g (c.arrive e) announced asked := by
  cases e with
  | permissionToken recipientId sender =>
      cases hgroup : groupOf recipientId with
      | none => simpa [State.arrive, hgroup] using h
      | some grp =>
          simp only [State.arrive, hgroup]
          refine ⟨?_, h.asked⟩
          have hsender : sender ≠ g.address := hforeign.1
          simpa [announcedOf, hsender] using h.announced
  | permissionRequest groupId actorId sender =>
      refine ⟨h.announced, fun id hid => ?_⟩
      obtain ⟨hmember, hmem⟩ := hid
      rcases (AList.mem_insert _).mp hmem with rfl | hmem
      · exact absurd hmember hforeign.2
      · exact h.asked id ⟨hmember, hmem⟩
  | permissionDone => exact h
  | get what =>
      cases what with
      | stop => exact ⟨h.announced, h.asked⟩
      | «continue» => exact ⟨h.announced, h.asked⟩
      | step => exact h
      | flush =>
          refine ⟨List.nil_sublist _, fun id hid => ?_⟩
          exact absurd hid.2 (AList.notMem_empty id)

/-- The group's own token. -/
theorem Holds.token (h : Holds g c [] []) (actor : String) :
    Holds g (c.arrive (.permissionToken (g.fullId actor) g.address)) [g.fullId actor] [] := by
  have hnone : announcedOf g c = [] := List.sublist_nil.mp h.announced
  cases hgroup : groupOf (g.fullId actor) with
  | none =>
      simp only [State.arrive, hgroup]
      exact ⟨h.announced.trans (List.nil_sublist _), h.asked⟩
  | some grp =>
      simp only [State.arrive, hgroup]
      refine ⟨?_, h.asked⟩
      simp only [announcedOf] at hnone
      simp [announcedOf, hnone]

/-- The group's own request. -/
theorem Holds.request {id : String} (h : Holds g c [id] []) (groupId : String) (sender : ℕ) :
    Holds g (c.arrive (.permissionRequest groupId id sender)) [id] [id] := by
  refine ⟨h.announced, fun id' hid' => ?_⟩
  rcases (AList.mem_insert _).mp hid'.2 with rfl | hmem
  · exact List.mem_singleton.mpr rfl
  · exact absurd (h.asked id' ⟨hid'.1, hmem⟩) List.not_mem_nil

/-- While no member has asked, none is granted. -/
theorem Holds.quiet {c₁ : Coordinator.State} (h : Holds g c₁ announced [])
    (hanswers : Answers g c₁ o c') :
    o.filter (·.dest = g.address) = [] ∧ Holds g c' announced [] := by
  cases hanswers with
  | others hnone hannounced hasked =>
      exact ⟨hnone, hannounced.trans h.announced, fun id hid => h.asked id (hasked id hid)⟩
  | member _ _ hasked => simpa using h.asked _ hasked

/-- A member that is announced and has asked goes on waiting, or is granted. -/
theorem Holds.answered {c₁ : Coordinator.State} {id : String} (h : Holds g c₁ [id] [id])
    (hanswers : Answers g c₁ o c') :
    o.filter (·.dest = g.address) = [] ∧ Holds g c' [id] [id] ∨
    ∃ grant, o.filter (·.dest = g.address) = [grant] ∧ Holds g c' [] [] := by
  cases hanswers with
  | others hnone hannounced hasked =>
      exact .inl ⟨hnone, hannounced.trans h.announced, fun id hid => h.asked id (hasked id hid)⟩
  | @member grant _ hdest hannounced hasked hrest =>
      refine .inr ⟨grant, by simp [hdest], ?_, fun id' hid' => ?_⟩
      · have hsub := h.announced
        rw [hannounced] at hsub
        have hlength := hsub.length_le
        simp only [List.length_cons, List.length_nil, Nat.add_le_add_iff_right, Nat.le_zero,
          List.length_eq_zero_iff] at hlength
        rw [hlength]
      · obtain ⟨hmem, hne⟩ := hrest id' hid'
        have heq := List.mem_singleton.mp (h.asked id' hmem)
        have heq' := List.mem_singleton.mp (h.asked _ hasked)
        exact absurd (heq.trans heq'.symm) hne

end Coordinator

/-! ### One message at a time -/

/-- What was handed to the group, what of it waits for its grant, and how many grants reached
    the group. -/
structure History where
  handed : List Message := []
  waiting : Option Message := none
  grants : ℕ := 0
deriving DecidableEq, Repr

def History.hand (h : History) (m : Message) : History :=
  { h with handed := h.handed ++ [m], waiting := some m }

def noteHistory (s : System) : Event → History → History
  | .mailbox m, h | .processMessage m, h => h.hand m
  | .grantArrives, h =>
      if s.toGroup = [] then h else { h with waiting := none, grants := h.grants + 1 }
  | .deletes _, h | .coordinatorReceives, h | .coordinatorReceivesOther _, h => h

/-- The system, with its history. -/
def groupStep : System × History → Event → Option ((System × History) × List Delivery) :=
  withGhost step noteHistory

/-- Every message is forwarded to its own destination, at most once, in the order they were
    handed over; and all are once as many grants came. -/
structure Delivering (out : List Delivery) (sh : System × History) : Prop where
  own : ∀ d ∈ out, d.destination = d.message.destination
  inOrder : (out.map (·.message)).IsPrefix sh.2.handed
  inTime : sh.2.handed.length ≤ sh.2.grants → out.map (·.message) = sh.2.handed

/-- The other groups speak of their own members, and repeat no request. -/
def Others (sh : System × History) : Event → Prop
  | .coordinatorReceivesOther e =>
      Foreign sh.1.group e ∧ (Coordinator.handle sh.1.coordinator e).isSome
  | _ => True

/-- A message is handed over when none waits in the group. -/
def Alone (sh : System × History) : Event → Prop
  | .mailbox _ | .processMessage _ => sh.1.group.pendingMessage = none
  | _ => True

/-- A message that waits has not been deleted when a grant comes. -/
def Kept (sh : System × History) : Event → Prop
  | .grantArrives =>
      sh.1.toGroup ≠ [] → ∀ ptr ∈ sh.1.group.pendingMessage, ptr ∈ sh.1.memory
  | _ => True

instance (sh : System × History) : ∀ e, Decidable (Alone sh e)
  | .mailbox _ | .processMessage _ => inferInstanceAs (Decidable (_ = none))
  | .deletes _ | .coordinatorReceives | .coordinatorReceivesOther _ | .grantArrives =>
      inferInstanceAs (Decidable True)

instance (sh : System × History) : ∀ e, Decidable (Kept sh e)
  | .grantArrives => inferInstanceAs (Decidable (_ → ∀ ptr ∈ sh.1.group.pendingMessage, _))
  | .mailbox _ | .processMessage _ | .deletes _ | .coordinatorReceives
  | .coordinatorReceivesOther _ => inferInstanceAs (Decidable True)

def IsDone (e : Coordinator.Event) : Prop :=
  ∃ actorId sequence, e = .permissionDone actorId sequence

/-- Where the message that waits stands. -/
inductive Phase (s : System) (waiting : Option Message) : Prop where
  | idle (hwaiting : waiting = none) (hpending : s.group.pendingMessage = none)
      (hsent : ∀ e ∈ s.toCoordinator, IsDone e)
      (hholds : Holds s.group s.coordinator [] []) (hback : s.toGroup = [])
  | announcing {m : Message} {dones : List Coordinator.Event} (hwaiting : waiting = some m)
      (hpending : s.group.pendingMessage.isSome) (hdones : ∀ e ∈ dones, IsDone e)
      (hsent : s.toCoordinator = dones ++
        [.permissionToken (s.group.fullId m.destination) s.group.address,
          .permissionRequest s.group.name (s.group.fullId m.destination) s.group.address])
      (hholds : Holds s.group s.coordinator [] []) (hback : s.toGroup = [])
  | asking {m : Message} (hwaiting : waiting = some m)
      (hpending : s.group.pendingMessage.isSome)
      (hsent : s.toCoordinator =
        [.permissionRequest s.group.name (s.group.fullId m.destination) s.group.address])
      (hholds : Holds s.group s.coordinator [s.group.fullId m.destination] [])
      (hback : s.toGroup = [])
  | waiting {m : Message} (hwaiting : waiting = some m)
      (hpending : s.group.pendingMessage.isSome) (hsent : s.toCoordinator = [])
      (hholds : Holds s.group s.coordinator [s.group.fullId m.destination]
        [s.group.fullId m.destination])
      (hback : s.toGroup = [])
  | granted {m : Message} {grant : Grant} (hwaiting : waiting = some m)
      (hpending : s.group.pendingMessage.isSome) (hsent : s.toCoordinator = [])
      (hholds : Holds s.group s.coordinator [] []) (hback : s.toGroup = [grant])

/-- The invariant of a group whose messages come one at a time. -/
structure Inv (out : List Delivery) (sh : System × History) : Prop where
  phase : Phase sh.1 sh.2.waiting
  owned : Owned sh.1.group sh.1.coordinator
  own : ∀ d ∈ out, d.destination = d.message.destination
  handed : out.map (·.message) ++ sh.2.waiting.toList = sh.2.handed
  grants : sh.2.grants = out.length
  written : ∀ ptr m, sh.1.group.pendingMessage = some ptr → sh.1.memory.lookup ptr = some m →
    sh.2.waiting = some m

theorem Inv.delivering {out : List Delivery} {sh : System × History} (h : Inv out sh) :
    Delivering out sh := by
  refine ⟨h.own, ⟨_, h.handed⟩, fun hle => ?_⟩
  have hlength := congrArg List.length h.handed
  rw [List.length_append, List.length_map] at hlength
  rw [h.grants] at hle
  have hnone : sh.2.waiting.toList = [] := List.length_eq_zero_iff.mp (by omega)
  rw [← h.handed, hnone, List.append_nil]

section Steps

variable {out : List Delivery} {s : System} {h : History}

theorem coordinate_eq {e : Coordinator.Event} {c' : Coordinator.State} {o : List Grant}
    (hhandle : Coordinator.handle s.coordinator e = some (c', o)) :
    s.coordinate e = some { s with
      coordinator := c'
      toGroup := s.toGroup ++ o.filter (·.dest = s.group.address) } := by
  simp [System.coordinate, hhandle]

theorem handle_done {c : Coordinator.State} {e : Coordinator.Event} (hdone : IsDone e) :
    Coordinator.handle c e = some (c, []) := by
  obtain ⟨actorId, sequence, rfl⟩ := hdone
  rfl

theorem handle_request {g : Group} {c : Coordinator.State} {groupId actorId : String} {sender : ℕ}
    (hfresh : ¬ Asked g c actorId) (hmember : g.Member actorId) :
    ∃ r, Coordinator.handle c (.permissionRequest groupId actorId sender) = some r := by
  have hnot : actorId ∉ c.pendingRequests := fun hmem => hfresh ⟨hmember, hmem⟩
  simp only [Coordinator.handle, State.onPermissionRequest, if_neg hnot]
  split
  next => exact ⟨_, rfl⟩
  next =>
    split
    next => exact ⟨_, rfl⟩
    next => split <;> exact ⟨_, rfl⟩

/-- The group is not involved in what the coordinator does. -/
theorem Inv.coordinated {s' : System} (hinv : Inv out (s, h)) (hgroup : s'.group = s.group)
    (hmemory : s'.memory = s.memory) (howned : Owned s.group s'.coordinator)
    (hphase : Phase s' h.waiting) : Inv (out ++ []) (s', h) where
  phase := hphase
  owned := by
    change Owned s'.group s'.coordinator
    rw [hgroup]
    exact howned
  own := by simpa using hinv.own
  handed := by simpa using hinv.handed
  grants := by simpa using hinv.grants
  written := by
    change ∀ ptr m, s'.group.pendingMessage = some ptr → s'.memory.lookup ptr = some m → _
    rw [hgroup, hmemory]
    exact hinv.written

/-- A message that is handed over while none waits. -/
theorem Inv.handOver (hinv : Inv out (s, h)) (m : Message)
    (halone : s.group.pendingMessage = none) : Inv (out ++ []) (s.handOver m, h.hand m) := by
  cases hinv.phase with
  | idle hwaiting hpending hsent hholds hback =>
      refine ⟨.announcing rfl rfl hsent rfl ⟨hholds.announced, hholds.asked⟩ hback,
        ⟨hinv.owned.tokens, hinv.owned.requests⟩, by simpa using hinv.own, ?_,
        by simpa [History.hand] using hinv.grants, ?_⟩
      · have hhanded := hinv.handed
        rw [hwaiting, Option.toList_none, List.append_nil] at hhanded
        change (out ++ []).map _ ++ [m] = h.handed ++ [m]
        rw [List.append_nil, hhanded]
      · intro ptr m' hpending hlookup
        obtain rfl : s.allocated = ptr := Option.some.inj hpending
        exact (AList.lookup_insert _).symm.trans hlookup
  | announcing _ hpending => simp [halone] at hpending
  | asking _ hpending => simp [halone] at hpending
  | waiting _ hpending => simp [halone] at hpending
  | granted _ hpending => simp [halone] at hpending

/-- A message is deleted. -/
theorem Inv.delete (hinv : Inv out (s, h)) (ptr : ℕ) : Inv (out ++ []) (s.delete ptr, h) where
  phase := by
    cases hinv.phase with
    | idle hwaiting hpending hsent hholds hback =>
        exact .idle hwaiting hpending hsent hholds hback
    | announcing hwaiting hpending hdones hsent hholds hback =>
        exact .announcing hwaiting hpending hdones hsent hholds hback
    | asking hwaiting hpending hsent hholds hback =>
        exact .asking hwaiting hpending hsent hholds hback
    | waiting hwaiting hpending hsent hholds hback =>
        exact .waiting hwaiting hpending hsent hholds hback
    | granted hwaiting hpending hsent hholds hback =>
        exact .granted hwaiting hpending hsent hholds hback
  owned := hinv.owned
  own := by simpa using hinv.own
  handed := by simpa using hinv.handed
  grants := by simpa using hinv.grants
  written := fun ptr' m hpending hlookup => by
    refine hinv.written ptr' m hpending ?_
    change (s.memory.erase ptr).lookup ptr' = some m at hlookup
    by_cases heq : ptr' = ptr
    · rw [heq, AList.lookup_erase] at hlookup
      cases hlookup
    · rwa [AList.lookup_erase_ne heq] at hlookup

theorem Inv.grantArrives (hinv : Inv out (s, h))
    (hkept : s.toGroup ≠ [] → ∀ ptr ∈ s.group.pendingMessage, ptr ∈ s.memory) :
    ∃ r, groupStep (s, h) .grantArrives = some r ∧ Inv (out ++ r.2) r.1 := by
  have hnothing : s.toGroup = [] →
      ∃ r, groupStep (s, h) .grantArrives = some r ∧ Inv (out ++ r.2) r.1 := by
    intro hback
    refine ⟨((s, h), []), ?_, by simpa using hinv⟩
    simp [groupStep, withGhost, step, hback, noteHistory]
  cases hinv.phase with
  | idle _ _ _ _ hback => exact hnothing hback
  | announcing _ _ _ _ _ hback => exact hnothing hback
  | asking _ _ _ _ hback => exact hnothing hback
  | waiting _ _ _ _ hback => exact hnothing hback
  | @granted m grant hwaiting hpending hsent hholds hback =>
      change s.toGroup = [grant] at hback
      change s.toCoordinator = [] at hsent
      obtain ⟨ptr, hptr⟩ := Option.isSome_iff_exists.mp hpending
      change s.group.pendingMessage = some ptr at hptr
      -- the message is still there, and is the one that waits
      obtain ⟨m', hread⟩ := Option.isSome_iff_exists.mp
        (AList.lookup_isSome.mpr (hkept (by rw [hback]; exact List.cons_ne_nil _ _) ptr hptr))
      obtain rfl : m = m' :=
        Option.some.inj (hwaiting.symm.trans (hinv.written ptr m' hptr hread))
      have hhanded := hinv.handed
      rw [hwaiting, Option.toList_some] at hhanded
      refine ⟨(({ s with
        group := { s.group with pendingMessage := none, lastGrantedSequence := grant.sequence }
        toCoordinator := s.toCoordinator ++
          [.permissionDone (s.group.fullId m.destination) grant.sequence]
        toGroup := [] }, { h with waiting := none, grants := h.grants + 1 }),
        [⟨m.destination, m⟩]), ?_, ?_⟩
      · simp [groupStep, withGhost, step, hback, Group.onPermissionGrant, hptr, hread,
          Group.forward, noteHistory, Group.fullId]
      · constructor
        · refine .idle rfl rfl ?_ ⟨hholds.announced, hholds.asked⟩ rfl
          change ∀ e ∈ s.toCoordinator ++ _, IsDone e
          rw [hsent]
          exact List.forall_mem_singleton.mpr ⟨_, _, rfl⟩
        · exact ⟨hinv.owned.tokens, hinv.owned.requests⟩
        · intro d hd
          rcases List.mem_append.mp hd with hd | hd
          · exact hinv.own d hd
          · rw [List.mem_singleton.mp hd]
        · simpa using hhanded
        · simpa using hinv.grants
        · intro ptr' m' hpending'
          cases hpending'

theorem Inv.coordinatorReceivesOther (hinv : Inv out (s, h)) {e : Coordinator.Event}
    (hforeign : Foreign s.group e) (hhandled : (Coordinator.handle s.coordinator e).isSome) :
    ∃ r, groupStep (s, h) (.coordinatorReceivesOther e) = some r ∧ Inv (out ++ r.2) r.1 := by
  obtain ⟨⟨c', o⟩, hhandle⟩ := Option.isSome_iff_exists.mp hhandled
  obtain ⟨howned, hanswers⟩ := handle_answers hinv.owned hforeign.sentBy hhandle
  have hstep : groupStep (s, h) (.coordinatorReceivesOther e) = some (({ s with
      coordinator := c'
      toGroup := s.toGroup ++ o.filter (·.dest = s.group.address) }, h), []) := by
    simp [groupStep, withGhost, step, coordinate_eq hhandle, noteHistory]
  refine ⟨_, hstep, hinv.coordinated rfl rfl howned ?_⟩
  cases hinv.phase with
  | idle hwaiting hpending hsent hholds hback =>
      obtain ⟨hnone, hholds'⟩ := (hholds.foreign hforeign).quiet hanswers
      exact .idle hwaiting hpending hsent hholds' (by rw [hnone, List.append_nil]; exact hback)
  | announcing hwaiting hpending hdones hsent hholds hback =>
      obtain ⟨hnone, hholds'⟩ := (hholds.foreign hforeign).quiet hanswers
      exact .announcing hwaiting hpending hdones hsent hholds'
        (by rw [hnone, List.append_nil]; exact hback)
  | asking hwaiting hpending hsent hholds hback =>
      obtain ⟨hnone, hholds'⟩ := (hholds.foreign hforeign).quiet hanswers
      exact .asking hwaiting hpending hsent hholds' (by rw [hnone, List.append_nil]; exact hback)
  | waiting hwaiting hpending hsent hholds hback =>
      change s.toGroup = [] at hback
      rcases (hholds.foreign hforeign).answered hanswers with
        ⟨hnone, hholds'⟩ | ⟨grant, hone, hholds'⟩
      · exact .waiting hwaiting hpending hsent hholds' (by rw [hnone, List.append_nil]; exact hback)
      · exact .granted hwaiting hpending hsent hholds' (by rw [hone, hback]; rfl)
  | granted hwaiting hpending hsent hholds hback =>
      obtain ⟨hnone, hholds'⟩ := (hholds.foreign hforeign).quiet hanswers
      exact .granted hwaiting hpending hsent hholds' (by rw [hnone, List.append_nil]; exact hback)

/-- The coordinator handles the next message of the group. -/
theorem receives_eq {e : Coordinator.Event} {rest : List Coordinator.Event}
    {c' : Coordinator.State} {o : List Grant} (hsent : s.toCoordinator = e :: rest)
    (hhandle : Coordinator.handle s.coordinator e = some (c', o)) :
    groupStep (s, h) .coordinatorReceives = some (({ s with
      coordinator := c'
      toCoordinator := rest
      toGroup := s.toGroup ++ o.filter (·.dest = s.group.address) }, h), []) := by
  have hnext := @coordinate_eq { s with toCoordinator := rest } e c' o hhandle
  simp [groupStep, withGhost, step, hsent, hnext, noteHistory]

theorem Inv.coordinatorReceives_nil (hinv : Inv out (s, h)) (hsent : s.toCoordinator = []) :
    ∃ r, groupStep (s, h) .coordinatorReceives = some r ∧ Inv (out ++ r.2) r.1 := by
  refine ⟨((s, h), []), ?_, by simpa using hinv⟩
  simp [groupStep, withGhost, step, hsent, noteHistory]

theorem Inv.coordinatorReceives_done (hinv : Inv out (s, h)) {e : Coordinator.Event}
    {rest : List Coordinator.Event} (hsent : s.toCoordinator = e :: rest) (hdone : IsDone e)
    (hphase : Phase { s with toCoordinator := rest } h.waiting) :
    ∃ r, groupStep (s, h) .coordinatorReceives = some r ∧ Inv (out ++ r.2) r.1 := by
  refine ⟨_, receives_eq hsent (handle_done hdone), hinv.coordinated rfl rfl hinv.owned ?_⟩
  simpa using hphase

theorem Inv.coordinatorReceives (hinv : Inv out (s, h)) :
    ∃ r, groupStep (s, h) .coordinatorReceives = some r ∧ Inv (out ++ r.2) r.1 := by
  cases hinv.phase with
  | idle hwaiting hpending hdones hholds hback =>
      change ∀ e ∈ s.toCoordinator, IsDone e at hdones
      cases hsent : s.toCoordinator with
      | nil => exact hinv.coordinatorReceives_nil hsent
      | cons e rest =>
          rw [hsent] at hdones
          obtain ⟨hdone, hrest⟩ := List.forall_mem_cons.mp hdones
          exact hinv.coordinatorReceives_done hsent hdone
            (.idle hwaiting hpending hrest hholds hback)
  | @announcing m dones hwaiting hpending hdones hsent hholds hback =>
      cases dones with
      | cons e rest =>
          obtain ⟨hdone, hrest⟩ := List.forall_mem_cons.mp hdones
          exact hinv.coordinatorReceives_done hsent hdone
            (.announcing hwaiting hpending hrest rfl hholds hback)
      | nil =>
          have hby : SentBy s.group
              (.permissionToken (s.group.fullId m.destination) s.group.address) :=
            iff_of_true rfl ⟨m.destination, rfl⟩
          obtain ⟨howned, hanswers⟩ := handle_answers hinv.owned hby rfl
          obtain ⟨hnone, hholds'⟩ := (hholds.token m.destination).quiet hanswers
          refine ⟨_, receives_eq hsent rfl, hinv.coordinated rfl rfl howned ?_⟩
          exact .asking hwaiting hpending rfl hholds' (by rw [hnone, List.append_nil]; exact hback)
  | @asking m hwaiting hpending hsent hholds hback =>
      change s.toGroup = [] at hback
      have hmember : s.group.Member (s.group.fullId m.destination) := ⟨m.destination, rfl⟩
      have hfresh : ¬ Asked s.group s.coordinator (s.group.fullId m.destination) :=
        fun hasked => List.not_mem_nil (hholds.asked _ hasked)
      obtain ⟨⟨c', o⟩, hhandle⟩ := handle_request hfresh hmember
      have hby : SentBy s.group (.permissionRequest s.group.name (s.group.fullId m.destination)
          s.group.address) := iff_of_true rfl hmember
      obtain ⟨howned, hanswers⟩ := handle_answers hinv.owned hby hhandle
      refine ⟨_, receives_eq hsent hhandle, hinv.coordinated rfl rfl howned ?_⟩
      rcases (hholds.request _ _).answered hanswers with ⟨hnone, hholds'⟩ | ⟨grant, hone, hholds'⟩
      · exact .waiting hwaiting hpending rfl hholds' (by rw [hnone, List.append_nil]; exact hback)
      · exact .granted hwaiting hpending rfl hholds' (by rw [hone, hback]; rfl)
  | waiting _ _ hsent => exact hinv.coordinatorReceives_nil hsent
  | granted _ _ hsent => exact hinv.coordinatorReceives_nil hsent

/-- **Every step** of a group whose messages come one at a time goes on. -/
theorem Inv.step (hinv : Inv out (s, h)) {e : Event} (hothers : Others (s, h) e)
    (halone : Alone (s, h) e) (hkept : Kept (s, h) e) :
    ∃ r, groupStep (s, h) e = some r ∧ Inv (out ++ r.2) r.1 := by
  cases e with
  | mailbox m =>
      have hdeleted := (hinv.handOver m halone).delete s.allocated
      rw [List.append_nil] at hdeleted
      exact ⟨_, rfl, hdeleted⟩
  | processMessage m => exact ⟨_, rfl, hinv.handOver m halone⟩
  | deletes ptr => exact ⟨_, rfl, hinv.delete ptr⟩
  | coordinatorReceives => exact hinv.coordinatorReceives
  | coordinatorReceivesOther e => exact hinv.coordinatorReceivesOther hothers.1 hothers.2
  | grantArrives => exact hinv.grantArrives hkept

end Steps

/-- A group that is registered, before its first message. -/
def registered (name : String) (address : ℕ) : System × History :=
  ({ group := { name, address } }, {})

theorem Inv.start (name : String) (address : ℕ) : Inv [] (registered name address) where
  phase := .idle rfl rfl (fun e he => by simp [registered] at he)
    ⟨List.Sublist.refl _, fun id hid => absurd hid.2 (AList.notMem_empty id)⟩ rfl
  owned := ⟨fun entry hentry => by simp [registered] at hentry,
    fun id req hlookup => by simp [registered] at hlookup⟩
  own := fun d hd => by simp at hd
  handed := rfl
  grants := rfl
  written := fun ptr m hpending => by cases hpending

/-- **No message is lost** while each is handed over when none waits in the group and is kept
    until its grant comes: whatever the other groups and the console send, the coordinator does
    not abort, and every message is forwarded to its own destination, once, in order, by the time
    as many grants have come as messages were handed over. -/
theorem messages_delivered (name : String) (address : ℕ) (es : List Event)
    (hothers : AllSteps groupStep Others (registered name address) es)
    (halone : AllSteps groupStep Alone (registered name address) es)
    (hkept : AllSteps groupStep Kept (registered name address) es) :
    ∃ sh out, run groupStep (registered name address) es = some (sh, out) ∧ Delivering out sh := by
  obtain ⟨sh, out, hrun, hinv⟩ := exists_run_induction (I := fun os sh => Inv os sh)
    (Inv.start name address)
    (fun os sh e hinv hP => hinv.step hP.1 hP.2.1 hP.2.2)
    (allSteps_and hothers (allSteps_and halone hkept))
  exact ⟨sh, out, hrun, hinv.delivering⟩

/-- Two messages, the second one once the first is forwarded and deleted; another group's turn
    comes between. -/
def oneAfterAnother : List Event :=
  [.processMessage ⟨"pricer", 5⟩, .coordinatorReceives,
    .coordinatorReceivesOther (.permissionToken "feed.ticker" 2), .coordinatorReceives,
    .grantArrives, .deletes 0, .processMessage ⟨"hedger", 6⟩, .coordinatorReceives,
    .coordinatorReceivesOther (.permissionRequest "feed" "feed.ticker" 2), .coordinatorReceives,
    .coordinatorReceives, .grantArrives]

theorem one_after_another_delivered :
    ∃ sh out, run groupStep (registered "desk" 1) oneAfterAnother = some (sh, out) ∧
      out.map (·.message) = [⟨"pricer", 5⟩, ⟨"hedger", 6⟩] ∧ Delivering out sh := by
  have hforeign : ¬ Group.Member { name := "desk", address := 1 } "feed.ticker" := by
    rintro ⟨actor, heq⟩
    have hhead := congrArg (fun id => id.toList.head?) heq
    simp [Group.fullId] at hhead
  have hothers : AllSteps groupStep Others (registered "desk" 1) oneAfterAnother := by
    refine ⟨trivial, trivial, ⟨⟨by decide, hforeign⟩, rfl⟩, trivial, trivial, trivial, trivial,
      trivial, ⟨⟨by decide, hforeign⟩, rfl⟩, trivial, trivial, trivial, trivial⟩
  have hout : (run groupStep (registered "desk" 1) oneAfterAnother).map
      (fun r => r.2.map (·.message)) = some [⟨"pricer", 5⟩, ⟨"hedger", 6⟩] := by
    decide +kernel
  obtain ⟨sh, out, hrun, hdelivering⟩ := messages_delivered "desk" 1 oneAfterAnother hothers
    (by decide +kernel) (by decide +kernel)
  rw [hrun] at hout
  exact ⟨sh, out, hrun, Option.some.inj hout, hdelivering⟩

/-- Without a caller that keeps its message, none is left to be forwarded. -/
theorem step_forgotten {s s' : System} {e : Event} {o : List Delivery}
    (hmailbox : ∀ m, e ≠ .processMessage m) (hgone : ∀ ptr, ptr ∉ s.memory)
    (hs : step s e = some (s', o)) : o = [] ∧ ∀ ptr, ptr ∉ s'.memory := by
  have hcoordinated : ∀ s₁ : System, s₁.memory = s.memory → ∀ e,
      (s₁.coordinate e).map (fun s => (s, ([] : List Delivery))) = some (s', o) →
        o = [] ∧ ∀ ptr, ptr ∉ s'.memory := by
    intro s₁ hmemory e h
    obtain ⟨s₂, hcoordinate, heq⟩ := Option.map_eq_some_iff.mp h
    obtain ⟨r, -, rfl⟩ := Option.map_eq_some_iff.mp hcoordinate
    cases heq
    refine ⟨rfl, ?_⟩
    change ∀ ptr, ptr ∉ s₁.memory
    rwa [hmemory]
  cases e with
  | mailbox m =>
      cases hs
      refine ⟨rfl, fun ptr hmem => ?_⟩
      obtain ⟨hne, hmem⟩ := AList.mem_erase.mp hmem
      exact ((AList.mem_insert _).mp hmem).elim hne (hgone ptr)
  | processMessage m => exact absurd rfl (hmailbox m)
  | deletes ptr =>
      cases hs
      exact ⟨rfl, fun ptr' hmem => hgone ptr' (AList.mem_erase.mp hmem).2⟩
  | coordinatorReceives =>
      dsimp only [step] at hs
      split at hs
      · cases hs
        exact ⟨rfl, hgone⟩
      next e rest _ => exact hcoordinated { s with toCoordinator := rest } rfl e hs
  | coordinatorReceivesOther e => exact hcoordinated s rfl e hs
  | grantArrives =>
      dsimp only [step] at hs
      split at hs
      · cases hs
        exact ⟨rfl, hgone⟩
      · obtain ⟨r, hgrant, heq⟩ := Option.map_eq_some_iff.mp hs
        cases heq
        unfold Group.onPermissionGrant at hgrant
        dsimp only at hgrant
        split at hgrant
        · cases hgrant
          exact ⟨rfl, hgone⟩
        · -- the message that waits has been deleted
          rw [AList.lookup_eq_none.mpr (hgone _)] at hgrant
          cases hgrant

/-- **What comes through the mailbox is never forwarded**: the group's thread has deleted it
    before the grant comes, and a run in which the grant reads it is none. -/
theorem mailbox_forwards_nothing (name : String) (address : ℕ) {es : List Event}
    (hmailbox : ∀ e ∈ es, ∀ m, e ≠ .processMessage m) {sh : System × History}
    {out : List Delivery} (hrun : run groupStep (registered name address) es = some (sh, out)) :
    out = [] := by
  refine (run_induction (I := fun _ out sh => out = [] ∧ ∀ ptr, ptr ∉ sh.1.memory) ?_ ?_
    (allSteps_of_forall hmailbox _) hrun).1
  · exact ⟨rfl, fun ptr => AList.notMem_empty ptr⟩
  · rintro _ out ⟨s, h⟩ e ⟨s', h'⟩ o ⟨rfl, hgone⟩ hmail hs
    obtain ⟨hstep, -⟩ := withGhost_eq_some.mp hs
    obtain ⟨rfl, hgone'⟩ := step_forgotten hmail hgone hstep
    exact ⟨rfl, hgone'⟩

/-- One message, through the mailbox. -/
example : run groupStep (registered "desk" 1) [.mailbox ⟨"pricer", 5⟩, .coordinatorReceives,
    .coordinatorReceives, .grantArrives] = none := by
  decide +kernel

/-- The second message is handed over while the first waits, and takes its place: two grants
    come, and the first message is never forwarded. -/
theorem second_message_replaces_first :
    ∃ sh out,
      run groupStep (registered "desk" 1) [.processMessage ⟨"pricer", 5⟩,
        .processMessage ⟨"hedger", 6⟩, .coordinatorReceives, .coordinatorReceives,
        .coordinatorReceives, .coordinatorReceives, .grantArrives, .grantArrives] =
          some (sh, out) ∧
      sh.2.handed = [⟨"pricer", 5⟩, ⟨"hedger", 6⟩] ∧ sh.2.grants = 2 ∧
      out = [⟨"hedger", ⟨"hedger", 6⟩⟩] ∧ ¬ Delivering out sh := by
  have hrun : ((run groupStep (registered "desk" 1) [.processMessage ⟨"pricer", 5⟩,
      .processMessage ⟨"hedger", 6⟩, .coordinatorReceives, .coordinatorReceives,
      .coordinatorReceives, .coordinatorReceives, .grantArrives, .grantArrives]).map
        fun r => (r.1.2, r.2)) =
      some (⟨[⟨"pricer", 5⟩, ⟨"hedger", 6⟩], none, 2⟩, [⟨"hedger", ⟨"hedger", 6⟩⟩]) := by
    decide +kernel
  obtain ⟨⟨sh, out⟩, hrun, heq⟩ := Option.map_eq_some_iff.mp hrun
  obtain ⟨hhistory, hout⟩ := Prod.mk.inj heq
  change sh.2 = _ at hhistory
  change out = _ at hout
  refine ⟨sh, out, hrun, by rw [hhistory], by rw [hhistory], hout, fun hdelivering => ?_⟩
  have hall := hdelivering.inTime (by rw [hhistory]; decide)
  rw [hhistory, hout] at hall
  exact absurd hall (by decide)

-- behind a token that waits for its request, a second message to the same member aborts
example : (run groupStep (registered "desk" 1) [
    .coordinatorReceivesOther (.permissionToken "feed.ticker" 2), .processMessage ⟨"pricer", 5⟩,
    .processMessage ⟨"pricer", 6⟩, .coordinatorReceives, .coordinatorReceives,
    .coordinatorReceives, .coordinatorReceives]).isNone := by decide +kernel

end KasparHft.CoordinatedGroup
