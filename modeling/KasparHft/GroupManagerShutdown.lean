import KasparHft.GroupManagerPermissions

/-!
# Does the group manager go on?

While no shutdown is under way, every message ends with a look at the head of the queue.  During
a shutdown `try_grant_next` does nothing, on the grounds that requests drain the queue; but a
group asks once and then waits.  So a `done`, a `continue` or a removal can leave a head whose
request is there.  A removal does not finish the shutdown either, when it takes the last token
or the last acknowledgement that is owed; and an acknowledgement that comes before `SHUTDOWN`
was sent stops the manager.
-/

namespace KasparHft.GroupManager

open AssocMap Machine

/-- The actor at the head of the queue has a request pending. -/
def State.HeadAsked (s : State) : Prop :=
  ∃ token ∈ s.permissionQueue.head?, token.recipientId ∈ s.pendingRequests

instance (s : State) : Decidable s.HeadAsked :=
  inferInstanceAs (Decidable (∃ token ∈ s.permissionQueue.head?, _))

/-- Nobody is at work and the head of the queue has asked, and debugging does not stop it. -/
def State.HeadWaits (s : State) : Prop :=
  s.debugStopped = false ∧ s.activePermission = none ∧ s.HeadAsked

instance (s : State) : Decidable s.HeadWaits := inferInstanceAs (Decidable (_ ∧ _ ∧ _))

/-- Nobody is at work once the group is removed. -/
def State.FreedBy (s : State) (groupId : String) : Prop :=
  s.activePermission = none ∨ getGroupFromActorId s.activeActor = groupId

instance (s : State) (groupId : String) : Decidable (s.FreedBy groupId) :=
  inferInstanceAs (Decidable (_ ∨ _))

/-- A shutdown is under way and the queue has drained. -/
def State.Drained (s : State) : Prop :=
  s.shuttingDown = true ∧ s.activePermission = none ∧ s.permissionQueue = []

instance (s : State) : Decidable s.Drained := inferInstanceAs (Decidable (_ ∧ _ ∧ _))

/-! ### What does not touch the shutdown -/

/-- What a shutdown depends on is the same. -/
structure SameShutdown (s s' : State) : Prop where
  registeredGroups : s'.registeredGroups = s.registeredGroups
  groupIdentities : s'.groupIdentities = s.groupIdentities
  running : s'.running = s.running
  shuttingDown : s'.shuttingDown = s.shuttingDown
  shutdownReason : s'.shutdownReason = s.shutdownReason
  pendingShutdownAcks : s'.pendingShutdownAcks = s.pendingShutdownAcks

theorem SameShutdown.refl (s : State) : SameShutdown s s := ⟨rfl, rfl, rfl, rfl, rfl, rfl⟩

/-- No `SHUTDOWN` is sent. -/
def NoShutdown (o : List Sent) : Prop := ∀ x ∈ o, ∀ reason, x.message ≠ .shutdown reason

theorem noShutdown_nil : NoShutdown [] := fun x hx => by simp at hx

theorem noShutdown_cons {x : Sent} {o : List Sent} (hx : ∀ reason, x.message ≠ .shutdown reason)
    (h : NoShutdown o) : NoShutdown (x :: o) :=
  List.forall_mem_cons.mpr ⟨hx, h⟩

theorem NoShutdown.append {o o' : List Sent} (h : NoShutdown o) (h' : NoShutdown o') :
    NoShutdown (o ++ o') := by
  intro x hx
  rcases List.mem_append.mp hx with hx | hx
  · exact h x hx
  · exact h' x hx

theorem tryGrantNext_sameShutdown (s : State) :
    SameShutdown s s.tryGrantNext.1 ∧ NoShutdown s.tryGrantNext.2 := by
  unfold State.tryGrantNext
  split
  next => exact ⟨.refl s, noShutdown_nil⟩
  next =>
    split
    next => exact ⟨.refl s, noShutdown_nil⟩
    next =>
      split
      next => exact ⟨.refl s, noShutdown_nil⟩
      next =>
        split
        next => exact ⟨.refl s, noShutdown_nil⟩
        next =>
          split
          next => exact ⟨.refl s, noShutdown_nil⟩
          next =>
            split
            next =>
              exact ⟨⟨rfl, rfl, rfl, rfl, rfl, rfl⟩, noShutdown_cons (by simp) noShutdown_nil⟩
            next =>
              exact ⟨⟨rfl, rfl, rfl, rfl, rfl, rfl⟩, noShutdown_cons (by simp) noShutdown_nil⟩

/-- During a shutdown nothing is granted but to a request. -/
theorem tryGrantNext_shuttingDown {s : State} (h : s.shuttingDown = true) :
    s.tryGrantNext = (s, []) := by
  unfold State.tryGrantNext
  split
  next => rfl
  next =>
    split
    next => rfl
    next => rfl

/-- Otherwise the head is looked at. -/
theorem tryGrantNext_head {s : State} (h : s.shuttingDown = false) :
    ¬ s.tryGrantNext.1.HeadWaits := by
  unfold State.tryGrantNext
  split
  next hactive => exact fun hwaits => hactive hwaits.2.1
  next =>
    split
    next hqueue =>
      rintro ⟨-, -, token, hhead, -⟩
      simp [hqueue] at hhead
    next token rest hqueue =>
      rw [if_neg (by simp [h])]
      split
      next hstopped =>
        rintro ⟨hgoing, -⟩
        simp [hstopped] at hgoing
      next =>
        split
        next hnone =>
          rintro ⟨-, -, head, hhead, hmem⟩
          rw [hqueue] at hhead
          obtain rfl := Option.some_inj.mp hhead
          exact AList.lookup_eq_none.mp hnone hmem
        next identity hpending =>
          split
          next => exact fun hwaits => by simp [State.stopAt, State.HeadWaits] at hwaits
          next => exact fun hwaits => by simp [State.grant, State.HeadWaits] at hwaits

theorem permissionRequest_sameShutdown (s : State) (identity actorId : String) :
    SameShutdown s (s.handlePermissionRequest identity actorId).1 ∧
      NoShutdown (s.handlePermissionRequest identity actorId).2 := by
  have hone : ∀ m, (∀ reason, m ≠ Message.shutdown reason) → NoShutdown [⟨identity, m⟩] :=
    fun m hm => noShutdown_cons hm noShutdown_nil
  unfold State.handlePermissionRequest
  simp only
  split
  next => exact ⟨⟨rfl, rfl, rfl, rfl, rfl, rfl⟩, hone _ (by simp)⟩
  next =>
    split
    next => exact ⟨⟨rfl, rfl, rfl, rfl, rfl, rfl⟩, hone _ (by simp)⟩
    next =>
      split
      next =>
        split
        next => exact ⟨⟨rfl, rfl, rfl, rfl, rfl, rfl⟩, hone _ (by simp)⟩
        next => exact ⟨⟨rfl, rfl, rfl, rfl, rfl, rfl⟩, hone _ (by simp)⟩
      next => exact ⟨⟨rfl, rfl, rfl, rfl, rfl, rfl⟩, hone _ (by simp)⟩

/-- A request leaves no head behind that was not there, and drains nothing. -/
theorem permissionRequest_head {s : State} (identity actorId : String) (h : ¬ s.HeadWaits) :
    ¬ (s.handlePermissionRequest identity actorId).1.HeadWaits ∧
      ((s.handlePermissionRequest identity actorId).1.Drained ↔ s.Drained) := by
  unfold State.handlePermissionRequest
  simp only
  split
  next hstopped => exact ⟨fun hwaits => by simp [State.HeadWaits, hstopped] at hwaits, Iff.rfl⟩
  next =>
    split
    next hfind =>
      refine ⟨?_, Iff.rfl⟩
      rintro ⟨hgoing, hactive, token, hhead, hmem⟩
      -- the head is of another actor, so its request was there before
      have hother : token.recipientId ≠ actorId := by
        have hnone := List.findIdx?_eq_none_iff.mp hfind token (List.mem_of_head? hhead)
        simpa using hnone
      rcases (AList.mem_insert _).mp hmem with heq | hmem
      · exact hother heq
      · exact h ⟨hgoing, hactive, token, hhead, hmem⟩
    next position hfind =>
      have hne : s.permissionQueue ≠ [] := fun hnil => by simp [hnil] at hfind
      split
      next hhead =>
        split
        next => exact ⟨fun hwaits => by simp [State.stopAt, State.HeadWaits] at hwaits, Iff.rfl⟩
        next =>
          refine ⟨fun hwaits => by simp [State.grant, State.HeadWaits] at hwaits, ?_⟩
          exact iff_of_false (fun hdrained => by simp [State.grant, State.Drained] at hdrained)
            fun hdrained => hne hdrained.2.2
      next hhead =>
        refine ⟨?_, Iff.rfl⟩
        rintro ⟨hgoing, hactive, token, hfirst, hmem⟩
        rcases (AList.mem_insert _).mp hmem with heq | hmem
        · refine hhead ⟨?_, hactive⟩
          obtain ⟨rest, hqueue⟩ := List.head?_eq_some_iff.mp hfirst
          rw [hqueue, List.findIdx?_cons, heq] at hfind
          simpa using hfind.symm
        · exact h ⟨hgoing, hactive, token, hfirst, hmem⟩

/-! ### The removal of a group -/

theorem removeGroup_free (s : State) (groupId : String) :
    (s.removeGroup groupId).activePermission = none ↔ s.FreedBy groupId := by
  change (if s.activePermission ≠ none ∧ getGroupFromActorId s.activeActor = groupId then none
    else s.activePermission) = none ↔ _
  unfold State.FreedBy
  split
  next hmine => exact iff_of_true rfl (.inr hmine.2)
  next hnot =>
    refine ⟨.inl, fun hfree => hfree.elim id fun hgroup => ?_⟩
    by_contra hactive
    exact hnot ⟨hactive, hgroup⟩

theorem removeGroup_headWaits (s : State) (groupId : String) :
    (s.removeGroup groupId).HeadWaits ↔
      s.debugStopped = false ∧ s.FreedBy groupId ∧ (s.removeGroup groupId).HeadAsked := by
  rw [← removeGroup_free]
  rfl

theorem removeGroup_drained {s : State} (hshutting : s.shuttingDown = true) (groupId : String) :
    (s.removeGroup groupId).Drained ↔ s.FreedBy groupId ∧
      ∀ token ∈ s.permissionQueue, getGroupFromActorId token.recipientId = groupId := by
  rw [← removeGroup_free]
  unfold State.Drained
  rw [and_iff_right (show (s.removeGroup groupId).shuttingDown = true from hshutting)]
  refine and_congr_right fun _ => ?_
  simp [State.removeGroup, List.filter_eq_nil_iff]

theorem removeGroup_identities {s : State} (groupId : String)
    (hids : ∀ g ∈ s.registeredGroups, g ∈ s.groupIdentities) :
    ∀ g ∈ (s.removeGroup groupId).registeredGroups,
      g ∈ (s.removeGroup groupId).groupIdentities := by
  intro g hg
  obtain ⟨hmem, hne⟩ := List.mem_filter.mp hg
  exact AList.mem_erase.mpr ⟨by simpa using hne, hids g hmem⟩

/-! ### The shutdown round -/

theorem mem_insertSet {x y : String} {l : List String} : y ∈ insertSet x l ↔ y = x ∨ y ∈ l := by
  unfold insertSet
  split
  next hmem =>
    constructor
    · exact .inr
    · rintro (rfl | hy)
      · exact hmem
      · exact hy
  next => simp [List.mem_orderedInsert]

theorem mem_foldl_insertSet {y : String} {gs l : List String} :
    y ∈ gs.foldl (fun acks g => insertSet g acks) l ↔ y ∈ gs ∨ y ∈ l := by
  induction gs generalizing l with
  | nil => simp
  | cons g gs ih =>
      rw [List.foldl_cons, ih, mem_insertSet, List.mem_cons]
      tauto

/-- All groups that are registered are told, and owe an acknowledgement. -/
theorem sendShutdown_told {s : State} (hids : ∀ g ∈ s.registeredGroups, g ∈ s.groupIdentities) :
    ∀ g ∈ s.registeredGroups, ∃ identity ∈ s.groupIdentities.lookup g,
      (⟨identity, .shutdown s.shutdownReason⟩ : Sent) ∈ s.sendShutdown.2 := by
  intro g hg
  obtain ⟨identity, hid⟩ := Option.isSome_iff_exists.mp (AList.lookup_isSome.mpr (hids g hg))
  refine ⟨identity, hid, ?_⟩
  refine List.mem_flatMap.mpr ⟨g, hg, ?_⟩
  simp [State.sendToGroup, hid]

theorem mem_sendShutdown_acks {s : State} (hnone : s.pendingShutdownAcks = []) (g : String) :
    g ∈ s.sendShutdown.1.pendingShutdownAcks ↔ g ∈ s.registeredGroups := by
  change g ∈ s.registeredGroups.foldl _ s.pendingShutdownAcks ↔ _
  rw [mem_foldl_insertSet, hnone]
  simp

theorem eq_nil_of_mem_iff {l l' : List String} (h : ∀ g, g ∈ l ↔ g ∈ l') : l = [] ↔ l' = [] := by
  simp only [List.eq_nil_iff_forall_not_mem, h]

theorem sendShutdown_running {s : State} (hnone : s.pendingShutdownAcks = [])
    (hrunning : s.running = true) :
    s.sendShutdown.1.running = false ↔ s.registeredGroups = [] := by
  rw [← eq_nil_of_mem_iff (mem_sendShutdown_acks hnone)]
  change (if _ = [] then false else s.running) = false ↔ _ = []
  split
  next hnil => exact iff_of_true rfl hnil
  next hne => exact iff_of_false (by simp [hrunning]) hne

/-! ### The manager while it runs -/

/-- The loop of `run` looks at `running_` before each round, and a shutdown that ends the loop may
    be followed by more of the same round, so what comes after it is taken here too. -/
def runStep (s : State) (e : Event) : Option (State × List Sent) :=
  if s.running ∨ s.shuttingDown then some (handle s e) else none

/-- The groups that `SHUTDOWN` is owed to when the queue has drained, but for those that have
    acknowledged it or were removed since. -/
def noteAwaiting (s : State) (e : Event) (awaiting : List String) : List String :=
  if ¬ s.Drained ∧ (handle s e).1.Drained then (handle s e).1.registeredGroups
  else
    match e with
    | .shutdownAck groupId => awaiting.filter (· ≠ groupId)
    | .staleGroup groupId => awaiting.filter (· ≠ groupId)
    | _ => awaiting

def shutdownStep : State × List String → Event → Option ((State × List String) × List Sent) :=
  withGhost runStep noteAwaiting

/-- The manager goes on: no head waits that could be granted.  In a shutdown, once the queue has
    drained `SHUTDOWN` was sent to every group that is registered, and the loop ends as soon as,
    and not before, all of those have acknowledged it or were removed. -/
structure GoesOn (out : List Sent) (sa : State × List String) : Prop where
  head : ¬ sa.1.HeadWaits
  told : sa.1.Drained → ∀ g ∈ sa.1.registeredGroups, ∃ identity ∈ sa.1.groupIdentities.lookup g,
    (⟨identity, .shutdown sa.1.shutdownReason⟩ : Sent) ∈ out
  stops : sa.1.shuttingDown = true → (sa.1.running = false ↔ sa.1.Drained ∧ sa.2 = [])

/-- What a message or a removal must find during a shutdown.  Where it gives up the permission
    held, or takes away the stop, or removes a group, the head that is left may not have asked; a
    removal may not drain the queue, nor take the last acknowledgement that is owed; and an
    acknowledgement may not come before the queue has drained. -/
def Lets (s : State) (e : Event) : Prop :=
  s.shuttingDown = true →
    match e with
    | .permissionDone actorId sequence =>
        s.activePermission = some sequence → s.activeActor = actorId → s.debugStopped = false →
          ¬ s.HeadAsked
    | .debugContinue _ => s.activePermission = none → ¬ s.HeadAsked
    | .staleGroup groupId =>
        s.FreedBy groupId →
          (s.debugStopped = false → ¬ (s.removeGroup groupId).HeadAsked) ∧
            ((∀ token ∈ s.permissionQueue, getGroupFromActorId token.recipientId = groupId) →
              s.Drained ∧ ((∀ g ∈ s.pendingShutdownAcks, g = groupId) →
                s.pendingShutdownAcks = []))
    | .shutdownAck _ => s.Drained
    | _ => True

instance (s : State) : ∀ e, Decidable (Lets s e)
  | .permissionDone _ _ => inferInstanceAs (Decidable (_ → _ → _ → _ → _))
  | .debugContinue _ => inferInstanceAs (Decidable (_ → _ → _))
  | .staleGroup groupId =>
      inferInstanceAs (Decidable (_ → s.FreedBy groupId → (_ → _) ∧
        ((∀ token ∈ s.permissionQueue, _) → _ ∧ ((∀ g ∈ s.pendingShutdownAcks, _) → _))))
  | .shutdownAck _ => inferInstanceAs (Decidable (_ → s.Drained))
  | .registerGroup _ _ | .registerActor _ _ _ | .permissionToken _ | .permissionRequest _ _ _
  | .shutdownRequest _ | .requestShutdown _ | .debugStop _ _ | .debugAddBreakpoint _ _
  | .debugRemoveBreakpoint _ _ | .debugListBreakpoints _ | .debugListGroups _
  | .debugListActors _ _ | .debugStatus _ | .debugSetLogging _ _ | .debugGetQueue _ =>
      inferInstanceAs (Decidable (_ → True))

/-- The members that the shutdown is made of. -/
structure Linked (out : List Sent) (sa : State × List String) : Prop where
  identities : ∀ g ∈ sa.1.registeredGroups, g ∈ sa.1.groupIdentities
  owed : sa.1.Drained → ∀ g, g ∈ sa.1.pendingShutdownAcks ↔ g ∈ sa.2
  untold : ¬ sa.1.Drained → sa.1.pendingShutdownAcks = [] ∧ NoShutdown out

section Step

variable {s s' : State} {e : Event} {out o : List Sent} {l : List String}

theorem GoesOn.steady (h : GoesOn out (s, l)) (hsame : SameShutdown s s')
    (hdrained : s'.Drained ↔ s.Drained) (hhead : ¬ s'.HeadWaits) : GoesOn (out ++ o) (s', l) where
  head := hhead
  told := by
    intro hd g hg
    change g ∈ s'.registeredGroups at hg
    change ∃ identity ∈ s'.groupIdentities.lookup g,
      (⟨identity, .shutdown s'.shutdownReason⟩ : Sent) ∈ out ++ o
    rw [hsame.registeredGroups] at hg
    rw [hsame.groupIdentities, hsame.shutdownReason]
    obtain ⟨identity, hid, hsent⟩ := h.told (hdrained.mp hd) g hg
    exact ⟨identity, hid, List.mem_append_left _ hsent⟩
  stops := by
    intro hshutting
    change s'.shuttingDown = true at hshutting
    change s'.running = false ↔ s'.Drained ∧ l = []
    rw [hsame.shuttingDown] at hshutting
    rw [hsame.running, hdrained]
    exact h.stops hshutting

theorem Linked.steady (h : Linked out (s, l)) (hsame : SameShutdown s s')
    (hdrained : s'.Drained ↔ s.Drained) (hquiet : NoShutdown o) : Linked (out ++ o) (s', l) where
  identities := by
    change ∀ g ∈ s'.registeredGroups, g ∈ s'.groupIdentities
    rw [hsame.registeredGroups, hsame.groupIdentities]
    exact h.identities
  owed := by
    intro hd g
    change g ∈ s'.pendingShutdownAcks ↔ g ∈ l
    rw [hsame.pendingShutdownAcks]
    exact h.owed (hdrained.mp hd) g
  untold := by
    intro hd
    obtain ⟨hacks, hnone⟩ := h.untold fun hdrain => hd (hdrained.mpr hdrain)
    exact ⟨hsame.pendingShutdownAcks.trans hacks, hnone.append hquiet⟩

theorem not_drained_of_idle (hidle : s.shuttingDown = false) : ¬ s.Drained :=
  fun hd => by simp [State.Drained, hidle] at hd

/-- The loop goes on while the queue has not drained. -/
theorem GoesOn.running (h : GoesOn out (s, l)) (hready : s.running = true ∨ s.shuttingDown = true)
    (hnot : ¬ s.Drained) : s.running = true := by
  rcases hready with hrunning | hshutting
  · exact hrunning
  · by_contra hstopped
    exact hnot ((h.stops hshutting).mp (by simpa using hstopped)).1

/-- Before the queue has drained only the head matters, while the loop goes on. -/
theorem GoesOn.undrained (hnot : ¬ s'.Drained)
    (hrunning : s'.shuttingDown = true → s'.running = true) (hhead : ¬ s'.HeadWaits) :
    GoesOn out (s', l) where
  head := hhead
  told := fun hd => absurd hd hnot
  stops := by
    intro hshutting
    have hgoes := hrunning hshutting
    exact iff_of_false (by simp [hgoes]) fun hand => hnot hand.1

theorem Linked.undrained (hnot : ¬ s'.Drained)
    (hids : ∀ g ∈ s'.registeredGroups, g ∈ s'.groupIdentities)
    (hacks : s'.pendingShutdownAcks = []) (hnone : NoShutdown out) : Linked out (s', l) where
  identities := hids
  owed := fun hd => absurd hd hnot
  untold := fun _ => ⟨hacks, hnone⟩

theorem SamePermissions.drained_iff (h : SamePermissions s s')
    (hshutting : s'.shuttingDown = s.shuttingDown) : s'.Drained ↔ s.Drained := by
  unfold State.Drained
  rw [hshutting, h.activePermission, h.permissionQueue]

theorem SamePermissions.headAsked_iff (h : SamePermissions s s') :
    s'.HeadAsked ↔ s.HeadAsked := by
  unfold State.HeadAsked
  rw [h.permissionQueue, h.pendingRequests]

theorem SamePermissions.headWaits (h : SamePermissions s s')
    (hstopped : s'.debugStopped = false → s.debugStopped = false) (hhead : ¬ s.HeadWaits) :
    ¬ s'.HeadWaits := by
  rintro ⟨hgoing, hactive, hasked⟩
  rw [h.activePermission] at hactive
  exact hhead ⟨hstopped hgoing, hactive, h.headAsked_iff.mp hasked⟩

/-- What a step leads to: the manager goes on exactly when the step is let, and then the members
    of the shutdown stay linked. -/
def Leads (s : State) (e : Event) (out : List Sent) (l : List String) : Prop :=
  (GoesOn (out ++ (handle s e).2) ((handle s e).1, noteAwaiting s e l) ↔ Lets s e) ∧
    (Lets s e → Linked (out ++ (handle s e).2) ((handle s e).1, noteAwaiting s e l))

theorem noteAwaiting_of_steady (hdrained : (handle s e).1.Drained ↔ s.Drained)
    (hack : ∀ groupId, e ≠ .shutdownAck groupId) (hstale : ∀ groupId, e ≠ .staleGroup groupId) :
    noteAwaiting s e l = l := by
  unfold noteAwaiting
  rw [if_neg (fun hand => hand.1 (hdrained.mp hand.2))]
  cases e with
  | shutdownAck groupId => exact absurd rfl (hack groupId)
  | staleGroup groupId => exact absurd rfl (hstale groupId)
  | _ => rfl

/-- A step that touches nothing of the shutdown. -/
theorem leads_of_steady (h : GoesOn out (s, l)) (hlinked : Linked out (s, l))
    (hsame : SameShutdown s (handle s e).1) (hdrained : (handle s e).1.Drained ↔ s.Drained)
    (hquiet : NoShutdown (handle s e).2)
    (hack : ∀ groupId, e ≠ .shutdownAck groupId) (hstale : ∀ groupId, e ≠ .staleGroup groupId)
    (hhead : ¬ (handle s e).1.HeadWaits ↔ Lets s e) : Leads s e out l := by
  unfold Leads
  rw [noteAwaiting_of_steady hdrained hack hstale]
  refine ⟨⟨fun hgoes => hhead.mp hgoes.head, fun hlets => ?_⟩, fun _ => ?_⟩
  · exact h.steady hsame hdrained (hhead.mpr hlets)
  · exact hlinked.steady hsame hdrained hquiet

/-- A step before a shutdown, and after it still before. -/
theorem leads_of_idle (hidle : s.shuttingDown = false)
    (hstill : (handle s e).1.shuttingDown = false)
    (hids : ∀ g ∈ (handle s e).1.registeredGroups, g ∈ (handle s e).1.groupIdentities)
    (hacks : (handle s e).1.pendingShutdownAcks = [])
    (hnone : NoShutdown (out ++ (handle s e).2)) (hhead : ¬ (handle s e).1.HeadWaits) :
    Leads s e out l := by
  have hnot := not_drained_of_idle hstill
  refine ⟨iff_of_true (.undrained hnot ?_ hhead) fun hshutting => ?_, fun _ => ?_⟩
  · simp [hstill]
  · simp [hidle] at hshutting
  · exact .undrained hnot hids hacks hnone

/-- A step before a shutdown that ends with a grant, if one can be made. -/
theorem leads_of_grant (s₁ : State) (hidle : s.shuttingDown = false)
    (hstill : s₁.shuttingDown = false) (hids : ∀ g ∈ s₁.registeredGroups, g ∈ s₁.groupIdentities)
    (hacks : s₁.pendingShutdownAcks = []) (hafter : (handle s e).1 = s₁.tryGrantNext.1)
    (hnone : NoShutdown (out ++ (handle s e).2)) : Leads s e out l := by
  have hsame := (tryGrantNext_sameShutdown s₁).1
  refine leads_of_idle hidle ?_ ?_ ?_ hnone ?_ <;> rw [hafter]
  · exact hsame.shuttingDown.trans hstill
  · rw [hsame.registeredGroups, hsame.groupIdentities]
    exact hids
  · exact hsame.pendingShutdownAcks.trans hacks
  · exact tryGrantNext_head hstill

/-! ### The messages, one by one -/

/-- The round of `SHUTDOWN` messages, when the queue has just drained. -/
theorem leads_of_round {s₁ : State} (hround : handle s e = s₁.sendShutdown)
    (hbefore : ¬ s.Drained) (hdrained : s₁.Drained) (hrunning : s₁.running = true)
    (hids : ∀ g ∈ s₁.registeredGroups, g ∈ s₁.groupIdentities)
    (hacks : s₁.pendingShutdownAcks = []) (hlets : Lets s e) : Leads s e out l := by
  have hafter : s₁.sendShutdown.1.Drained := hdrained
  have hawaiting : noteAwaiting s e l = s₁.registeredGroups := by
    unfold noteAwaiting
    rw [hround, if_pos ⟨hbefore, hafter⟩]
    rfl
  unfold Leads
  rw [hawaiting, hround]
  refine ⟨iff_of_true ⟨?_, ?_, ?_⟩ hlets, fun _ => ⟨hids, ?_, ?_⟩⟩
  · rintro ⟨-, -, token, hhead, -⟩
    have hnil : s₁.sendShutdown.1.permissionQueue = [] := hdrained.2.2
    rw [hnil] at hhead
    simp at hhead
  · intro _ g hg
    obtain ⟨identity, hid, hsent⟩ := sendShutdown_told hids g hg
    exact ⟨identity, hid, List.mem_append_right _ hsent⟩
  · intro _
    change s₁.sendShutdown.1.running = false ↔ s₁.sendShutdown.1.Drained ∧ s₁.registeredGroups = []
    rw [sendShutdown_running hacks hrunning]
    exact ⟨fun hnil => ⟨hafter, hnil⟩, And.right⟩
  · exact fun _ g => mem_sendShutdown_acks hacks g
  · exact fun hnot => absurd hafter hnot

variable (h : GoesOn out (s, l)) (hlinked : Linked out (s, l))
include h hlinked

theorem registerGroup_leads (identity groupId : String) :
    Leads s (.registerGroup identity groupId) out l := by
  have hsteady : ∀ m, (∀ reason, m ≠ Message.shutdown reason) →
      handle s (.registerGroup identity groupId) = (s, [⟨identity, m⟩]) →
      Leads s (.registerGroup identity groupId) out l := by
    intro m hm heq
    refine leads_of_steady h hlinked ?_ ?_ ?_ (fun _ => by simp) (fun _ => by simp) ?_ <;> rw [heq]
    · exact .refl s
    · exact noShutdown_cons hm noShutdown_nil
    · exact iff_of_true h.head fun _ => trivial
  cases hshutting : s.shuttingDown with
  | true => exact hsteady _ (by simp) (if_pos hshutting)
  | false =>
      by_cases hmem : groupId ∈ s.registeredGroups
      · refine hsteady (.registerNack groupId "duplicate group_id") (by simp) ?_
        simp [handle, State.handleRegisterGroup, hshutting, hmem]
      · have heq : handle s (.registerGroup identity groupId) =
            ({ s with
              registeredGroups := insertSet groupId s.registeredGroups
              groupIdentities := s.groupIdentities.insert groupId identity },
            [⟨identity, .registerAck groupId⟩]) := by
          simp [handle, State.handleRegisterGroup, hshutting, hmem]
        obtain ⟨hacks, hnone⟩ := hlinked.untold (not_drained_of_idle hshutting)
        refine leads_of_idle hshutting ?_ ?_ ?_ ?_ ?_ <;> rw [heq]
        · exact hshutting
        · intro g hg
          refine (AList.mem_insert _).mpr ?_
          exact (mem_insertSet.mp hg).imp_right (hlinked.identities g)
        · exact hacks
        · exact hnone.append (noShutdown_cons (by simp) noShutdown_nil)
        · exact h.head

/-- A message that only reads, or sets a member that nothing here depends on. -/
theorem leads_of_reading {e : Event} (hsame : SameShutdown s (handle s e).1)
    (hpermissions : SamePermissions s (handle s e).1)
    (hstopped : (handle s e).1.debugStopped = false → s.debugStopped = false)
    (hquiet : NoShutdown (handle s e).2) (hlets : Lets s e)
    (hack : ∀ groupId, e ≠ .shutdownAck groupId) (hstale : ∀ groupId, e ≠ .staleGroup groupId) :
    Leads s e out l :=
  leads_of_steady h hlinked hsame (hpermissions.drained_iff hsame.shuttingDown) hquiet hack hstale
    (iff_of_true (hpermissions.headWaits hstopped h.head) hlets)

theorem registerActor_leads (identity groupId actorId : String) :
    Leads s (.registerActor identity groupId actorId) out l := by
  refine leads_of_reading h hlinked ?_ (passive_quiet s _ rfl).1 ?_ ?_ (fun _ => trivial)
    (fun _ => by simp) (fun _ => by simp)
  all_goals
    simp only [handle, State.handleRegisterActor]
    split
    next => first | exact .refl s | exact id | exact noShutdown_cons (by simp) noShutdown_nil
    next =>
      split
      next => first | exact .refl s | exact id | exact noShutdown_cons (by simp) noShutdown_nil
      next =>
        split
        next => first | exact .refl s | exact id | exact noShutdown_cons (by simp) noShutdown_nil
        next =>
          first
          | exact ⟨rfl, rfl, rfl, rfl, rfl, rfl⟩
          | exact id
          | exact noShutdown_cons (by simp) noShutdown_nil

theorem permissionToken_leads (token : PermissionToken) :
    Leads s (.permissionToken token) out l := by
  cases hshutting : s.shuttingDown with
  | true =>
      have heq : handle s (.permissionToken token) = (s, []) := if_pos hshutting
      refine leads_of_steady h hlinked ?_ ?_ ?_ (fun _ => by simp) (fun _ => by simp) ?_ <;>
        rw [heq]
      · exact .refl s
      · exact noShutdown_nil
      · exact iff_of_true h.head fun _ => trivial
  | false =>
      have heq : handle s (.permissionToken token) =
          State.tryGrantNext { s with permissionQueue := s.permissionQueue ++ [token] } :=
        if_neg (by simp [hshutting])
      obtain ⟨hacks, hnone⟩ := hlinked.untold (not_drained_of_idle hshutting)
      refine leads_of_grant { s with permissionQueue := s.permissionQueue ++ [token] } hshutting
        hshutting hlinked.identities hacks (congrArg Prod.fst heq) ?_
      rw [heq]
      exact hnone.append (tryGrantNext_sameShutdown _).2

theorem permissionRequest_leads (identity actorId groupId : String) :
    Leads s (.permissionRequest identity actorId groupId) out l := by
  obtain ⟨hsame, hquiet⟩ := permissionRequest_sameShutdown s identity actorId
  obtain ⟨hhead, hdrained⟩ := permissionRequest_head identity actorId h.head
  exact leads_of_steady h hlinked hsame hdrained hquiet (fun _ => by simp) (fun _ => by simp)
    (iff_of_true hhead fun _ => trivial)

theorem debugContinue_leads (identity : String) : Leads s (.debugContinue identity) out l := by
  let going : State := { s with debugStopped := false, debugStoppedReason := "" }
  have heq : handle s (.debugContinue identity) =
      (going.tryGrantNext.1, ⟨identity, going.statusResponse⟩ :: going.tryGrantNext.2) := rfl
  have hquiet : NoShutdown (handle s (.debugContinue identity)).2 := by
    rw [heq]
    exact noShutdown_cons (by simp [State.statusResponse]) (tryGrantNext_sameShutdown going).2
  cases hshutting : s.shuttingDown with
  | true =>
      have hgoing : going.tryGrantNext = (going, []) := tryGrantNext_shuttingDown hshutting
      rw [hgoing] at heq
      refine leads_of_steady h hlinked ?_ ?_ hquiet (fun _ => by simp) (fun _ => by simp) ?_ <;>
        rw [heq]
      · exact ⟨rfl, rfl, rfl, rfl, rfl, rfl⟩
      · exact Iff.rfl
      · constructor
        · exact fun hhead _ hactive hasked => hhead ⟨rfl, hactive, hasked⟩
        · exact fun hlets hwaits => hlets hshutting hwaits.2.1 hwaits.2.2
  | false =>
      obtain ⟨hacks, hnone⟩ := hlinked.untold (not_drained_of_idle hshutting)
      refine leads_of_grant going hshutting hshutting hlinked.identities hacks ?_
        (hnone.append hquiet)
      rw [heq]

theorem shutdownAck_leads (groupId : String) : Leads s (.shutdownAck groupId) out l := by
  -- an acknowledgement neither drains the queue nor moves its head
  have hafter : (handle s (.shutdownAck groupId)).1.Drained ↔ s.Drained := Iff.rfl
  have hawaiting : noteAwaiting s (.shutdownAck groupId) l = l.filter (· ≠ groupId) :=
    if_neg fun hand => hand.1 (hafter.mp hand.2)
  have hhead : ¬ (handle s (.shutdownAck groupId)).1.HeadWaits := h.head
  by_cases hdrained : s.Drained
  · have howed : ∀ g, g ∈ (handle s (.shutdownAck groupId)).1.pendingShutdownAcks ↔
        g ∈ l.filter (· ≠ groupId) := by
      intro g
      change g ∈ s.pendingShutdownAcks.filter (· ≠ groupId) ↔ _
      rw [List.mem_filter, List.mem_filter, hlinked.owed hdrained g]
    unfold Leads
    rw [hawaiting]
    refine ⟨iff_of_true ⟨hhead, ?_, fun _ => ?_⟩ fun _ => hdrained, fun _ => ⟨?_, ?_, ?_⟩⟩
    · intro _ g hg
      obtain ⟨identity, hid, hsent⟩ := h.told hdrained g hg
      exact ⟨identity, hid, List.mem_append_left _ hsent⟩
    · rw [and_iff_right (hafter.mpr hdrained), ← eq_nil_of_mem_iff howed]
      change (if s.pendingShutdownAcks.filter (· ≠ groupId) = [] then false else s.running) = false
        ↔ s.pendingShutdownAcks.filter (· ≠ groupId) = []
      split
      next hnil => exact iff_of_true rfl hnil
      next hne =>
        refine iff_of_false (fun hstopped => hne ?_) hne
        have hnil := (eq_nil_of_mem_iff (hlinked.owed hdrained)).mpr
          ((h.stops hdrained.1).mp hstopped).2
        rw [hnil]
        rfl
    · exact hlinked.identities
    · exact fun _ => howed
    · exact fun hnot => absurd (hafter.mpr hdrained) hnot
  · obtain ⟨hacks, hnone⟩ := hlinked.untold hdrained
    have hnil : (handle s (.shutdownAck groupId)).1.pendingShutdownAcks = [] := by
      change s.pendingShutdownAcks.filter (· ≠ groupId) = []
      rw [hacks]
      rfl
    cases hshutting : s.shuttingDown with
    | true =>
        -- the last acknowledgement, before anyone was told
        have hstops : (handle s (.shutdownAck groupId)).1.running = false := if_pos hnil
        have hlets : ¬ Lets s (.shutdownAck groupId) := fun hlets => hdrained (hlets hshutting)
        refine ⟨iff_of_false (fun hgoes => ?_) hlets, fun hpast => absurd hpast hlets⟩
        exact hdrained (hafter.mp ((hgoes.stops hshutting).mp hstops).1)
    | false =>
        refine leads_of_idle hshutting hshutting hlinked.identities hnil ?_ hhead
        exact hnone.append noShutdown_nil

variable (hready : s.running = true ∨ s.shuttingDown = true)
include hready

theorem permissionDone_leads (actorId : String) (sequence : ℕ) :
    Leads s (.permissionDone actorId sequence) out l := by
  by_cases hmine : s.activePermission = some sequence ∧ s.activeActor = actorId
  · obtain ⟨hactive, hactor⟩ := hmine
    have hbusy : ¬ s.Drained := fun hd => by simp [hd.2.1] at hactive
    obtain ⟨hacks, hnone⟩ := hlinked.untold hbusy
    let freed : State := { s with activePermission := none, activeActor := "" }
    have heq : handle s (.permissionDone actorId sequence) =
        if s.shuttingDown ∧ s.permissionQueue = [] then freed.sendShutdown
        else freed.tryGrantNext := by
      simp [handle, State.handlePermissionDone, hactive, hactor, freed]
    cases hshutting : s.shuttingDown with
    | false =>
        rw [if_neg (by simp [hshutting])] at heq
        refine leads_of_grant freed hshutting hshutting hlinked.identities hacks
          (congrArg Prod.fst heq) ?_
        rw [heq]
        exact hnone.append (tryGrantNext_sameShutdown freed).2
    | true =>
        by_cases hempty : s.permissionQueue = []
        · rw [if_pos ⟨hshutting, hempty⟩] at heq
          refine leads_of_round heq hbusy ⟨hshutting, rfl, hempty⟩ ?_ hlinked.identities hacks ?_
          · exact h.running hready hbusy
          · rintro - - - - ⟨token, hhead, -⟩
            simp [hempty] at hhead
        · have hfreed : freed.tryGrantNext = (freed, []) := tryGrantNext_shuttingDown hshutting
          rw [if_neg fun hand => hempty hand.2, hfreed] at heq
          refine leads_of_steady h hlinked ?_ ?_ ?_ (fun _ => by simp) (fun _ => by simp) ?_ <;>
            rw [heq]
          · exact ⟨rfl, rfl, rfl, rfl, rfl, rfl⟩
          · exact iff_of_false (fun hd => hempty hd.2.2) hbusy
          · exact noShutdown_nil
          · constructor
            · exact fun hhead _ _ _ hgoing hasked => hhead ⟨hgoing, rfl, hasked⟩
            · exact fun hlets hwaits =>
                hlets hshutting hactive hactor hwaits.1 hwaits.2.2
  · have heq : handle s (.permissionDone actorId sequence) = (s, []) := by
      simp only [handle, State.handlePermissionDone]
      split
      next => rfl
      next hactive => exact if_pos fun hactor => hmine ⟨not_not.mp hactive, hactor⟩
    refine leads_of_steady h hlinked ?_ ?_ ?_ (fun _ => by simp) (fun _ => by simp) ?_ <;> rw [heq]
    · exact .refl s
    · exact noShutdown_nil
    · exact iff_of_true h.head fun _ hactive hactor => absurd ⟨hactive, hactor⟩ hmine

/-- Both ways to ask for a shutdown. -/
theorem initiateShutdown_leads {e : Event} {reason : String}
    (heq : handle s e = s.initiateShutdown reason) (hlets : Lets s e)
    (hack : ∀ groupId, e ≠ .shutdownAck groupId) (hstale : ∀ groupId, e ≠ .staleGroup groupId) :
    Leads s e out l := by
  unfold State.initiateShutdown at heq
  cases hshutting : s.shuttingDown with
  | true =>
      rw [if_pos hshutting] at heq
      refine leads_of_steady h hlinked ?_ ?_ ?_ hack hstale ?_ <;> rw [heq]
      · exact .refl s
      · exact noShutdown_nil
      · exact iff_of_true h.head hlets
  | false =>
      have hbefore := not_drained_of_idle hshutting
      have hrunning := h.running hready hbefore
      obtain ⟨hacks, hnone⟩ := hlinked.untold hbefore
      rw [if_neg (by simp [hshutting])] at heq
      by_cases hempty : s.activePermission = none ∧ s.permissionQueue = []
      · replace heq := heq.trans (if_pos hempty)
        exact leads_of_round heq hbefore ⟨rfl, hempty⟩ hrunning hlinked.identities hacks hlets
      · replace heq := heq.trans (if_neg hempty)
        have hnot : ¬ (handle s e).1.Drained := by
          rw [heq]
          exact fun hd => hempty hd.2
        unfold Leads
        rw [noteAwaiting_of_steady (iff_of_false hnot hbefore) hack hstale]
        refine ⟨iff_of_true (.undrained hnot ?_ ?_) hlets, fun _ => .undrained hnot ?_ ?_ ?_⟩ <;>
          rw [heq]
        · exact fun _ => hrunning
        · exact h.head
        · exact hlinked.identities
        · exact hacks
        · exact hnone.append noShutdown_nil

/-- A removal before the queue has drained. -/
theorem staleGroup_leads_undrained (groupId : String) (hshutting : s.shuttingDown = true)
    (hbefore : ¬ s.Drained) : Leads s (.staleGroup groupId) out l := by
  have heq : handle s (.staleGroup groupId) = (s.removeGroup groupId, []) :=
    tryGrantNext_shuttingDown (s := s.removeGroup groupId) hshutting
  obtain ⟨hacks, hnone⟩ := hlinked.untold hbefore
  have hrunning : (s.removeGroup groupId).running = true := h.running hready hbefore
  by_cases hafter : (s.removeGroup groupId).Drained
  · -- the queue drains, and nobody is told
    have hand := (removeGroup_drained hshutting groupId).mp hafter
    have hlets : ¬ Lets s (.staleGroup groupId) :=
      fun hlets => hbefore ((hlets hshutting hand.1).2 hand.2).1
    refine ⟨iff_of_false (fun hgoes => ?_) hlets, fun hpast => absurd hpast hlets⟩
    have hawaiting : noteAwaiting s (.staleGroup groupId) l =
        (s.removeGroup groupId).registeredGroups := by
      unfold noteAwaiting
      rw [heq, if_pos ⟨hbefore, hafter⟩]
    rw [hawaiting, heq, List.append_nil] at hgoes
    have hgroups : (s.removeGroup groupId).registeredGroups = [] := by
      refine List.eq_nil_iff_forall_not_mem.mpr fun g hg => ?_
      obtain ⟨identity, -, hsent⟩ := hgoes.told hafter g hg
      exact hnone _ hsent _ rfl
    have hstopped := (hgoes.stops hshutting).mpr ⟨hafter, hgroups⟩
    exact absurd (hrunning.symm.trans hstopped) (by simp)
  · have hawaiting : noteAwaiting s (.staleGroup groupId) l = l.filter (· ≠ groupId) := by
      unfold noteAwaiting
      rw [heq, if_neg fun hand => hafter hand.2]
    unfold Leads
    rw [hawaiting, heq, List.append_nil]
    refine ⟨⟨fun hgoes _ hfree => ⟨fun hgoing hasked => ?_, fun hall => ?_⟩, fun hlets => ?_⟩,
      fun _ => ?_⟩
    · exact hgoes.head ((removeGroup_headWaits s groupId).mpr ⟨hgoing, hfree, hasked⟩)
    · exact absurd ((removeGroup_drained hshutting groupId).mpr ⟨hfree, hall⟩) hafter
    · refine .undrained hafter (fun _ => hrunning) fun hwaits => ?_
      obtain ⟨hgoing, hfree, hasked⟩ := (removeGroup_headWaits s groupId).mp hwaits
      exact (hlets hshutting hfree).1 hgoing hasked
    · refine .undrained hafter (removeGroup_identities groupId hlinked.identities) ?_ hnone
      change s.pendingShutdownAcks.filter (· ≠ groupId) = []
      rw [hacks]
      rfl

omit hready in
/-- A removal after `SHUTDOWN` was sent. -/
theorem staleGroup_leads_drained (groupId : String) (hdrained : s.Drained) :
    Leads s (.staleGroup groupId) out l := by
  have hshutting := hdrained.1
  have hfree : s.FreedBy groupId := .inl hdrained.2.1
  have hall : ∀ token ∈ s.permissionQueue, getGroupFromActorId token.recipientId = groupId := by
    rw [hdrained.2.2]
    simp
  have hafter := (removeGroup_drained hshutting groupId).mpr ⟨hfree, hall⟩
  have hasked : ¬ (s.removeGroup groupId).HeadAsked := by
    rintro ⟨token, hhead, -⟩
    rw [hafter.2.2] at hhead
    simp at hhead
  have heq : handle s (.staleGroup groupId) = (s.removeGroup groupId, []) :=
    tryGrantNext_shuttingDown (s := s.removeGroup groupId) hshutting
  have hawaiting : noteAwaiting s (.staleGroup groupId) l = l.filter (· ≠ groupId) := by
    unfold noteAwaiting
    rw [heq, if_neg fun hand => hand.1 hdrained]
  have howed := hlinked.owed hdrained
  have hlets : Lets s (.staleGroup groupId) ↔ ((∀ g ∈ l, g = groupId) → l = []) := by
    rw [← eq_nil_of_mem_iff howed]
    simp only [← howed]
    exact ⟨fun hlets => ((hlets hshutting hfree).2 hall).2,
      fun hlast _ _ => ⟨fun _ => hasked, fun _ => ⟨hdrained, hlast⟩⟩⟩
  have hleft : l.filter (· ≠ groupId) = [] ↔ ∀ g ∈ l, g = groupId := by
    simp [List.filter_eq_nil_iff]
  have hstops := h.stops hshutting
  unfold Leads
  rw [hawaiting, heq, List.append_nil, hlets]
  refine ⟨⟨fun hgoes hlast => ?_, fun hkeep => ⟨?_, ?_, fun _ => ?_⟩⟩, fun _ => ⟨?_, ?_, ?_⟩⟩
  · exact (hstops.mp ((hgoes.stops hshutting).mpr ⟨hafter, hleft.mpr hlast⟩)).2
  · exact fun hwaits => hasked hwaits.2.2
  · intro _ g hg
    obtain ⟨hmem, hne⟩ := List.mem_filter.mp hg
    obtain ⟨identity, hid, hsent⟩ := h.told hdrained g hmem
    refine ⟨identity, ?_, hsent⟩
    change identity ∈ (s.groupIdentities.erase groupId).lookup g
    rwa [AList.lookup_erase_ne (by simpa using hne)]
  · rw [and_iff_right hafter, hleft]
    change s.running = false ↔ _
    rw [hstops, and_iff_right hdrained]
    exact ⟨fun (hnil : l = []) => by simp [hnil], hkeep⟩
  · exact removeGroup_identities groupId hlinked.identities
  · intro _ g
    change g ∈ s.pendingShutdownAcks.filter (· ≠ groupId) ↔ _
    rw [List.mem_filter, List.mem_filter, howed g]
  · exact fun hnot => absurd hafter hnot

theorem staleGroup_leads (groupId : String) : Leads s (.staleGroup groupId) out l := by
  cases hshutting : s.shuttingDown with
  | true =>
      by_cases hdrained : s.Drained
      · exact staleGroup_leads_drained h hlinked groupId hdrained
      · exact staleGroup_leads_undrained h hlinked hready groupId hshutting hdrained
  | false =>
      obtain ⟨hacks, hnone⟩ := hlinked.untold (not_drained_of_idle hshutting)
      refine leads_of_grant (s.removeGroup groupId) hshutting hshutting
        (removeGroup_identities groupId hlinked.identities) ?_ rfl
        (hnone.append (tryGrantNext_sameShutdown (s.removeGroup groupId)).2)
      change s.pendingShutdownAcks.filter (· ≠ groupId) = []
      rw [hacks]
      rfl

/-- **One step.**  The manager goes on exactly when the step is let. -/
theorem handle_leads (e : Event) : Leads s e out l := by
  have hread : ∀ e : Event, SameShutdown s (handle s e).1 → SamePermissions s (handle s e).1 →
      ((handle s e).1.debugStopped = false → s.debugStopped = false) →
      NoShutdown (handle s e).2 → Lets s e → (∀ groupId, e ≠ .shutdownAck groupId) →
      (∀ groupId, e ≠ .staleGroup groupId) → Leads s e out l :=
    fun e => leads_of_reading h hlinked
  cases e with
  | registerGroup identity groupId => exact registerGroup_leads h hlinked identity groupId
  | registerActor identity groupId actorId =>
      exact registerActor_leads h hlinked identity groupId actorId
  | permissionToken token => exact permissionToken_leads h hlinked token
  | permissionRequest identity actorId groupId =>
      exact permissionRequest_leads h hlinked identity actorId groupId
  | permissionDone actorId sequence => exact permissionDone_leads h hlinked hready actorId sequence
  | shutdownRequest reason =>
      have heq : handle s (.shutdownRequest reason) = s.initiateShutdown reason := by
        simp only [handle, State.handleShutdownRequest, State.initiateShutdown]
        split <;> rfl
      exact initiateShutdown_leads h hlinked hready heq (fun _ => trivial) (fun _ => by simp)
        (fun _ => by simp)
  | requestShutdown reason =>
      exact initiateShutdown_leads h hlinked hready rfl (fun _ => trivial) (fun _ => by simp)
        (fun _ => by simp)
  | shutdownAck groupId => exact shutdownAck_leads h hlinked groupId
  | debugContinue identity => exact debugContinue_leads h hlinked identity
  | staleGroup groupId => exact staleGroup_leads h hlinked hready groupId
  | debugStop identity reason =>
      exact hread _ ⟨rfl, rfl, rfl, rfl, rfl, rfl⟩ ⟨rfl, rfl, rfl, rfl, rfl⟩
        (fun hgoing => by simp [handle, State.handleDebugStop] at hgoing)
        (noShutdown_cons (by simp [State.statusResponse]) noShutdown_nil) (fun _ => trivial)
        (fun _ => by simp) (fun _ => by simp)
  | _ =>
      refine hread _ ⟨rfl, rfl, rfl, rfl, rfl, rfl⟩ ⟨rfl, rfl, rfl, rfl, rfl⟩ id
        (noShutdown_cons (fun _ => ?_) noShutdown_nil) (fun _ => trivial)
        (fun _ => by simp) (fun _ => by simp)
      simp [State.statusResponse]

end Step

/-! ### Runs -/

/-- **The manager goes on** exactly in the runs whose steps are all let. -/
theorem goes_on_iff (paused : Bool) (es : List Event) (t : State × List String) (os : List Sent)
    (hrun : run shutdownStep ({ debugStopped := paused }, []) es = some (t, os)) :
    (∀ past rest sa out, es = past ++ rest →
      run shutdownStep ({ debugStopped := paused }, []) past = some (sa, out) → GoesOn out sa) ↔
      AllSteps shutdownStep (fun sa e => Lets sa.1 e) ({ debugStopped := paused }, []) es := by
  have hleads : ∀ os sa e sa' o, Linked os sa → GoesOn os sa →
      shutdownStep sa e = some (sa', o) → (GoesOn (os ++ o) sa' ↔ Lets sa.1 e) ∧
        (Lets sa.1 e → Linked (os ++ o) sa') := by
    rintro os ⟨s, l⟩ e ⟨s', l'⟩ o hlinked hgoes hstep
    obtain ⟨hs, rfl⟩ := withGhost_eq_some.mp hstep
    unfold runStep at hs
    split at hs
    next hready =>
      have heq : handle s e = (s', o) := Option.some_inj.mp hs
      have hleads := handle_leads hgoes hlinked hready e
      unfold Leads at hleads
      rwa [heq] at hleads
    next => cases hs
  have hnot : ¬ ({ debugStopped := paused } : State).Drained := not_drained_of_idle rfl
  refine always_iff_allSteps (I := GoesOn) (J := Linked) ?_ ?_ ?_ ?_ (allSteps_true _ es) hrun
  · exact .undrained hnot (by simp) rfl noShutdown_nil
  · refine .undrained hnot (fun _ => rfl) ?_
    rintro ⟨-, -, token, hhead, -⟩
    simp at hhead
  · exact fun os sa e sa' o hlinked _ hgoes hlets hstep =>
      (hleads os sa e sa' o hlinked hgoes hstep).2 hlets
  · exact fun os sa e sa' o hlinked _ hgoes hstep => (hleads os sa e sa' o hlinked hgoes hstep).1

/-- A day of two groups, to its end. -/
def closing : List Event :=
  [.registerGroup "7f" "feed", .registerGroup "a0" "maker",
    .permissionToken ⟨"feed.ticker", "timer", 1, "Tick"⟩,
    .permissionRequest "7f" "feed.ticker" "feed", .shutdownRequest "end of day",
    .permissionDone "feed.ticker" 1, .shutdownAck "feed", .shutdownAck "maker"]

theorem closing_goes_on :
    ∃ t os, run shutdownStep ({ debugStopped := false }, []) closing = some (t, os) ∧
      ∀ past rest sa out, closing = past ++ rest →
        run shutdownStep ({ debugStopped := false }, []) past = some (sa, out) →
          GoesOn out sa := by
  have hrun : ((run shutdownStep ({ debugStopped := false }, []) closing).map
      fun r => r.1.1.running) = some false := by decide +kernel
  obtain ⟨⟨t, os⟩, hrun, -⟩ := Option.map_eq_some_iff.mp hrun
  exact ⟨t, os, hrun, (goes_on_iff false closing t os hrun).mpr (by decide +kernel)⟩

/-- The second actor has asked and waits; once the first is done, `try_grant_next` does not look
    at it, as a shutdown has begun. -/
theorem head_waits_in_shutdown :
    ∃ sa out,
      run shutdownStep ({ debugStopped := false }, []) [
        .registerGroup "7f" "feed", .registerGroup "a0" "maker",
        .permissionToken ⟨"feed.ticker", "timer", 1, "Tick"⟩,
        .permissionToken ⟨"maker.quoter", "feed.ticker", 2, "Quote"⟩,
        .permissionRequest "7f" "feed.ticker" "feed",
        .permissionRequest "a0" "maker.quoter" "maker", .shutdownRequest "end of day",
        .permissionDone "feed.ticker" 1] = some (sa, out) ∧
      sa.1.HeadWaits ∧ ¬ GoesOn out sa := by
  have hrun : ((run shutdownStep ({ debugStopped := false }, []) [
      .registerGroup "7f" "feed", .registerGroup "a0" "maker",
      .permissionToken ⟨"feed.ticker", "timer", 1, "Tick"⟩,
      .permissionToken ⟨"maker.quoter", "feed.ticker", 2, "Quote"⟩,
      .permissionRequest "7f" "feed.ticker" "feed",
      .permissionRequest "a0" "maker.quoter" "maker", .shutdownRequest "end of day",
      .permissionDone "feed.ticker" 1]).map fun r => decide r.1.1.HeadWaits) = some true := by
    decide +kernel
  obtain ⟨⟨sa, out⟩, hrun, hwaits⟩ := Option.map_eq_some_iff.mp hrun
  have hwaits : sa.1.HeadWaits := of_decide_eq_true hwaits
  exact ⟨sa, out, hrun, hwaits, fun hgoes => hgoes.head hwaits⟩

end KasparHft.GroupManager
