import KasparHft.GroupManager
import KasparHft.Machine

/-!
# One permission at a time

Whatever the manager receives, and whichever groups it removes: at most one grant is
outstanding, the numbers of the grants increase, each grant is of the token at the head of the
queue to an actor that has a request pending, none is given while debugging has stopped the
manager, and the tokens that are not removed are granted in the order they came.
-/

namespace KasparHft.GroupManager

open AssocMap Machine

/-! ### What one message does to permissions -/

/-- The grants among what is sent: to whom, and their numbers. -/
def grants (o : List Sent) : List (String × ℕ) :=
  o.filterMap fun x =>
    match x.message with
    | .permissionGrant actorId sequence => some (actorId, sequence)
    | _ => none

@[simp] theorem grants_nil : grants [] = [] := rfl

@[simp] theorem grants_append (o o' : List Sent) : grants (o ++ o') = grants o ++ grants o' :=
  List.filterMap_append

/-- The permission that is held. -/
def State.holding (s : State) : List (String × ℕ) :=
  s.activePermission.toList.map fun sequence => (s.activeActor, sequence)

/-- A grant is over when it is answered by a `done` of its actor and number, or when the group of
    its actor is removed. -/
def isOver : Event → String × ℕ → Bool
  | .permissionDone actorId sequence, g => g = (actorId, sequence)
  | .staleGroup groupId, g => getGroupFromActorId g.1 = groupId
  | _, _ => false

/-- What a message does before anything is granted; most never grant. -/
def State.arrive (s : State) : Event → State
  | .permissionToken token =>
      if s.shuttingDown then s else { s with permissionQueue := s.permissionQueue ++ [token] }
  | .permissionRequest identity actorId _ =>
      { s with pendingRequests := s.pendingRequests.insert actorId identity }
  | .permissionDone actorId sequence =>
      if s.activePermission = some sequence ∧ s.activeActor = actorId then
        { s with activePermission := none, activeActor := "" }
      else s
  | .debugContinue _ => { s with debugStopped := false, debugStoppedReason := "" }
  | .staleGroup groupId => s.removeGroup groupId
  | e => (handle s e).1

/-- The permissions are the same. -/
structure SamePermissions (s s' : State) : Prop where
  permissionQueue : s'.permissionQueue = s.permissionQueue
  activePermission : s'.activePermission = s.activePermission
  activeActor : s'.activeActor = s.activeActor
  globalSequence : s'.globalSequence = s.globalSequence
  pendingRequests : s'.pendingRequests = s.pendingRequests

theorem SamePermissions.refl (s : State) : SamePermissions s s := ⟨rfl, rfl, rfl, rfl, rfl⟩

/-- A message grants nothing, or it grants the head of the queue to an actor that asked, with
    nobody else at work. -/
inductive Manages (s : State) (o : List Sent) (s' : State) : Prop where
  | keeps (hsame : SamePermissions s s') (hnone : grants o = [])
  | grants {token : PermissionToken} {rest : List PermissionToken} {identity : String}
      (hstopped : s.debugStopped = false) (hactive : s.activePermission = none)
      (hqueue : s.permissionQueue = token :: rest)
      (hpending : s.pendingRequests.lookup token.recipientId = some identity)
      (hstate : s' = (s.grant token.recipientId identity).1)
      (hone : grants o = [(token.recipientId, s.globalSequence + 1)])

theorem Manages.nothing (s : State) : Manages s [] s := .keeps (.refl s) rfl

theorem stopAt_manages (s : State) (breakpointId : ℕ) (actorId identity : String) :
    Manages s (s.stopAt breakpointId actorId identity).2
      (s.stopAt breakpointId actorId identity).1 :=
  .keeps ⟨rfl, rfl, rfl, rfl, rfl⟩ rfl

theorem sendToGroup_grants {s : State} {groupId reason : String} :
    grants (s.sendToGroup groupId (.shutdown reason)) = [] := by
  unfold State.sendToGroup
  cases s.groupIdentities.lookup groupId <;> rfl

theorem sendShutdown_grants (s : State) : grants s.sendShutdown.2 = [] := by
  unfold State.sendShutdown
  induction s.registeredGroups with
  | nil => rfl
  | cons g gs ih =>
      simp only [List.flatMap_cons, grants_append, sendToGroup_grants, List.nil_append]
      exact ih

theorem sendShutdown_manages (s : State) : Manages s s.sendShutdown.2 s.sendShutdown.1 :=
  .keeps ⟨rfl, rfl, rfl, rfl, rfl⟩ (sendShutdown_grants s)

theorem initiateShutdown_grants (s : State) (reason : String) :
    grants (s.initiateShutdown reason).2 = [] := by
  unfold State.initiateShutdown
  split
  next => rfl
  next =>
    simp only
    split
    next => exact sendShutdown_grants _
    next => rfl

theorem tryGrantNext_manages (s : State) : Manages s s.tryGrantNext.2 s.tryGrantNext.1 := by
  unfold State.tryGrantNext
  split
  next => exact .nothing s
  next hactive =>
    have hactive : s.activePermission = none := not_not.mp hactive
    split
    next => exact .nothing s
    next token rest hqueue =>
      split
      next => exact .nothing s
      next =>
        split
        next => exact .nothing s
        next hstopped =>
          have hstopped : s.debugStopped = false := by simpa using hstopped
          split
          next => exact .nothing s
          next identity hpending =>
            split
            next => exact stopAt_manages s _ _ _
            next => exact .grants hstopped hactive hqueue hpending rfl rfl

theorem permissionRequest_manages (s : State) (identity actorId groupId : String) :
    Manages (s.arrive (.permissionRequest identity actorId groupId))
      (s.handlePermissionRequest identity actorId).2
      (s.handlePermissionRequest identity actorId).1 := by
  have hkeeps : ∀ position, Manages (s.arrive (.permissionRequest identity actorId groupId))
      [⟨identity, .permissionWait actorId position⟩]
      (s.arrive (.permissionRequest identity actorId groupId)) :=
    fun position => .keeps (.refl _) rfl
  unfold State.handlePermissionRequest
  simp only
  split
  next => exact hkeeps _
  next hstopped =>
    have hstopped : s.debugStopped = false := by simpa using hstopped
    split
    next => exact hkeeps _
    next position hfind =>
      split
      next hhead =>
        split
        next => exact stopAt_manages _ _ _ _
        next =>
          -- the first token of the actor stands at the head
          obtain ⟨rfl, hactive⟩ := hhead
          have hne : s.permissionQueue ≠ [] := fun hnil => by simp [hnil] at hfind
          obtain ⟨token, rest, hqueue⟩ := List.exists_cons_of_ne_nil hne
          have hactor : token.recipientId = actorId := by
            by_contra hother
            simp [hqueue, List.findIdx?_cons, hother] at hfind
          subst hactor
          exact .grants hstopped hactive hqueue (AList.lookup_insert _) rfl rfl
      next => exact hkeeps _

theorem permissionDone_manages (s : State) (actorId : String) (sequence : ℕ) :
    Manages (s.arrive (.permissionDone actorId sequence))
      (s.handlePermissionDone actorId sequence).2
      (s.handlePermissionDone actorId sequence).1 := by
  unfold State.handlePermissionDone
  split
  next hother =>
    have hkept : s.arrive (.permissionDone actorId sequence) = s :=
      if_neg fun hand => hother hand.1
    rw [hkept]
    exact .nothing s
  next hactive =>
    split
    next hother =>
      have hkept : s.arrive (.permissionDone actorId sequence) = s :=
        if_neg fun hand => hother hand.2
      rw [hkept]
      exact .nothing s
    next hactor =>
      have hdone : s.arrive (.permissionDone actorId sequence) =
          { s with activePermission := none, activeActor := "" } :=
        if_pos ⟨not_not.mp hactive, not_not.mp hactor⟩
      rw [hdone]
      simp only
      split
      next => exact sendShutdown_manages _
      next => exact tryGrantNext_manages _

/-- The messages that are about something else than permissions. -/
def Event.passive : Event → Bool
  | .permissionToken _ | .permissionRequest _ _ _ | .permissionDone _ _ | .debugContinue _
  | .staleGroup _ => false
  | _ => true

theorem initiateShutdown_same (s : State) (reason : String) :
    SamePermissions s (s.initiateShutdown reason).1 := by
  unfold State.initiateShutdown
  split
  next => exact .refl s
  next =>
    simp only
    split
    next => exact ⟨rfl, rfl, rfl, rfl, rfl⟩
    next => exact ⟨rfl, rfl, rfl, rfl, rfl⟩

/-- They leave the permissions as they are and grant nothing. -/
theorem passive_quiet (s : State) (e : Event) (hpassive : e.passive = true) :
    SamePermissions s (handle s e).1 ∧ grants (handle s e).2 = [] := by
  have hsame : ∀ o, grants o = [] → SamePermissions s s ∧ grants o = [] :=
    fun _ ho => ⟨.refl s, ho⟩
  have hshutdown : ∀ reason, SamePermissions s (s.initiateShutdown reason).1 ∧
      grants (s.initiateShutdown reason).2 = [] :=
    fun reason => ⟨initiateShutdown_same s reason, initiateShutdown_grants s reason⟩
  cases e with
  | permissionToken => cases hpassive
  | permissionRequest => cases hpassive
  | permissionDone => cases hpassive
  | debugContinue => cases hpassive
  | staleGroup => cases hpassive
  | registerGroup identity groupId =>
      simp only [handle, State.handleRegisterGroup]
      split
      next => exact hsame _ rfl
      next => split <;> exact ⟨⟨rfl, rfl, rfl, rfl, rfl⟩, rfl⟩
  | registerActor identity groupId actorId =>
      simp only [handle, State.handleRegisterActor]
      split
      next => exact hsame _ rfl
      next =>
        split
        next => exact hsame _ rfl
        next => split <;> exact ⟨⟨rfl, rfl, rfl, rfl, rfl⟩, rfl⟩
  | shutdownRequest reason =>
      simp only [handle, State.handleShutdownRequest]
      split
      next => exact hsame _ rfl
      next => exact hshutdown reason
  | requestShutdown reason => exact hshutdown reason
  | _ => exact ⟨⟨rfl, rfl, rfl, rfl, rfl⟩, rfl⟩

/-- **What one message does to permissions.** -/
theorem handle_manages (s : State) (e : Event) :
    Manages (s.arrive e) (handle s e).2 (handle s e).1 := by
  cases e with
  | permissionToken token =>
      simp only [State.arrive, handle, State.handlePermissionToken]
      split
      next => exact .nothing s
      next => exact tryGrantNext_manages _
  | permissionRequest identity actorId groupId => exact permissionRequest_manages s _ _ _
  | permissionDone actorId sequence => exact permissionDone_manages s _ _
  | debugContinue identity =>
      cases tryGrantNext_manages (s.arrive (.debugContinue identity)) with
      | keeps hsame hnone => exact .keeps hsame hnone
      | grants hstopped hactive hqueue hpending hstate hone =>
          exact .grants hstopped hactive hqueue hpending hstate hone
  | staleGroup groupId => exact tryGrantNext_manages _
  | _ => exact .keeps (.refl _) (passive_quiet s _ rfl).2

/-! ### What arrives -/

/-- The queue after a message has arrived, or a group was removed. -/
theorem arrive_permissionQueue (s : State) (e : Event) :
    (s.arrive e).permissionQueue =
      match e with
      | .permissionToken token =>
          if s.shuttingDown then s.permissionQueue else s.permissionQueue ++ [token]
      | .staleGroup groupId =>
          s.permissionQueue.filter fun token => getGroupFromActorId token.recipientId ≠ groupId
      | _ => s.permissionQueue := by
  cases e with
  | permissionToken token =>
      simp only [State.arrive]
      split <;> rfl
  | permissionDone actorId sequence =>
      simp only [State.arrive]
      split <;> rfl
  | permissionRequest => rfl
  | debugContinue => rfl
  | staleGroup => rfl
  | _ => exact (passive_quiet s _ rfl).1.permissionQueue

theorem arrive_globalSequence (s : State) (e : Event) :
    (s.arrive e).globalSequence = s.globalSequence := by
  cases e with
  | permissionToken token =>
      simp only [State.arrive]
      split <;> rfl
  | permissionDone actorId sequence =>
      simp only [State.arrive]
      split <;> rfl
  | permissionRequest => rfl
  | debugContinue => rfl
  | staleGroup => rfl
  | _ => exact (passive_quiet s _ rfl).1.globalSequence

theorem holding_congr {s s' : State} (hactive : s'.activePermission = s.activePermission)
    (hactor : s'.activeActor = s.activeActor) : s'.holding = s.holding := by
  simp only [State.holding, hactive, hactor]

/-- The permission held is given up exactly when it is over. -/
theorem arrive_holding (s : State) (e : Event) :
    (s.arrive e).holding = s.holding.filter (!isOver e ·) := by
  have hkeep : ∀ {s' : State}, s'.activePermission = s.activePermission →
      s'.activeActor = s.activeActor → (∀ g, isOver e g = false) →
      s'.holding = s.holding.filter (!isOver e ·) := by
    intro s' hactive hactor hnot
    rw [holding_congr hactive hactor]
    exact (List.filter_eq_self.mpr fun g _ => by rw [hnot]; rfl).symm
  cases e with
  | permissionToken token =>
      simp only [State.arrive]
      split
      next => exact hkeep rfl rfl fun _ => rfl
      next => exact hkeep rfl rfl fun _ => rfl
  | permissionRequest => exact hkeep rfl rfl fun _ => rfl
  | debugContinue => exact hkeep rfl rfl fun _ => rfl
  | permissionDone actorId sequence =>
      simp only [State.arrive, State.holding]
      cases hactive : s.activePermission with
      | none => simp [hactive]
      | some n =>
          by_cases hmine : n = sequence ∧ s.activeActor = actorId
          · obtain ⟨rfl, rfl⟩ := hmine
            simp [isOver]
          · rw [if_neg (fun hand => hmine ⟨Option.some_inj.mp hand.1, hand.2⟩), hactive]
            have hnot : isOver (.permissionDone actorId sequence) (s.activeActor, n) = false := by
              simp only [isOver, decide_eq_false_iff_not, Prod.mk.injEq]
              exact fun hand => hmine ⟨hand.2, hand.1⟩
            simp [hnot]
  | staleGroup groupId =>
      simp only [State.arrive, State.removeGroup, State.holding]
      cases hactive : s.activePermission with
      | none => simp
      | some n =>
          by_cases hmine : getGroupFromActorId s.activeActor = groupId <;> simp [isOver, hmine]
  | _ =>
      refine hkeep ?_ ?_ fun _ => rfl
      · exact (passive_quiet s _ rfl).1.activePermission
      · exact (passive_quiet s _ rfl).1.activeActor

/-! ### Runs -/

/-- The grants outstanding, all grants, and the tokens accepted, but for those that were removed
    with their group before they were granted. -/
structure Ledger where
  outstanding : List (String × ℕ) := []
  granted : List (String × ℕ) := []
  kept : List PermissionToken := []

/-- A token that is accepted is kept; with a group go the tokens of it not granted yet. -/
def noteKept (s : State) (e : Event) (l : Ledger) : List PermissionToken :=
  match e with
  | .permissionToken token => if s.shuttingDown then l.kept else l.kept ++ [token]
  | .staleGroup groupId =>
      l.kept.take l.granted.length ++ (l.kept.drop l.granted.length).filter fun token =>
        getGroupFromActorId token.recipientId ≠ groupId
  | _ => l.kept

def noteLedger (s : State) (e : Event) (l : Ledger) : Ledger where
  outstanding := l.outstanding.filter (!isOver e ·) ++ grants (handle s e).2
  granted := l.granted ++ grants (handle s e).2
  kept := noteKept s e l

/-- The manager, with what was granted. -/
def managerStep : State × Ledger → Event → Option ((State × Ledger) × List Sent) :=
  withGhost (fun s e => some (handle s e)) noteLedger

/-- At most one grant is outstanding, the numbers of the grants increase, and the tokens that
    are kept are granted in their order, each at most once. -/
structure Safe (out : List Sent) (l : Ledger) : Prop where
  exclusive : l.outstanding.length ≤ 1
  increasing : (grants out).Pairwise (·.2 < ·.2)
  inOrder : (grants out).map (·.1) = (l.kept.take (grants out).length).map (·.recipientId)

/-- What a message grants is the head of the queue, to its recipient, who has a request pending,
    and the manager is not stopped. -/
def GrantsHead (s : State) (e : Event) : Prop :=
  ∀ g ∈ grants (handle s e).2, (s.arrive e).debugStopped = false ∧
    ∃ token rest, (s.arrive e).permissionQueue = token :: rest ∧
      (handle s e).1.permissionQueue = rest ∧ g.1 = token.recipientId ∧
      token.recipientId ∈ (s.arrive e).pendingRequests

theorem grantsHead (s : State) (e : Event) : GrantsHead s e := by
  intro g hg
  cases handle_manages s e with
  | keeps hsame hnone => simp [hnone] at hg
  | @grants token rest identity hstopped hactive hqueue hpending hstate hone =>
      rw [hone] at hg
      have hmem : token.recipientId ∈ (s.arrive e).pendingRequests :=
        AList.lookup_isSome.mp (by rw [hpending]; rfl)
      refine ⟨hstopped, token, rest, hqueue, ?_, ?_, hmem⟩
      · rw [hstate]
        change (s.arrive e).permissionQueue.tail = rest
        rw [hqueue]
        rfl
      · rw [List.mem_singleton.mp hg]

/-- What the ledger and the members of the manager say of each other. -/
structure Inv (out : List Sent) (s : State) (l : Ledger) : Prop where
  granted : l.granted = grants out
  outstanding : l.outstanding = s.holding
  kept : ∃ served, l.kept = served ++ s.permissionQueue ∧
    served.map (·.recipientId) = l.granted.map (·.1)
  increasing : l.granted.Pairwise (·.2 < ·.2)
  bounded : ∀ g ∈ l.granted, g.2 ≤ s.globalSequence

theorem Inv.safe {out : List Sent} {s : State} {l : Ledger} (h : Inv out s l) : Safe out l := by
  constructor
  · rw [h.outstanding, State.holding, List.length_map]
    cases s.activePermission <;> simp
  · rw [← h.granted]
    exact h.increasing
  · obtain ⟨served, hkept, hserved⟩ := h.kept
    have hlength : (grants out).length = served.length := by
      have hsame := congrArg List.length hserved
      simp only [List.length_map] at hsame
      rw [← h.granted]
      exact hsame.symm
    rw [hlength, hkept, List.take_left, hserved, h.granted]

/-- The tokens kept are those granted, and those that wait. -/
theorem arrive_kept {s : State} {e : Event} {l : Ledger} {served : List PermissionToken}
    (hkept : l.kept = served ++ s.permissionQueue) (hlength : l.granted.length = served.length) :
    noteKept s e l = served ++ (s.arrive e).permissionQueue := by
  rw [arrive_permissionQueue]
  cases e with
  | permissionToken token =>
      simp only [noteKept]
      split
      next => exact hkept
      next => rw [hkept, List.append_assoc]
  | staleGroup groupId =>
      simp only [noteKept, hlength, hkept, List.take_left, List.drop_left]
  | _ => exact hkept

/-- **Every step keeps the ledger right.** -/
theorem Inv.step {out : List Sent} {s : State} {l : Ledger} (h : Inv out s l) (e : Event) :
    Inv (out ++ (handle s e).2) (handle s e).1 (noteLedger s e l) := by
  obtain ⟨served, hkept, hserved⟩ := h.kept
  have hlength : l.granted.length = served.length := by
    have hsame := congrArg List.length hserved
    simpa only [List.length_map] using hsame.symm
  have hkept' := arrive_kept (e := e) hkept hlength
  have hholding := arrive_holding s e
  have hsequence := arrive_globalSequence s e
  cases handle_manages s e with
  | keeps hsame hnone =>
      constructor
      · simp [noteLedger, hnone, h.granted]
      · simp only [noteLedger, hnone, List.append_nil, h.outstanding]
        rw [holding_congr hsame.activePermission hsame.activeActor, hholding]
      · refine ⟨served, ?_, by simpa [noteLedger, hnone] using hserved⟩
        rw [hsame.permissionQueue]
        exact hkept'
      · simpa [noteLedger, hnone] using h.increasing
      · intro g hg
        simp only [noteLedger, hnone, List.append_nil] at hg
        rw [hsame.globalSequence, hsequence]
        exact h.bounded g hg
  | @grants token rest identity hstopped hactive hqueue hpending hstate hone =>
      have hnone : l.outstanding.filter (!isOver e ·) = [] := by
        rw [h.outstanding, ← hholding, State.holding, hactive]
        rfl
      constructor
      · simp [noteLedger, hone, h.granted]
      · simp only [noteLedger, hone, hnone, List.nil_append, hstate]
        rfl
      · refine ⟨served ++ [token], ?_, by simpa [noteLedger, hone] using hserved⟩
        rw [hstate]
        change noteKept s e l = served ++ [token] ++ (s.arrive e).permissionQueue.tail
        rw [hkept', hqueue, List.append_assoc]
        rfl
      · simp only [noteLedger, hone, List.pairwise_append]
        refine ⟨h.increasing, List.pairwise_singleton _ _, fun g hg g' hg' => ?_⟩
        have hle := h.bounded g hg
        rw [List.mem_singleton.mp hg']
        omega
      · intro g hg
        simp only [noteLedger, hone] at hg
        rw [hstate]
        change g.2 ≤ (s.arrive e).globalSequence + 1
        rcases List.mem_append.mp hg with hg | hg
        · have hle := h.bounded g hg
          omega
        · rw [List.mem_singleton.mp hg]

/-- **Permissions are safe**, after any messages and removals of groups, whether debugging had
    stopped the manager at first or not, and whatever comes next grants the head of the queue if
    it grants. -/
theorem permissions_safe (paused : Bool) (es : List Event) :
    ∃ s l out, run managerStep ({ debugStopped := paused }, {}) es = some ((s, l), out) ∧
      Safe out l ∧ ∀ e, GrantsHead s e := by
  have hstart : Inv [] ({ debugStopped := paused } : State) {} :=
    ⟨rfl, rfl, ⟨[], rfl, rfl⟩, List.Pairwise.nil, fun g hg => by simp at hg⟩
  obtain ⟨⟨s, l⟩, out, hrun, hinv⟩ := @exists_run_induction _ _ _ managerStep (fun _ _ => True)
    (fun os sl => Inv os sl.1 sl.2) ({ debugStopped := paused }, {}) es hstart
    (fun os sl e hinv _ => ⟨_, rfl, hinv.step e⟩) (allSteps_true _ es)
  exact ⟨s, l, out, hrun, hinv.safe, grantsHead s⟩

end KasparHft.GroupManager
