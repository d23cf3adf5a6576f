import KasparHft.Coordinator
import Mathlib.Data.List.Sort

/-!
# The group manager

`GroupManager.cpp`: it keeps the tokens of all groups in one queue and permission with one actor
at a time.  A grant is sent when its actor asks, or when something else makes it possible
(`try_grant_next`).  There are debug stops with breakpoints, a shutdown that lets the queue
drain first, and the removal of groups that were not heard of.

Sequence numbers are `uint64_t`, which no run is long enough to wrap, and no queue is so long
that a position does not fit.  The times a group was heard of (any group may be found stale at
any time), the log, the traces and the callback for tests are left out.
-/

namespace KasparHft.GroupManager

open AssocMap

/-- `PermissionToken`. -/
structure PermissionToken where
  recipientId : String
  senderId : String
  timestamp : ℕ
  messageType : String := ""
deriving DecidableEq, Repr

/-- The messages of the manager to a group, or to a debugger. -/
inductive Message where
  | registerAck (id : String)
  | registerNack (id reason : String)
  | permissionGrant (actorId : String) (sequence : ℕ)
  | permissionWait (actorId : String) (position : ℕ)
  | shutdown (reason : String)
  | debugStatusResponse (stopped : Bool) (stoppedReason : String) (currentSequence queueSize : ℕ)
      (activeActor : String)
  | debugBreakpointAdded (breakpointId : ℕ) (pattern : String)
  | debugBreakpointsResponse (ids : List ℕ) (patterns : List String)
  | debugGroupsResponse (groups : List String)
  | debugActorsResponse (groupId : String) (actors : List String)
  | debugLoggingResponse (enabled : Bool)
  | debugQueueResponse (recipientIds senderIds : List String) (timestamps : List ℕ)
deriving DecidableEq, Repr

/-- A message, and the identity it is sent to. -/
structure Sent where
  identity : String
  message : Message
deriving DecidableEq, Repr

/-- The members of a `GroupManager`.  The sets are lists in the order of their elements. -/
structure State where
  registeredGroups : List String := []
  actorToGroup : Map String String := ∅
  groupIdentities : Map String String := ∅
  permissionQueue : List PermissionToken := []
  activePermission : Option ℕ := none
  activeActor : String := ""
  globalSequence : ℕ := 0
  pendingRequests : Map String String := ∅
  running : Bool := true
  shuttingDown : Bool := false
  shutdownReason : String := ""
  pendingShutdownAcks : List String := []
  debugStopped : Bool := false
  debugStoppedReason : String := ""
  breakpoints : Map ℕ String := ∅
  nextBreakpointId : ℕ := 1
  loggingEnabled : Bool := false

/-- What the manager receives, `identity` being who sent it; `requestShutdown` is the call of
    `initiate_shutdown` in `run`, and `staleGroup` one of `unregister_group` by
    `check_stale_groups`. -/
inductive Event where
  | registerGroup (identity groupId : String)
  | registerActor (identity groupId actorId : String)
  | permissionToken (token : PermissionToken)
  | permissionRequest (identity actorId groupId : String)
  | permissionDone (actorId : String) (sequence : ℕ)
  | shutdownRequest (reason : String)
  | requestShutdown (reason : String)
  | shutdownAck (groupId : String)
  | debugStop (identity reason : String)
  | debugContinue (identity : String)
  | debugAddBreakpoint (identity pattern : String)
  | debugRemoveBreakpoint (identity : String) (breakpointId : ℕ)
  | debugListBreakpoints (identity : String)
  | debugListGroups (identity : String)
  | debugListActors (identity groupId : String)
  | debugStatus (identity : String)
  | debugSetLogging (identity : String) (enabled : Bool)
  | debugGetQueue (identity : String)
  | staleGroup (groupId : String)
deriving DecidableEq, Repr

/-! ### Helpers -/

/-- A `std::set` after an insertion. -/
def insertSet (x : String) (s : List String) : List String :=
  if x ∈ s then s else s.orderedInsert (· ≤ ·) x

/-- A `std::map` from its first key to its last. -/
def inOrder {κ ν : Type} [LE κ] [DecidableLE κ] (m : Map κ ν) : List (κ × ν) :=
  (m.entries.map fun e => (e.1, e.2)).insertionSort fun a b => a.1 ≤ b.1

/-- `get_group_from_actor_id`: empty without a dot. -/
def getGroupFromActorId (fullActorId : String) : String :=
  (Coordinator.groupOf fullActorId).getD ""

/-- A breakpoint is a full id, or `group.*`. -/
def patternMatches (actorId pattern : String) : Bool :=
  pattern = actorId ||
    (['.', '*'].isSuffixOf pattern.toList && pattern.toList.dropLast.isPrefixOf actorId.toList)

/-- `matches_breakpoint`: the first one that does. -/
def State.matchesBreakpoint (s : State) (actorId : String) : Option ℕ :=
  ((inOrder s.breakpoints).find? fun b => patternMatches actorId b.2).map (·.1)

/-- `UINT32_MAX`. -/
def uint32Max : ℕ := 2 ^ 32 - 1

/-- `send_to_group`: a group that is not connected is sent nothing. -/
def State.sendToGroup (s : State) (groupId : String) (m : Message) : List Sent :=
  ((s.groupIdentities.lookup groupId).map fun identity => ⟨identity, m⟩).toList

/-- What both ways of granting do. -/
def State.grant (s : State) (actorId identity : String) : State × List Sent :=
  let sequence := s.globalSequence + 1
  ({ s with
      activePermission := some sequence
      globalSequence := sequence
      activeActor := actorId
      permissionQueue := s.permissionQueue.tail
      pendingRequests := s.pendingRequests.erase actorId },
    [⟨identity, .permissionGrant actorId sequence⟩])

/-- What both do at a breakpoint. -/
def State.stopAt (s : State) (breakpointId : ℕ) (actorId identity : String) :
    State × List Sent :=
  ({ s with
      debugStopped := true
      debugStoppedReason := "Breakpoint " ++ toString breakpointId ++ " hit on " ++ actorId },
    [⟨identity, .permissionWait actorId 0⟩])

/-- `try_grant_next`: not during a shutdown. -/
def State.tryGrantNext (s : State) : State × List Sent :=
  if s.activePermission ≠ none then (s, [])
  else
    match s.permissionQueue with
    | [] => (s, [])
    | token :: _ =>
        if s.shuttingDown then (s, [])
        else if s.debugStopped then (s, [])
        else
          match s.pendingRequests.lookup token.recipientId with
          | none => (s, [])
          | some identity =>
              match s.matchesBreakpoint token.recipientId with
              | some breakpointId => s.stopAt breakpointId token.recipientId identity
              | none => s.grant token.recipientId identity

/-- `SHUTDOWN` to all groups; without any the loop ends. -/
def State.sendShutdown (s : State) : State × List Sent :=
  let acks := s.registeredGroups.foldl (fun acks g => insertSet g acks) s.pendingShutdownAcks
  ({ s with
      pendingShutdownAcks := acks
      running := if acks = [] then false else s.running },
    s.registeredGroups.flatMap fun g => s.sendToGroup g (.shutdown s.shutdownReason))

/-- `initiate_shutdown`. -/
def State.initiateShutdown (s : State) (reason : String) : State × List Sent :=
  if s.shuttingDown then (s, [])
  else
    let s := { s with shuttingDown := true, shutdownReason := reason }
    if s.activePermission = none ∧ s.permissionQueue = [] then s.sendShutdown else (s, [])

/-! ### The messages -/

def State.handleRegisterGroup (s : State) (identity groupId : String) : State × List Sent :=
  if s.shuttingDown then (s, [⟨identity, .registerNack groupId "shutdown in progress"⟩])
  else if groupId ∈ s.registeredGroups then
    (s, [⟨identity, .registerNack groupId "duplicate group_id"⟩])
  else
    ({ s with
        registeredGroups := insertSet groupId s.registeredGroups
        groupIdentities := s.groupIdentities.insert groupId identity },
      [⟨identity, .registerAck groupId⟩])

/-- `full_id` of a `RegisterActor`. -/
def fullId (groupId actorId : String) : String := groupId ++ "." ++ actorId

def State.handleRegisterActor (s : State) (identity groupId actorId : String) :
    State × List Sent :=
  let full := fullId groupId actorId
  if s.shuttingDown then (s, [⟨identity, .registerNack full "shutdown in progress"⟩])
  else if groupId ∉ s.registeredGroups then
    (s, [⟨identity, .registerNack full "group not registered"⟩])
  else if full ∈ s.actorToGroup then
    (s, [⟨identity, .registerNack full "duplicate actor_id"⟩])
  else
    ({ s with actorToGroup := s.actorToGroup.insert full groupId },
      [⟨identity, .registerAck full⟩])

/-- No token is accepted during a shutdown. -/
def State.handlePermissionToken (s : State) (token : PermissionToken) : State × List Sent :=
  if s.shuttingDown then (s, [])
  else State.tryGrantNext { s with permissionQueue := s.permissionQueue ++ [token] }

def State.handlePermissionRequest (s : State) (identity actorId : String) : State × List Sent :=
  let s := { s with pendingRequests := s.pendingRequests.insert actorId identity }
  if s.debugStopped then (s, [⟨identity, .permissionWait actorId uint32Max⟩])
  else
    match s.permissionQueue.findIdx? (·.recipientId = actorId) with
    | none => (s, [⟨identity, .permissionWait actorId uint32Max⟩])
    | some position =>
        if position = 0 ∧ s.activePermission = none then
          match s.matchesBreakpoint actorId with
          | some breakpointId => s.stopAt breakpointId actorId identity
          | none => s.grant actorId identity
        else (s, [⟨identity, .permissionWait actorId position⟩])

def State.handlePermissionDone (s : State) (actorId : String) (sequence : ℕ) :
    State × List Sent :=
  if s.activePermission ≠ some sequence then (s, [])
  else if s.activeActor ≠ actorId then (s, [])
  else
    let s := { s with activePermission := none, activeActor := "" }
    if s.shuttingDown ∧ s.permissionQueue = [] then s.sendShutdown else s.tryGrantNext

def State.handleShutdownRequest (s : State) (reason : String) : State × List Sent :=
  if s.shuttingDown then (s, []) else s.initiateShutdown reason

def State.handleShutdownAck (s : State) (groupId : String) : State × List Sent :=
  let acks := s.pendingShutdownAcks.filter (· ≠ groupId)
  ({ s with
      pendingShutdownAcks := acks
      running := if acks = [] then false else s.running }, [])

def State.statusResponse (s : State) : Message :=
  .debugStatusResponse s.debugStopped s.debugStoppedReason s.globalSequence
    s.permissionQueue.length s.activeActor

def State.handleDebugStop (s : State) (identity reason : String) : State × List Sent :=
  let s := { s with
    debugStopped := true
    debugStoppedReason := if reason = "" then "Manual stop" else reason }
  (s, [⟨identity, s.statusResponse⟩])

def State.handleDebugContinue (s : State) (identity : String) : State × List Sent :=
  let s := { s with debugStopped := false, debugStoppedReason := "" }
  let r := s.tryGrantNext
  (r.1, ⟨identity, s.statusResponse⟩ :: r.2)

def State.handleDebugAddBreakpoint (s : State) (identity pattern : String) : State × List Sent :=
  let id := s.nextBreakpointId
  ({ s with
      nextBreakpointId := (id + 1) % 2 ^ 32
      breakpoints := s.breakpoints.insert id pattern },
    [⟨identity, .debugBreakpointAdded id pattern⟩])

def State.handleDebugListBreakpoints (s : State) (identity : String) : State × List Sent :=
  (s, [⟨identity, .debugBreakpointsResponse ((inOrder s.breakpoints).map (·.1))
    ((inOrder s.breakpoints).map (·.2))⟩])

def State.handleDebugRemoveBreakpoint (s : State) (identity : String) (breakpointId : ℕ) :
    State × List Sent :=
  State.handleDebugListBreakpoints { s with breakpoints := s.breakpoints.erase breakpointId }
    identity

def State.handleDebugListGroups (s : State) (identity : String) : State × List Sent :=
  (s, [⟨identity, .debugGroupsResponse s.registeredGroups⟩])

/-- The names of the actors of a group, without it. -/
def State.handleDebugListActors (s : State) (identity groupId : String) : State × List Sent :=
  let pre := (groupId ++ ".").toList
  let actors := (inOrder s.actorToGroup).filterMap fun a =>
    if a.2 = groupId ∧ pre.length < a.1.toList.length ∧ pre.isPrefixOf a.1.toList then
      some (String.ofList (a.1.toList.drop pre.length))
    else none
  (s, [⟨identity, .debugActorsResponse groupId actors⟩])

def State.handleDebugStatus (s : State) (identity : String) : State × List Sent :=
  (s, [⟨identity, s.statusResponse⟩])

def State.handleDebugSetLogging (s : State) (identity : String) (enabled : Bool) :
    State × List Sent :=
  ({ s with loggingEnabled := enabled }, [⟨identity, .debugLoggingResponse enabled⟩])

def State.handleDebugGetQueue (s : State) (identity : String) : State × List Sent :=
  (s, [⟨identity, .debugQueueResponse (s.permissionQueue.map (·.recipientId))
    (s.permissionQueue.map (·.senderId)) (s.permissionQueue.map (·.timestamp))⟩])

/-- What `unregister_group` removes; the requests are those of the actors that registered. -/
def State.removeGroup (s : State) (groupId : String) : State :=
  let actors := ((inOrder s.actorToGroup).filter (·.2 = groupId)).map (·.1)
  let mine := s.activePermission ≠ none ∧ getGroupFromActorId s.activeActor = groupId
  { s with
    actorToGroup := actors.foldl (fun m a => m.erase a) s.actorToGroup
    pendingRequests := actors.foldl (fun m a => m.erase a) s.pendingRequests
    permissionQueue :=
      s.permissionQueue.filter fun token => getGroupFromActorId token.recipientId ≠ groupId
    activePermission := if mine then none else s.activePermission
    activeActor := if mine then "" else s.activeActor
    registeredGroups := s.registeredGroups.filter (· ≠ groupId)
    groupIdentities := s.groupIdentities.erase groupId
    pendingShutdownAcks := s.pendingShutdownAcks.filter (· ≠ groupId) }

/-- `unregister_group`. -/
def State.unregisterGroup (s : State) (groupId : String) : State × List Sent :=
  (s.removeGroup groupId).tryGrantNext

/-- One message, or one stale group. -/
def handle (s : State) : Event → State × List Sent
  | .registerGroup identity groupId => s.handleRegisterGroup identity groupId
  | .registerActor identity groupId actorId => s.handleRegisterActor identity groupId actorId
  | .permissionToken token => s.handlePermissionToken token
  | .permissionRequest identity actorId _ => s.handlePermissionRequest identity actorId
  | .permissionDone actorId sequence => s.handlePermissionDone actorId sequence
  | .shutdownRequest reason => s.handleShutdownRequest reason
  | .requestShutdown reason => s.initiateShutdown reason
  | .shutdownAck groupId => s.handleShutdownAck groupId
  | .debugStop identity reason => s.handleDebugStop identity reason
  | .debugContinue identity => s.handleDebugContinue identity
  | .debugAddBreakpoint identity pattern => s.handleDebugAddBreakpoint identity pattern
  | .debugRemoveBreakpoint identity id => s.handleDebugRemoveBreakpoint identity id
  | .debugListBreakpoints identity => s.handleDebugListBreakpoints identity
  | .debugListGroups identity => s.handleDebugListGroups identity
  | .debugListActors identity groupId => s.handleDebugListActors identity groupId
  | .debugStatus identity => s.handleDebugStatus identity
  | .debugSetLogging identity enabled => s.handleDebugSetLogging identity enabled
  | .debugGetQueue identity => s.handleDebugGetQueue identity
  | .staleGroup groupId => s.unregisterGroup groupId

end KasparHft.GroupManager
