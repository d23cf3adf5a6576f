import KasparHft.AssocMap

/-!
# The coordinator

`CoordinatorActor.cpp`: groups announce each message with a token and request permission to
process it; permission is granted when the token at the head of the queue and the request of
its recipient are both there.  The console can pause, step and flush.

Sequence numbers are `uint64_t`, which no run is long enough to wrap.  The registered groups and
the times, which nothing here depends on, are left out; so are the pages sent to the console.
`none` is `abort()`.
-/

namespace KasparHft.Coordinator

open AssocMap

/-- The group in a full id, the part before the first dot. -/
def groupOf (id : String) : Option String :=
  if '.' ∈ id.toList then some (String.ofList (id.toList.takeWhile (· ≠ '.'))) else none

/-- `PermissionEntry`, of a token or of a request. -/
structure Entry where
  groupId : String
  actorId : String
  sequence : ℕ
  replyTo : ℕ
deriving DecidableEq, Repr

/-- `PermissionGrant`, and where it goes. -/
structure Grant where
  dest : ℕ
  actorId : String
  sequence : ℕ
deriving DecidableEq, Repr

/-- The members of a `CoordinatorActor`. -/
structure State where
  tokenQueue : List Entry := []
  pendingRequests : Map String Entry := ∅
  globalSequence : ℕ := 0
  paused : Bool := false

/-- The commands of the console that do something. -/
inductive Command where
  | stop
  | continue
  | step
  | flush
deriving DecidableEq, Repr

/-- What the coordinator receives; `sender` is where the message came from. -/
inductive Event where
  | permissionToken (recipientId : String) (sender : ℕ)
  | permissionRequest (groupId actorId : String) (sender : ℕ)
  | permissionDone (actorId : String) (sequence : ℕ)
  | get (what : Command)
deriving DecidableEq, Repr

/-- `process_permission_queue`. -/
def State.processPermissionQueue (s : State) : State × List Grant :=
  match s.tokenQueue with
  | [] => (s, [])
  | entry :: rest =>
      match s.pendingRequests.lookup entry.actorId with
      | none => (s, [])
      | some req =>
          ({ s with
              tokenQueue := rest
              pendingRequests := s.pendingRequests.erase entry.actorId },
            [⟨req.replyTo, entry.actorId, entry.sequence⟩])

/-- `on_permission_token`. -/
def State.onPermissionToken (s : State) (recipientId : String) (sender : ℕ) : State × List Grant :=
  match groupOf recipientId with
  | none => (s, [])
  | some recipientGroup =>
      let sequence := s.globalSequence + 1
      let s := { s with
        tokenQueue := s.tokenQueue ++ [⟨recipientGroup, recipientId, sequence, sender⟩]
        globalSequence := sequence }
      if s.paused then (s, [])
      else
        match s.tokenQueue with
        | [] => (s, [])
        | entry :: rest =>
            if entry.actorId = recipientId then
              match s.pendingRequests.lookup recipientId with
              | none => (s, [])
              | some req =>
                  ({ s with
                      tokenQueue := rest
                      pendingRequests := s.pendingRequests.erase recipientId },
                    [⟨req.replyTo, entry.actorId, entry.sequence⟩])
            else (s, [])

/-- `on_permission_request`; a second request of an actor aborts. -/
def State.onPermissionRequest (s : State) (groupId actorId : String) (sender : ℕ) :
    Option (State × List Grant) :=
  if actorId ∈ s.pendingRequests then none
  else
    let sequence := s.globalSequence + 1
    let s := { s with
      pendingRequests := s.pendingRequests.insert actorId ⟨groupId, actorId, sequence, sender⟩
      globalSequence := sequence }
    if s.paused then some (s, [])
    else
      match s.tokenQueue with
      | [] => some (s, [])
      | entry :: rest =>
          if entry.actorId = actorId then
            some ({ s with
                tokenQueue := rest
                pendingRequests := s.pendingRequests.erase actorId },
              [⟨sender, entry.actorId, entry.sequence⟩])
          else some (s, [])

/-- `on_get`. -/
def State.onGet (s : State) : Command → State × List Grant
  | .stop => ({ s with paused := true }, [])
  | .continue => State.processPermissionQueue { s with paused := false }
  | .step =>
      match s.tokenQueue with
      | [] => (s, [])
      | entry :: _ =>
          if entry.actorId ∈ s.pendingRequests then
            let r := State.processPermissionQueue { s with paused := false }
            ({ r.1 with paused := true }, r.2)
          else (s, [])
  | .flush => ({ s with tokenQueue := [], pendingRequests := ∅ }, [])

/-- One message; `on_permission_done` does nothing. -/
def handle (s : State) : Event → Option (State × List Grant)
  | .permissionToken recipientId sender => some (s.onPermissionToken recipientId sender)
  | .permissionRequest groupId actorId sender => s.onPermissionRequest groupId actorId sender
  | .permissionDone _ _ => some (s, [])
  | .get what => some (s.onGet what)

end KasparHft.Coordinator
