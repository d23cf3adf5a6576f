import KasparHft.ByteReader

/-!
# Messages of the coordination

`messages.hpp`: what groups, managers and registries send each other, each message as a byte for
its type and then its fields, written and read by hand, field by field.  A string is its length in
four bytes and then its bytes, a vector its length and then its elements.

The room that a vector reserves for its elements is left out: `reserve(count)`, with a count from
the wire that memory cannot hold, throws before an element is read, and is taken to succeed here.
-/

namespace KasparHft.Messages

open LittleEndian ByteReader

/-- A `std::string`: any bytes. -/
abbrev Str := List UInt8

/-! ### Helpers -/

def writeUint64 (v : UInt64) : List UInt8 := toBytes 8 v.toNat

def writeUint32 (v : UInt32) : List UInt8 := toBytes 4 v.toNat

/-- The length is cut to 32 bits. -/
def writeString (s : Str) : List UInt8 := writeUint32 (UInt32.ofNat s.length) ++ s

def writeBool (v : Bool) : List UInt8 := [if v then 1 else 0]

/-- `write_string_vector`, `write_uint32_vector` and `write_uint64_vector`. -/
def writeVector {α : Type} (write : α → List UInt8) (vec : List α) : List UInt8 :=
  writeUint32 (UInt32.ofNat vec.length) ++ vec.flatMap write

def writeStringVector : List Str → List UInt8 := writeVector writeString

def writeUint32Vector : List UInt32 → List UInt8 := writeVector writeUint32

def writeUint64Vector : List UInt64 → List UInt8 := writeVector writeUint64

def readUint64 : Reader UInt64 := UInt64.ofNat <$> number 8

def readUint32 : Reader UInt32 := UInt32.ofNat <$> number 4

/-- Empty when the length or the bytes are not there; the length is taken in any case. -/
def readString : Reader Str := do
  match ← take 4 with
  | none => return []
  | some len => return (← take (ofBytes len)).getD []

def readBool : Reader Bool := (fun v => v != 0) <$> number 1

/-- `read_string_vector`, `read_uint32_vector` and `read_uint64_vector`. -/
def readVector {α : Type} (read : Reader α) : Reader (List α) := do
  let count ← readUint32
  many read count.toNat

def readStringVector : Reader (List Str) := readVector readString

def readUint32Vector : Reader (List UInt32) := readVector readUint32

def readUint64Vector : Reader (List UInt64) := readVector readUint64

/-! ### Types of messages -/

/-- `MsgType`. -/
inductive MsgType where
  | registerGroup | registerActor | registerAck | registerNack | permissionToken
  | permissionRequest | permissionGrant | permissionWait | permissionDone | shutdownRequest
  | shutdown | shutdownAck | registerManager | unregisterManager | lookupActor | lookupResult
  | heartbeat | heartbeatAck | debugStop | debugContinue | debugAddBreakpoint
  | debugRemoveBreakpoint | debugListBreakpoints | debugBreakpointsResponse | debugListGroups
  | debugGroupsResponse | debugListActors | debugActorsResponse | debugStatus
  | debugStatusResponse | debugSetLogging | debugLoggingResponse | debugGetQueue
  | debugQueueResponse | debugBreakpointAdded | debugFlush | listManagers | managersResponse
  | listAllActors | allActorsResponse
deriving DecidableEq, Repr

def MsgType.code : MsgType → UInt8
  | .registerGroup => 1 | .registerActor => 2 | .registerAck => 3
  | .registerNack => 4 | .permissionToken => 10 | .permissionRequest => 11
  | .permissionGrant => 12 | .permissionWait => 13 | .permissionDone => 14
  | .shutdownRequest => 20 | .shutdown => 21 | .shutdownAck => 22
  | .registerManager => 30 | .unregisterManager => 31 | .lookupActor => 32
  | .lookupResult => 33 | .heartbeat => 34 | .heartbeatAck => 35 | .debugStop => 40
  | .debugContinue => 41 | .debugAddBreakpoint => 42 | .debugRemoveBreakpoint => 43
  | .debugListBreakpoints => 44 | .debugBreakpointsResponse => 45
  | .debugListGroups => 46 | .debugGroupsResponse => 47 | .debugListActors => 48
  | .debugActorsResponse => 49 | .debugStatus => 50 | .debugStatusResponse => 51
  | .debugSetLogging => 52 | .debugLoggingResponse => 53 | .debugGetQueue => 54
  | .debugQueueResponse => 55 | .debugBreakpointAdded => 56 | .debugFlush => 57
  | .listManagers => 58 | .managersResponse => 59 | .listAllActors => 60
  | .allActorsResponse => 61

/-- The type that a byte stands for, if it stands for one. -/
def MsgType.ofCode (c : UInt8) : Option MsgType :=
  ((List.range 40).map MsgType.ofNat).find? fun type => type.code == c

/-- `get_type`. -/
def getType (mem : ℕ → UInt8) (data len : ℕ) : Option MsgType :=
  if len < 1 then MsgType.ofCode 0 else MsgType.ofCode (mem data)

/-- Of the bytes at `data`, a message and where its reader got to. -/
abbrev Deserializer (α : Type) := (ℕ → UInt8) → ℕ → ℕ → α × Cursor

/-- What the deserializers have in common: the byte of the type is skipped. -/
def deserialize {α : Type} (msg : α) (read : Reader α) : Deserializer α := fun mem data len =>
  if len < 1 then (msg, ⟨data, []⟩) else read.run mem (data + len) ⟨data + 1, []⟩

/-- A message without fields is not read. -/
def ignore {α : Type} (msg : α) : Deserializer α := fun _ data _ => (msg, ⟨data, []⟩)

/-! ### Registration -/

structure RegisterGroup where
  groupId : Str := []
deriving DecidableEq, Repr

def RegisterGroup.serialize (type : MsgType) (msg : RegisterGroup) : List UInt8 :=
  type.code :: writeString msg.groupId

def deserializeRegisterGroup : Deserializer RegisterGroup :=
  deserialize {} (RegisterGroup.mk <$> readString)

structure RegisterActor where
  groupId : Str := []
  actorId : Str := []
deriving DecidableEq, Repr

def RegisterActor.serialize (type : MsgType) (msg : RegisterActor) : List UInt8 :=
  type.code :: (writeString msg.groupId ++ writeString msg.actorId)

def deserializeRegisterActor : Deserializer RegisterActor :=
  deserialize {} (RegisterActor.mk <$> readString <*> readString)

structure RegisterAck where
  id : Str := []
deriving DecidableEq, Repr

def RegisterAck.serialize (type : MsgType) (msg : RegisterAck) : List UInt8 :=
  type.code :: writeString msg.id

def deserializeRegisterAck : Deserializer RegisterAck :=
  deserialize {} (RegisterAck.mk <$> readString)

structure RegisterNack where
  id : Str := []
  reason : Str := []
deriving DecidableEq, Repr

def RegisterNack.serialize (type : MsgType) (msg : RegisterNack) : List UInt8 :=
  type.code :: (writeString msg.id ++ writeString msg.reason)

def deserializeRegisterNack : Deserializer RegisterNack :=
  deserialize {} (RegisterNack.mk <$> readString <*> readString)

/-! ### Permission -/

structure PermissionToken where
  recipientId : Str := []
  senderId : Str := []
  timestamp : UInt64 := 0
  messageType : Str := []
deriving DecidableEq, Repr

def PermissionToken.serialize (type : MsgType) (msg : PermissionToken) : List UInt8 :=
  type.code :: (writeString msg.recipientId ++ writeString msg.senderId ++
    writeUint64 msg.timestamp ++ writeString msg.messageType)

/-- Without a type of the message, as old clients send it, that stays empty. -/
def deserializePermissionToken : Deserializer PermissionToken :=
  deserialize {} (PermissionToken.mk <$> readString <*> readString <*> readUint64 <*>
    ifLeft [] readString)

structure PermissionRequest where
  actorId : Str := []
  groupId : Str := []
deriving DecidableEq, Repr

def PermissionRequest.serialize (type : MsgType) (msg : PermissionRequest) : List UInt8 :=
  type.code :: (writeString msg.actorId ++ writeString msg.groupId)

def deserializePermissionRequest : Deserializer PermissionRequest :=
  deserialize {} (PermissionRequest.mk <$> readString <*> readString)

structure PermissionGrant where
  actorId : Str := []
  sequence : UInt64 := 0
deriving DecidableEq, Repr

def PermissionGrant.serialize (type : MsgType) (msg : PermissionGrant) : List UInt8 :=
  type.code :: (writeString msg.actorId ++ writeUint64 msg.sequence)

def deserializePermissionGrant : Deserializer PermissionGrant :=
  deserialize {} (PermissionGrant.mk <$> readString <*> readUint64)

structure PermissionWait where
  actorId : Str := []
  position : UInt32 := 0
deriving DecidableEq, Repr

def PermissionWait.serialize (type : MsgType) (msg : PermissionWait) : List UInt8 :=
  type.code :: (writeString msg.actorId ++ writeUint32 msg.position)

def deserializePermissionWait : Deserializer PermissionWait :=
  deserialize {} (PermissionWait.mk <$> readString <*> readUint32)

structure PermissionDone where
  actorId : Str := []
  sequence : UInt64 := 0
deriving DecidableEq, Repr

def PermissionDone.serialize (type : MsgType) (msg : PermissionDone) : List UInt8 :=
  type.code :: (writeString msg.actorId ++ writeUint64 msg.sequence)

def deserializePermissionDone : Deserializer PermissionDone :=
  deserialize {} (PermissionDone.mk <$> readString <*> readUint64)

/-! ### Shutdown -/

structure ShutdownRequest where
  groupId : Str := []
  reason : Str := []
deriving DecidableEq, Repr

def ShutdownRequest.serialize (type : MsgType) (msg : ShutdownRequest) : List UInt8 :=
  type.code :: (writeString msg.groupId ++ writeString msg.reason)

def deserializeShutdownRequest : Deserializer ShutdownRequest :=
  deserialize {} (ShutdownRequest.mk <$> readString <*> readString)

structure Shutdown where
  reason : Str := []
deriving DecidableEq, Repr

def Shutdown.serialize (type : MsgType) (msg : Shutdown) : List UInt8 :=
  type.code :: writeString msg.reason

def deserializeShutdown : Deserializer Shutdown :=
  deserialize {} (Shutdown.mk <$> readString)

structure ShutdownAck where
  groupId : Str := []
deriving DecidableEq, Repr

def ShutdownAck.serialize (type : MsgType) (msg : ShutdownAck) : List UInt8 :=
  type.code :: writeString msg.groupId

def deserializeShutdownAck : Deserializer ShutdownAck :=
  deserialize {} (ShutdownAck.mk <$> readString)

/-! ### The global registry -/

structure RegisterManager where
  managerId : Str := []
  endpoint : Str := []
  actors : List Str := []
deriving DecidableEq, Repr

def RegisterManager.serialize (type : MsgType) (msg : RegisterManager) : List UInt8 :=
  type.code :: (writeString msg.managerId ++ writeString msg.endpoint ++
    writeStringVector msg.actors)

def deserializeRegisterManager : Deserializer RegisterManager :=
  deserialize {} (RegisterManager.mk <$> readString <*> readString <*> readStringVector)

structure UnregisterManager where
  managerId : Str := []
deriving DecidableEq, Repr

def UnregisterManager.serialize (type : MsgType) (msg : UnregisterManager) : List UInt8 :=
  type.code :: writeString msg.managerId

def deserializeUnregisterManager : Deserializer UnregisterManager :=
  deserialize {} (UnregisterManager.mk <$> readString)

structure LookupActor where
  name : Str := []
  requesterId : Str := []
deriving DecidableEq, Repr

def LookupActor.serialize (type : MsgType) (msg : LookupActor) : List UInt8 :=
  type.code :: (writeString msg.name ++ writeString msg.requesterId)

def deserializeLookupActor : Deserializer LookupActor :=
  deserialize {} (LookupActor.mk <$> readString <*> readString)

structure LookupResult where
  actorId : Str := []
  found : Bool := false
  ambiguous : Bool := false
  endpoint : Str := []
  managerId : Str := []
deriving DecidableEq, Repr

def LookupResult.serialize (type : MsgType) (msg : LookupResult) : List UInt8 :=
  type.code :: (writeString msg.actorId ++ writeBool msg.found ++ writeBool msg.ambiguous ++
    writeString msg.endpoint ++ writeString msg.managerId)

def deserializeLookupResult : Deserializer LookupResult :=
  deserialize {} (LookupResult.mk <$> readString <*> readBool <*> readBool <*> readString <*>
    readString)

structure Heartbeat where
  managerId : Str := []
deriving DecidableEq, Repr

def Heartbeat.serialize (type : MsgType) (msg : Heartbeat) : List UInt8 :=
  type.code :: writeString msg.managerId

def deserializeHeartbeat : Deserializer Heartbeat :=
  deserialize {} (Heartbeat.mk <$> readString)

structure HeartbeatAck where
  timestamp : UInt64 := 0
deriving DecidableEq, Repr

def HeartbeatAck.serialize (type : MsgType) (msg : HeartbeatAck) : List UInt8 :=
  type.code :: writeUint64 msg.timestamp

def deserializeHeartbeatAck : Deserializer HeartbeatAck :=
  deserialize {} (HeartbeatAck.mk <$> readUint64)

/-! ### Debugging -/

structure DebugStop where
  reason : Str := []
deriving DecidableEq, Repr

def DebugStop.serialize (type : MsgType) (msg : DebugStop) : List UInt8 :=
  type.code :: writeString msg.reason

def deserializeDebugStop : Deserializer DebugStop :=
  deserialize {} (DebugStop.mk <$> readString)

structure DebugContinue where
deriving DecidableEq, Repr

def DebugContinue.serialize (type : MsgType) (_ : DebugContinue) : List UInt8 := [type.code]

def deserializeDebugContinue : Deserializer DebugContinue := ignore {}

structure DebugAddBreakpoint where
  pattern : Str := []
deriving DecidableEq, Repr

def DebugAddBreakpoint.serialize (type : MsgType) (msg : DebugAddBreakpoint) : List UInt8 :=
  type.code :: writeString msg.pattern

def deserializeDebugAddBreakpoint : Deserializer DebugAddBreakpoint :=
  deserialize {} (DebugAddBreakpoint.mk <$> readString)

structure DebugRemoveBreakpoint where
  breakpointId : UInt32 := 0
deriving DecidableEq, Repr

def DebugRemoveBreakpoint.serialize (type : MsgType) (msg : DebugRemoveBreakpoint) : List UInt8 :=
  type.code :: writeUint32 msg.breakpointId

def deserializeDebugRemoveBreakpoint : Deserializer DebugRemoveBreakpoint :=
  deserialize {} (DebugRemoveBreakpoint.mk <$> readUint32)

structure DebugListBreakpoints where
deriving DecidableEq, Repr

def DebugListBreakpoints.serialize (type : MsgType) (_ : DebugListBreakpoints) : List UInt8 :=
  [type.code]

def deserializeDebugListBreakpoints : Deserializer DebugListBreakpoints := ignore {}

structure DebugBreakpointsResponse where
  ids : List UInt32 := []
  patterns : List Str := []
deriving DecidableEq, Repr

def DebugBreakpointsResponse.serialize (type : MsgType) (msg : DebugBreakpointsResponse) :
    List UInt8 :=
  type.code :: (writeUint32Vector msg.ids ++ writeStringVector msg.patterns)

def deserializeDebugBreakpointsResponse : Deserializer DebugBreakpointsResponse :=
  deserialize {} (DebugBreakpointsResponse.mk <$> readUint32Vector <*> readStringVector)

structure DebugListGroups where
deriving DecidableEq, Repr

def DebugListGroups.serialize (type : MsgType) (_ : DebugListGroups) : List UInt8 := [type.code]

def deserializeDebugListGroups : Deserializer DebugListGroups := ignore {}

structure DebugGroupsResponse where
  groups : List Str := []
deriving DecidableEq, Repr

def DebugGroupsResponse.serialize (type : MsgType) (msg : DebugGroupsResponse) : List UInt8 :=
  type.code :: writeStringVector msg.groups

def deserializeDebugGroupsResponse : Deserializer DebugGroupsResponse :=
  deserialize {} (DebugGroupsResponse.mk <$> readStringVector)

structure DebugListActors where
  groupId : Str := []
deriving DecidableEq, Repr

def DebugListActors.serialize (type : MsgType) (msg : DebugListActors) : List UInt8 :=
  type.code :: writeString msg.groupId

def deserializeDebugListActors : Deserializer DebugListActors :=
  deserialize {} (DebugListActors.mk <$> readString)

structure DebugActorsResponse where
  groupId : Str := []
  actors : List Str := []
deriving DecidableEq, Repr

def DebugActorsResponse.serialize (type : MsgType) (msg : DebugActorsResponse) : List UInt8 :=
  type.code :: (writeString msg.groupId ++ writeStringVector msg.actors)

def deserializeDebugActorsResponse : Deserializer DebugActorsResponse :=
  deserialize {} (DebugActorsResponse.mk <$> readString <*> readStringVector)

structure DebugStatus where
deriving DecidableEq, Repr

def DebugStatus.serialize (type : MsgType) (_ : DebugStatus) : List UInt8 := [type.code]

def deserializeDebugStatus : Deserializer DebugStatus := ignore {}

structure DebugStatusResponse where
  stopped : Bool := false
  stoppedReason : Str := []
  currentSequence : UInt64 := 0
  queueSize : UInt32 := 0
  activeActor : Str := []
  loggingEnabled : Bool := false
deriving DecidableEq, Repr

def DebugStatusResponse.serialize (type : MsgType) (msg : DebugStatusResponse) : List UInt8 :=
  type.code :: (writeBool msg.stopped ++ writeString msg.stoppedReason ++
    writeUint64 msg.currentSequence ++ writeUint32 msg.queueSize ++ writeString msg.activeActor ++
    writeBool msg.loggingEnabled)

def deserializeDebugStatusResponse : Deserializer DebugStatusResponse :=
  deserialize {} (DebugStatusResponse.mk <$> readBool <*> readString <*> readUint64 <*>
    readUint32 <*> readString <*> readBool)

structure DebugSetLogging where
  enabled : Bool := false
deriving DecidableEq, Repr

def DebugSetLogging.serialize (type : MsgType) (msg : DebugSetLogging) : List UInt8 :=
  type.code :: writeBool msg.enabled

def deserializeDebugSetLogging : Deserializer DebugSetLogging :=
  deserialize {} (DebugSetLogging.mk <$> readBool)

structure DebugLoggingResponse where
  enabled : Bool := false
deriving DecidableEq, Repr

def DebugLoggingResponse.serialize (type : MsgType) (msg : DebugLoggingResponse) : List UInt8 :=
  type.code :: writeBool msg.enabled

def deserializeDebugLoggingResponse : Deserializer DebugLoggingResponse :=
  deserialize {} (DebugLoggingResponse.mk <$> readBool)

structure DebugGetQueue where
deriving DecidableEq, Repr

def DebugGetQueue.serialize (type : MsgType) (_ : DebugGetQueue) : List UInt8 := [type.code]

def deserializeDebugGetQueue : Deserializer DebugGetQueue := ignore {}

structure DebugQueueResponse where
  recipientIds : List Str := []
  senderIds : List Str := []
  timestamps : List UInt64 := []
deriving DecidableEq, Repr

def DebugQueueResponse.serialize (type : MsgType) (msg : DebugQueueResponse) : List UInt8 :=
  type.code :: (writeStringVector msg.recipientIds ++ writeStringVector msg.senderIds ++
    writeUint64Vector msg.timestamps)

def deserializeDebugQueueResponse : Deserializer DebugQueueResponse :=
  deserialize {} (DebugQueueResponse.mk <$> readStringVector <*> readStringVector <*>
    readUint64Vector)

structure DebugBreakpointAdded where
  breakpointId : UInt32 := 0
  pattern : Str := []
deriving DecidableEq, Repr

def DebugBreakpointAdded.serialize (type : MsgType) (msg : DebugBreakpointAdded) : List UInt8 :=
  type.code :: (writeUint32 msg.breakpointId ++ writeString msg.pattern)

def deserializeDebugBreakpointAdded : Deserializer DebugBreakpointAdded :=
  deserialize {} (DebugBreakpointAdded.mk <$> readUint32 <*> readString)

structure DebugFlush where
deriving DecidableEq, Repr

def DebugFlush.serialize (type : MsgType) (_ : DebugFlush) : List UInt8 := [type.code]

def deserializeDebugFlush : Deserializer DebugFlush := ignore {}

/-! ### Queries of the registry -/

structure ListManagers where
deriving DecidableEq, Repr

def ListManagers.serialize (type : MsgType) (_ : ListManagers) : List UInt8 := [type.code]

def deserializeListManagers : Deserializer ListManagers := ignore {}

structure ManagersResponse where
  managerIds : List Str := []
  endpoints : List Str := []
deriving DecidableEq, Repr

def ManagersResponse.serialize (type : MsgType) (msg : ManagersResponse) : List UInt8 :=
  type.code :: (writeStringVector msg.managerIds ++ writeStringVector msg.endpoints)

def deserializeManagersResponse : Deserializer ManagersResponse :=
  deserialize {} (ManagersResponse.mk <$> readStringVector <*> readStringVector)

structure ListAllActors where
deriving DecidableEq, Repr

def ListAllActors.serialize (type : MsgType) (_ : ListAllActors) : List UInt8 := [type.code]

def deserializeListAllActors : Deserializer ListAllActors := ignore {}

structure AllActorsResponse where
  actorNames : List Str := []
  managerIds : List Str := []
deriving DecidableEq, Repr

def AllActorsResponse.serialize (type : MsgType) (msg : AllActorsResponse) : List UInt8 :=
  type.code :: (writeStringVector msg.actorNames ++ writeStringVector msg.managerIds)

def deserializeAllActorsResponse : Deserializer AllActorsResponse :=
  deserialize {} (AllActorsResponse.mk <$> readStringVector <*> readStringVector)

/-! ### All of them -/

/-- What a message of a type holds. -/
def MsgType.Value : MsgType → Type
  | .registerGroup => RegisterGroup
  | .registerActor => RegisterActor
  | .registerAck => RegisterAck
  | .registerNack => RegisterNack
  | .permissionToken => PermissionToken
  | .permissionRequest => PermissionRequest
  | .permissionGrant => PermissionGrant
  | .permissionWait => PermissionWait
  | .permissionDone => PermissionDone
  | .shutdownRequest => ShutdownRequest
  | .shutdown => Shutdown
  | .shutdownAck => ShutdownAck
  | .registerManager => RegisterManager
  | .unregisterManager => UnregisterManager
  | .lookupActor => LookupActor
  | .lookupResult => LookupResult
  | .heartbeat => Heartbeat
  | .heartbeatAck => HeartbeatAck
  | .debugStop => DebugStop
  | .debugContinue => DebugContinue
  | .debugAddBreakpoint => DebugAddBreakpoint
  | .debugRemoveBreakpoint => DebugRemoveBreakpoint
  | .debugListBreakpoints => DebugListBreakpoints
  | .debugBreakpointsResponse => DebugBreakpointsResponse
  | .debugListGroups => DebugListGroups
  | .debugGroupsResponse => DebugGroupsResponse
  | .debugListActors => DebugListActors
  | .debugActorsResponse => DebugActorsResponse
  | .debugStatus => DebugStatus
  | .debugStatusResponse => DebugStatusResponse
  | .debugSetLogging => DebugSetLogging
  | .debugLoggingResponse => DebugLoggingResponse
  | .debugGetQueue => DebugGetQueue
  | .debugQueueResponse => DebugQueueResponse
  | .debugBreakpointAdded => DebugBreakpointAdded
  | .debugFlush => DebugFlush
  | .listManagers => ListManagers
  | .managersResponse => ManagersResponse
  | .listAllActors => ListAllActors
  | .allActorsResponse => AllActorsResponse

def MsgType.serialize : (k : MsgType) → MsgType → k.Value → List UInt8
  | .registerGroup => RegisterGroup.serialize
  | .registerActor => RegisterActor.serialize
  | .registerAck => RegisterAck.serialize
  | .registerNack => RegisterNack.serialize
  | .permissionToken => PermissionToken.serialize
  | .permissionRequest => PermissionRequest.serialize
  | .permissionGrant => PermissionGrant.serialize
  | .permissionWait => PermissionWait.serialize
  | .permissionDone => PermissionDone.serialize
  | .shutdownRequest => ShutdownRequest.serialize
  | .shutdown => Shutdown.serialize
  | .shutdownAck => ShutdownAck.serialize
  | .registerManager => RegisterManager.serialize
  | .unregisterManager => UnregisterManager.serialize
  | .lookupActor => LookupActor.serialize
  | .lookupResult => LookupResult.serialize
  | .heartbeat => Heartbeat.serialize
  | .heartbeatAck => HeartbeatAck.serialize
  | .debugStop => DebugStop.serialize
  | .debugContinue => DebugContinue.serialize
  | .debugAddBreakpoint => DebugAddBreakpoint.serialize
  | .debugRemoveBreakpoint => DebugRemoveBreakpoint.serialize
  | .debugListBreakpoints => DebugListBreakpoints.serialize
  | .debugBreakpointsResponse => DebugBreakpointsResponse.serialize
  | .debugListGroups => DebugListGroups.serialize
  | .debugGroupsResponse => DebugGroupsResponse.serialize
  | .debugListActors => DebugListActors.serialize
  | .debugActorsResponse => DebugActorsResponse.serialize
  | .debugStatus => DebugStatus.serialize
  | .debugStatusResponse => DebugStatusResponse.serialize
  | .debugSetLogging => DebugSetLogging.serialize
  | .debugLoggingResponse => DebugLoggingResponse.serialize
  | .debugGetQueue => DebugGetQueue.serialize
  | .debugQueueResponse => DebugQueueResponse.serialize
  | .debugBreakpointAdded => DebugBreakpointAdded.serialize
  | .debugFlush => DebugFlush.serialize
  | .listManagers => ListManagers.serialize
  | .managersResponse => ManagersResponse.serialize
  | .listAllActors => ListAllActors.serialize
  | .allActorsResponse => AllActorsResponse.serialize

def MsgType.deserialize : (k : MsgType) → Deserializer k.Value
  | .registerGroup => deserializeRegisterGroup
  | .registerActor => deserializeRegisterActor
  | .registerAck => deserializeRegisterAck
  | .registerNack => deserializeRegisterNack
  | .permissionToken => deserializePermissionToken
  | .permissionRequest => deserializePermissionRequest
  | .permissionGrant => deserializePermissionGrant
  | .permissionWait => deserializePermissionWait
  | .permissionDone => deserializePermissionDone
  | .shutdownRequest => deserializeShutdownRequest
  | .shutdown => deserializeShutdown
  | .shutdownAck => deserializeShutdownAck
  | .registerManager => deserializeRegisterManager
  | .unregisterManager => deserializeUnregisterManager
  | .lookupActor => deserializeLookupActor
  | .lookupResult => deserializeLookupResult
  | .heartbeat => deserializeHeartbeat
  | .heartbeatAck => deserializeHeartbeatAck
  | .debugStop => deserializeDebugStop
  | .debugContinue => deserializeDebugContinue
  | .debugAddBreakpoint => deserializeDebugAddBreakpoint
  | .debugRemoveBreakpoint => deserializeDebugRemoveBreakpoint
  | .debugListBreakpoints => deserializeDebugListBreakpoints
  | .debugBreakpointsResponse => deserializeDebugBreakpointsResponse
  | .debugListGroups => deserializeDebugListGroups
  | .debugGroupsResponse => deserializeDebugGroupsResponse
  | .debugListActors => deserializeDebugListActors
  | .debugActorsResponse => deserializeDebugActorsResponse
  | .debugStatus => deserializeDebugStatus
  | .debugStatusResponse => deserializeDebugStatusResponse
  | .debugSetLogging => deserializeDebugSetLogging
  | .debugLoggingResponse => deserializeDebugLoggingResponse
  | .debugGetQueue => deserializeDebugGetQueue
  | .debugQueueResponse => deserializeDebugQueueResponse
  | .debugBreakpointAdded => deserializeDebugBreakpointAdded
  | .debugFlush => deserializeDebugFlush
  | .listManagers => deserializeListManagers
  | .managersResponse => deserializeManagersResponse
  | .listAllActors => deserializeListAllActors
  | .allActorsResponse => deserializeAllActorsResponse

end KasparHft.Messages
