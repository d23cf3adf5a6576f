import KasparHft.Messages

/-!
# Messages come back as they were sent

What is written of a message is read back, for all types and all contents that a length of four
bytes can tell; and of any bytes, cut or corrupted, no reader takes one that is not there.
-/

namespace KasparHft.Messages

open LittleEndian ByteReader

/-! ### Fields -/

/-- Its length fits four bytes. -/
def Short {α : Type} (l : List α) : Prop := l.length < 2 ^ 32

instance {α : Type} (l : List α) : Decidable (Short l) := inferInstanceAs (Decidable (_ < _))

/-- Strings that are short, and not too many. -/
def ShortAll (vec : List Str) : Prop := Short vec ∧ ∀ s ∈ vec, Short s

instance (vec : List Str) : Decidable (ShortAll vec) :=
  inferInstanceAs (Decidable (_ ∧ ∀ s ∈ vec, _))

theorem reads_uint64 (v : UInt64) : Reads readUint64 (writeUint64 v) v := by
  have hread := (reads_number (n := 8) v.toNat_lt).map UInt64.ofNat
  rwa [UInt64.ofNat_toNat] at hread

theorem reads_uint32 (v : UInt32) : Reads readUint32 (writeUint32 v) v := by
  have hread := (reads_number (n := 4) v.toNat_lt).map UInt32.ofNat
  rwa [UInt32.ofNat_toNat] at hread

theorem reads_bool (v : Bool) : Reads readBool (writeBool v) v := by
  have hwrite : writeBool v = toBytes 1 (if v then 1 else 0) := by cases v <;> rfl
  have hread := (reads_number (n := 1) (v := if v then 1 else 0) (by split <;> decide)).map
    fun n => n != 0
  rw [hwrite]
  cases v with
  | true => exact hread
  | false => exact hread

theorem length_writeUint32 (v : UInt32) : (writeUint32 v).length = 4 := length_toBytes 4 _

/-- **A string is read back**, whatever its bytes are. -/
theorem reads_string {s : Str} (h : Short s) : Reads readString (writeString s) s := by
  have hlen := reads_take (writeUint32 (UInt32.ofNat s.length))
  rw [length_writeUint32] at hlen
  refine hlen.bind ?_
  have hofBytes : ofBytes (writeUint32 (UInt32.ofNat s.length)) = s.length := by
    unfold writeUint32
    rw [UInt32.toNat_ofNat_of_lt' h]
    exact ofBytes_toBytes_of_lt h
  change Reads ((fun bs => bs.getD []) <$> take (ofBytes _)) s s
  rw [hofBytes]
  exact (reads_take s).map fun bs => bs.getD []

theorem writeUint32_ne_nil (v : UInt32) : writeUint32 v ≠ [] := by
  simp [writeUint32, toBytes]

theorem writeUint64_ne_nil (v : UInt64) : writeUint64 v ≠ [] := by
  simp [writeUint64, toBytes]

/-- Even an empty string is four bytes, so that the loop of a vector goes on. -/
theorem writeString_ne_nil (s : Str) : writeString s ≠ [] := by
  simp [writeString, writeUint32_ne_nil]

theorem reads_vector {α : Type} {read : Reader α} {write : α → List UInt8} {vec : List α}
    (h : ∀ x ∈ vec, Reads read (write x) x) (hne : ∀ x, write x ≠ []) (hshort : Short vec) :
    Reads (readVector read) (writeVector write vec) vec := by
  refine (reads_uint32 (UInt32.ofNat vec.length)).bind ?_
  rw [UInt32.toNat_ofNat_of_lt' hshort]
  exact reads_many h hne

theorem reads_stringVector {vec : List Str} (h : ShortAll vec) :
    Reads readStringVector (writeStringVector vec) vec :=
  reads_vector (fun s hs => reads_string (h.2 s hs)) writeString_ne_nil h.1

theorem reads_uint32Vector {vec : List UInt32} (h : Short vec) :
    Reads readUint32Vector (writeUint32Vector vec) vec :=
  reads_vector (fun v _ => reads_uint32 v) writeUint32_ne_nil h

theorem reads_uint64Vector {vec : List UInt64} (h : Short vec) :
    Reads readUint64Vector (writeUint64Vector vec) vec :=
  reads_vector (fun v _ => reads_uint64 v) writeUint64_ne_nil h

/-- The type that old clients leave out is always written. -/
theorem reads_messageType {s : Str} (h : Short s) :
    Reads (ifLeft [] readString) (writeString s) s :=
  (reads_string h).ifLeft (writeString_ne_nil s) []

/-! ### Messages -/

/-- The strings and vectors of a message are short. -/
def MsgType.Fits : (k : MsgType) → k.Value → Prop
  | .registerGroup, msg => Short msg.groupId
  | .registerActor, msg => Short msg.groupId ∧ Short msg.actorId
  | .registerAck, msg => Short msg.id
  | .registerNack, msg => Short msg.id ∧ Short msg.reason
  | .permissionToken, msg => Short msg.recipientId ∧ Short msg.senderId ∧ Short msg.messageType
  | .permissionRequest, msg => Short msg.actorId ∧ Short msg.groupId
  | .permissionGrant, msg => Short msg.actorId
  | .permissionWait, msg => Short msg.actorId
  | .permissionDone, msg => Short msg.actorId
  | .shutdownRequest, msg => Short msg.groupId ∧ Short msg.reason
  | .shutdown, msg => Short msg.reason
  | .shutdownAck, msg => Short msg.groupId
  | .registerManager, msg => Short msg.managerId ∧ Short msg.endpoint ∧ ShortAll msg.actors
  | .unregisterManager, msg => Short msg.managerId
  | .lookupActor, msg => Short msg.name ∧ Short msg.requesterId
  | .lookupResult, msg => Short msg.actorId ∧ Short msg.endpoint ∧ Short msg.managerId
  | .heartbeat, msg => Short msg.managerId
  | .debugStop, msg => Short msg.reason
  | .debugAddBreakpoint, msg => Short msg.pattern
  | .debugBreakpointsResponse, msg => Short msg.ids ∧ ShortAll msg.patterns
  | .debugGroupsResponse, msg => ShortAll msg.groups
  | .debugListActors, msg => Short msg.groupId
  | .debugActorsResponse, msg => Short msg.groupId ∧ ShortAll msg.actors
  | .debugStatusResponse, msg => Short msg.stoppedReason ∧ Short msg.activeActor
  | .debugQueueResponse, msg =>
      ShortAll msg.recipientIds ∧ ShortAll msg.senderIds ∧ Short msg.timestamps
  | .debugBreakpointAdded, msg => Short msg.pattern
  | .managersResponse, msg => ShortAll msg.managerIds ∧ ShortAll msg.endpoints
  | .allActorsResponse, msg => ShortAll msg.actorNames ∧ ShortAll msg.managerIds
  | .heartbeatAck, _ | .debugContinue, _ | .debugRemoveBreakpoint, _ | .debugListBreakpoints, _
  | .debugListGroups, _ | .debugStatus, _ | .debugSetLogging, _ | .debugLoggingResponse, _
  | .debugGetQueue, _ | .debugFlush, _ | .listManagers, _ | .listAllActors, _ => True

/-- What is to be shown of a serializer and its deserializer. -/
structure Exact {α : Type} (Fits : α → Prop) (serialize : MsgType → α → List UInt8)
    (deserialize : Deserializer α) : Prop where
  head : ∀ type msg, (serialize type msg).head? = some type.code
  back : ∀ type msg, Fits msg → ∀ mem data,
    (List.range' data (serialize type msg).length).map mem = serialize type msg →
      (deserialize mem data (serialize type msg).length).1 = msg
  within : ∀ mem data len, Advances (data + len) ⟨data, []⟩ (deserialize mem data len).2

theorem exact_of_reads {α : Type} {Fits : α → Prop} {payload : α → List UInt8} {msg₀ : α}
    {read : Reader α} (h : ∀ msg, Fits msg → Reads read (payload msg) msg) :
    Exact Fits (fun type msg => type.code :: payload msg) (deserialize msg₀ read) where
  head := fun _ _ => rfl
  back := by
    intro type msg hfits mem data hmem
    rw [List.length_cons, List.range'_succ, List.map_cons, List.cons.injEq] at hmem
    have hread := h msg hfits mem (data + (payload msg).length.succ) ⟨data + 1, []⟩ hmem.2
      (by simp only; omega)
    exact hread.1
  within := by
    intro mem data len
    unfold deserialize
    split
    next => exact .refl (Nat.le_add_right _ _)
    next hlen =>
      have hrun := read.advances mem (data + len) ⟨data + 1, []⟩ (by simp only; omega)
      obtain ⟨new, hreads, hbetween, hordered⟩ := hrun.reads
      have hle : data + 1 ≤ (read.run mem (data + len) ⟨data + 1, []⟩).2.ptr := hrun.le
      refine ⟨by simp only; omega, hrun.within, new, hreads, fun a ha => ?_, hordered⟩
      have hlt : data + 1 ≤ a ∧ _ := hbetween a ha
      exact ⟨by simp only; omega, hlt.2⟩

theorem exact_of_ignore {α : Type} (msg₀ : α) (h : ∀ msg, msg = msg₀) :
    Exact (fun _ => True) (fun type (_ : α) => [type.code]) (ignore msg₀) where
  head := fun _ _ => rfl
  back := fun _ msg _ _ _ _ => (h msg).symm
  within := fun _ _ _ => .refl (Nat.le_add_right _ _)

/-- **Every pair is exact**, field by field. -/
theorem MsgType.exact : ∀ k : MsgType, Exact k.Fits k.serialize k.deserialize
  | .registerGroup => exact_of_reads fun _ h => (reads_string h).map _
  | .registerActor => exact_of_reads fun _ h => ((reads_string h.1).map _).seq (reads_string h.2)
  | .registerAck => exact_of_reads fun _ h => (reads_string h).map _
  | .registerNack => exact_of_reads fun _ h => ((reads_string h.1).map _).seq (reads_string h.2)
  | .permissionToken => exact_of_reads fun msg h =>
      ((((reads_string h.1).map _).seq (reads_string h.2.1)).seq
        (reads_uint64 msg.timestamp)).seq (reads_messageType h.2.2)
  | .permissionRequest => exact_of_reads fun _ h =>
      ((reads_string h.1).map _).seq (reads_string h.2)
  | .permissionGrant => exact_of_reads fun msg h =>
      ((reads_string h).map _).seq (reads_uint64 msg.sequence)
  | .permissionWait => exact_of_reads fun msg h =>
      ((reads_string h).map _).seq (reads_uint32 msg.position)
  | .permissionDone => exact_of_reads fun msg h =>
      ((reads_string h).map _).seq (reads_uint64 msg.sequence)
  | .shutdownRequest => exact_of_reads fun _ h =>
      ((reads_string h.1).map _).seq (reads_string h.2)
  | .shutdown => exact_of_reads fun _ h => (reads_string h).map _
  | .shutdownAck => exact_of_reads fun _ h => (reads_string h).map _
  | .registerManager => exact_of_reads fun _ h =>
      (((reads_string h.1).map _).seq (reads_string h.2.1)).seq (reads_stringVector h.2.2)
  | .unregisterManager => exact_of_reads fun _ h => (reads_string h).map _
  | .lookupActor => exact_of_reads fun _ h => ((reads_string h.1).map _).seq (reads_string h.2)
  | .lookupResult => exact_of_reads fun msg h =>
      (((((reads_string h.1).map _).seq (reads_bool msg.found)).seq
        (reads_bool msg.ambiguous)).seq (reads_string h.2.1)).seq (reads_string h.2.2)
  | .heartbeat => exact_of_reads fun _ h => (reads_string h).map _
  | .heartbeatAck => exact_of_reads fun msg _ => (reads_uint64 msg.timestamp).map _
  | .debugStop => exact_of_reads fun _ h => (reads_string h).map _
  | .debugContinue => exact_of_ignore DebugContinue.mk fun _ => rfl
  | .debugAddBreakpoint => exact_of_reads fun _ h => (reads_string h).map _
  | .debugRemoveBreakpoint => exact_of_reads fun msg _ => (reads_uint32 msg.breakpointId).map _
  | .debugListBreakpoints => exact_of_ignore DebugListBreakpoints.mk fun _ => rfl
  | .debugBreakpointsResponse => exact_of_reads fun _ h =>
      ((reads_uint32Vector h.1).map _).seq (reads_stringVector h.2)
  | .debugListGroups => exact_of_ignore DebugListGroups.mk fun _ => rfl
  | .debugGroupsResponse => exact_of_reads fun _ h => (reads_stringVector h).map _
  | .debugListActors => exact_of_reads fun _ h => (reads_string h).map _
  | .debugActorsResponse => exact_of_reads fun _ h =>
      ((reads_string h.1).map _).seq (reads_stringVector h.2)
  | .debugStatus => exact_of_ignore DebugStatus.mk fun _ => rfl
  | .debugStatusResponse => exact_of_reads fun msg h =>
      ((((((reads_bool msg.stopped).map _).seq (reads_string h.1)).seq
        (reads_uint64 msg.currentSequence)).seq (reads_uint32 msg.queueSize)).seq
        (reads_string h.2)).seq (reads_bool msg.loggingEnabled)
  | .debugSetLogging => exact_of_reads fun msg _ => (reads_bool msg.enabled).map _
  | .debugLoggingResponse => exact_of_reads fun msg _ => (reads_bool msg.enabled).map _
  | .debugGetQueue => exact_of_ignore DebugGetQueue.mk fun _ => rfl
  | .debugQueueResponse => exact_of_reads fun _ h =>
      (((reads_stringVector h.1).map _).seq (reads_stringVector h.2.1)).seq
        (reads_uint64Vector h.2.2)
  | .debugBreakpointAdded => exact_of_reads fun msg h =>
      ((reads_uint32 msg.breakpointId).map _).seq (reads_string h)
  | .debugFlush => exact_of_ignore DebugFlush.mk fun _ => rfl
  | .listManagers => exact_of_ignore ListManagers.mk fun _ => rfl
  | .managersResponse => exact_of_reads fun _ h =>
      ((reads_stringVector h.1).map _).seq (reads_stringVector h.2)
  | .listAllActors => exact_of_ignore ListAllActors.mk fun _ => rfl
  | .allActorsResponse => exact_of_reads fun _ h =>
      ((reads_stringVector h.1).map _).seq (reads_stringVector h.2)

theorem MsgType.ofCode_code (t : MsgType) : MsgType.ofCode t.code = some t := by
  cases t <;> decide

/-- **The wire format**, for each type of message.  What is serialized, under whatever type it is
    sent, is read back as it was, and its type too; and of any bytes a deserializer reads only
    those that are there, each once and in order, and stops among them. -/
theorem serialize_deserialize (k type : MsgType) :
    (∀ msg : k.Value, k.Fits msg → ∀ mem data,
      (List.range' data (k.serialize type msg).length).map mem = k.serialize type msg →
        (k.deserialize mem data (k.serialize type msg).length).1 = msg ∧
          getType mem data (k.serialize type msg).length = some type) ∧
      ∀ mem data len,
        (∀ a ∈ (k.deserialize mem data len).2.reads, data ≤ a ∧ a < data + len) ∧
          (k.deserialize mem data len).2.reads.Pairwise (· < ·) ∧
          data ≤ (k.deserialize mem data len).2.ptr ∧
          (k.deserialize mem data len).2.ptr ≤ data + len := by
  have hexact := k.exact
  constructor
  · intro msg hfits mem data hmem
    refine ⟨hexact.back type msg hfits mem data hmem, ?_⟩
    obtain ⟨rest, hbytes⟩ := List.head?_eq_some_iff.mp (hexact.head type msg)
    rw [hbytes] at hmem ⊢
    rw [List.length_cons, List.range'_succ, List.map_cons, List.cons.injEq] at hmem
    simp only [getType, List.length_cons, Nat.lt_one_iff, Nat.succ_ne_zero, if_false, hmem.1]
    exact type.ofCode_code
  · intro mem data len
    obtain ⟨hle, hwithin, new, hreads, hbetween, hordered⟩ := hexact.within mem data len
    rw [List.nil_append] at hreads
    rw [hreads]
    exact ⟨fun a ha => ⟨(hbetween a ha).1, (hbetween a ha).2.trans_le hwithin⟩, hordered, hle,
      hwithin⟩

/-- The memory that holds some bytes from 0 on. -/
def holding (bs : List UInt8) (a : ℕ) : UInt8 := bs.getD a 0

theorem serialize_deserialize_managers :
    let msg : ManagersResponse := { managerIds := [[109, 49], []], endpoints := [[], []] }
    let bytes := msg.serialize .managersResponse
    (deserializeManagersResponse (holding bytes) 0 bytes.length).1 = msg ∧
      getType (holding bytes) 0 bytes.length = some .managersResponse :=
  (serialize_deserialize .managersResponse .managersResponse).1
    { managerIds := [[109, 49], []], endpoints := [[], []] }
    (show ShortAll _ ∧ ShortAll _ by decide) (holding _) 0 (by decide)

end KasparHft.Messages
