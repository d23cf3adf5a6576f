import KasparHft.GroupManager
import KasparHft.Machine
import KasparHft.Messages
import KasparHft.MultiMap
import Mathlib.Data.List.TakeWhile

/-!
# The registry of managers (`actors/registry/RegistryActor.hpp`, `RegistryActor.cpp`)

Managers register under an id with the names of their actors, and are forgotten when they
unregister or send no heartbeat for too long.  A lookup names an actor as `manager.actor` and is
answered from `managers_`; `actor_to_managers_` is an index from actors back to managers, kept
alongside.

The index is right after every history.  A lookup splits its name at the first `.`, and no
registration is refused: an actor of a manager whose id is empty or has a `.` in it is not found
under its own name, and one with a `.` in its name is found as an actor of a manager that is not
there.
-/

namespace KasparHft.RegistryActor

open AssocMap (Map)
open Messages MultiMap

structure ManagerInfo where
  managerId : Str
  endpoint : Str
  zmqIdentity : Str
  actors : List Str := []
  lastHeartbeat : Int
deriving DecidableEq, Repr

structure State where
  managers : Map Str ManagerInfo := ∅
  actorToManagers : Map Str (List Str) := ∅
  heartbeatTimeout : Int := 30
  lastTimeoutCheckMs : UInt64 := 0

/-- A message, decoded. -/
inductive Request where
  | empty
  | registerManager (msg : RegisterManager)
  | unregisterManager (msg : UnregisterManager)
  | lookupActor (msg : LookupActor)
  | heartbeat (msg : Heartbeat)
  | listManagers
  | listAllActors
  | unknown
deriving DecidableEq, Repr

/-- What the clocks say while a message is handled: the steady clock in nanoseconds, the system
    clock in milliseconds. -/
structure Clocks where
  steady : Int := 0
  ackMs : UInt64 := 0
  checkMs : UInt64 := 0
  checkSteady : Int := 0
deriving DecidableEq, Repr

/-- An `IncomingZmqMessage`, and when it is handled. -/
structure Event where
  identity : Str
  request : Request
  clocks : Clocks := {}
deriving DecidableEq, Repr

inductive Reply where
  | heartbeatAck (msg : HeartbeatAck)
  | lookupResult (msg : LookupResult)
  | managersResponse (msg : ManagersResponse)
  | allActorsResponse (msg : AllActorsResponse)
deriving DecidableEq, Repr

/-- A reply, with the identity it is sent to. -/
abbrev Output := Str × Reply

/-! ### Names -/

/-- `.` -/
def dot : UInt8 := 46

/-- The manager before the first `.`, and the actor after it. -/
def parseActorName (name : Str) : Str × Str :=
  if dot ∈ name then (name.takeWhile (· ≠ dot), (name.dropWhile (· ≠ dot)).tail)
  else ([], name)

/-- The name `manager.actor`. -/
def qualified (manager actor : Str) : Str := manager ++ dot :: actor

/-! ### Handlers -/

def notFound (name : Str) : LookupResult := { actorId := name }

def foundAt (name endpoint managerId : Str) : LookupResult :=
  { actorId := name, found := true, endpoint := endpoint, managerId := managerId }

def doLookup (s : State) (name : Str) : LookupResult :=
  let parsed := parseActorName name
  -- unqualified names are rejected
  if parsed.1 = [] then notFound name
  else
    match s.managers.lookup parsed.1 with
    | none => notFound name
    | some info =>
        if parsed.2 ∈ info.actors then foundAt name info.endpoint parsed.1 else notFound name

def unregisterManagerInternal (s : State) (managerId : Str) : State :=
  match s.managers.lookup managerId with
  | none => s
  | some info =>
      { s with
        actorToManagers := info.actors.foldl (fun m actor => drop m actor managerId)
          s.actorToManagers
        managers := s.managers.erase managerId }

def secondNs : Int := 1000000000

def checkHeartbeatTimeouts (s : State) (now : Int) : State :=
  let timedOut := (GroupManager.inOrder s.managers).filter fun e =>
    s.heartbeatTimeout < (now - e.2.lastHeartbeat).tdiv secondNs
  (timedOut.map Prod.fst).foldl unregisterManagerInternal s

def handleRegisterManager (s : State) (identity : Str) (msg : RegisterManager) (now : Int) :
    State :=
  let s := if s.managers.lookup msg.managerId ≠ none then
      unregisterManagerInternal s msg.managerId else s
  let info : ManagerInfo :=
    { managerId := msg.managerId
      endpoint := msg.endpoint
      zmqIdentity := identity
      actors := msg.actors.foldl (fun actors actor => setInsert actor actors) []
      lastHeartbeat := now }
  { s with
    actorToManagers := msg.actors.foldl (fun m actor => add m actor msg.managerId)
      s.actorToManagers
    managers := s.managers.insert msg.managerId info }

def handleHeartbeat (s : State) (identity : Str) (msg : Heartbeat) (now : Int) : State :=
  match s.managers.lookup msg.managerId with
  | none => s
  | some info =>
      { s with
        managers := s.managers.insert msg.managerId
          { info with lastHeartbeat := now, zmqIdentity := identity } }

def listManagers (s : State) : ManagersResponse :=
  let all := GroupManager.inOrder s.managers
  { managerIds := all.map Prod.fst, endpoints := all.map fun e => e.2.endpoint }

def listAllActors (s : State) : AllActorsResponse :=
  let all := (GroupManager.inOrder s.managers).flatMap fun e => e.2.actors.map fun a => (a, e.1)
  { actorNames := all.map Prod.fst, managerIds := all.map Prod.snd }

/-- The dispatch of `on_incoming_zmq`. -/
def dispatch (s : State) (e : Event) : State × List Output :=
  let ack : List Output := [(e.identity, .heartbeatAck { timestamp := e.clocks.ackMs })]
  match e.request with
  | .registerManager msg => (handleRegisterManager s e.identity msg e.clocks.steady, ack)
  | .unregisterManager msg => (unregisterManagerInternal s msg.managerId, [])
  | .lookupActor msg => (s, [(e.identity, .lookupResult (doLookup s msg.name))])
  | .heartbeat msg => (handleHeartbeat s e.identity msg e.clocks.steady, ack)
  | .listManagers => (s, [(e.identity, .managersResponse (listManagers s))])
  | .listAllActors => (s, [(e.identity, .allActorsResponse (listAllActors s))])
  | .empty => (s, [])
  | .unknown => (s, [])

def timeoutCheckIntervalMs : UInt64 := 5000

/-- `on_incoming_zmq`: the message, and the periodic check for heartbeat timeouts. -/
def onIncomingZmq (s : State) (e : Event) : State × List Output :=
  if e.request = .empty then (s, [])
  else
    let r := dispatch s e
    if timeoutCheckIntervalMs ≤ e.clocks.checkMs - r.1.lastTimeoutCheckMs then
      ({ checkHeartbeatTimeouts r.1 e.clocks.checkSteady with
          lastTimeoutCheckMs := e.clocks.checkMs }, r.2)
    else r

def step (s : State) (e : Event) : Option (State × List Output) := some (onIncomingZmq s e)

/-! ### The index -/

/-- `m` is registered with the actor `a`. -/
def Registered (s : State) (m a : Str) : Prop :=
  ∃ info, s.managers.lookup m = some info ∧ a ∈ info.actors

/-- `actor_to_managers_` is the inverse of the actor sets, without an empty entry. -/
structure Indexed (s : State) : Prop where
  inverse : ∀ a m, m ∈ values s.actorToManagers a ↔ Registered s m a
  noneEmpty : NoneEmpty s.actorToManagers

section Index

variable {s : State} {id m a : Str}

theorem lookup_unregister : (unregisterManagerInternal s id).managers.lookup m =
    if m = id then none else s.managers.lookup m := by
  unfold unregisterManagerInternal
  rcases hid : s.managers.lookup id with _ | info
  · dsimp only
    split
    next hm => exact hm ▸ hid
    next => rfl
  · dsimp only
    split
    next hm => exact hm ▸ AList.lookup_erase _ _
    next hm => exact AList.lookup_erase_ne hm

theorem registered_unregister :
    Registered (unregisterManagerInternal s id) m a ↔ Registered s m a ∧ m ≠ id := by
  unfold Registered
  rw [lookup_unregister]
  split
  next hm => simp [hm]
  next hm => simp [hm]

theorem Indexed.unregister (h : Indexed s) : Indexed (unregisterManagerInternal s id) := by
  constructor
  · intro a m
    rw [registered_unregister, ← h.inverse]
    unfold unregisterManagerInternal
    rcases hid : s.managers.lookup id with _ | info
    · -- an id that is not registered is in no set
      refine ⟨fun hm => ⟨hm, ?_⟩, And.left⟩
      rintro rfl
      obtain ⟨info, hinfo, -⟩ := (h.inverse a m).mp hm
      cases hid.symm.trans hinfo
    · rw [mem_values_foldl_drop]
      refine and_congr_right fun hm => ⟨fun hdrop => ?_, fun hne _ => hne⟩
      rintro rfl
      obtain ⟨info', hinfo, ha⟩ := (h.inverse a m).mp hm
      cases hid.symm.trans hinfo
      exact hdrop ha rfl
  · unfold unregisterManagerInternal
    split
    · exact h.noneEmpty
    · exact noneEmpty_foldl_drop h.noneEmpty

theorem Indexed.checkHeartbeatTimeouts (h : Indexed s) (now : Int) :
    Indexed (checkHeartbeatTimeouts s now) := by
  unfold RegistryActor.checkHeartbeatTimeouts
  dsimp only
  induction (List.map Prod.fst _ : List Str) generalizing s with
  | nil => exact h
  | cons id ids ih => exact ih h.unregister

theorem Indexed.handleRegisterManager (h : Indexed s) (identity : Str) (msg : RegisterManager)
    (now : Int) : Indexed (handleRegisterManager s identity msg now) := by
  unfold RegistryActor.handleRegisterManager
  -- whatever was registered under the id is gone
  generalize hs : (if s.managers.lookup msg.managerId ≠ none then
    unregisterManagerInternal s msg.managerId else s) = s₁
  have hindexed : Indexed s₁ := by
    rw [← hs]
    split
    · exact h.unregister
    · exact h
  have hnone : s₁.managers.lookup msg.managerId = none := by
    rw [← hs]
    split
    next => rw [lookup_unregister, if_pos rfl]
    next hid => exact not_not.mp hid
  constructor
  · intro a m
    dsimp only
    rw [mem_values_foldl_add, hindexed.inverse, Registered, Registered]
    by_cases hm : m = msg.managerId
    · subst hm
      simp [hnone, mem_foldl_setInsert]
    · simp [AList.lookup_insert_ne hm, hm]
  · exact noneEmpty_foldl_add hindexed.noneEmpty

theorem registered_heartbeat {identity : Str} {msg : Heartbeat} {now : Int} :
    Registered (handleHeartbeat s identity msg now) m a ↔ Registered s m a := by
  unfold handleHeartbeat
  rcases hid : s.managers.lookup msg.managerId with _ | info
  · exact Iff.rfl
  · unfold Registered
    by_cases hm : m = msg.managerId
    · subst hm
      simp [hid]
    · simp [AList.lookup_insert_ne hm]

theorem Indexed.handleHeartbeat (h : Indexed s) (identity : Str) (msg : Heartbeat) (now : Int) :
    Indexed (handleHeartbeat s identity msg now) := by
  have hsame : (RegistryActor.handleHeartbeat s identity msg now).actorToManagers =
      s.actorToManagers := by
    unfold RegistryActor.handleHeartbeat
    split <;> rfl
  exact ⟨fun a m => by rw [hsame, h.inverse, registered_heartbeat], hsame ▸ h.noneEmpty⟩

theorem Indexed.dispatch (h : Indexed s) (e : Event) : Indexed (dispatch s e).1 := by
  unfold RegistryActor.dispatch
  cases e.request with
  | registerManager msg => exact h.handleRegisterManager ..
  | unregisterManager msg => exact h.unregister
  | heartbeat msg => exact h.handleHeartbeat ..
  | _ => exact h

/-- **The index follows the managers** through every message and every timeout. -/
theorem Indexed.onIncomingZmq (h : Indexed s) (e : Event) : Indexed (onIncomingZmq s e).1 := by
  unfold RegistryActor.onIncomingZmq
  split
  · exact h
  · dsimp only
    split
    · have hchecked := (h.dispatch e).checkHeartbeatTimeouts e.clocks.checkSteady
      exact ⟨hchecked.inverse, hchecked.noneEmpty⟩
    · exact h.dispatch e

theorem registered_timeouts {now : Int} (h : Registered (checkHeartbeatTimeouts s now) m a) :
    Registered s m a := by
  unfold checkHeartbeatTimeouts at h
  dsimp only at h
  generalize (List.map Prod.fst _ : List Str) = ids at h
  induction ids generalizing s with
  | nil => exact h
  | cons id ids ih => exact (registered_unregister.mp (ih h)).1

theorem registered_register {identity : Str} {msg : RegisterManager} {now : Int}
    (h : Registered (handleRegisterManager s identity msg now) m a) :
    Registered s m a ∨ m = msg.managerId ∧ a ∈ msg.actors := by
  obtain ⟨info, hinfo, ha⟩ := h
  unfold handleRegisterManager at hinfo
  dsimp only at hinfo
  by_cases hm : m = msg.managerId
  · rw [hm, AList.lookup_insert] at hinfo
    obtain rfl := Option.some.inj hinfo
    exact .inr ⟨hm, by simpa [mem_foldl_setInsert] using ha⟩
  · rw [AList.lookup_insert_ne hm] at hinfo
    left
    split at hinfo
    · exact (registered_unregister.mp ⟨info, hinfo, ha⟩).1
    · exact ⟨info, hinfo, ha⟩

/-- What is registered after a message was before it, or is what the message registers. -/
theorem registered_onIncomingZmq {e : Event} (h : Registered (onIncomingZmq s e).1 m a) :
    Registered s m a ∨
      ∃ msg, e.request = .registerManager msg ∧ m = msg.managerId ∧ a ∈ msg.actors := by
  have hdispatch : Registered (dispatch s e).1 m a → Registered s m a ∨
      ∃ msg, e.request = .registerManager msg ∧ m = msg.managerId ∧ a ∈ msg.actors := by
    intro h
    unfold dispatch at h
    cases hreq : e.request with
    | registerManager msg =>
        rw [hreq] at h
        exact (registered_register h).imp_right fun hnew => ⟨msg, rfl, hnew⟩
    | heartbeat msg => rw [hreq] at h; exact .inl (registered_heartbeat.mp h)
    | unregisterManager msg => rw [hreq] at h; exact .inl (registered_unregister.mp h).1
    | _ => rw [hreq] at h; exact .inl h
  unfold onIncomingZmq at h
  split at h
  · exact .inl h
  · dsimp only at h
    split at h
    · exact hdispatch (registered_timeouts h)
    · exact hdispatch h

end Index

/-! ### Lookups -/

/-- An id that a qualified name can be split after. -/
def Plain (id : Str) : Prop := id ≠ [] ∧ dot ∉ id

instance (id : Str) : Decidable (Plain id) := inferInstanceAs (Decidable (_ ∧ _))

/-- `manager.actor` is found, at the endpoint of the manager, exactly when the manager is
    registered with the actor. -/
structure Lawful (s : State) : Prop where
  found : ∀ m a, (doLookup s (qualified m a)).found = true ↔ Registered s m a
  endpoint : ∀ m a info, s.managers.lookup m = some info →
    (doLookup s (qualified m a)).found = true →
      (doLookup s (qualified m a)).endpoint = info.endpoint

theorem parseActorName_qualified {m : Str} (hdot : dot ∉ m) (a : Str) :
    parseActorName (qualified m a) = (m, a) := by
  have hall : ∀ x ∈ m, decide (x ≠ dot) = true := fun x hx =>
    decide_eq_true fun heq => hdot (heq ▸ hx)
  unfold parseActorName qualified
  rw [if_pos (by simp), List.takeWhile_append_of_pos hall, List.dropWhile_append_of_pos hall]
  simp

/-- The parts of a qualified name are split at a `.`, the first of the name. -/
theorem qualified_parseActorName {name : Str} (hdot : dot ∈ name) :
    qualified (parseActorName name).1 (parseActorName name).2 = name ∧
      dot ∉ (parseActorName name).1 := by
  unfold parseActorName
  rw [if_pos hdot]
  have hsplit := List.takeWhile_append_dropWhile (p := fun x => decide (x ≠ dot)) (l := name)
  refine ⟨?_, fun hmem => by simpa using List.mem_takeWhile_imp hmem⟩
  rcases hrest : name.dropWhile (fun x => decide (x ≠ dot)) with _ | ⟨x, rest⟩
  · rw [List.dropWhile_eq_nil_iff] at hrest
    simpa using hrest dot hdot
  · have hx : x = dot := by
      have hhead := List.head?_dropWhile_not (fun x => decide (x ≠ dot)) name
      rw [hrest] at hhead
      simpa using hhead
    rw [hrest, hx] at hsplit
    exact hsplit

theorem found_iff (s : State) (name : Str) :
    (doLookup s name).found = true ↔ (parseActorName name).1 ≠ [] ∧
      ∃ info, s.managers.lookup (parseActorName name).1 = some info ∧
        (parseActorName name).2 ∈ info.actors ∧ (doLookup s name).endpoint = info.endpoint := by
  unfold doLookup
  dsimp only
  split
  next hempty => simp [hempty, notFound]
  next hname =>
      rcases s.managers.lookup (parseActorName name).1 with _ | info
      · simp [notFound]
      · dsimp only
        split
        next ha => simp [hname, ha, foundAt]
        next ha => simp [ha, notFound]

theorem mem_qualified (m a : Str) : dot ∈ qualified m a :=
  List.mem_append_right m List.mem_cons_self

/-- What a lookup finds is registered under the parts of the name. -/
theorem found_registered {s : State} {name : Str} (h : (doLookup s name).found = true) :
    Registered s (parseActorName name).1 (parseActorName name).2 := by
  obtain ⟨-, info, hinfo, ha, -⟩ := (found_iff s name).mp h
  exact ⟨info, hinfo, ha⟩

/-- An actor of a manager with a plain id is found under its name. -/
theorem doLookup_of_plain {s : State} {m a : Str} {info : ManagerInfo} (hplain : Plain m)
    (hinfo : s.managers.lookup m = some info) (ha : a ∈ info.actors) :
    doLookup s (qualified m a) = foundAt (qualified m a) info.endpoint m := by
  unfold doLookup
  rw [parseActorName_qualified hplain.2]
  dsimp only
  rw [if_neg hplain.1, hinfo]
  exact if_pos ha

/-- A name with one `.` is split there in every way to write it. -/
theorem notMem_of_qualified_eq {m a m' a' : Str} (hname : qualified m' a' = qualified m a)
    (hmanager : dot ∉ m') (hactor : dot ∉ a') : dot ∉ m := by
  have hcount := congrArg (List.count dot) hname
  simp only [qualified, List.count_append, List.count_cons_self,
    List.count_eq_zero_of_not_mem hmanager, List.count_eq_zero_of_not_mem hactor] at hcount
  refine List.count_eq_zero.mp ?_
  omega

/-- Only plain ids have actors, and these no `.` in their names. -/
def Named (s : State) : Prop := ∀ m a, Registered s m a → Plain m ∧ dot ∉ a

/-- Where a qualified name can be read in one way only, it is. -/
theorem Named.lawful {s : State} (h : Named s) : Lawful s := by
  have hparts : ∀ m a, (doLookup s (qualified m a)).found = true →
      parseActorName (qualified m a) = (m, a) := by
    intro m a hfound
    obtain ⟨-, hactor⟩ := h _ _ (found_registered hfound)
    obtain ⟨hname, hmanager⟩ := qualified_parseActorName (mem_qualified m a)
    exact parseActorName_qualified (notMem_of_qualified_eq hname hmanager hactor) a
  constructor
  · intro m a
    constructor
    · intro hfound
      have hregistered := found_registered hfound
      rwa [hparts m a hfound] at hregistered
    · rintro ⟨info, hinfo, ha⟩
      rw [doLookup_of_plain (h m a ⟨info, hinfo, ha⟩).1 hinfo ha]
      rfl
  · intro m a info hinfo hfound
    have hregistered := found_registered hfound
    rw [hparts m a hfound] at hregistered
    obtain ⟨info', hinfo', ha⟩ := hregistered
    rw [doLookup_of_plain (h m a ⟨info', hinfo', ha⟩).1 hinfo' ha]
    exact congrArg ManagerInfo.endpoint (Option.some.inj (hinfo'.symm.trans hinfo))

/-- Another manager has an actor of the same qualified name, at the same endpoint. -/
def Aliased (s : State) (m a : Str) : Prop :=
  ∃ m' a', m' ≠ m ∧ qualified m' a' = qualified m a ∧ Registered s m' a' ∧
    ∃ info info', s.managers.lookup m = some info ∧ s.managers.lookup m' = some info' ∧
      info'.endpoint = info.endpoint

/-- Two managers that one qualified name is found for are at one endpoint. -/
theorem Lawful.aliased_of_registered {s : State} (h : Lawful s) {m a m' a' : Str}
    (hregistered : Registered s m a) (hregistered' : Registered s m' a') (hne : m' ≠ m)
    (hname : qualified m' a' = qualified m a) : Aliased s m a := by
  have hfound := (h.found m a).mpr hregistered
  obtain ⟨info, hinfo, ha⟩ := hregistered
  obtain ⟨info', hinfo', ha'⟩ := hregistered'
  have hendpoint := h.endpoint m' a' info' hinfo' (hname ▸ hfound)
  rw [hname] at hendpoint
  exact ⟨m', a', hne, hname, ⟨info', hinfo', ha'⟩, info, info', hinfo, hinfo',
    hendpoint.symm.trans (h.endpoint m a info hinfo hfound)⟩

theorem Lawful.aliased {s : State} (h : Lawful s) {m a : Str} (hregistered : Registered s m a)
    (hnot : ¬ (Plain m ∧ dot ∉ a)) : Aliased s m a := by
  have hfound := (h.found m a).mpr hregistered
  by_cases hplain : Plain m
  · -- the actor has a second `.`: the name is also that of an actor of a longer id
    have hdot : dot ∈ a := not_not.mp fun hactor => hnot ⟨hplain, hactor⟩
    obtain ⟨hactor, -⟩ := qualified_parseActorName hdot
    have hname : qualified (qualified m (parseActorName a).1) (parseActorName a).2 =
        qualified m a := by
      conv_rhs => rw [← hactor]
      simp [qualified]
    refine h.aliased_of_registered hregistered ((h.found _ _).mp (hname ▸ hfound)) ?_ hname
    intro heq
    simp [qualified] at heq
  · -- the lookup splits the name elsewhere
    obtain ⟨hname, hdot⟩ := qualified_parseActorName (mem_qualified m a)
    refine h.aliased_of_registered hregistered (found_registered hfound) (fun heq => ?_) hname
    obtain ⟨hempty, -⟩ := (found_iff s _).mp hfound
    rw [heq] at hdot hempty
    exact hplain ⟨hempty, hdot⟩

/-! ### Runs -/

/-- A manager that registers with actors has a plain id, and its actors no `.` in their names. -/
def PlainNames (_ : State) (e : Event) : Prop :=
  match e.request with
  | .registerManager msg => ∀ a ∈ msg.actors, Plain msg.managerId ∧ dot ∉ a
  | _ => True

instance (s : State) (e : Event) : Decidable (PlainNames s e) :=
  match h : e.request with
  | .registerManager msg =>
      decidable_of_iff (∀ a ∈ msg.actors, Plain msg.managerId ∧ dot ∉ a) (by simp [PlainNames, h])
  | .empty | .unregisterManager _ | .lookupActor _ | .heartbeat _ | .listManagers
  | .listAllActors | .unknown => .isTrue (by simp [PlainNames, h])

def start (heartbeatTimeout : Int) (nowMs : UInt64) : State :=
  { heartbeatTimeout := heartbeatTimeout, lastTimeoutCheckMs := nowMs }

theorem indexed_start (heartbeatTimeout : Int) (nowMs : UInt64) :
    Indexed (start heartbeatTimeout nowMs) where
  inverse a m := by simp [start, values, Registered]
  noneEmpty := noneEmpty_empty

theorem eq_of_step {s s' : State} {e : Event} {out : List Output}
    (hstep : step s e = some (s', out)) : s' = (onIncomingZmq s e).1 :=
  (congrArg Prod.fst (Option.some.inj hstep)).symm

theorem indexed_of_run {timeout : Int} {nowMs : UInt64} {es : List Event} {s : State}
    {out : List Output} (hrun : Machine.run step (start timeout nowMs) es = some (s, out)) :
    Indexed s := by
  refine Machine.run_invariant (I := fun _ _ s => Indexed s) (indexed_start timeout nowMs) ?_ hrun
  intro _ _ s e s' o hindexed hstep
  rw [eq_of_step hstep]
  exact hindexed.onIncomingZmq e

theorem named_of_run {timeout : Int} {nowMs : UInt64} {es : List Event} {s : State}
    {out : List Output} (hplain : Machine.AllSteps step PlainNames (start timeout nowMs) es)
    (hrun : Machine.run step (start timeout nowMs) es = some (s, out)) : Named s := by
  refine Machine.run_induction (I := fun _ _ s => Named s) ?_ ?_ hplain hrun
  · rintro m a ⟨info, hinfo, -⟩
    cases hinfo
  · intro _ _ s e s' o hold hnames hstep m a hregistered
    rw [eq_of_step hstep] at hregistered
    rcases registered_onIncomingZmq hregistered with hregistered | ⟨msg, hreq, rfl, ha⟩
    · exact hold m a hregistered
    · unfold PlainNames at hnames
      rw [hreq] at hnames
      exact hnames a ha

/-- **Index and lookup of the registry.**  After every history the index is the inverse of the
    managers' actors.  Where managers register their actors under plain names, the lookup of
    `manager.actor` is found, at the endpoint of the manager, exactly when the manager is
    registered with the actor.  Where that holds although a manager or an actor is not plain,
    another manager at the same endpoint has an actor of the same qualified name. -/
theorem registry_law (timeout : Int) (nowMs : UInt64) (es : List Event) :
    ∃ s out, Machine.run step (start timeout nowMs) es = some (s, out) ∧
      (∀ a m, m ∈ values s.actorToManagers a ↔ Registered s m a) ∧
      (∀ a, s.actorToManagers.lookup a ≠ some []) ∧
      (Machine.AllSteps step PlainNames (start timeout nowMs) es → Lawful s) ∧
      (Lawful s → ∀ m a, Registered s m a → ¬ (Plain m ∧ dot ∉ a) → Aliased s m a) := by
  obtain ⟨s, out, hrun⟩ := Machine.exists_run (fun s e => ⟨_, rfl⟩) (start timeout nowMs) es
  have hindexed := indexed_of_run hrun
  exact ⟨s, out, hrun, hindexed.inverse, hindexed.noneEmpty,
    fun hplain => (named_of_run hplain hrun).lawful, fun hlawful m a => hlawful.aliased⟩

/-- The manager `m` registers again, with `b` in the place of `a`, and another with `a`, which
    unregisters later. -/
def replaced : List Event :=
  [{ identity := [1], request := .registerManager ⟨[109], [5], [[97]]⟩ },
    { identity := [2], request := .registerManager ⟨[110], [6], [[97]]⟩ },
    { identity := [1], request := .registerManager ⟨[109], [7], [[98]]⟩ },
    { identity := [2], request := .unregisterManager ⟨[110]⟩ }]

theorem registry_law_replaced :
    ∃ s out, Machine.run step (start 30 0) replaced = some (s, out) ∧
      values s.actorToManagers [97] = [] ∧ Lawful s := by
  obtain ⟨s, out, hrun, -, -, hlaw, -⟩ := registry_law 30 0 replaced
  have hvalues : _ = some (values s.actorToManagers [97]) :=
    congrArg (Option.map fun r => values r.1.actorToManagers [97]) hrun
  exact ⟨s, out, hrun, Option.some_inj.mp (hvalues.symm.trans (by decide +kernel)),
    hlaw (by decide +kernel)⟩

/-- The manager `x.y` is registered with `a`, and `x.y.a` is not found. -/
theorem lookup_misses_dotted_id :
    ∃ s out, Machine.run step (start 30 0)
      [{ identity := [1], request := .registerManager ⟨[120, 46, 121], [5], [[97]]⟩ }] =
        some (s, out) ∧
      Registered s [120, 46, 121] [97] ∧ ¬ Lawful s := by
  refine ⟨_, _, rfl, ⟨_, rfl, by decide +kernel⟩, fun hlawful => ?_⟩
  have hfound := (hlawful.found [120, 46, 121] [97]).mpr ⟨_, rfl, by decide +kernel⟩
  revert hfound
  decide +kernel

/-- The manager `x` is registered with `y.a`, and `x.y.a` is found though no `x.y` is there. -/
example : (doLookup (onIncomingZmq (start 30 0)
    { identity := [1], request := .registerManager ⟨[120], [5], [[121, 46, 97]]⟩ }).1
      (qualified [120, 46, 121] [97])).found = true := by
  decide +kernel

end KasparHft.RegistryActor
