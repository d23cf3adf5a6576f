import KasparHft.AssocMap
import KasparHft.Machine
import KasparHft.PcapReader
import Mathlib.Data.List.Infix
import Mathlib.Data.List.Sort
import Mathlib.Data.String.Basic

/-!
# Replaying captures (`dbento_pcap_to_bin/PcapFileManager.hpp`, `actors/Group.cpp`)

The file manager has a thread of its own.  For each capture in turn it makes a reader and asks the
group to add it.  The members of the group share its thread and its mailbox: a reader tells itself
to go on, at most one accepted packet at a time, and to shut down at the end of its file; the group
then deletes it and tells the file manager, which goes on to the next capture.

A step is one message, handled by one of the two threads.  A message to an actor that does not
exist, or a removal that nobody is to be told of, is no step.  What is printed is left out, and
what the packet buffer hands a packet on to, which it does at once.
-/

namespace KasparHft.Pcap

open AssocMap (Map)

/-! ### Captures -/

structure Frame where
  mem : ℕ → UInt8
  caplen : ℕ
  ts : ℕ

/-- What libpcap says behind the last frame. -/
inductive Ending where
  | eof
  | error
deriving DecidableEq, Repr

/-- What libpcap makes of a file. -/
structure Capture where
  opens : Bool := true
  frames : List Frame
  ending : Ending := .eof

structure DirectoryEntry where
  filename : String
  isRegularFile : Bool := true
  capture : Capture

/-! ### The directory -/

inductive PcapFormat where
  | perChannel
  | consolidated
deriving DecidableEq, Repr

/-- What the constructors set. -/
structure Config where
  format : PcapFormat
  incrPortSuffix : String
  snapFilter : String
  consolidatedFilter : List PktFilter := []
  consolidatedColor : Char := 'a'
  chanstr : String

/-- `kPerChannelNeverMatch_`. -/
def perChannelNeverMatch : String := "\xFF__never_match__\xFF"

def Config.perChannel (chan : String) (incrPort : ℕ) (snapIp : String) (snapPort : ℕ) : Config where
  format := .perChannel
  incrPortSuffix := "_" ++ toString incrPort ++ ".pcap.zst"
  snapFilter := snapIp ++ "_" ++ toString snapPort
  chanstr := chan

def Config.consolidated (chan : String) (filter : List PktFilter) (color : Char) : Config where
  format := .consolidated
  incrPortSuffix := perChannelNeverMatch
  snapFilter := perChannelNeverMatch
  consolidatedFilter := filter
  consolidatedColor := color
  chanstr := chan

/-- `find(sub) != npos`. -/
def has (name sub : String) : Bool := decide (sub.toList <:+: name.toList)

def endsWith (name suffix : String) : Bool := suffix.toList.isSuffixOf name.toList

/-- `std::sort` of the paths, which differ behind the directory. -/
def sortEntries (entries : List DirectoryEntry) : List DirectoryEntry :=
  entries.insertionSort fun a b => a.filename ≤ b.filename

/-- `scan_directory_per_channel`: the snapshots first. -/
def Config.scanPerChannel (cfg : Config) (dir : List DirectoryEntry) :
    Option (List DirectoryEntry) :=
  if cfg.format ≠ .perChannel then none
  else
    let found := dir.filter fun e => e.isRegularFile && endsWith e.filename ".pcap.zst"
    let isSnap := fun e : DirectoryEntry => has e.filename "-snap-"
    let incr := sortEntries (found.filter fun e => !isSnap e && has e.filename cfg.incrPortSuffix)
    let snap := sortEntries (found.filter fun e => isSnap e && has e.filename cfg.snapFilter)
    if incr.isEmpty then none else some (snap ++ incr)

/-- `\d{8}T\d{6}\.pcap\.zst`. -/
def dated (rest : List Char) : Bool :=
  (rest.take 8).length = 8 && (rest.take 8).all Char.isDigit && (rest.drop 8).head? = some 'T' &&
    ((rest.drop 9).take 6).length = 6 && ((rest.drop 9).take 6).all Char.isDigit &&
      rest.drop 15 = ".pcap.zst".toList

/-- The names of consolidated captures of a feed. -/
def consolidatedName (color : Char) (filename : String) : Bool :=
  [[color], "ab-dedup".toList].any fun feed =>
    let start := "dc3-glbx-".toList ++ feed ++ ['-']
    start.isPrefixOf filename.toList && dated (filename.toList.drop start.length)

/-- `scan_directory_consolidated`. -/
def Config.scanConsolidated (cfg : Config) (dir : List DirectoryEntry) :
    Option (List DirectoryEntry) :=
  if cfg.consolidatedFilter.isEmpty then none
  else
    let files := sortEntries (dir.filter fun e =>
      e.isRegularFile && consolidatedName cfg.consolidatedColor e.filename)
    if files.isEmpty then none else some files

/-- `scan_directory`, of a directory if there is one. -/
def Config.scanDirectory (cfg : Config) (dir : Option (List DirectoryEntry)) :
    Option (List DirectoryEntry) :=
  dir.bind fun dir =>
    match cfg.format with
    | .consolidated => cfg.scanConsolidated dir
    | .perChannel => cfg.scanPerChannel dir

/-! What is selected. -/

section Scan

variable {cfg : Config} {dir files : List DirectoryEntry}

theorem sortEntries_perm (entries : List DirectoryEntry) : (sortEntries entries).Perm entries :=
  List.perm_insertionSort ..

theorem sortEntries_sorted (entries : List DirectoryEntry) :
    (sortEntries entries).Pairwise fun a b => a.filename ≤ b.filename :=
  List.pairwise_insertionSort ..

/-- Of each channel the snapshots in the order of their names, then the incremental captures in the
    order of theirs, of which there is one. -/
theorem scanPerChannel_spec (hscan : cfg.scanPerChannel dir = some files) :
    ∃ snap incr, files = snap ++ incr ∧ incr ≠ [] ∧
      (snap.Pairwise fun a b => a.filename ≤ b.filename) ∧
      (incr.Pairwise fun a b => a.filename ≤ b.filename) ∧
      snap.Perm (dir.filter fun e => e.isRegularFile && endsWith e.filename ".pcap.zst" &&
        (has e.filename "-snap-" && has e.filename cfg.snapFilter)) ∧
      incr.Perm (dir.filter fun e => e.isRegularFile && endsWith e.filename ".pcap.zst" &&
        (!has e.filename "-snap-" && has e.filename cfg.incrPortSuffix)) := by
  unfold Config.scanPerChannel at hscan
  split at hscan
  · cases hscan
  · dsimp only at hscan
    split at hscan
    next => cases hscan
    next hsome =>
      cases hscan
      refine ⟨_, _, rfl, fun hnil => hsome (List.isEmpty_iff.mpr hnil), sortEntries_sorted _,
        sortEntries_sorted _, (sortEntries_perm _).trans ?_, (sortEntries_perm _).trans ?_⟩
      · rw [List.filter_filter]
        exact List.Perm.of_eq (List.filter_congr fun e _ => Bool.and_comm ..)
      · rw [List.filter_filter]
        exact List.Perm.of_eq (List.filter_congr fun e _ => Bool.and_comm ..)

/-- The consolidated captures of a feed in the order of their names. -/
theorem scanConsolidated_spec (hscan : cfg.scanConsolidated dir = some files) :
    files ≠ [] ∧ cfg.consolidatedFilter ≠ [] ∧
      (files.Pairwise fun a b => a.filename ≤ b.filename) ∧
      files.Perm (dir.filter fun e =>
        e.isRegularFile && consolidatedName cfg.consolidatedColor e.filename) := by
  unfold Config.scanConsolidated at hscan
  split at hscan
  next => cases hscan
  next hfilter =>
    dsimp only at hscan
    split at hscan
    next => cases hscan
    next hsome =>
      cases hscan
      exact ⟨fun hnil => hsome (List.isEmpty_iff.mpr hnil),
        fun hnil => hfilter (List.isEmpty_iff.mpr hnil), sortEntries_sorted _, sortEntries_perm _⟩

end Scan

/-! ### Readers -/

/-- A `PCAPReader`: its filter and its counts, and what `pcap_next_ex` has not returned. -/
structure Reader where
  name : String
  reader : PcapReader
  capture : Capture

/-- `create_PCAPReader_32_0_filtered` and `create_PCAPReader_32_0`. -/
def Config.newReader (cfg : Config) (capture : Capture) : Reader where
  name := cfg.chanstr ++ "PCAPReader"
  reader := { pktFilter := match cfg.format with
    | .consolidated => cfg.consolidatedFilter
    | .perChannel => [] }
  capture := capture

def kMaxPerTick : ℕ := 1024

/-- How `continue_handler` ends. -/
inductive Tick where
  | accepted (m : MessageBuffer)
  | yielded
  | eof
  | aborted

/-- The loop of `continue_handler`, `n` packets at most. -/
def Reader.tick (r : Reader) : ℕ → Reader × Tick
  | 0 => (r, .yielded)
  | n + 1 =>
      match r.capture.frames with
      | [] =>
          match r.capture.ending with
          | .eof => (r, .eof)
          | .error => (r, .aborted)
      | f :: frames =>
          let (_, reader, outcome) := r.reader.processPacket f.mem f.caplen f.ts
          let r : Reader := { r with reader := reader, capture := { r.capture with frames := frames } }
          match outcome with
          | .refused => (r, .aborted)
          | .dropped => r.tick n
          | .forwarded m => (r, .accepted m)

/-! ### The actors -/

/-- An address of an actor. -/
abbrev Ptr := ℕ

/-- Who sends an `AddActor`. -/
inductive Requester where
  | fileManager
deriving DecidableEq, Repr

structure Group where
  members : List Ptr
  nameToActor : Map String Ptr
  actorRequesters : Map String Requester := ∅

inductive GroupMessage where
  | addActor (actor : Ptr) (sender : Requester)
  | resume (destination : Ptr)
  | shutdownThisActor (destination : Ptr)
  | processQ (m : MessageBuffer)
deriving DecidableEq, Repr

inductive FileManagerMessage where
  | resume
  | actorRemoved (actorName : String)
deriving DecidableEq, Repr

structure State where
  pcapFiles : List DirectoryEntry := []
  currentFileIndex : ℕ := 0
  failed : Bool := false
  /-- The mailbox of the file manager. -/
  managerQ : List FileManagerMessage := []
  group : Group
  /-- The mailbox of the group. -/
  groupQ : List GroupMessage := []
  /-- The readers that exist. -/
  readers : Map Ptr Reader := ∅
  next : Ptr
  aborted : Bool := false

inductive Output where
  | processQ (m : MessageBuffer)
  | shutdown
deriving DecidableEq, Repr

inductive Thread where
  | fileManager
  | group
deriving DecidableEq, Repr

def Group.add (g : Group) (a : Ptr) (name : String) : Group :=
  { g with members := g.members ++ [a], nameToActor := g.nameToActor.insert name a }

/-- The group before a reader is added. -/
def startGroup (chanstr : String) : Group :=
  [chanstr ++ "MsgBuf A", chanstr ++ "MessageProcessor", "DataDecoder_" ++ chanstr,
    "BinRec"].zipIdx.foldl
    (fun g m => g.add m.2 m.1) ⟨[], ∅, ∅⟩

/-- `start_handler`. -/
def Config.start (cfg : Config) (dir : Option (List DirectoryEntry)) : State × List Output :=
  let s : State := { group := startGroup cfg.chanstr, next := 4 }
  match cfg.scanDirectory dir with
  | none => ({ s with failed := true }, [.shutdown])
  | some files => ({ s with pcapFiles := files, managerQ := [.resume] }, [])

/-- The file manager handles a message. -/
def Config.fileManagerStep (cfg : Config) (s : State) : Option (State × List Output) :=
  match s.managerQ with
  | [] => none
  | .resume :: rest =>
      match s.pcapFiles[s.currentFileIndex]? with
      | none => some ({ s with managerQ := rest }, [.shutdown])
      | some file =>
          some ({ s with
            managerQ := rest
            readers := s.readers.insert s.next (cfg.newReader file.capture)
            next := s.next + 1
            groupQ := s.groupQ ++ [.addActor s.next .fileManager] }, [])
  | .actorRemoved name :: rest =>
      if endsWith name "PCAPReader" then
        some ({ s with
          currentFileIndex := s.currentFileIndex + 1
          managerQ := rest ++ [.resume] }, [])
      else some ({ s with failed := true, managerQ := rest }, [.shutdown])

/-- `forward` of a `ShutdownThisActor`: the actor is deleted, and who asked for it is told. -/
def State.remove (s : State) (a : Ptr) (name : String) : Option State :=
  (s.group.actorRequesters.lookup name).map fun requester =>
    { s with
      group := {
        members := s.group.members.filter (· ≠ a)
        nameToActor := s.group.nameToActor.erase name
        actorRequesters := s.group.actorRequesters.erase name }
      readers := s.readers.erase a
      managerQ := match requester with
        | .fileManager => s.managerQ ++ [.actorRemoved name] }

/-- The group handles a message. -/
def State.groupStep (s : State) : Option (State × List Output) :=
  match s.groupQ with
  | [] => none
  | .addActor a sender :: rest =>
      (s.readers.lookup a).map fun r =>
        let requesters := s.group.actorRequesters.insert r.name sender
        let s : State := { s with
          group := { s.group.add a r.name with actorRequesters := requesters }
          groupQ := rest }
        -- `start_handler` of the reader
        if r.capture.opens then ({ s with groupQ := rest ++ [.resume a] }, [])
        else ({ s with aborted := true }, [])
  | .resume a :: rest =>
      (s.readers.lookup a).map fun r =>
        let (r, tick) := r.tick kMaxPerTick
        let s : State := { s with readers := s.readers.insert a r, groupQ := rest }
        match tick with
        | .accepted m => ({ s with groupQ := rest ++ [.processQ m, .resume a] }, [])
        | .yielded => ({ s with groupQ := rest ++ [.resume a] }, [])
        | .eof => ({ s with groupQ := rest ++ [.shutdownThisActor a] }, [])
        | .aborted => ({ s with aborted := true }, [])
  | .shutdownThisActor a :: rest =>
      (s.readers.lookup a).bind fun r =>
        (State.remove { s with groupQ := rest } a r.name).map fun s => (s, [])
  | .processQ m :: rest => some ({ s with groupQ := rest }, [.processQ m])

def Config.step (cfg : Config) (s : State) (t : Thread) : Option (State × List Output) :=
  if s.aborted then none
  else match t with
    | .fileManager => cfg.fileManagerStep s
    | .group => s.groupStep

end KasparHft.Pcap
