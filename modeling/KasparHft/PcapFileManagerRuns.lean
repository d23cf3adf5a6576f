import KasparHft.PcapFileManager

/-!
# Runs of the file manager and its group

In whatever order the two threads handle their messages, the packets that reach the packet buffer
are those of the captures, one capture behind the other.  `Replay` lists the states that are
reached: there is one message that makes the replay go on, and it is in one of the two mailboxes.
-/

namespace KasparHft.Pcap

open AssocMap (Map)
open Machine

/-! ### What is replayed -/

/-- The packets that a reader takes of these frames, as far as it gets. -/
def accepted (r : PcapReader) : List Frame → List MessageBuffer
  | [] => []
  | f :: frames =>
      match (r.processPacket f.mem f.caplen f.ts).2 with
      | (_, .refused) => []
      | (r, .dropped) => accepted r frames
      | (r, .forwarded m) => m :: accepted r frames

/-- No frame is refused. -/
def clean (r : PcapReader) : List Frame → Bool
  | [] => true
  | f :: frames =>
      match (r.processPacket f.mem f.caplen f.ts).2 with
      | (_, .refused) => false
      | (r, .dropped) => clean r frames
      | (r, .forwarded _) => clean r frames

def Reader.accepted (r : Reader) : List MessageBuffer := Pcap.accepted r.reader r.capture.frames

def Reader.Clean (r : Reader) : Prop :=
  clean r.reader r.capture.frames = true ∧ r.capture.ending = .eof

def Config.accepted (cfg : Config) (file : DirectoryEntry) : List MessageBuffer :=
  (cfg.newReader file.capture).accepted

/-- A capture can be replayed to its end. -/
def Config.Readable (cfg : Config) (file : DirectoryEntry) : Prop :=
  file.capture.opens = true ∧ (cfg.newReader file.capture).Clean

def Output.packet : Output → Option MessageBuffer
  | .processQ m => some m
  | .shutdown => none

/-- What has reached the packet buffer. -/
def delivered (out : List Output) : List MessageBuffer := out.filterMap Output.packet

/-! ### One message to a reader -/

/-- What `continue_handler` does, by how it ends. -/
def Ticked (r r' : Reader) (n : ℕ) : Tick → Prop
  | .accepted m => r.accepted = m :: r'.accepted ∧ (r.Clean ↔ r'.Clean) ∧
      r'.capture.frames.length < r.capture.frames.length
  | .yielded => r.accepted = r'.accepted ∧ (r.Clean ↔ r'.Clean) ∧
      r'.capture.frames.length + n = r.capture.frames.length
  | .eof => r.accepted = [] ∧ r.Clean
  | .aborted => r.accepted = [] ∧ ¬ r.Clean

theorem tick_name (r : Reader) (n : ℕ) : (r.tick n).1.name = r.name := by
  induction n generalizing r with
  | zero => rfl
  | succ n ih =>
      unfold Reader.tick
      split
      next => split <;> rfl
      next =>
        dsimp only
        split
        next => rfl
        next => exact ih _
        next => rfl

theorem tick_ticked (r : Reader) (n : ℕ) : Ticked r (r.tick n).1 n (r.tick n).2 := by
  induction n generalizing r with
  | zero => exact ⟨rfl, Iff.rfl, rfl⟩
  | succ n ih =>
      obtain ⟨name, reader, opens, frames, ending⟩ := r
      cases frames with
      | nil =>
          cases ending with
          | eof => exact ⟨rfl, rfl, rfl⟩
          | error => exact ⟨rfl, fun h => nomatch h.2⟩
      | cons f frames =>
          rcases hpacket : reader.processPacket f.mem f.caplen f.ts with ⟨reads, reader', outcome⟩
          have htick := ih ⟨name, reader', opens, frames, ending⟩
          cases outcome with
          | refused =>
              simp only [Reader.tick, hpacket, Ticked, Reader.accepted, accepted, Reader.Clean, clean]
              exact ⟨trivial, fun h => nomatch h.1⟩
          | forwarded m =>
              simp only [Reader.tick, hpacket, Ticked, Reader.accepted, accepted, Reader.Clean, clean]
              exact ⟨trivial, trivial, Nat.lt_succ_self _⟩
          | dropped =>
              have haccepted : Reader.accepted ⟨name, reader, opens, f :: frames, ending⟩ =
                  Reader.accepted ⟨name, reader', opens, frames, ending⟩ := by
                simp only [Reader.accepted, accepted, hpacket]
              have hclean : Reader.Clean ⟨name, reader, opens, f :: frames, ending⟩ ↔
                  Reader.Clean ⟨name, reader', opens, frames, ending⟩ := by
                simp only [Reader.Clean, clean, hpacket]
              simp only [Reader.tick, hpacket]
              generalize hresult : Reader.tick ⟨name, reader', opens, frames, ending⟩ n = result at htick
              obtain ⟨r', tick⟩ := result
              cases tick with
              | accepted m =>
                  obtain ⟨hm, hclean', hlt⟩ := htick
                  exact ⟨haccepted.trans hm, hclean.trans hclean', Nat.lt_succ_of_lt hlt⟩
              | yielded =>
                  obtain ⟨hm, hclean', hlen⟩ := htick
                  exact ⟨haccepted.trans hm, hclean.trans hclean', congrArg (· + 1) hlen⟩
              | eof => exact ⟨haccepted.trans htick.1, hclean.mpr htick.2⟩
              | aborted => exact ⟨haccepted.trans htick.1, fun h => htick.2 (hclean.mp h)⟩

/-! ### The states of a replay -/

/-- The group while a reader is in it. -/
def Group.withReader (g : Group) (a : Ptr) (name : String) : Group :=
  { g.add a name with actorRequesters := g.actorRequesters.insert name .fileManager }

/-- A bound on the messages of the captures. -/
def messages (files : List DirectoryEntry) : ℕ :=
  (files.map fun file => 2 * file.capture.frames.length + 5).sum

/-- The states of a replay of `files`, with what has reached the packet buffer and a bound on how
    many messages are left. -/
inductive Replay (cfg : Config) (files : List DirectoryEntry) :
    List MessageBuffer → ℕ → State → Prop
  | idle (k : ℕ) (hk : k ≤ files.length) (a : Ptr) (ha : 4 ≤ a)
      (hread : ∀ file ∈ files.take k, cfg.Readable file) :
      Replay cfg files ((files.take k).flatMap cfg.accepted) (messages (files.drop k) + 1)
        { pcapFiles := files, currentFileIndex := k, managerQ := [.resume]
          group := startGroup cfg.chanstr, next := a }
  | adding (k : ℕ) (file : DirectoryEntry) (hk : files[k]? = some file) (a : Ptr) (ha : 4 ≤ a)
      (hread : ∀ file ∈ files.take k, cfg.Readable file) :
      Replay cfg files ((files.take k).flatMap cfg.accepted)
        (2 * file.capture.frames.length + 4 + (messages (files.drop (k + 1)) + 1))
        { pcapFiles := files, currentFileIndex := k, groupQ := [.addActor a .fileManager]
          group := startGroup cfg.chanstr
          readers := (∅ : Map Ptr Reader).insert a (cfg.newReader file.capture)
          next := a + 1 }
  | reading (k : ℕ) (file : DirectoryEntry) (hk : files[k]? = some file) (a : Ptr) (ha : 4 ≤ a)
      (hread : ∀ file ∈ files.take k, cfg.Readable file)
      (r : Reader) (hname : r.name = cfg.chanstr ++ "PCAPReader")
      (hopens : file.capture.opens = true) (hclean : r.Clean ↔ (cfg.newReader file.capture).Clean)
      (done pending : List MessageBuffer)
      (hdone : done ++ pending ++ r.accepted = cfg.accepted file) :
      Replay cfg files ((files.take k).flatMap cfg.accepted ++ done)
        (pending.length + 2 * r.capture.frames.length + 3 + (messages (files.drop (k + 1)) + 1))
        { pcapFiles := files, currentFileIndex := k
          groupQ := pending.map .processQ ++ [.resume a]
          group := (startGroup cfg.chanstr).withReader a (cfg.chanstr ++ "PCAPReader")
          readers := (∅ : Map Ptr Reader).insert a r
          next := a + 1 }
  | ending (k : ℕ) (hk : k < files.length) (a : Ptr) (ha : 4 ≤ a)
      (hread : ∀ file ∈ files.take (k + 1), cfg.Readable file)
      (r : Reader) (hname : r.name = cfg.chanstr ++ "PCAPReader") :
      Replay cfg files ((files.take (k + 1)).flatMap cfg.accepted)
        (2 + (messages (files.drop (k + 1)) + 1))
        { pcapFiles := files, currentFileIndex := k, groupQ := [.shutdownThisActor a]
          group := (startGroup cfg.chanstr).withReader a (cfg.chanstr ++ "PCAPReader")
          readers := (∅ : Map Ptr Reader).insert a r
          next := a + 1 }
  | removed (k : ℕ) (hk : k < files.length) (a : Ptr) (ha : 4 ≤ a)
      (hread : ∀ file ∈ files.take (k + 1), cfg.Readable file) :
      Replay cfg files ((files.take (k + 1)).flatMap cfg.accepted)
        (1 + (messages (files.drop (k + 1)) + 1))
        { pcapFiles := files, currentFileIndex := k
          managerQ := [.actorRemoved (cfg.chanstr ++ "PCAPReader")]
          group := startGroup cfg.chanstr, next := a }
  | finished (a : Ptr) (hread : ∀ file ∈ files, cfg.Readable file) :
      Replay cfg files (files.flatMap cfg.accepted) 0
        { pcapFiles := files, currentFileIndex := files.length
          group := startGroup cfg.chanstr, next := a }
  | aborted (k : ℕ) (file : DirectoryEntry) (hk : files[k]? = some file)
      (hread : ¬ cfg.Readable file) (done : List MessageBuffer) (hdone : done <+: cfg.accepted file)
      (s : State) (haborted : s.aborted = true) :
      Replay cfg files ((files.take k).flatMap cfg.accepted ++ done) 0 s

section Steps

variable {cfg : Config} {files : List DirectoryEntry} {file : DirectoryEntry} {k : ℕ}

theorem messages_drop (hk : files[k]? = some file) :
    messages (files.drop k) = 2 * file.capture.frames.length + 5 + messages (files.drop (k + 1)) := by
  obtain ⟨hlt, rfl⟩ := List.getElem?_eq_some_iff.mp hk
  unfold messages
  rw [List.drop_eq_getElem_cons hlt, List.map_cons, List.sum_cons]

theorem flatMap_take (f : DirectoryEntry → List MessageBuffer) (hk : files[k]? = some file) :
    (files.take (k + 1)).flatMap f = (files.take k).flatMap f ++ f file := by
  rw [List.take_add_one, hk, List.flatMap_append]
  exact congrArg _ (List.append_nil _)

theorem readable_take (hk : files[k]? = some file)
    (hread : ∀ file ∈ files.take k, cfg.Readable file) (hfile : cfg.Readable file) :
    ∀ file ∈ files.take (k + 1), cfg.Readable file := by
  rw [List.take_add_one, hk]
  intro f hf
  rcases List.mem_append.mp hf with hf | hf
  · exact hread f hf
  · cases List.mem_singleton.mp hf
    exact hfile

theorem endsWith_append (name suffix : String) : endsWith (name ++ suffix) suffix = true := by
  unfold endsWith
  rw [String.toList_append]
  exact List.isSuffixOf_iff_suffix.mpr (List.suffix_append _ _)

/-! The tables of the group. -/

theorem erase_insert {κ ν : Type*} [DecidableEq κ] {m : Map κ ν} {key : κ} (v : ν)
    (hkey : key ∉ m) : (m.insert key v).erase key = m := by
  refine AList.ext ?_
  change (⟨key, v⟩ :: m.entries.kerase key).kerase key = m.entries
  exact (List.kerase_cons_eq (s := ⟨key, v⟩) rfl).trans (List.kerase_of_notMem_keys hkey)

/-- No other member has the name of a reader. -/
theorem reader_notMem (chanstr : String) :
    chanstr ++ "PCAPReader" ∉ (startGroup chanstr).nameToActor := by
  have hkeys : ∀ name, name ∈ (startGroup chanstr).nameToActor ↔ name = "BinRec" ∨
      name = "DataDecoder_" ++ chanstr ∨ name = chanstr ++ "MessageProcessor" ∨
      name = chanstr ++ "MsgBuf A" := by
    intro name
    simp only [startGroup, Group.add, List.zipIdx, List.foldl, AList.mem_insert]
    simp
  have hlen : ∀ {a b : String}, a = b → a.length = b.length := congrArg String.length
  have hreader : "PCAPReader".length = 10 := rfl
  have hrecorder : "BinRec".length = 6 := rfl
  have hdecoder : "DataDecoder_".length = 12 := rfl
  have hprocessor : "MessageProcessor".length = 16 := rfl
  have hbuffer : "MsgBuf A".length = 8 := rfl
  rw [hkeys]
  rintro (h | h | h | h) <;> have h := hlen h <;> simp only [String.length_append] at h <;> omega

theorem remove_withReader {a : ℕ} (ha : 4 ≤ a) (s : State)
    (hgroup : s.group = (startGroup cfg.chanstr).withReader a (cfg.chanstr ++ "PCAPReader")) :
    s.remove a (cfg.chanstr ++ "PCAPReader") = some { s with
      group := startGroup cfg.chanstr
      readers := s.readers.erase a
      managerQ := s.managerQ ++ [.actorRemoved (cfg.chanstr ++ "PCAPReader")] } := by
  have hmembers : ([0, 1, 2, 3] ++ [a]).filter (· ≠ a) = [0, 1, 2, 3] := by
    rw [List.filter_append, List.filter_eq_self.mpr, List.filter_eq_nil_iff.mpr, List.append_nil]
    · simp
    · intro b hb
      simp only [List.mem_cons, List.not_mem_nil, or_false] at hb
      exact decide_eq_true (by omega)
  have hnames := erase_insert a (reader_notMem cfg.chanstr)
  have hrequesters := erase_insert (m := (∅ : Map String Requester)) .fileManager
    (AList.notMem_empty (cfg.chanstr ++ "PCAPReader"))
  have hrest : (⟨([0, 1, 2, 3] ++ [a]).filter (· ≠ a),
      ((startGroup cfg.chanstr).nameToActor.insert (cfg.chanstr ++ "PCAPReader") a).erase
        (cfg.chanstr ++ "PCAPReader"),
      ((∅ : Map String Requester).insert (cfg.chanstr ++ "PCAPReader") .fileManager).erase
        (cfg.chanstr ++ "PCAPReader")⟩ : Group) = startGroup cfg.chanstr := by
    rw [hmembers, hnames, hrequesters]
    rfl
  have hlookup : s.group.actorRequesters.lookup (cfg.chanstr ++ "PCAPReader") =
      some .fileManager := by
    rw [hgroup]
    exact AList.lookup_insert (∅ : Map String Requester)
  unfold State.remove
  rw [hlookup, ← hrest, hgroup]
  rfl

end Steps

/-! ### Runs -/

section Runs

variable {cfg : Config} {files : List DirectoryEntry} {d : List MessageBuffer} {n : ℕ}
  {s s' : State} {t : Thread} {o out : List Output}

theorem step_of_not_aborted (haborted : s.aborted = false) (t : Thread) :
    cfg.step s t = match t with
      | .fileManager => cfg.fileManagerStep s
      | .group => s.groupStep := by
  unfold Config.step
  rw [haborted]
  rfl

/-- What a step of a replay leaves. -/
def Next (cfg : Config) (files : List DirectoryEntry) (d : List MessageBuffer) (n : ℕ) (s' : State)
    (o : List Output) : Prop :=
  ∃ n', n' + 1 ≤ n ∧ Replay cfg files (d ++ delivered o) n' s' ∧
    (.shutdown ∈ o ↔ n' = 0 ∧ s'.aborted = false)

theorem Next.silent {n' : ℕ} {d' : List MessageBuffer} (h : Replay cfg files d' n' s')
    (hd : d' = d) (hn : n' + 1 ≤ n) (hleft : n' = 0 → s'.aborted = true) :
    Next cfg files d n s' [] := by
  subst hd
  refine ⟨n', hn, ?_, ⟨nofun, fun ⟨hzero, hnot⟩ => ?_⟩⟩
  · rwa [show delivered [] = [] from rfl, List.append_nil]
  · cases (hleft hzero).symm.trans hnot

/-- **Every message** that is handled brings the replay on. -/
theorem Replay.step (h : Replay cfg files d n s) (hstep : cfg.step s t = some (s', o)) :
    Next cfg files d n s' o := by
  cases h with
  | idle k hk a ha hread =>
      rw [step_of_not_aborted rfl] at hstep
      cases t with
      | group => cases hstep
      | fileManager =>
          unfold Config.fileManagerStep at hstep
          dsimp only at hstep
          split at hstep
          next hnone =>
            cases hstep
            have hlen : k = files.length := Nat.le_antisymm hk (List.getElem?_eq_none_iff.mp hnone)
            subst hlen
            rw [List.take_length] at hread ⊢
            refine ⟨0, Nat.le_add_left _ _, ?_, by simp⟩
            rw [show delivered [.shutdown] = [] from rfl, List.append_nil]
            exact .finished a hread
          next file hfile =>
            cases hstep
            refine .silent (.adding k file hfile a ha hread) rfl ?_ nofun
            rw [messages_drop hfile]
            omega
  | adding k file hk a ha hread =>
      rw [step_of_not_aborted rfl] at hstep
      cases t with
      | fileManager => cases hstep
      | group =>
          unfold State.groupStep at hstep
          simp only [AList.lookup_insert, Option.map_some, Option.some.injEq] at hstep
          split at hstep
          next hopens =>
            cases hstep
            refine .silent (.reading k file hk a ha hread (cfg.newReader file.capture) rfl hopens
              Iff.rfl [] [] rfl) (List.append_nil _) ?_ nofun
            simp only [List.length_nil, Config.newReader]
            omega
          next hopens =>
            cases hstep
            exact .silent (.aborted k file hk (fun h => hopens h.1) [] List.nil_prefix _ rfl)
              (List.append_nil _) (by omega) fun _ => rfl
  | reading k file hk a ha hread r hname hopens hclean done pending hdone =>
      rw [step_of_not_aborted rfl] at hstep
      cases t with
      | fileManager => cases hstep
      | group =>
          cases pending with
          | cons m pending =>
              cases hstep
              refine ⟨pending.length + 2 * r.capture.frames.length + 3 +
                (messages (files.drop (k + 1)) + 1), ?_, ?_, ?_⟩
              · simp only [List.length_cons]
                omega
              · rw [show delivered [.processQ m] = [m] from rfl, List.append_assoc]
                refine .reading k file hk a ha hread r hname hopens hclean (done ++ [m]) pending ?_
                rw [← hdone]
                simp
              · simp
          | nil =>
              unfold State.groupStep at hstep
              have hticked := tick_ticked r kMaxPerTick
              have hname' := (tick_name r kMaxPerTick).trans hname
              rw [List.append_nil] at hdone
              simp only [List.map_nil, List.nil_append, AList.lookup_insert, Option.map_some,
                Option.some.injEq, AList.insert_insert] at hstep
              generalize r.tick kMaxPerTick = result at hstep hticked hname'
              obtain ⟨r', tick⟩ := result
              cases tick with
              | accepted m =>
                  obtain ⟨hm, hclean', hlt⟩ := hticked
                  cases hstep
                  refine .silent (.reading k file hk a ha hread r' hname' hopens
                    (hclean'.symm.trans hclean) done [m] ?_) rfl ?_ nofun
                  · rw [← hdone, hm, List.append_assoc]
                    rfl
                  · simp only [List.length_cons, List.length_nil] at hlt ⊢
                    omega
              | yielded =>
                  obtain ⟨hm, hclean', hlen⟩ := hticked
                  cases hstep
                  refine .silent (.reading k file hk a ha hread r' hname' hopens
                    (hclean'.symm.trans hclean) done [] ?_) rfl ?_ nofun
                  · rw [List.append_nil, ← hm, hdone]
                  · have hmax : 0 < kMaxPerTick := by decide
                    simp only [List.length_nil] at hlen ⊢
                    omega
              | eof =>
                  obtain ⟨hm, hclean'⟩ := hticked
                  cases hstep
                  have hlt := (List.getElem?_eq_some_iff.mp hk).1
                  refine .silent (.ending k hlt a ha
                    (readable_take hk hread ⟨hopens, hclean.mp hclean'⟩) r' hname') ?_ ?_ nofun
                  · rw [flatMap_take _ hk, ← hdone, hm, List.append_nil]
                  · simp only [List.length_nil]
                    omega
              | aborted =>
                  obtain ⟨hm, hclean'⟩ := hticked
                  cases hstep
                  refine .silent (.aborted k file hk (fun h => hclean' (hclean.mpr h.2)) done ?_ _ rfl)
                    rfl (by omega) fun _ => rfl
                  rw [← hdone]
                  exact List.prefix_append _ _
  | ending k hk a ha hread r hname =>
      rw [step_of_not_aborted rfl] at hstep
      cases t with
      | fileManager => cases hstep
      | group =>
          unfold State.groupStep at hstep
          simp only [AList.lookup_insert, Option.bind_some, hname] at hstep
          have hreaders := erase_insert (m := (∅ : Map Ptr Reader)) r (AList.notMem_empty a)
          rw [remove_withReader ha _ rfl] at hstep
          simp only [Option.map_some, Option.some.injEq, hreaders, List.nil_append] at hstep
          cases hstep
          refine .silent (.removed k hk (a + 1) (Nat.le_succ_of_le ha) hread) rfl ?_ nofun
          omega
  | removed k hk a ha hread =>
      rw [step_of_not_aborted rfl] at hstep
      cases t with
      | group => cases hstep
      | fileManager =>
          unfold Config.fileManagerStep at hstep
          simp only [endsWith_append, if_true] at hstep
          cases hstep
          refine .silent (.idle (k + 1) hk a ha hread) rfl ?_ nofun
          omega
  | finished a hread =>
      rw [step_of_not_aborted rfl] at hstep
      cases t <;> cases hstep
  | aborted k file hk hread done hdone s haborted =>
      unfold Config.step at hstep
      rw [if_pos haborted] at hstep
      cases hstep

theorem exists_some (r : State × List Output) : ∃ s' o, some r = some (s', o) := ⟨r.1, r.2, rfl⟩

/-- **A thread with a message** handles it: no message is for a deleted reader, and somebody is to
    be told of the end of a reader. -/
theorem Replay.handles (h : Replay cfg files d n s) (hrun : s.aborted = false) :
    (s.managerQ ≠ [] → ∃ s' o, cfg.step s .fileManager = some (s', o)) ∧
      (s.groupQ ≠ [] → ∃ s' o, cfg.step s .group = some (s', o)) ∧
      (n = 0 ∨ s.managerQ ≠ [] ∨ s.groupQ ≠ []) := by
  rw [step_of_not_aborted hrun, step_of_not_aborted hrun]
  cases h with
  | idle k hk a ha hread =>
      refine ⟨fun _ => ?_, fun h => absurd rfl h, .inr (.inl nofun)⟩
      unfold Config.fileManagerStep
      dsimp only
      split <;> exact exists_some _
  | adding k file hk a ha hread =>
      refine ⟨fun h => absurd rfl h, fun _ => ?_, .inr (.inr nofun)⟩
      unfold State.groupStep
      simp only [AList.lookup_insert, Option.map_some]
      exact exists_some _
  | reading k file hk a ha hread r hname hopens hclean done pending hdone =>
      refine ⟨fun h => absurd rfl h, fun _ => ?_, .inr (.inr fun h => ?_)⟩
      · cases pending with
        | cons m pending => exact exists_some _
        | nil =>
            unfold State.groupStep
            simp only [List.map_nil, List.nil_append, AList.lookup_insert, Option.map_some]
            exact exists_some _
      · exact absurd (List.append_eq_nil_iff.mp h).2 nofun
  | ending k hk a ha hread r hname =>
      refine ⟨fun h => absurd rfl h, fun _ => ?_, .inr (.inr nofun)⟩
      unfold State.groupStep
      simp only [AList.lookup_insert, Option.bind_some, hname]
      rw [remove_withReader ha _ rfl]
      exact exists_some _
  | removed k hk a ha hread =>
      refine ⟨fun _ => ?_, fun h => absurd rfl h, .inr (.inl nofun)⟩
      unfold Config.fileManagerStep
      simp only [endsWith_append, if_true]
      exact exists_some _
  | finished a hread => exact ⟨fun h => absurd rfl h, fun h => absurd rfl h, .inl rfl⟩
  | aborted k file hk hread done hdone s haborted => cases haborted.symm.trans hrun

theorem replay_run {dir : Option (List DirectoryEntry)} {events : List Thread}
    (hscan : cfg.scanDirectory dir = some files)
    (hrun : run cfg.step (cfg.start dir).1 events = some (s, out)) :
    ∃ n, events.length + n ≤ messages files + 1 ∧ Replay cfg files (delivered out) n s ∧
      (.shutdown ∈ out ↔ n = 0 ∧ s.aborted = false) := by
  have hstart : (cfg.start dir).1 =
      { pcapFiles := files, managerQ := [.resume], group := startGroup cfg.chanstr, next := 4 } := by
    unfold Config.start
    rw [hscan]
  rw [hstart] at hrun
  refine run_invariant (I := fun es out s => ∃ n, es.length + n ≤ messages files + 1 ∧
    Replay cfg files (delivered out) n s ∧ (.shutdown ∈ out ↔ n = 0 ∧ s.aborted = false))
    ?_ ?_ hrun
  · refine ⟨messages files + 1, (Nat.zero_add _).le, .idle 0 (Nat.zero_le _) 4 (Nat.le_refl _) nofun,
      nofun, fun h => nomatch h.1⟩
  · rintro es out s t s' o ⟨n, hn, h, hshutdown⟩ hstep
    obtain ⟨n', hn', h', hshutdown'⟩ := h.step hstep
    refine ⟨n', ?_, ?_, ?_⟩
    · rw [List.length_append, List.length_singleton]
      omega
    · rw [show delivered (out ++ o) = delivered out ++ delivered o from List.filterMap_append ..]
      exact h'
    · have hnot : .shutdown ∉ out := fun hin => by
        have hzero := (hshutdown.mp hin).1
        omega
      rw [List.mem_append, or_iff_right hnot]
      exact hshutdown'

theorem prefix_flatMap {file : DirectoryEntry} {k : ℕ} (hk : files[k]? = some file)
    {done : List MessageBuffer} (hdone : done <+: cfg.accepted file) :
    (files.take k).flatMap cfg.accepted ++ done <+: files.flatMap cfg.accepted := by
  have htake : (files.take (k + 1)).flatMap cfg.accepted <+: files.flatMap cfg.accepted := by
    conv_rhs => rw [← List.take_append_drop (k + 1) files, List.flatMap_append]
    exact List.prefix_append _ _
  rw [flatMap_take _ hk] at htake
  exact ((List.prefix_append_right_inj _).mpr hdone).trans htake

/-- What reaches the packet buffer, at any time. -/
theorem Replay.delivers (h : Replay cfg files d n s) : d <+: files.flatMap cfg.accepted := by
  have htake : ∀ k, (files.take k).flatMap cfg.accepted <+: files.flatMap cfg.accepted := by
    intro k
    conv_rhs => rw [← List.take_append_drop k files, List.flatMap_append]
    exact List.prefix_append _ _
  cases h with
  | idle k => exact htake k
  | adding k => exact htake k
  | reading k file hk a ha hread r hname hopens hclean done pending hdone =>
      refine prefix_flatMap hk ?_
      rw [← hdone, List.append_assoc]
      exact List.prefix_append _ _
  | ending k => exact htake (k + 1)
  | removed k => exact htake (k + 1)
  | finished => exact List.prefix_rfl
  | aborted k file hk hread done hdone => exact prefix_flatMap hk hdone

/-- **A replay is in order**, whichever thread comes first: the packet buffer is handed the accepted
    packets of the captures one capture behind the other, each once.  When the end is announced it
    has them all, and every capture could be read; a capture that cannot be read aborts the
    process. -/
theorem replay_in_order {dir : Option (List DirectoryEntry)} {events : List Thread}
    (hscan : cfg.scanDirectory dir = some files)
    (hrun : run cfg.step (cfg.start dir).1 events = some (s, out)) :
    delivered out <+: files.flatMap cfg.accepted ∧
      (.shutdown ∈ out → delivered out = files.flatMap cfg.accepted ∧
        ∀ file ∈ files, cfg.Readable file) ∧
      ((∀ file ∈ files, cfg.Readable file) → s.aborted = false) := by
  obtain ⟨n, -, h, hshutdown⟩ := replay_run hscan hrun
  refine ⟨h.delivers, fun hdone => ?_, fun hread => ?_⟩
  · obtain ⟨hzero, hnot⟩ := hshutdown.mp hdone
    generalize delivered out = d at h
    cases h with
    | finished a hread => exact ⟨rfl, hread⟩
    | aborted k file hk hread done hdone s haborted => cases haborted.symm.trans hnot
    | idle | adding | reading | ending | removed => omega
  · generalize delivered out = d at h
    cases h with
    | aborted k file hk hnot => exact absurd (hread file (List.mem_of_getElem? hk)) hnot
    | _ => rfl

/-! A directory with a snapshot and an incremental capture, and another channel's. -/

def channel310 : Config := .perChannel "310" 14310 "224.0.31.43" 14310

def padded : Capture where
  frames := [⟨paddedFrame, 60, 0⟩]

def january : List DirectoryEntry :=
  [⟨"dc3-glbx-a-20250115T000000_224.0.31.1_14310.pcap.zst", true, padded⟩,
    ⟨"dc3-glbx-a-20250115T000000_224.0.31.1_14312.pcap.zst", true, padded⟩,
    ⟨"dc3-glbx-a-snap-20250115T000000_224.0.31.43_14310.pcap.zst", true, padded⟩]

/-- The messages of two captures of one packet. -/
def replay : List Thread :=
  let file := .fileManager :: List.replicate 5 .group ++ [.fileManager]
  file ++ file ++ [.fileManager]

theorem january_in_order : ∃ files s out, channel310.scanDirectory (some january) = some files ∧
    run channel310.step (channel310.start (some january)).1 replay = some (s, out) ∧
    .shutdown ∈ out ∧
    delivered out <+: files.flatMap channel310.accepted ∧
      (.shutdown ∈ out → delivered out = files.flatMap channel310.accepted ∧
        ∀ file ∈ files, channel310.Readable file) ∧
      ((∀ file ∈ files, channel310.Readable file) → s.aborted = false) := by
  obtain ⟨files, hscan⟩ := Option.isSome_iff_exists.mp
    (show (channel310.scanDirectory (some january)).isSome = true by decide +kernel)
  obtain ⟨⟨s, out⟩, hrun, hdone⟩ := (Option.any_eq_true _ _).mp
    (show (run channel310.step (channel310.start (some january)).1 replay).any
      (fun r => decide (.shutdown ∈ r.2)) = true by decide +kernel)
  exact ⟨files, s, out, hscan, hrun, of_decide_eq_true hdone, replay_in_order hscan hrun⟩

/-- **A replay comes to its end**: no run handles more messages than a bound that the captures
    give; until the end is announced or the process aborts some thread has a message, and a thread
    that has one can handle it, so none is for a deleted reader; there is never more than one
    reader, and in the end there is none and the group has the members it started with. -/
theorem replay_ends {dir : Option (List DirectoryEntry)} {events : List Thread}
    (hscan : cfg.scanDirectory dir = some files)
    (hrun : run cfg.step (cfg.start dir).1 events = some (s, out)) :
    events.length ≤ messages files + 1 ∧
      (s.aborted = false →
        (.shutdown ∉ out → s.managerQ ≠ [] ∨ s.groupQ ≠ []) ∧
        (s.managerQ ≠ [] → ∃ s' o, cfg.step s .fileManager = some (s', o)) ∧
        (s.groupQ ≠ [] → ∃ s' o, cfg.step s .group = some (s', o)) ∧
        s.readers.entries.length ≤ 1 ∧
        (.shutdown ∈ out → s.readers = ∅ ∧ s.group = startGroup cfg.chanstr)) := by
  obtain ⟨n, hn, h, hshutdown⟩ := replay_run hscan hrun
  generalize delivered out = d at h
  refine ⟨by omega, fun hnot => ?_⟩
  obtain ⟨hmanager, hgroup, hleft⟩ := h.handles hnot
  refine ⟨fun hopen => hleft.resolve_left fun hzero => hopen (hshutdown.mpr ⟨hzero, hnot⟩), hmanager,
    hgroup, ?_, fun hdone => ?_⟩
  · cases h with
    | adding | reading | ending => exact Nat.le_refl 1
    | idle | removed | finished => exact Nat.zero_le 1
    | aborted k file hk hread done hdone s haborted => cases haborted.symm.trans hnot
  · have hzero := (hshutdown.mp hdone).1
    cases h with
    | finished a hread => exact ⟨rfl, rfl⟩
    | aborted k file hk hread done hdone s haborted => cases haborted.symm.trans hnot
    | idle | adding | reading | ending | removed => omega

theorem january_ends : ∃ s out,
    run channel310.step (channel310.start (some january)).1 replay = some (s, out) ∧
      ∃ files, replay.length ≤ messages files + 1 ∧
        (s.aborted = false →
          (.shutdown ∉ out → s.managerQ ≠ [] ∨ s.groupQ ≠ []) ∧
          (s.managerQ ≠ [] → ∃ s' o, channel310.step s .fileManager = some (s', o)) ∧
          (s.groupQ ≠ [] → ∃ s' o, channel310.step s .group = some (s', o)) ∧
          s.readers.entries.length ≤ 1 ∧
          (.shutdown ∈ out → s.readers = ∅ ∧ s.group = startGroup channel310.chanstr)) := by
  obtain ⟨files, hscan⟩ := Option.isSome_iff_exists.mp
    (show (channel310.scanDirectory (some january)).isSome = true by decide +kernel)
  obtain ⟨⟨s, out⟩, hrun⟩ := Option.isSome_iff_exists.mp
    (show (run channel310.step (channel310.start (some january)).1 replay).isSome = true by
      decide +kernel)
  exact ⟨s, out, hrun, files, replay_ends hscan hrun⟩

end Runs

end KasparHft.Pcap
