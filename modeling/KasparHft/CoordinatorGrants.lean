import KasparHft.Coordinator
import KasparHft.Machine
import KasparHft.TokenQueue

/-!
# Who is granted, and who waits

A message grants at most once, and grants follow the order of the tokens.  But the coordinator
does not know whether an actor it granted is done: a message that completes the head of the
queue grants it while others still work, and when an actor reports done nobody looks at the
head that its grant uncovered.
-/

namespace KasparHft.Coordinator

open AssocMap Machine TokenQueue

/-! ### What one message grants -/

/-- The actor that a message makes the coordinator grant: the head of the queue, when its token
    and its request are both there. -/
def completed (s : State) : Event → Option String
  | .permissionToken recipientId _ =>
      if s.paused = false ∧ (groupOf recipientId).isSome ∧ recipientId ∈ s.pendingRequests ∧
          ∀ entry ∈ s.tokenQueue.head?, entry.actorId = recipientId then some recipientId
      else none
  | .permissionRequest _ actorId _ =>
      if s.paused = false ∧ ∃ entry ∈ s.tokenQueue.head?, entry.actorId = actorId then some actorId
      else none
  | .permissionDone _ _ => none
  | .get .continue | .get .step =>
      (s.tokenQueue.head?.map (·.actorId)).filter (· ∈ s.pendingRequests)
  | .get .stop | .get .flush => none

/-- The token that a message puts into the queue: whom it is for, and its number. -/
def announced (s : State) : Event → Option (String × ℕ)
  | .permissionToken recipientId _ =>
      if (groupOf recipientId).isSome then some (recipientId, s.globalSequence + 1) else none
  | _ => none

/-- A token, or a grant, as whom it is for and its number. -/
def Entry.pair (e : Entry) : String × ℕ := (e.actorId, e.sequence)

def Grant.pair (g : Grant) : String × ℕ := (g.actorId, g.sequence)

/-- The actor of the head of the queue has a request pending. -/
def State.Grantable (s : State) : Prop :=
  ∃ entry ∈ s.tokenQueue.head?, entry.actorId ∈ s.pendingRequests

/-- What a message changes before anything is granted. -/
def State.arrive (s : State) : Event → State
  | .permissionToken recipientId sender =>
      match groupOf recipientId with
      | none => s
      | some recipientGroup =>
          { s with
            tokenQueue := s.tokenQueue ++
              [⟨recipientGroup, recipientId, s.globalSequence + 1, sender⟩]
            globalSequence := s.globalSequence + 1 }
  | .permissionRequest groupId actorId sender =>
      { s with
        pendingRequests := s.pendingRequests.insert actorId
          ⟨groupId, actorId, s.globalSequence + 1, sender⟩
        globalSequence := s.globalSequence + 1 }
  | .permissionDone _ _ => s
  | .get .stop => { s with paused := true }
  | .get .continue => { s with paused := false }
  | .get .step => s
  | .get .flush => { s with tokenQueue := [], pendingRequests := ∅ }

/-- What a message does.  It grants nothing; or it grants the head of the queue. -/
inductive Coordinates (s : State) (e : Event) : List Grant → State → Prop where
  | keeps (hnone : completed s e = none)
      (hhead : (s.arrive e).paused = false → (s.paused = false → ¬ s.Grantable) →
        ¬ (s.arrive e).Grantable) :
      Coordinates s e [] (s.arrive e)
  | grants {entry req : Entry} {rest : List Entry} {paused : Bool}
      (hcompleted : completed s e = some entry.actorId)
      (hqueue : (s.arrive e).tokenQueue = entry :: rest)
      (hreq : (s.arrive e).pendingRequests.lookup entry.actorId = some req) :
      Coordinates s e [⟨req.replyTo, entry.actorId, entry.sequence⟩]
        { s.arrive e with
          tokenQueue := rest
          pendingRequests := (s.arrive e).pendingRequests.erase entry.actorId
          paused }

theorem State.Grantable.of_head {s : State} {entry : Entry} {rest : List Entry}
    (hqueue : s.tokenQueue = entry :: rest) : s.Grantable ↔ entry.actorId ∈ s.pendingRequests := by
  simp [State.Grantable, hqueue]

theorem not_grantable_nil {s : State} (hqueue : s.tokenQueue = []) : ¬ s.Grantable := by
  simp [State.Grantable, hqueue]

theorem processPermissionQueue_keeps {s : State} (h : ¬ s.Grantable) :
    s.processPermissionQueue = (s, []) := by
  unfold State.processPermissionQueue
  split
  next => rfl
  next entry rest hqueue =>
    rw [State.Grantable.of_head hqueue] at h
    rw [AList.lookup_eq_none.mpr h]

theorem processPermissionQueue_grants {s : State} (h : s.Grantable) :
    ∃ entry rest req, s.tokenQueue = entry :: rest ∧
      s.pendingRequests.lookup entry.actorId = some req ∧
      s.processPermissionQueue =
        ({ s with
            tokenQueue := rest
            pendingRequests := s.pendingRequests.erase entry.actorId },
          [⟨req.replyTo, entry.actorId, entry.sequence⟩]) := by
  obtain ⟨entry, hhead, hmem⟩ := h
  obtain ⟨rest, hqueue⟩ := List.head?_eq_some_iff.mp hhead
  obtain ⟨req, hreq⟩ := Option.isSome_iff_exists.mp (AList.lookup_isSome.mpr hmem)
  refine ⟨entry, rest, req, hqueue, hreq, ?_⟩
  unfold State.processPermissionQueue
  simp only [hqueue, hreq]

/-! ### The messages -/

variable {s : State}

theorem permissionToken_coordinates (s : State) (recipientId : String) (sender : ℕ) :
    Coordinates s (.permissionToken recipientId sender) (s.onPermissionToken recipientId sender).2
      (s.onPermissionToken recipientId sender).1 := by
  have hkeeps := @Coordinates.keeps s (.permissionToken recipientId sender)
  have hgrants := @Coordinates.grants s (.permissionToken recipientId sender)
  unfold State.onPermissionToken
  cases hgroup : groupOf recipientId with
  | none =>
      simp only [State.arrive, hgroup] at hkeeps
      exact hkeeps (by simp [completed, hgroup]) fun hpaused h => h hpaused
  | some grp =>
      simp only [State.arrive, hgroup] at hkeeps hgrants ⊢
      split
      next hpaused =>
        exact hkeeps (by simp [completed, hpaused]) fun hrun => by simp [hpaused] at hrun
      next hrun =>
        have hrun : s.paused = false := by simpa using hrun
        split
        next hqueue => simp at hqueue
        next entry rest hqueue =>
          -- the head of the queue is the old one, or the new token if there was none
          have hhead : s.tokenQueue.head? = some entry ∨
              s.tokenQueue = [] ∧ entry.actorId = recipientId := by
            cases hold : s.tokenQueue with
            | nil =>
                rw [hold] at hqueue
                cases hqueue
                exact .inr ⟨rfl, rfl⟩
            | cons first others =>
                rw [hold] at hqueue
                cases hqueue
                exact .inl rfl
          split
          next heq =>
            have hall : ∀ e ∈ s.tokenQueue.head?, e.actorId = recipientId := by
              intro e he
              rcases hhead with hsome | ⟨hnil, -⟩
              · rw [hsome] at he
                exact Option.some_inj.mp he ▸ heq
              · simp [hnil] at he
            split
            next hlookup =>
              have hnot : recipientId ∉ s.pendingRequests := AList.lookup_eq_none.mp hlookup
              refine hkeeps (by simp [completed, hnot]) fun _ _ => ?_
              rw [State.Grantable.of_head hqueue, heq]
              exact hnot
            next req hlookup =>
              have hmem : recipientId ∈ s.pendingRequests :=
                AList.lookup_isSome.mp (by rw [hlookup]; rfl)
              have hcompleted : completed s (.permissionToken recipientId sender) =
                  some recipientId := by
                simp only [completed]
                exact if_pos ⟨hrun, by rw [hgroup]; rfl, hmem, hall⟩
              have hdoes := @hgrants entry req rest s.paused
                (hcompleted.trans (congrArg some heq.symm)) hqueue (by rw [heq]; exact hlookup)
              rw [heq] at hdoes ⊢
              exact hdoes
          next hne =>
            have hold : s.tokenQueue.head? = some entry :=
              hhead.resolve_right fun hand => hne hand.2
            refine hkeeps (by simp [completed, hold, hne]) fun _ hbefore => ?_
            rw [State.Grantable.of_head hqueue]
            intro hmem
            exact hbefore hrun ⟨entry, hold, hmem⟩

theorem permissionRequest_coordinates {s' : State} {groupId actorId : String} {sender : ℕ}
    {o : List Grant} (h : s.onPermissionRequest groupId actorId sender = some (s', o)) :
    Coordinates s (.permissionRequest groupId actorId sender) o s' := by
  have hkeeps := @Coordinates.keeps s (.permissionRequest groupId actorId sender)
  have hgrants := @Coordinates.grants s (.permissionRequest groupId actorId sender)
  simp only [State.arrive] at hkeeps hgrants
  unfold State.onPermissionRequest at h
  split at h
  next => simp at h
  next hfresh =>
    simp only at h
    split at h
    next hpaused =>
      cases h
      exact hkeeps (by simp [completed, hpaused]) fun hrun => by simp [hpaused] at hrun
    next hrun =>
      have hrun : s.paused = false := by simpa using hrun
      split at h
      next hqueue =>
        cases h
        exact hkeeps (by simp [completed, hqueue]) fun _ _ => not_grantable_nil hqueue
      next entry rest hqueue =>
        split at h
        next heq =>
          cases h
          have hdoes := @hgrants entry _ rest s.paused
            (by simp [completed, hrun, hqueue, heq]) hqueue
            (by rw [heq]; exact AList.lookup_insert _)
          rw [heq] at hdoes ⊢
          exact hdoes
        next hne =>
          cases h
          refine hkeeps (by simp [completed, hqueue, hne]) fun _ hbefore => ?_
          rintro ⟨head, hhead, hmem⟩
          change head ∈ s.tokenQueue.head? at hhead
          rcases (AList.mem_insert _).mp hmem with heq | hmem
          · rw [hqueue] at hhead
            exact hne (Option.some_inj.mp hhead ▸ heq)
          · exact hbefore hrun ⟨head, hhead, hmem⟩

theorem completed_get {what : Command} (hwhat : what = .continue ∨ what = .step) :
    completed s (.get what) =
      (s.tokenQueue.head?.map (·.actorId)).filter (· ∈ s.pendingRequests) := by
  rcases hwhat with rfl | rfl <;> rfl

theorem completed_get_none {what : Command} (hwhat : what = .continue ∨ what = .step)
    (h : ¬ s.Grantable) : completed s (.get what) = none := by
  rw [completed_get hwhat]
  cases hqueue : s.tokenQueue with
  | nil => rfl
  | cons entry rest =>
      rw [State.Grantable.of_head hqueue] at h
      simp [h]

theorem completed_get_some {what : Command} (hwhat : what = .continue ∨ what = .step)
    {entry req : Entry} {rest : List Entry} (hqueue : s.tokenQueue = entry :: rest)
    (hreq : s.pendingRequests.lookup entry.actorId = some req) :
    completed s (.get what) = some entry.actorId := by
  have hmem : entry.actorId ∈ s.pendingRequests := AList.lookup_isSome.mp (by rw [hreq]; rfl)
  rw [completed_get hwhat]
  simp [hqueue, hmem]

theorem continue_coordinates (s : State) :
    Coordinates s (.get .continue) (s.onGet .continue).2 (s.onGet .continue).1 := by
  by_cases hgrantable : s.Grantable
  · obtain ⟨entry, rest, req, hqueue, hreq, heq⟩ :=
      @processPermissionQueue_grants { s with paused := false } hgrantable
    simp only [State.onGet, heq]
    exact .grants (completed_get_some (.inl rfl) hqueue hreq) hqueue hreq
  · have heq := @processPermissionQueue_keeps { s with paused := false } hgrantable
    simp only [State.onGet, heq]
    exact .keeps (completed_get_none (.inl rfl) hgrantable) fun _ _ => hgrantable

theorem step_coordinates (s : State) :
    Coordinates s (.get .step) (s.onGet .step).2 (s.onGet .step).1 := by
  have hkeeps : ¬ s.Grantable → Coordinates s (.get .step) [] s := fun hgrantable =>
    .keeps (completed_get_none (.inr rfl) hgrantable) fun _ _ => hgrantable
  simp only [State.onGet]
  split
  next hqueue => exact hkeeps (not_grantable_nil hqueue)
  next entry rest hqueue =>
    split
    next hmem =>
      obtain ⟨entry, rest, req, hqueue, hreq, heq⟩ :=
        @processPermissionQueue_grants { s with paused := false }
          ((State.Grantable.of_head hqueue).mpr hmem)
      rw [heq]
      exact .grants (completed_get_some (.inr rfl) hqueue hreq) hqueue hreq
    next hnot => exact hkeeps fun h => hnot ((State.Grantable.of_head hqueue).mp h)

/-- **What one message does.** -/
theorem handle_coordinates {s' : State} {e : Event} {o : List Grant}
    (h : handle s e = some (s', o)) : Coordinates s e o s' := by
  cases e with
  | permissionToken recipientId sender =>
      have heq : s.onPermissionToken recipientId sender = (s', o) := Option.some_inj.mp h
      have hdoes := permissionToken_coordinates s recipientId sender
      rwa [heq] at hdoes
  | permissionRequest groupId actorId sender => exact permissionRequest_coordinates h
  | permissionDone actorId sequence =>
      cases h
      exact .keeps rfl fun hpaused h => h hpaused
  | get what =>
      have heq : s.onGet what = (s', o) := Option.some_inj.mp h
      cases what with
      | stop =>
          cases heq
          exact .keeps rfl fun hrun => by simp [State.arrive] at hrun
      | «continue» =>
          have hdoes := continue_coordinates s
          rwa [heq] at hdoes
      | step =>
          have hdoes := step_coordinates s
          rwa [heq] at hdoes
      | flush =>
          cases heq
          exact .keeps rfl fun _ _ => not_grantable_nil rfl

/-- The tokens that wait are those before, the new one behind; a flush drops them. -/
theorem arrive_tokenQueue (s : State) (e : Event) :
    ((s.arrive e).tokenQueue.map Entry.pair).Sublist
      (s.tokenQueue.map Entry.pair ++ (announced s e).toList) := by
  cases e with
  | permissionToken recipientId sender =>
      cases hgroup : groupOf recipientId <;> simp [State.arrive, announced, hgroup, Entry.pair]
  | permissionRequest => exact List.sublist_append_left _ _
  | permissionDone => exact List.sublist_append_left _ _
  | get what =>
      cases what with
      | flush => exact List.nil_sublist _
      | stop => exact List.sublist_append_left _ _
      | «continue» => exact List.sublist_append_left _ _
      | step => exact List.sublist_append_left _ _

/-- The numbers only grow, and a token takes the next one. -/
theorem arrive_globalSequence (s : State) (e : Event) :
    s.globalSequence ≤ (s.arrive e).globalSequence ∧
      ∀ t ∈ announced s e, t.2 = s.globalSequence + 1 ∧ t.2 = (s.arrive e).globalSequence := by
  cases e with
  | permissionToken recipientId sender =>
      cases hgroup : groupOf recipientId <;> simp [State.arrive, announced, hgroup]
  | permissionRequest => simp [State.arrive, announced]
  | permissionDone => simp [State.arrive, announced]
  | get what => cases what <;> simp [State.arrive, announced]

/-! ### What is told along a run -/

/-- The grants not yet answered by a `done`, and the tokens in the order they came. -/
structure Ledger where
  outstanding : List Grant := []
  arrived : List (String × ℕ) := []

/-- A `done` answers the grant of its actor and number. -/
def answers : Event → Grant → Bool
  | .permissionDone actorId sequence, g => g.actorId = actorId ∧ g.sequence = sequence
  | _, _ => false

def granted (s : State) (e : Event) : List Grant := (handle s e).elim [] (·.2)

def noteGrants (s : State) (e : Event) (l : Ledger) : Ledger where
  outstanding := (l.outstanding.filter (!answers e ·)) ++ granted s e
  arrived := l.arrived ++ (announced s e).toList

/-- The coordinator, with what it was told and did. -/
def ledgerStep : State × Ledger → Event → Option ((State × Ledger) × List Grant) :=
  withGhost handle noteGrants

/-- Not two granted actors that have not reported done. -/
def Exclusive (l : Ledger) : Prop :=
  ∀ g ∈ l.outstanding, ∀ g' ∈ l.outstanding, g.actorId = g'.actorId

/-- The grants consume the tokens in the order of their arrival, each token once, for its own
    recipient. -/
structure Ordered (out : List Grant) (sl : State × Ledger) : Prop where
  inOrder : InOrder sl.2.arrived (out.map Grant.pair) (sl.1.tokenQueue.map Entry.pair)
  increasing : sl.2.arrived.Pairwise (·.2 < ·.2)
  bounded : ∀ t ∈ sl.2.arrived, t.2 ≤ sl.1.globalSequence

section Step

variable {sl sl' : State × Ledger} {e : Event} {out o : List Grant}

theorem ledgerStep_eq_some {s' : State} {l' : Ledger}
    (h : ledgerStep sl e = some ((s', l'), o)) :
    Coordinates sl.1 e o s' ∧
      l'.outstanding = (sl.2.outstanding.filter (!answers e ·)) ++ o ∧
      l'.arrived = sl.2.arrived ++ (announced sl.1 e).toList := by
  obtain ⟨s, l⟩ := sl
  obtain ⟨hhandle, rfl⟩ := withGhost_eq_some.mp h
  refine ⟨handle_coordinates hhandle, ?_, rfl⟩
  simp [noteGrants, granted, hhandle]

/-- **The order of the tokens** is kept, whatever comes. -/
theorem Ordered.step (h : Ordered out sl) (hstep : ledgerStep sl e = some (sl', o)) :
    Ordered (out ++ o) sl' := by
  obtain ⟨s', l'⟩ := sl'
  obtain ⟨hdoes, -, harrived⟩ := ledgerStep_eq_some hstep
  obtain ⟨hmono, hnumber⟩ := arrive_globalSequence sl.1 e
  have hsequence : s'.globalSequence = (sl.1.arrive e).globalSequence := by
    cases hdoes <;> rfl
  have hall : InOrder (sl.2.arrived ++ (announced sl.1 e).toList) (out.map Grant.pair)
      ((sl.1.arrive e).tokenQueue.map Entry.pair) := by
    refine InOrder.drop ?_ (arrive_tokenQueue sl.1 e)
    cases announced sl.1 e with
    | none => simpa using h.inOrder
    | some t => exact h.inOrder.arrive t
  constructor
  · change InOrder l'.arrived _ (s'.tokenQueue.map Entry.pair)
    rw [harrived]
    cases hdoes with
    | keeps => simpa using hall
    | grants hcompleted hqueue hreq =>
        rw [hqueue] at hall
        rw [List.map_append]
        exact hall.serve
  · change l'.arrived.Pairwise _
    rw [harrived, List.pairwise_append]
    refine ⟨h.increasing, ?_, ?_⟩
    · cases announced sl.1 e with
      | none => exact List.Pairwise.nil
      | some t => exact List.pairwise_singleton _ _
    · intro t ht t' ht'
      have hle := h.bounded t ht
      have hnext := (hnumber t' (Option.mem_toList.mp ht')).1
      omega
  · intro t ht
    change t ∈ l'.arrived at ht
    change t.2 ≤ s'.globalSequence
    rw [harrived, List.mem_append, Option.mem_toList] at ht
    rw [hsequence]
    rcases ht with ht | ht
    · exact (h.bounded t ht).trans hmono
    · exact (hnumber t ht).2.le

theorem Ordered.start : Ordered [] (({} : State), ({} : Ledger)) :=
  ⟨InOrder.start, List.Pairwise.nil, fun t ht => by simp at ht⟩

/-- What the coordinator owes the groups. -/
structure Granting (out : List Grant) (sl : State × Ledger) : Prop where
  exclusive : Exclusive sl.2
  inOrder : (out.map Grant.pair).Sublist sl.2.arrived
  once : (out.map Grant.pair).Nodup

theorem Ordered.granting_iff_exclusive (h : Ordered out sl) : Granting out sl ↔ Exclusive sl.2 := by
  constructor
  · exact fun hgranting => hgranting.exclusive
  · intro hexclusive
    have hnodup : sl.2.arrived.Nodup :=
      h.increasing.imp fun hlt heq => absurd (congrArg Prod.snd heq) (Nat.ne_of_lt hlt)
    exact ⟨hexclusive, h.inOrder.served_sublist,
      (h.inOrder.served_nodup hnodup).sublist (List.sublist_append_left _ _)⟩

/-- A message that completes the head finds nobody granted but the same actor. -/
def Awaited (sl : State × Ledger) (e : Event) : Prop :=
  ∀ actorId ∈ completed sl.1 e, ∀ g ∈ sl.2.outstanding, g.actorId = actorId

/-- Only a `done` answers. -/
theorem filter_answers (hnot : ∀ actorId sequence, e ≠ .permissionDone actorId sequence)
    (gs : List Grant) : gs.filter (!answers e ·) = gs := by
  refine List.filter_eq_self.mpr fun g _ => ?_
  cases e with
  | permissionDone actorId sequence => exact absurd rfl (hnot actorId sequence)
  | permissionToken => rfl
  | permissionRequest => rfl
  | get => rfl

/-- **Exclusion is kept** by a step exactly when it is awaited. -/
theorem exclusive_step_iff (h : Exclusive sl.2) (hstep : ledgerStep sl e = some (sl', o)) :
    Exclusive sl'.2 ↔ Awaited sl e := by
  obtain ⟨s', l'⟩ := sl'
  obtain ⟨hdoes, houtstanding, -⟩ := ledgerStep_eq_some hstep
  change (∀ g ∈ l'.outstanding, ∀ g' ∈ l'.outstanding, _) ↔ Awaited sl e
  rw [houtstanding]
  unfold Awaited
  have hfewer : ∀ g ∈ sl.2.outstanding.filter (!answers e ·), g ∈ sl.2.outstanding :=
    fun g hg => List.mem_of_mem_filter hg
  cases hdoes with
  | keeps hnone =>
      simp only [List.append_nil, hnone]
      constructor
      · intro _ actorId hactor
        simp at hactor
      · exact fun _ g hg g' hg' => h g (hfewer g hg) g' (hfewer g' hg')
  | @grants entry req rest _ hcompleted =>
      -- only a message other than `done` completes a head, and it answers nothing
      have hsame : sl.2.outstanding.filter (!answers e ·) = sl.2.outstanding := by
        refine filter_answers (fun actorId sequence heq => ?_) _
        simp [heq, completed] at hcompleted
      generalize hg : (⟨req.replyTo, entry.actorId, entry.sequence⟩ : Grant) = g
      have hactorId : g.actorId = entry.actorId := by rw [← hg]
      rw [hsame, hcompleted]
      constructor
      · intro hexclusive actorId hactor g' hg'
        rw [← Option.mem_some_iff.mp hactor, ← hactorId]
        exact hexclusive g' (List.mem_append_left _ hg') g (by simp)
      · intro hawaited
        have hto : ∀ g' ∈ sl.2.outstanding ++ [g], g'.actorId = entry.actorId := by
          intro g' hg'
          rcases List.mem_append.mp hg' with hg' | hg'
          · exact hawaited _ rfl g' hg'
          · rw [List.mem_singleton.mp hg', hactorId]
        exact fun g₁ hg₁ g₂ hg₂ => (hto g₁ hg₁).trans (hto g₂ hg₂).symm

/-- An actor that waits is not passed over: the head has no request, when nobody is granted. -/
def HeadServed (sl : State × Ledger) : Prop :=
  sl.1.paused = false → sl.2.outstanding = [] → ¬ sl.1.Grantable

/-- The last `done` that is owed finds no request of the head. -/
def DoneLast (sl : State × Ledger) : Event → Prop
  | .permissionDone actorId sequence =>
      sl.1.paused = false →
        sl.2.outstanding.filter (!answers (.permissionDone actorId sequence) ·) = [] →
        ¬ sl.1.Grantable
  | _ => True

/-- **Only a `done` leaves a head unserved.** -/
theorem headServed_step_iff (h : HeadServed sl) (hstep : ledgerStep sl e = some (sl', o)) :
    HeadServed sl' ↔ DoneLast sl e := by
  obtain ⟨s', l'⟩ := sl'
  obtain ⟨hdoes, houtstanding, -⟩ := ledgerStep_eq_some hstep
  -- another message grants, or leaves the head as it was
  have hother : (∀ actorId sequence, e ≠ .permissionDone actorId sequence) →
      HeadServed (s', l') := by
    intro hnot hrun hnone
    change l'.outstanding = [] at hnone
    rw [houtstanding, filter_answers hnot, List.append_eq_nil_iff] at hnone
    obtain ⟨hnone, rfl⟩ := hnone
    cases hdoes with
    | keeps _ hhead => exact hhead hrun fun hbefore => h hbefore hnone
  cases e with
  | permissionDone actorId sequence =>
      have hsame : (sl.1, []) = (s', o) := Option.some_inj.mp (withGhost_eq_some.mp hstep).1
      obtain ⟨rfl, rfl⟩ := Prod.mk.inj hsame
      change (_ → l'.outstanding = [] → _) ↔ _
      rw [houtstanding, List.append_nil]
      rfl
  | permissionToken => exact iff_of_true (hother fun _ _ heq => by cases heq) trivial
  | permissionRequest => exact iff_of_true (hother fun _ _ heq => by cases heq) trivial
  | get => exact iff_of_true (hother fun _ _ heq => by cases heq) trivial

end Step

/-! ### Runs -/

theorem granting_start : Granting [] (({} : State), ({} : Ledger)) :=
  Ordered.start.granting_iff_exclusive.mpr fun g hg => by simp at hg

instance (sl : State × Ledger) (e : Event) : Decidable (Awaited sl e) :=
  inferInstanceAs (Decidable (∀ actorId ∈ completed sl.1 e, ∀ g ∈ sl.2.outstanding, _ = _))

instance (s : State) : Decidable s.Grantable :=
  inferInstanceAs (Decidable (∃ entry ∈ s.tokenQueue.head?, entry.actorId ∈ s.pendingRequests))

instance (sl : State × Ledger) (e : Event) : Decidable (DoneLast sl e) :=
  match e with
  | .permissionDone _ _ => inferInstanceAs (Decidable (_ → _ → ¬ _))
  | .permissionToken _ _ | .permissionRequest _ _ _ | .get _ => inferInstanceAs (Decidable True)

/-- **One granted actor at a time**, and the grants in the order of the tokens: in a run this is
    so after every message, exactly when every message that completes the head of the queue
    finds no other actor granted and not done. -/
theorem granting_iff (es : List Event) (t : State × Ledger) (os : List Grant)
    (hrun : run ledgerStep ({}, {}) es = some (t, os)) :
    (∀ past rest sl out, es = past ++ rest →
      run ledgerStep ({}, {}) past = some (sl, out) → Granting out sl) ↔
      AllSteps ledgerStep Awaited ({}, {}) es :=
  always_iff_allSteps (J := Ordered) .start granting_start
    (fun _ _ _ _ _ hordered _ _ _ hstep => hordered.step hstep)
    (fun _ _ _ _ _ hordered _ hI hstep =>
      (hordered.step hstep).granting_iff_exclusive.trans (exclusive_step_iff hI.exclusive hstep))
    (allSteps_true _ es) hrun

/-- Two actors, of two groups. -/
def ticker : String := "feed.ticker"

def quoter : String := "maker.quoter"

/-- Each is announced, asks, is granted and is done before the next one asks. -/
def turns : List Event :=
  [.permissionToken ticker 1, .permissionToken quoter 1, .permissionRequest "feed" ticker 1,
    .permissionDone ticker 1, .permissionRequest "maker" quoter 2, .permissionDone quoter 2]

theorem turns_taken_granting :
    ∃ t os, run ledgerStep ({}, {}) turns = some (t, os) ∧
      ∀ past rest sl out, turns = past ++ rest →
        run ledgerStep ({}, {}) past = some (sl, out) → Granting out sl := by
  have hrun : ((run ledgerStep ({}, {}) turns).map fun r => r.2.map Grant.pair) =
      some [(ticker, 1), (quoter, 2)] := by decide +kernel
  obtain ⟨⟨t, os⟩, hrun, -⟩ := Option.map_eq_some_iff.mp hrun
  exact ⟨t, os, hrun, (granting_iff turns t os hrun).mpr (by decide +kernel)⟩

/-- The second actor asks while the first is at work, and is granted too. -/
theorem two_granted_at_once :
    ∃ sl out,
      run ledgerStep ({}, {}) [.permissionToken ticker 1, .permissionToken quoter 1,
        .permissionRequest "feed" ticker 1, .permissionRequest "maker" quoter 2] = some (sl, out) ∧
      sl.2.outstanding = [⟨1, ticker, 1⟩, ⟨2, quoter, 2⟩] ∧ ¬ Granting out sl := by
  have hrun : ((run ledgerStep ({}, {}) [.permissionToken ticker 1, .permissionToken quoter 1,
      .permissionRequest "feed" ticker 1, .permissionRequest "maker" quoter 2]).map
        fun r => r.1.2.outstanding) = some [⟨1, ticker, 1⟩, ⟨2, quoter, 2⟩] := by decide +kernel
  obtain ⟨⟨sl, out⟩, hrun, houtstanding⟩ := Option.map_eq_some_iff.mp hrun
  refine ⟨sl, out, hrun, houtstanding, fun hgranting => ?_⟩
  have hsame := hgranting.exclusive ⟨1, ticker, 1⟩ (by rw [houtstanding]; decide)
    ⟨2, quoter, 2⟩ (by rw [houtstanding]; decide)
  exact absurd hsame (by decide)

/-- **No head that could be granted is left**: in a run this is so after every message, while
    the coordinator is not paused and nobody is granted, exactly when no `done` that is the last
    one owed finds the request of the head there. -/
theorem headServed_iff (es : List Event) (t : State × Ledger) (os : List Grant)
    (hrun : run ledgerStep ({}, {}) es = some (t, os)) :
    (∀ past rest sl out, es = past ++ rest →
      run ledgerStep ({}, {}) past = some (sl, out) → HeadServed sl) ↔
      AllSteps ledgerStep DoneLast ({}, {}) es :=
  always_iff_allSteps (I := fun _ sl => HeadServed sl) (J := fun _ _ => True) trivial
    (fun _ _ => not_grantable_nil rfl) (fun _ _ _ _ _ _ _ _ _ _ => trivial)
    (fun _ _ _ _ _ _ _ hI hstep => headServed_step_iff hI hstep) (allSteps_true _ es) hrun

theorem turns_taken_headServed :
    ∃ t os, run ledgerStep ({}, {}) turns = some (t, os) ∧
      ∀ past rest sl out, turns = past ++ rest →
        run ledgerStep ({}, {}) past = some (sl, out) → HeadServed sl := by
  have hrun : ((run ledgerStep ({}, {}) turns).map fun r => r.2.map Grant.pair) =
      some [(ticker, 1), (quoter, 2)] := by decide +kernel
  obtain ⟨⟨t, os⟩, hrun, -⟩ := Option.map_eq_some_iff.mp hrun
  exact ⟨t, os, hrun, (headServed_iff turns t os hrun).mpr (by decide +kernel)⟩

/-- The second actor asks first.  Once the first one is granted and done, both the token at the
    head and its request are there, and the `done` looks at neither. -/
theorem head_left_waiting :
    ∃ sl out,
      run ledgerStep ({}, {}) [.permissionToken ticker 1, .permissionToken quoter 1,
        .permissionRequest "maker" quoter 2, .permissionRequest "feed" ticker 1,
        .permissionDone ticker 1] = some (sl, out) ∧ ¬ HeadServed sl := by
  have hrun : ((run ledgerStep ({}, {}) [.permissionToken ticker 1, .permissionToken quoter 1,
      .permissionRequest "maker" quoter 2, .permissionRequest "feed" ticker 1,
      .permissionDone ticker 1]).map fun r => (r.1.1.paused, r.1.2.outstanding,
        decide r.1.1.Grantable)) = some (false, [], true) := by decide +kernel
  obtain ⟨⟨sl, out⟩, hrun, heq⟩ := Option.map_eq_some_iff.mp hrun
  simp only [Prod.mk.injEq, decide_eq_true_eq] at heq
  obtain ⟨hpaused, hnone, hgrantable⟩ := heq
  exact ⟨sl, out, hrun, fun hserved => hserved hpaused hnone hgrantable⟩

end KasparHft.Coordinator
