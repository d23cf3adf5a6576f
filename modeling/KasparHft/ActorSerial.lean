import KasparHft.ActorThreads

/-!
# The handlers of an actor run one at a time

However the thread of an actor and its callers take turns, what the members go through is a
sequence of handlers run to their end one after the other, in the order in which they end, and
each is the handler that the type of its message is registered for.  A reply goes to the sender
of the message it answers, or back to the caller of the `fast_send` it answers.

`Serial` is the invariant, and each kind of step has a lemma of its own.
-/

namespace KasparHft.ActorThreads

open AssocMap Machine

variable {τ A T β H σ : Type} {n : ℕ}

/-! ### Dispatch -/

/-- What the caches hold is what the handlers are. -/
structure Cache.Sound [DecidableEq T] (cls : Class A T β H σ) (c : Cache H) : Prop where
  hit : ∀ ty f, c.handlerCache (cls.idOf ty) = some f → cls.handlers.lookup ty = some f
  miss : ∀ ty, c.dontHaveHandler (cls.idOf ty) = true → cls.handlers.lookup ty = none

theorem Cache.Sound.empty [DecidableEq T] (cls : Class A T β H σ) :
    ({} : Cache H).Sound cls where
  hit _ _ h := by cases h
  miss _ h := by cases h

/-- **Dispatch through the caches** is a lookup by type, where no two types share an id. -/
theorem Cache.Sound.callHandler [DecidableEq T] {cls : Class A T β H σ} {c : Cache H}
    (h : c.Sound cls) (hids : Function.Injective cls.idOf) (m : Message T β) :
    (c.callHandler cls m).1 = cls.handlers.lookup m.type ∧ (c.callHandler cls m).2.Sound cls := by
  unfold Cache.callHandler
  dsimp only
  split
  next f hf => exact ⟨(h.hit _ _ hf).symm, h⟩
  next hnone =>
    split
    next hmiss => exact ⟨(h.miss _ hmiss).symm, h⟩
    next =>
      split
      next hl =>
        refine ⟨hl.symm, h.hit, fun ty hty => ?_⟩
        by_cases heq : ty = m.type
        · rw [heq]
          exact hl
        · dsimp only at hty
          rw [Function.update_of_ne fun hid => heq (hids hid)] at hty
          exact h.miss ty hty
      next f hl =>
        refine ⟨hl.symm, fun ty g hg => ?_, h.miss⟩
        by_cases heq : ty = m.type
        · rw [heq] at hg ⊢
          dsimp only at hg
          rw [Function.update_self] at hg
          exact hl.trans hg
        · dsimp only at hg
          rw [Function.update_of_ne fun hid => heq (hids hid)] at hg
          exact h.hit ty g hg

/-! ### One after the other -/

/-- Handler runs, in the order in which they end: who ran the handler, and for what. -/
abbrev Log (τ A T β : Type) := List (Thread τ × Envelope A T β)

section Sequential

variable [DecidableEq T] (cls : Class A T β H σ)

/-- A message is handled. -/
def Class.handle (user : σ) (e : Envelope A T β) : Effect T β σ :=
  cls.perform (cls.handlers.lookup e.msg.type) user e

/-- The members after some handlers. -/
def Class.after (user : σ) (log : Log τ A T β) : σ :=
  log.foldl (fun user x => (cls.handle user x.2).user) user

/-- What some handlers reply, one after the other. -/
def Class.answers (user : σ) : Log τ A T β → List (Thread τ × Envelope A T β × List (Message T β))
  | [] => []
  | x :: log =>
      (x.1, x.2, (cls.handle user x.2).replies) :: Class.answers (cls.handle user x.2).user log

theorem after_concat (user : σ) (log : Log τ A T β) (x : Thread τ × Envelope A T β) :
    cls.after user (log ++ [x]) = (cls.handle (cls.after user log) x.2).user := List.foldl_concat ..

theorem answers_concat (user : σ) (log : Log τ A T β) (x : Thread τ × Envelope A T β) :
    cls.answers user (log ++ [x]) =
      cls.answers user log ++ [(x.1, x.2, (cls.handle (cls.after user log) x.2).replies)] := by
  induction log generalizing user with
  | nil => rfl
  | cons y log ih =>
      rw [List.cons_append, Class.answers, ih]
      rfl

end Sequential

/-- The replies of a handler that the thread of the actor ran go to the sender. -/
def sent (x : Thread τ × Envelope A T β × List (Message T β)) : List (A × Message T β) :=
  match x.1, x.2.1.sender with
  | .loop, some a => x.2.2.map fun m => (a, m)
  | _, _ => []

/-- The last reply of a handler that a caller ran is what its call returns. -/
def returnedBy [DecidableEq τ] (t : τ) (x : Thread τ × Envelope A T β × List (Message T β)) :
    List (Option (Message T β)) :=
  if x.1 = .caller t then [x.2.2.getLast?] else []

/-! ### What is seen -/

def Output.run : Output τ A T β → Option (Thread τ × Envelope A T β)
  | .ran who e => some (who, e)
  | _ => none

def Output.reply : Output τ A T β → Option (A × Message T β)
  | .replied a m => some (a, m)
  | _ => none

def Output.return [DecidableEq τ] (t : τ) : Output τ A T β → Option (Option (Message T β))
  | .returned t' reply => if t' = t then some reply else none
  | _ => none

/-- The handlers that have run. -/
def runs (out : List (Output τ A T β)) : Log τ A T β := out.filterMap Output.run

/-- The replies that were sent. -/
def replies (out : List (Output τ A T β)) : List (A × Message T β) := out.filterMap Output.reply

/-- What the calls of `fast_send` of a thread have returned. -/
def returns [DecidableEq τ] (t : τ) (out : List (Output τ A T β)) : List (Option (Message T β)) :=
  out.filterMap (Output.return t)

theorem runs_append (out o : List (Output τ A T β)) : runs (out ++ o) = runs out ++ runs o :=
  List.filterMap_append

theorem replies_append (out o : List (Output τ A T β)) :
    replies (out ++ o) = replies out ++ replies o := List.filterMap_append

/-- Deletions are not among the rest of what is seen. -/
theorem filterMap_deleted {γ : Type} {g : Output τ A T β → Option γ}
    (hg : ∀ e, g (.deleted e) = none) (rest : List (Envelope A T β)) :
    (rest.map Output.deleted).filterMap g = [] := by
  rw [List.filterMap_map]
  exact List.filterMap_eq_nil_iff.mpr fun e _ => hg e

theorem returns_append [DecidableEq τ] (t : τ) (out o : List (Output τ A T β)) :
    returns t (out ++ o) = returns t out ++ returns t o := List.filterMap_append

section Mailbox

variable [Boost.{0}]

/-! ### The invariant -/

/-- Where a thread is inside the mutex. -/
def Loop.inside? : Loop A T β H σ → Option (Inside A T β H σ)
  | .inside at_ _ => some at_
  | _ => none

def Caller.inside? : Caller A T β H σ → Option (Inside A T β H σ)
  | .inside at_ => some at_
  | _ => none

def State.inside (s : State n τ A T β H σ) : Thread τ → Option (Inside A T β H σ)
  | .loop => s.loop.inside?
  | .caller t => (s.callers t).inside?

theorem loop_of_inside {s : State n τ A T β H σ} {at_ : Inside A T β H σ}
    (h : s.inside .loop = some at_) : ∃ rest, s.loop = .inside at_ rest := by
  unfold State.inside Loop.inside? at h
  dsimp only at h
  split at h
  next at' rest heq =>
    cases h
    exact ⟨rest, heq⟩
  next => cases h

theorem caller_of_inside {s : State n τ A T β H σ} {t : τ} {at_ : Inside A T β H σ}
    (h : s.inside (.caller t) = some at_) : s.callers t = .inside at_ := by
  unfold State.inside Caller.inside? at h
  dsimp only at h
  split at h
  next at' heq =>
    cases h
    exact heq
  next => cases h

theorem inside_setCaller [DecidableEq τ] (s : State n τ A T β H σ) (t : τ) (c : Caller A T β H σ)
    (w : Thread τ) :
    (s.setCaller t c).inside w = if w = .caller t then c.inside? else s.inside w := by
  cases w with
  | loop => exact (if_neg (by rintro ⟨⟩)).symm
  | caller t' =>
      unfold State.inside State.setCaller
      dsimp only
      by_cases ht : t' = t
      · rw [ht, Function.update_self, if_pos rfl]
      · rw [Function.update_of_ne ht, if_neg fun heq => ht (Thread.caller.inj heq)]

/-- What the reply of the holder needs: it is told apart from a `fast_send`, or its return
    address is there. -/
def Flags (s : State n τ A T β H σ) (e : Envelope A T β) : Thread τ → Prop
  | .loop => s.usingFastSend = false ∧ s.replyTo = e.sender
  | .caller _ => s.usingFastSend = true ∧ s.replyMessage = none

def InsideOk [DecidableEq T] (cls : Class A T β H σ) (s : State n τ A T β H σ) (who : Thread τ) :
    Inside A T β H σ → Prop
  | .locked e => Flags s e who
  | .running e f cache user =>
      Flags s e who ∧ f = cls.handlers.lookup e.msg.type ∧ cache.Sound cls ∧ user = s.user
  | .ran _ => True

/-- The reply that a call of `fast_send` is about to return. -/
def State.pending (s : State n τ A T β H σ) (t : τ) : List (Option (Message T β)) :=
  match s.inside (.caller t) with
  | some (.ran _) => [s.replyMessage]
  | _ => []

/-- The members and what has been replied are those of handlers run one after the other. -/
structure Serial [DecidableEq T] [DecidableEq τ] (cls : Class A T β H σ) (user₀ : σ)
    (s : State n τ A T β H σ) (out : List (Output τ A T β)) : Prop where
  user : s.user = cls.after user₀ (runs out)
  cache : s.cache.Sound cls
  holder : ∀ who at_, s.inside who = some at_ → s.mutex = some who
  inside : ∀ who at_, s.inside who = some at_ → InsideOk cls s who at_
  popped : ∀ e rest, s.loop = .popped e rest → s.replyTo = e.sender
  replied : replies out = (cls.answers user₀ (runs out)).flatMap sent
  returned : ∀ t, returns t out ++ s.pending t =
    (cls.answers user₀ (runs out)).flatMap (returnedBy t)

theorem pending_congr {s s' : State n τ A T β H σ} {t : τ}
    (hinside : s'.inside (.caller t) = s.inside (.caller t))
    (hmessage : s'.replyMessage = s.replyMessage) : s'.pending t = s.pending t := by
  unfold State.pending
  rw [hinside, hmessage]

theorem pending_of_ran {s : State n τ A T β H σ} {t : τ} {e : Envelope A T β}
    (h : s.inside (.caller t) = some (.ran e)) : s.pending t = [s.replyMessage] := by
  unfold State.pending
  rw [h]

theorem pending_of_ne {s : State n τ A T β H σ} {t : τ}
    (h : ∀ e, s.inside (.caller t) ≠ some (.ran e)) : s.pending t = [] := by
  unfold State.pending
  split
  next e hat => exact absurd hat (h e)
  next => rfl

theorem pending_of_none {s : State n τ A T β H σ} {t : τ} (h : s.inside (.caller t) = none) :
    s.pending t = [] := pending_of_ne fun e hat => by rw [h] at hat; cases hat

section Steps

variable [DecidableEq T] [DecidableEq τ] {cls : Class A T β H σ} {user₀ : σ}
  {s s' : State n τ A T β H σ} {out o : List (Output τ A T β)} {who : Thread τ} {t : τ}
  {e : Envelope A T β} {rest : List (Envelope A T β)}

/-- A step that nothing inside the mutex notices. -/
structure Quiet (s s' : State n τ A T β H σ) (o : List (Output τ A T β)) : Prop where
  user : s'.user = s.user
  cache : s'.cache = s.cache
  mutex : s'.mutex = s.mutex
  usingFastSend : s'.usingFastSend = s.usingFastSend
  replyMessage : s'.replyMessage = s.replyMessage
  inside : ∀ who, s'.inside who = s.inside who
  replyTo : s.inside .loop ≠ none → s'.replyTo = s.replyTo
  popped : ∀ e rest, s'.loop = .popped e rest → s'.replyTo = e.sender
  runs : runs o = []
  replies : replies o = []
  returns : ∀ t, returns t o = []

theorem Serial.quiet (h : Serial cls user₀ s out) (hq : Quiet s s' o) :
    Serial cls user₀ s' (out ++ o) where
  user := by rw [runs_append, hq.runs, List.append_nil, hq.user, h.user]
  cache := by
    rw [hq.cache]
    exact h.cache
  holder who at_ hat := by
    rw [hq.mutex]
    exact h.holder who at_ (hq.inside who ▸ hat)
  inside who at_ hat := by
    rw [hq.inside] at hat
    have hflags : ∀ e, Flags s e who → Flags s' e who := by
      intro e hflags
      cases who with
      | loop =>
          have hloop : s.inside .loop ≠ none := by
            rw [hat]
            exact Option.some_ne_none _
          exact ⟨hq.usingFastSend.trans hflags.1, (hq.replyTo hloop).trans hflags.2⟩
      | caller t => exact ⟨hq.usingFastSend.trans hflags.1, hq.replyMessage.trans hflags.2⟩
    have hok := h.inside who at_ hat
    cases at_ with
    | locked e => exact hflags e hok
    | running e f cache user =>
        obtain ⟨hflag, hf, hcache, huser⟩ := hok
        exact ⟨hflags e hflag, hf, hcache, huser.trans hq.user.symm⟩
    | ran e => trivial
  popped := hq.popped
  replied := by rw [replies_append, runs_append, hq.runs, hq.replies, List.append_nil,
    List.append_nil, h.replied]
  returned t := by
    rw [returns_append, runs_append, hq.runs, hq.returns, List.append_nil, List.append_nil,
      pending_congr (hq.inside _) hq.replyMessage, h.returned]

/-- While one thread is inside, or takes the mutex, no other is inside. -/
theorem Serial.alone (h : Serial cls user₀ s out)
    (hmutex : s.mutex = none ∨ s.mutex = some who) {w : Thread τ} (hw : w ≠ who) :
    s.inside w = none := by
  rcases hat : s.inside w with _ | at_
  · rfl
  · have hholds := h.holder w at_ hat
    rcases hmutex with hnone | hsome
    · rw [hnone] at hholds
      cases hholds
    · rw [hsome] at hholds
      exact absurd (Option.some.inj hholds).symm hw

/-- A step of the one thread that is inside: what is left is to say what it does. -/
theorem Serial.critical (h : Serial cls user₀ s out)
    (hmutex : s.mutex = none ∨ s.mutex = some who)
    (hother : ∀ w, w ≠ who → s'.inside w = s.inside w)
    (hself : ∀ at_, s'.inside who = some at_ → s'.mutex = some who ∧ InsideOk cls s' who at_)
    (hpopped : ∀ e rest, s'.loop = .popped e rest → s'.replyTo = e.sender)
    (huser : s'.user = cls.after user₀ (runs out ++ runs o)) (hcache : s'.cache.Sound cls)
    (hreplied : replies out ++ replies o =
      (cls.answers user₀ (runs out ++ runs o)).flatMap sent)
    (hreturned : ∀ t, returns t out ++ (returns t o ++ s'.pending t) =
      (cls.answers user₀ (runs out ++ runs o)).flatMap (returnedBy t)) :
    Serial cls user₀ s' (out ++ o) where
  user := by rw [runs_append, huser]
  cache := hcache
  holder w at_ hat := by
    by_cases hw : w = who
    · subst hw
      exact (hself at_ hat).1
    · rw [hother w hw, h.alone hmutex hw] at hat
      cases hat
  inside w at_ hat := by
    by_cases hw : w = who
    · subst hw
      exact (hself at_ hat).2
    · rw [hother w hw, h.alone hmutex hw] at hat
      cases hat
  popped := hpopped
  replied := by rw [replies_append, runs_append, hreplied]
  returned t := by rw [returns_append, runs_append, List.append_assoc, hreturned]

/-- A step of the one thread that is inside and that ends no handler. -/
theorem Serial.critical_quiet (h : Serial cls user₀ s out)
    (hmutex : s.mutex = none ∨ s.mutex = some who)
    (hother : ∀ w, w ≠ who → s'.inside w = s.inside w)
    (hself : ∀ at_, s'.inside who = some at_ → s'.mutex = some who ∧ InsideOk cls s' who at_)
    (hpopped : ∀ e rest, s'.loop = .popped e rest → s'.replyTo = e.sender)
    (huser : s'.user = s.user) (hcache : s'.cache = s.cache) (hruns : runs o = [])
    (hreplies : replies o = [])
    (hreturns : ∀ t, if who = .caller t then returns t o ++ s'.pending t = s.pending t
      else returns t o = []) :
    Serial cls user₀ s' (out ++ o) := by
  refine h.critical hmutex hother hself hpopped ?_ ?_ ?_ fun t => ?_
  · rw [hruns, List.append_nil, huser, h.user]
  · rw [hcache]
    exact h.cache
  · rw [hruns, hreplies, List.append_nil, List.append_nil, h.replied]
  · rw [hruns, List.append_nil, ← h.returned]
    have ht := hreturns t
    split at ht
    · rw [ht]
    next hne =>
      have hnone := h.alone hmutex (Ne.symm hne)
      rw [ht, pending_of_none hnone, pending_of_none ((hother _ (Ne.symm hne)).trans hnone)]
      rfl

/-- The end of a handler: it joins the sequence. -/
theorem Serial.finished (h : Serial cls user₀ s out) (hmutex : s.mutex = some who)
    (hother : ∀ w, w ≠ who → s'.inside w = s.inside w)
    (hself : s'.inside who = some (.ran e)) (hmutex' : s'.mutex = some who)
    (hpopped : ∀ e rest, s'.loop = .popped e rest → s'.replyTo = e.sender)
    (huser : s'.user = (cls.handle s.user e).user) (hcache : s'.cache.Sound cls)
    (hruns : runs o = [(who, e)])
    (hreplies : replies o = sent (who, e, (cls.handle s.user e).replies))
    (hreturns : ∀ t, returns t o = [] ∧
      (who = .caller t → s.pending t = [] ∧
        s'.replyMessage = (cls.handle s.user e).replies.getLast?)) :
    Serial cls user₀ s' (out ++ o) := by
  have hanswers := answers_concat cls user₀ (runs out) (who, e)
  rw [← h.user] at hanswers
  refine h.critical (.inr hmutex) hother ?_ hpopped ?_ hcache ?_ fun t => ?_
  · intro at_ hat
    rw [hself] at hat
    cases hat
    exact ⟨hmutex', trivial⟩
  · rw [hruns, after_concat, ← h.user, huser]
  · rw [hruns, hanswers, List.flatMap_append, ← h.replied, hreplies, List.flatMap_singleton]
  · obtain ⟨hnil, hcaller⟩ := hreturns t
    rw [hruns, hanswers, List.flatMap_append, ← h.returned, hnil, List.nil_append,
      List.flatMap_singleton]
    unfold returnedBy
    dsimp only
    split
    next hwho =>
      obtain ⟨hpend, hmessage⟩ := hcaller hwho
      rw [hpend, List.append_nil]
      unfold State.pending
      rw [← hwho, hself]
      dsimp only
      rw [hmessage]
    next hne =>
      have hnone := h.alone (.inr hmutex) (Ne.symm hne)
      rw [pending_of_none hnone, pending_of_none ((hother _ (Ne.symm hne)).trans hnone),
        List.append_nil, List.append_nil]

/-! ### Replies -/

omit [DecidableEq T] [DecidableEq τ] in
/-- In a `fast_send` the last reply is kept. -/
theorem reply_fast (hfast : s.usingFastSend = true) (ms : List (Message T β)) :
    s.reply ms = some ({ s with replyMessage := ms.getLast?.or s.replyMessage }, []) := by
  induction ms generalizing s with
  | nil => rfl
  | cons m ms ih =>
      have hkept := ih (s := { s with replyMessage := some m }) hfast
      unfold State.reply
      rw [if_pos hfast, hkept, List.getLast?_cons]
      rcases ms.getLast? with _ | x <;> rfl

omit [DecidableEq T] [DecidableEq τ] in
/-- Other replies are sent to the return address. -/
theorem reply_sent (hfast : s.usingFastSend = false) {ms : List (Message T β)}
    (h : s.reply ms = some (s', o)) : s' = s ∧
      (∀ a, s.replyTo = some a → o = ms.map (.replied a)) ∧ (s.replyTo = none → o = []) := by
  induction ms generalizing s' o with
  | nil =>
      cases h
      exact ⟨rfl, fun _ _ => rfl, fun _ => rfl⟩
  | cons m ms ih =>
      unfold State.reply at h
      rw [if_neg (by rw [hfast]; exact Bool.false_ne_true)] at h
      split at h
      · cases h
      next a ha =>
        obtain ⟨⟨s₁, o₁⟩, hrest, heq⟩ := Option.map_eq_some_iff.mp h
        obtain ⟨rfl, ho, -⟩ := ih hrest
        cases heq
        refine ⟨rfl, fun b hb => ?_, fun hnone => ?_⟩
        · rw [ha] at hb
          cases hb
          rw [ho a ha, List.map_cons]
        · rw [ha] at hnone
          cases hnone

omit [DecidableEq T] [DecidableEq τ] in
/-- **The end of a handler** run by a caller. -/
theorem finish_caller (hfast : s.usingFastSend = true) {f : Option H} {cache : Cache H} {user : σ}
    (h : s.finish cls who e f cache user = some (s', o)) :
    o = [.ran who e] ∧ s' = { s.write cache (cls.perform f user e) with
      replyMessage := (cls.perform f user e).replies.getLast?.or s.replyMessage } := by
  have hreply := reply_fast (s := s.write cache (cls.perform f user e)) hfast
    (cls.perform f user e).replies
  unfold State.finish at h
  dsimp only at h
  rw [hreply] at h
  cases h
  exact ⟨rfl, rfl⟩

omit [DecidableEq T] in
/-- The end of a handler run by the thread of the actor. -/
theorem finish_loop (hfast : s.usingFastSend = false) {f : Option H} {cache : Cache H} {user : σ}
    (hto : s.replyTo = e.sender) (h : s.finish cls .loop e f cache user = some (s', o)) :
    s' = s.write cache (cls.perform f user e) ∧ runs o = [(.loop, e)] ∧
      replies o = sent ((.loop : Thread τ), e, (cls.perform f user e).replies) ∧
      ∀ t, returns t o = [] := by
  unfold State.finish at h
  dsimp only at h
  obtain ⟨⟨s₁, o₁⟩, hreply, heq⟩ := Option.map_eq_some_iff.mp h
  cases heq
  obtain ⟨hsame, hsome, hnone⟩ :=
    reply_sent (s := s.write cache (cls.perform f user e)) hfast hreply
  refine ⟨hsame, ?_⟩
  have hto' : (s.write cache (cls.perform f user e)).replyTo = e.sender := hto
  rw [hto'] at hsome hnone
  unfold sent runs replies returns
  dsimp only
  rcases hsender : e.sender with _ | a
  · rw [hnone hsender]
    exact ⟨rfl, rfl, fun _ => rfl⟩
  · rw [hsome a hsender]
    refine ⟨?_, ?_, fun t => ?_⟩
    · refine congrArg (List.cons (Thread.loop, e)) ?_
      rw [List.filterMap_map]
      exact List.filterMap_eq_nil_iff.mpr fun _ _ => rfl
    · rw [List.filterMap_cons_none rfl, List.filterMap_map]
      exact congrFun List.filterMap_eq_map _
    · rw [List.filterMap_cons_none rfl, List.filterMap_map]
      exact List.filterMap_eq_nil_iff.mpr fun _ _ => rfl

/-! ### Every step -/

/-- A call that is no step inside the mutex. -/
theorem quiet_setCaller (h : Serial cls user₀ s out) {c : Caller A T β H σ}
    (hin : (s.callers t).inside? = none) (hc : c.inside? = none) :
    Quiet s (s.setCaller t c) [] where
  user := rfl
  cache := rfl
  mutex := rfl
  usingFastSend := rfl
  replyMessage := rfl
  inside who := by
    rw [inside_setCaller]
    split
    next hwho =>
      rw [hwho, hc]
      exact hin.symm
    next => rfl
  replyTo _ := rfl
  popped := h.popped
  runs := rfl
  replies := rfl
  returns _ := rfl

/-- A step inside the mutex of a caller that ends no handler. -/
theorem Serial.caller_step (h : Serial cls user₀ s out)
    (hmutex : s.mutex = none ∨ s.mutex = some (.caller t)) {c : Caller A T β H σ}
    (hinside : s'.inside = (s.setCaller t c).inside) (hloop : s'.loop = s.loop)
    (hto : s'.replyTo = s.replyTo) (huser : s'.user = s.user) (hcache : s'.cache = s.cache)
    (hself : ∀ at_, c.inside? = some at_ →
      s'.mutex = some (.caller t) ∧ InsideOk cls s' (.caller t) at_)
    (hruns : runs o = []) (hreplies : replies o = [])
    (hreturns : returns t o ++ s'.pending t = s.pending t)
    (hreturns' : ∀ t', t' ≠ t → returns t' o = []) : Serial cls user₀ s' (out ++ o) := by
  have hother : ∀ w, w ≠ .caller t → s'.inside w = s.inside w := by
    intro w hw
    rw [hinside, inside_setCaller, if_neg hw]
  refine h.critical_quiet hmutex hother (fun at_ hat => hself at_ ?_) ?_ huser hcache hruns
    hreplies fun t' => ?_
  · rwa [hinside, inside_setCaller, if_pos rfl] at hat
  · rw [hloop, hto]
    exact h.popped
  · split
    next ht =>
      cases ht
      exact hreturns
    next ht => exact hreturns' t' fun heq => ht (heq ▸ rfl)

theorem CallerMove.serial (h : Serial cls user₀ s out) (hids : Function.Injective cls.idOf)
    (hmove : CallerMove cls s t s' o) : Serial cls user₀ s' (out ++ o) := by
  have hinside : ∀ c, s.callers t = c → s.inside (.caller t) = c.inside? :=
    fun c hat => congrArg Caller.inside? hat
  have hnew : ∀ c, (s.setCaller t c).inside (.caller t) = c.inside? :=
    fun c => (inside_setCaller s t c _).trans (if_pos rfl)
  cases hmove with
  | stamps e hat => exact h.quiet (quiet_setCaller h (hinside _ hat) rfl)
  | pushes e hat =>
      obtain ⟨huser, hcache, hmutex, hfast, hmessage, hsame, hto, hpopped, -⟩ :=
        quiet_setCaller h (t := t) (c := .out) (hinside _ hat) rfl
      exact h.quiet ⟨huser, hcache, hmutex, hfast, hmessage, hsame, hto, hpopped, rfl, rfl,
        fun _ => rfl⟩
  | locks e hat hfree =>
      refine h.caller_step (.inl hfree) (c := .inside (.locked e)) rfl rfl rfl rfl rfl ?_ rfl rfl ?_
        fun _ _ => rfl
      · intro at_ hin
        cases hin
        exact ⟨rfl, rfl, rfl⟩
      · rw [pending_of_none (hinside _ hat)]
        refine pending_of_ne fun e' he' => ?_
        cases (hnew _).symm.trans he'
  | refused e hat =>
      have hlocked := hinside _ hat
      refine h.caller_step (.inr (h.holder _ _ hlocked)) (c := .out) rfl rfl rfl rfl rfl
        (fun _ hin => by cases hin) rfl rfl ?_ fun _ _ => rfl
      rw [pending_of_ne (s := s) fun e' he' => by cases hlocked.symm.trans he']
      exact pending_of_none (hnew _)
  | enters e hat =>
      have hlocked := hinside _ hat
      have hok := h.inside _ _ hlocked
      obtain ⟨hf, hsound⟩ := h.cache.callHandler hids e.msg
      refine h.caller_step (.inr (h.holder _ _ hlocked)) (c := .inside (s.enter cls e)) rfl rfl rfl
        rfl rfl ?_ rfl rfl ?_ fun _ _ => rfl
      · intro at_ hin
        cases hin
        exact ⟨h.holder _ _ hlocked, hok, hf, hsound, rfl⟩
      · rw [pending_of_ne (s := s) fun e' he' => by cases hlocked.symm.trans he']
        refine pending_of_ne fun e' he' => ?_
        cases (hnew _).symm.trans he'
  | finishes e f cache user hat s₁ o hfinish =>
      have hrunning := hinside _ hat
      obtain ⟨⟨hfast, hmessage⟩, rfl, hsound, rfl⟩ := h.inside _ _ hrunning
      have hmutex := h.holder _ _ hrunning
      obtain ⟨rfl, rfl⟩ := finish_caller hfast hfinish
      refine h.finished (e := e) hmutex
        (fun w hw => (inside_setCaller _ t _ w).trans (if_neg hw)) ?_ hmutex h.popped rfl hsound
        rfl rfl fun t' => ⟨rfl, fun ht => ⟨?_, ?_⟩⟩
      · exact (inside_setCaller _ t _ _).trans (if_pos rfl)
      · cases ht
        exact pending_of_ne fun e' he' => by cases hrunning.symm.trans he'
      · show Option.or _ s.replyMessage = _
        rw [hmessage, Option.or_none]
        rfl
  | returns e hat =>
      have hran := hinside _ hat
      refine h.caller_step (.inr (h.holder _ _ hran)) (c := .out) rfl rfl rfl rfl rfl
        (fun _ hin => by cases hin) rfl rfl ?_ fun t' ht => ?_
      · have hnone : State.pending { s.setCaller t .out with mutex := none } t = [] :=
          pending_of_none (hnew _)
        rw [hnone, pending_of_ran hran, List.append_nil]
        exact List.filterMap_cons_some (if_pos rfl)
      · exact List.filterMap_cons_none (if_neg (Ne.symm ht))

omit [DecidableEq T] in
/-- A step of the thread of the actor outside the mutex. -/
theorem quiet_loop (hcallers : s'.callers = s.callers) (hin : s.loop.inside? = none)
    (hin' : s'.loop.inside? = none)
    (hpopped : ∀ e rest, s'.loop = .popped e rest → s'.replyTo = e.sender)
    (huser : s'.user = s.user) (hcache : s'.cache = s.cache) (hmutex : s'.mutex = s.mutex)
    (hfast : s'.usingFastSend = s.usingFastSend) (hmessage : s'.replyMessage = s.replyMessage)
    (hruns : runs o = []) (hreplies : replies o = []) (hreturns : ∀ t, returns t o = []) :
    Quiet s s' o where
  user := huser
  cache := hcache
  mutex := hmutex
  usingFastSend := hfast
  replyMessage := hmessage
  inside who := by
    cases who with
    | loop => exact hin'.trans hin.symm
    | caller t =>
        unfold State.inside
        rw [hcallers]
  replyTo hloop := absurd hin hloop
  popped := hpopped
  runs := hruns
  replies := hreplies
  returns := hreturns

/-- A step inside the mutex of the thread of the actor that ends no handler. -/
theorem Serial.loop_step (h : Serial cls user₀ s out)
    (hmutex : s.mutex = none ∨ s.mutex = some .loop) (hcallers : s'.callers = s.callers)
    (huser : s'.user = s.user) (hcache : s'.cache = s.cache)
    (hself : ∀ at_, s'.loop.inside? = some at_ → s'.mutex = some .loop ∧ InsideOk cls s' .loop at_)
    (hpopped : ∀ e rest, s'.loop ≠ .popped e rest)
    (hruns : runs o = []) (hreplies : replies o = []) (hreturns : ∀ t, returns t o = []) :
    Serial cls user₀ s' (out ++ o) := by
  refine h.critical_quiet hmutex (fun w hw => ?_) hself
    (fun e rest hat => absurd hat (hpopped e rest)) huser hcache hruns hreplies fun t => ?_
  · cases w with
    | loop => exact absurd rfl hw
    | caller t =>
        unfold State.inside
        rw [hcallers]
  · rw [if_neg (by rintro ⟨⟩)]
    exact hreturns t

theorem LoopMove.serial (h : Serial cls user₀ s out) (hids : Function.Injective cls.idOf)
    (hmove : LoopMove cls s s' o) : Serial cls user₀ s' (out ++ o) := by
  have hinside : ∀ l, s.loop = l → s.inside .loop = l.inside? :=
    fun l hat => congrArg Loop.inside? hat
  cases hmove with
  | pops q e hat hheld =>
      refine h.quiet (quiet_loop rfl (hinside _ hat) rfl (fun e' rest hat' => ?_) rfl rfl rfl
        rfl rfl rfl rfl fun _ => rfl)
      cases hat'
      rfl
  | drains hat hheld =>
      exact h.quiet (quiet_loop rfl (hinside _ hat) rfl (fun _ _ hat' => by cases hat') rfl rfl rfl
        rfl rfl rfl rfl fun _ => rfl)
  | goesOn hat =>
      exact h.quiet (quiet_loop rfl (hinside _ hat) rfl (fun _ _ hat' => by cases hat') rfl rfl rfl
        rfl rfl rfl rfl fun _ => rfl)
  | takes e rest hat =>
      refine h.quiet (quiet_loop rfl (hinside _ hat) rfl (fun e' rest hat' => ?_) rfl rfl rfl
        rfl rfl rfl rfl fun _ => rfl)
      cases hat'
      rfl
  | locks e rest hat hfree =>
      refine h.loop_step (.inl hfree) rfl rfl rfl (fun at_ hin => ?_) (fun _ _ => by rintro ⟨⟩) rfl
        rfl fun _ => rfl
      cases hin
      exact ⟨rfl, rfl, h.popped e rest hat⟩
  | enters e rest hat =>
      have hlocked := hinside _ hat
      have hok := h.inside _ _ hlocked
      have hmutex := h.holder _ _ hlocked
      obtain ⟨hf, hsound⟩ := h.cache.callHandler hids e.msg
      refine h.loop_step (.inr hmutex) rfl rfl rfl (fun at_ hin => ?_) (fun _ _ => by rintro ⟨⟩) rfl
        rfl fun _ => rfl
      cases hin
      exact ⟨hmutex, hok, hf, hsound, rfl⟩
  | finishes e rest f cache user hat s₁ o hfinish =>
      have hrunning := hinside _ hat
      obtain ⟨⟨hfast, hto⟩, rfl, hsound, rfl⟩ := h.inside _ _ hrunning
      have hmutex := h.holder _ _ hrunning
      obtain ⟨rfl, hruns, hreplies, hreturns⟩ := finish_loop hfast hto hfinish
      refine h.finished hmutex (fun w hw => ?_) rfl hmutex
        (fun _ _ hat' => by cases hat') rfl hsound hruns hreplies
        fun t' => ⟨hreturns t', fun ht => by cases ht⟩
      cases w with
      | loop => exact absurd rfl hw
      | caller t => rfl
  | unlocks e rest hat =>
      exact h.loop_step (.inr (h.holder _ _ (hinside _ hat))) rfl rfl rfl
        (fun _ hin => by cases hin) (fun _ _ => by rintro ⟨⟩) rfl rfl fun _ => rfl
  | stops e rest hat =>
      exact h.quiet (quiet_loop rfl (hinside _ hat) rfl (fun _ _ hat' => by cases hat') rfl rfl rfl
        rfl rfl (filterMap_deleted (fun _ => rfl) rest) (filterMap_deleted (fun _ => rfl) rest)
        fun _ => filterMap_deleted (fun _ => rfl) rest)
  | stays e rest hat hid =>
      exact h.quiet (quiet_loop rfl (hinside _ hat) rfl (fun _ _ hat' => by cases hat') rfl rfl rfl
        rfl rfl rfl rfl fun _ => rfl)
  | ends hat =>
      exact h.quiet (quiet_loop rfl (hinside _ hat) rfl (fun _ _ hat' => by cases hat') rfl rfl rfl
        rfl rfl rfl rfl fun _ => rfl)

/-- **One step of any thread.** -/
theorem Serial.step {batched : Bool} {ev : Event τ A T β} (h : Serial cls user₀ s out)
    (hids : Function.Injective cls.idOf) (hs : threadStep batched cls s ev = some (s', o)) :
    Serial cls user₀ s' (out ++ o) := by
  rcases threadStep_cases hs with ⟨t, m, -, rfl, rfl⟩ | ⟨t, e, hat, -, rfl, rfl⟩ |
    ⟨t, e, hat, rfl, rfl⟩ | ⟨t, hmove⟩ | hmove
  · exact h.quiet ⟨rfl, rfl, rfl, rfl, rfl, fun _ => rfl, fun _ => rfl, h.popped, rfl, rfl,
      fun _ => rfl⟩
  · exact h.quiet (quiet_setCaller h (congrArg Caller.inside? hat) rfl)
  · exact h.quiet (quiet_setCaller h (congrArg Caller.inside? hat) rfl)
  · exact hmove.serial h hids
  · exact hmove.serial h hids

theorem Serial.start (cls : Class A T β H σ) (user₀ : σ) :
    Serial cls user₀ ({ user := user₀ } : State n τ A T β H σ) [] where
  user := rfl
  cache := Cache.Sound.empty cls
  holder who at_ hat := by cases who <;> cases hat
  inside who at_ hat := by cases who <;> cases hat
  popped _ _ hat := by cases hat
  replied := rfl
  returned t := by
    have hnone : ({ user := user₀ } : State n τ A T β H σ).pending t = [] := pending_of_none rfl
    exact hnone

/-- **The handlers of an actor run one at a time**: in every interleaving of its thread and of
    callers, the members and the replies are those of handlers run one after the other, and two
    threads are never inside the mutex together. -/
theorem handlers_one_at_a_time {batched : Bool} {events : List (Event τ A T β)}
    (hids : Function.Injective cls.idOf)
    (hrun : run (threadStep batched cls) ({ user := user₀ } : State n τ A T β H σ) events =
      some (s, out)) :
    s.user = cls.after user₀ (runs out) ∧
    replies out = (cls.answers user₀ (runs out)).flatMap sent ∧
    (∀ t, returns t out ++ s.pending t =
      (cls.answers user₀ (runs out)).flatMap (returnedBy t)) ∧
    ∀ w w', s.inside w ≠ none → s.inside w' ≠ none → w = w' := by
  have h : Serial cls user₀ s out :=
    run_invariant (I := fun _ out s => Serial cls user₀ s out) (Serial.start cls user₀)
      (fun _ _ _ _ _ _ h hs => h.step hids hs) hrun
  refine ⟨h.user, h.replied, h.returned, fun w w' hw hw' => ?_⟩
  obtain ⟨at_, hat⟩ := Option.ne_none_iff_exists'.mp hw
  obtain ⟨at', hat'⟩ := Option.ne_none_iff_exists'.mp hw'
  exact Option.some.inj ((h.holder w at_ hat).symm.trans (h.holder w' at' hat'))

end Steps

end Mailbox

/-! ### A run -/

section Lists

attribute [local instance] Boost.lists

/-- An actor that adds up and replies with the sum; `false` is the type of `Shutdown`. -/
def adder : Class Bool Bool ℕ Unit ℕ where
  handlers := AList.insert true () ∅
  idOf ty := if ty then ⟨100, Nat.le_of_ble_eq_true rfl⟩ else ⟨5, Nat.le_of_ble_eq_true rfl⟩
  shutdownId := ⟨5, Nat.le_of_ble_eq_true rfl⟩
  perform f total e :=
    match f with
    | none => { user := total }
    | some _ => { user := total + e.msg.body, replies := [⟨true, total + e.msg.body⟩] }

theorem adder_ids : Function.Injective adder.idOf := by
  intro ty ty'
  cases ty <;> cases ty' <;> decide

/-- A message is taken from the mailbox, and a `fast_send` comes before its handler. -/
def adderTurns : List (Event Bool Bool Bool ℕ) :=
  [.send true ⟨true, 2⟩ (some true), .caller true, .caller true, .loop,
    .fastSend false ⟨true, 3⟩ none, .caller false, .caller false, .caller false, .caller false] ++
    List.replicate 4 .loop

/-- The actor run as far as a state of which something is checked. -/
theorem exists_adder (batched : Bool) (events : List (Event Bool Bool Bool ℕ))
    (P : State 4 Bool Bool Bool ℕ Unit ℕ → List (Output Bool Bool Bool ℕ) → Bool)
    (h : (run (threadStep batched adder) ({ user := 0 } : State 4 Bool Bool Bool ℕ Unit ℕ)
      events).any (fun r => P r.1 r.2) = true) :
    ∃ s out, run (threadStep batched adder) ({ user := 0 } : State 4 Bool Bool Bool ℕ Unit ℕ)
      events = some (s, out) ∧ P s out = true := by
  obtain ⟨⟨s, out⟩, hrun, hP⟩ := (Option.any_eq_true _ _).mp h
  exact ⟨s, out, hrun, hP⟩

theorem adder_one_at_a_time : ∃ s out,
    run (threadStep false adder) ({ user := 0 } : State 4 Bool Bool Bool ℕ Unit ℕ) adderTurns =
      some (s, out) ∧
    (s.user = 5 ∧ replies out = [(true, ⟨true, 5⟩)] ∧ returns false out = [some ⟨true, 3⟩]) ∧
    s.user = adder.after 0 (runs out) ∧
    replies out = (adder.answers 0 (runs out)).flatMap sent ∧
    (∀ t, returns t out ++ s.pending t = (adder.answers 0 (runs out)).flatMap (returnedBy t)) ∧
    ∀ w w', s.inside w ≠ none → s.inside w' ≠ none → w = w' := by
  obtain ⟨s, out, hrun, hseen⟩ := exists_adder false adderTurns
    (fun s out => s.user = 5 ∧ replies out = [(true, ⟨true, 5⟩)] ∧
      returns false out = [some ⟨true, 3⟩]) (by decide +kernel)
  exact ⟨s, out, hrun, of_decide_eq_true hseen,
    handlers_one_at_a_time adder_ids hrun⟩

end Lists

end KasparHft.ActorThreads
