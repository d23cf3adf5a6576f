import Mathlib.Data.List.Basic
import Mathlib.Data.Nat.Notation
import Mathlib.Tactic.Common

/-!
# Outboxes

A component generates messages; some are sent at once, the others wait in one queue until
they are released from its front.  From time to time what the component knows is reset.  Each
message carries as a mark how many resets there had been when its content was computed.

`InOrder` is about the order of the messages of one kind, `NoStale` about a relation between
each message and those that come after it.
-/

namespace Outbox

/-- A message and the resets before its content was computed. -/
structure Marked (μ : Type*) where
  msg : μ
  mark : ℕ
deriving DecidableEq, Repr

/-- What was generated, what was sent, what waits, each in its order. -/
structure Box (μ : Type*) where
  resets : ℕ := 0
  made : List (Marked μ) := []
  sent : List (Marked μ) := []
  waiting : List (Marked μ) := []
deriving DecidableEq, Repr

variable {μ : Type*}

/-- Messages with one mark. -/
def marked (k : ℕ) (ms : List μ) : List (Marked μ) := ms.map fun m => ⟨m, k⟩

/-- The messages of a batch that are sent at once, and those that wait. -/
def prompt (ms : List (μ × Bool)) : List μ := (ms.filter Prod.snd).map Prod.fst
def delayed (ms : List (μ × Bool)) : List μ := (ms.filter fun m => !m.2).map Prod.fst

namespace Box

def reset (b : Box μ) : Box μ := { b with resets := b.resets + 1 }

/-- A batch is generated from content of mark `k`. -/
def say (b : Box μ) (k : ℕ) (ms : List (μ × Bool)) : Box μ :=
  { b with
    made := b.made ++ marked k (ms.map Prod.fst)
    sent := b.sent ++ marked k (prompt ms)
    waiting := b.waiting ++ marked k (delayed ms) }

/-- The first `n` messages that wait are sent. -/
def release (b : Box μ) (n : ℕ) : Box μ :=
  { b with sent := b.sent ++ b.waiting.take n, waiting := b.waiting.drop n }

/-- The messages of kind `p` were sent, or wait, in the order they were generated in. -/
def InOrder (p : μ → Bool) (b : Box μ) : Prop :=
  (b.sent ++ b.waiting).filter (fun x => p x.msg) = b.made.filter fun x => p x.msg

/-- Each message stands in the relation to those sent after it, or to be sent after it. -/
def NoStale (R : Marked μ → Marked μ → Prop) (b : Box μ) : Prop :=
  (b.sent ++ b.waiting).Pairwise R

end Box

theorem mem_marked {k : ℕ} {ms : List μ} {x : Marked μ} :
    x ∈ marked k ms ↔ x.msg ∈ ms ∧ x.mark = k := by
  obtain ⟨m, j⟩ := x
  simp only [marked, List.mem_map, Marked.mk.injEq]
  constructor
  · rintro ⟨m', hm, rfl, rfl⟩
    exact ⟨hm, rfl⟩
  · rintro ⟨hm, rfl⟩
    exact ⟨m, hm, rfl, rfl⟩

theorem mem_prompt {ms : List (μ × Bool)} {m : μ} : m ∈ prompt ms ↔ (m, true) ∈ ms := by
  simp [prompt]

theorem mem_delayed {ms : List (μ × Bool)} {m : μ} : m ∈ delayed ms ↔ (m, false) ∈ ms := by
  simp [delayed]

theorem release_all (b : Box μ) (n : ℕ) :
    (b.release n).sent ++ (b.release n).waiting = b.sent ++ b.waiting := by
  unfold Box.release
  rw [List.append_assoc, List.take_append_drop]

/-! ### The order -/

section Order

variable {p : μ → Bool} {b : Box μ} {k n : ℕ} {ms : List (μ × Bool)}

theorem filter_marked (p : μ → Bool) (k : ℕ) (ms : List μ) :
    ((marked k ms).filter fun x => p x.msg) = marked k (ms.filter p) := by
  unfold marked
  rw [List.filter_map]
  rfl

/-- A batch whose messages of the kind are all sent at once. -/
theorem filter_prompt (h : ∀ m ∈ ms, p m.1 = true → m.2 = true) :
    (prompt ms).filter p = (ms.map Prod.fst).filter p ∧ (delayed ms).filter p = [] := by
  induction ms with
  | nil => exact ⟨rfl, rfl⟩
  | cons m ms ih =>
      obtain ⟨hm, hms⟩ := List.forall_mem_cons.mp h
      obtain ⟨hprompt, hdelayed⟩ := ih hms
      obtain ⟨m, now⟩ := m
      cases now <;> by_cases hp : p m = true <;> simp_all [prompt, delayed]

/-- A batch whose messages of the kind all wait. -/
theorem filter_delayed (h : ∀ m ∈ ms, p m.1 = true → m.2 = false) :
    (delayed ms).filter p = (ms.map Prod.fst).filter p ∧ (prompt ms).filter p = [] := by
  induction ms with
  | nil => exact ⟨rfl, rfl⟩
  | cons m ms ih =>
      obtain ⟨hm, hms⟩ := List.forall_mem_cons.mp h
      obtain ⟨hdelayed, hprompt⟩ := ih hms
      obtain ⟨m, now⟩ := m
      cases now <;> by_cases hp : p m = true <;> simp_all [prompt, delayed]

theorem inOrder_new (p : μ → Bool) : ({} : Box μ).InOrder p := rfl

theorem Box.InOrder.reset (h : b.InOrder p) : b.reset.InOrder p := h

theorem Box.InOrder.release (h : b.InOrder p) : (b.release n).InOrder p := by
  unfold Box.InOrder at *
  rw [release_all]
  exact h

/-- A batch whose messages of the kind wait goes to the end. -/
theorem Box.InOrder.say_delayed (h : b.InOrder p) (hwait : ∀ m ∈ ms, p m.1 = true → m.2 = false) :
    (b.say k ms).InOrder p := by
  obtain ⟨hdelayed, hprompt⟩ := filter_delayed hwait
  unfold Box.InOrder Box.say at *
  simp only [List.filter_append, filter_marked] at h ⊢
  rw [hdelayed, hprompt, ← h]
  simp [marked]

/-- A batch whose messages of the kind are sent at once needs that none waits. -/
theorem Box.InOrder.say_prompt (h : b.InOrder p) (hnow : ∀ m ∈ ms, p m.1 = true → m.2 = true)
    (hnone : ∀ m ∈ ms, p m.1 = true → ∀ x ∈ b.waiting, p x.msg = false) :
    (b.say k ms).InOrder p := by
  obtain ⟨hprompt, hdelayed⟩ := filter_prompt hnow
  have hwaiting : (ms.map Prod.fst).filter p = [] ∨ (b.waiting.filter fun x => p x.msg) = [] := by
    by_cases hex : ∃ m ∈ ms, p m.1 = true
    · obtain ⟨m, hm, hp⟩ := hex
      right
      refine List.filter_eq_nil_iff.mpr fun x hx => ?_
      rw [hnone m hm hp x hx]
      decide
    · left
      refine List.filter_eq_nil_iff.mpr fun m' hm' => ?_
      obtain ⟨m, hm, rfl⟩ := List.mem_map.mp hm'
      exact fun hp => hex ⟨m, hm, hp⟩
  unfold Box.InOrder Box.say at *
  simp only [List.filter_append, filter_marked] at h ⊢
  rw [hprompt, hdelayed]
  rcases hwaiting with hnil | hnil
  · rw [hnil, ← h]
    simp [marked]
  · rw [hnil] at h ⊢
    rw [← h]
    simp [marked]

end Order

/-! ### Staleness -/

section Stale

variable {R : Marked μ → Marked μ → Prop} {b : Box μ} {k n : ℕ} {ms : List (μ × Bool)}

theorem noStale_new (R : Marked μ → Marked μ → Prop) : ({} : Box μ).NoStale R := .nil

theorem Box.NoStale.reset (h : b.NoStale R) : b.reset.NoStale R := h

theorem Box.NoStale.release (h : b.NoStale R) : (b.release n).NoStale R := by
  unfold Box.NoStale at *
  rw [release_all]
  exact h

/-- A batch has to stand in the relation to all that came before it, in itself, and with what it
    overtakes. -/
theorem Box.NoStale.say (h : b.NoStale R)
    (hbefore : ∀ x ∈ b.sent ++ b.waiting, ∀ m ∈ ms, R x ⟨m.1, k⟩)
    (hwithin : ∀ m ∈ ms, ∀ m' ∈ ms, R ⟨m.1, k⟩ ⟨m'.1, k⟩)
    (hovertakes : ∀ m ∈ ms, m.2 = true → ∀ y ∈ b.waiting, R ⟨m.1, k⟩ y) :
    (b.say k ms).NoStale R := by
  have hprompt : ∀ x ∈ marked k (prompt ms), (x.msg, true) ∈ ms ∧ x = ⟨x.msg, k⟩ := by
    intro x hx
    obtain ⟨hmem, rfl⟩ := mem_marked.mp hx
    exact ⟨mem_prompt.mp hmem, rfl⟩
  have hdelayed : ∀ x ∈ marked k (delayed ms), (x.msg, false) ∈ ms ∧ x = ⟨x.msg, k⟩ := by
    intro x hx
    obtain ⟨hmem, rfl⟩ := mem_marked.mp hx
    exact ⟨mem_delayed.mp hmem, rfl⟩
  have hbatch : ∀ l : List μ, (∀ m ∈ l, ∃ now, (m, now) ∈ ms) → (marked k l).Pairwise R := by
    intro l hl
    refine List.pairwise_map.mpr (List.pairwise_of_forall_mem_list fun m hm m' hm' => ?_)
    obtain ⟨now, hin⟩ := hl m hm
    obtain ⟨now', hin'⟩ := hl m' hm'
    exact hwithin _ hin _ hin'
  unfold Box.NoStale Box.say at *
  obtain ⟨hsent, hwaiting, hcross⟩ := List.pairwise_append.mp h
  refine List.pairwise_append.mpr ⟨?_, ?_, ?_⟩
  · refine List.pairwise_append.mpr ⟨hsent, ?_, fun x hx y hy => ?_⟩
    · exact hbatch _ fun m hm => ⟨true, mem_prompt.mp hm⟩
    · obtain ⟨hmem, heq⟩ := hprompt y hy
      rw [heq]
      exact hbefore x (List.mem_append_left _ hx) _ hmem
  · refine List.pairwise_append.mpr ⟨hwaiting, ?_, fun x hx y hy => ?_⟩
    · exact hbatch _ fun m hm => ⟨false, mem_delayed.mp hm⟩
    · obtain ⟨hmem, heq⟩ := hdelayed y hy
      rw [heq]
      exact hbefore x (List.mem_append_right _ hx) _ hmem
  · intro x hx y hy
    rcases List.mem_append.mp hx with hx | hx
    · rcases List.mem_append.mp hy with hy | hy
      · exact hcross x hx y hy
      · obtain ⟨hmem, heq⟩ := hdelayed y hy
        rw [heq]
        exact hbefore x (List.mem_append_left _ hx) _ hmem
    · obtain ⟨hmemx, heqx⟩ := hprompt x hx
      rcases List.mem_append.mp hy with hy | hy
      · rw [heqx]
        exact hovertakes _ hmemx rfl y hy
      · obtain ⟨hmem, heq⟩ := hdelayed y hy
        rw [heqx, heq]
        exact hwithin _ hmemx _ hmem

/-- What was sent stands in the relation to a batch that comes later. -/
theorem Box.NoStale.said (h : (b.say k ms).NoStale R) {x : Marked μ} (hx : x ∈ b.sent)
    {m : μ × Bool} (hm : m ∈ ms) : R x ⟨m.1, k⟩ := by
  obtain ⟨m, now⟩ := m
  unfold Box.NoStale Box.say at h
  obtain ⟨hsent, -, hcross⟩ := List.pairwise_append.mp h
  cases now with
  | true =>
      obtain ⟨-, -, hlater⟩ := List.pairwise_append.mp hsent
      exact hlater x hx _ (mem_marked.mpr ⟨mem_prompt.mpr hm, rfl⟩)
  | false =>
      refine hcross x (List.mem_append_left _ hx) _ (List.mem_append_right _ ?_)
      exact mem_marked.mpr ⟨mem_delayed.mpr hm, rfl⟩

end Stale

end Outbox
