import Mathlib.Data.List.Nodup
import Mathlib.Logic.Function.Basic

/-!
# Doubly linked lists on a heap

A heap maps an address to a node: a value and the addresses of the nodes before and after
it.  A write through an address that holds no node is undefined (`none`).

`Segment h p as n` says that the nodes at the addresses `as` are linked in this order, with
`p` before the first and `n` after the last.  `Linked h head tail as` adds that nothing is
before the first or after the last, that `head` and `tail` point at them, and that no node
comes twice.  `Linked.push` and `Linked.unlink` say which links a heap must have changed for
a node to have joined or left the list; the writes of a program are held against them.
-/

namespace LinkedList

variable {α β : Type*}

/-- A node of a doubly linked list. -/
structure Node (α β : Type*) where
  val : β
  prev : Option α
  next : Option α

/-- A heap of nodes. -/
abbrev Heap (α β : Type*) := α → Option (Node α β)

/-- What a heap has before and after the node at `a`. -/
def links (h : Heap α β) (a : α) : Option (Option α × Option α) :=
  (h a).map fun nd => (nd.prev, nd.next)

/-- The value of the node at `a`. -/
def val (h : Heap α β) (a : α) : Option β := (h a).map Node.val

/-! ### Writes -/

section Writes

variable [DecidableEq α] {h h' : Heap α β} {a b : α} {v : β} {p n : Option α}

/-- A write to the node at `a`. -/
def modify (h : Heap α β) (a : α) (f : Node α β → Node α β) : Option (Heap α β) :=
  (h a).map fun nd => Function.update h a (some (f nd))

def setVal (h : Heap α β) (a : α) (v : β) : Option (Heap α β) :=
  modify h a fun nd => { nd with val := v }

def setPrev (h : Heap α β) (a : α) (p : Option α) : Option (Heap α β) :=
  modify h a fun nd => { nd with prev := p }

def setNext (h : Heap α β) (a : α) (n : Option α) : Option (Heap α β) :=
  modify h a fun nd => { nd with next := n }

theorem modify_eq_some {f : Node α β → Node α β} :
    modify h a f = some h' ↔ ∃ nd, h a = some nd ∧ h' = Function.update h a (some (f nd)) := by
  unfold modify
  rw [Option.map_eq_some_iff]
  exact exists_congr fun nd => and_congr_right fun _ => eq_comm

theorem exists_modify {f : Node α β → Node α β} {l : Option α × Option α}
    (hl : links h a = some l) : ∃ h', modify h a f = some h' := by
  obtain ⟨nd, hnd, -⟩ := Option.map_eq_some_iff.mp hl
  exact ⟨_, modify_eq_some.mpr ⟨nd, hnd, rfl⟩⟩

theorem links_setVal (hset : setVal h a v = some h') : links h' b = links h b := by
  obtain ⟨nd, hnd, rfl⟩ := modify_eq_some.mp hset
  by_cases hb : b = a
  · simp [links, hb, hnd]
  · simp [links, hb]

theorem val_setVal (hset : setVal h a v = some h') :
    val h' b = if b = a then some v else val h b := by
  obtain ⟨nd, hnd, rfl⟩ := modify_eq_some.mp hset
  by_cases hb : b = a <;> simp [val, hb]

theorem links_setPrev (hset : setPrev h a p = some h') :
    links h' b = if b = a then (links h a).map fun l => (p, l.2) else links h b := by
  obtain ⟨nd, hnd, rfl⟩ := modify_eq_some.mp hset
  by_cases hb : b = a <;> simp [links, hb, hnd]

theorem val_setPrev (hset : setPrev h a p = some h') : val h' b = val h b := by
  obtain ⟨nd, hnd, rfl⟩ := modify_eq_some.mp hset
  by_cases hb : b = a
  · simp [val, hb, hnd]
  · simp [val, hb]

theorem links_setNext (hset : setNext h a n = some h') :
    links h' b = if b = a then (links h a).map fun l => (l.1, n) else links h b := by
  obtain ⟨nd, hnd, rfl⟩ := modify_eq_some.mp hset
  by_cases hb : b = a <;> simp [links, hb, hnd]

theorem val_setNext (hset : setNext h a n = some h') : val h' b = val h b := by
  obtain ⟨nd, hnd, rfl⟩ := modify_eq_some.mp hset
  by_cases hb : b = a
  · simp [val, hb, hnd]
  · simp [val, hb]

theorem links_update (h : Heap α β) (a b : α) (nd : Option (Node α β)) :
    links (Function.update h a nd) b =
      if b = a then nd.map fun nd => (nd.prev, nd.next) else links h b := by
  by_cases hb : b = a <;> simp [links, hb]

theorem val_update (h : Heap α β) (a b : α) (nd : Option (Node α β)) :
    val (Function.update h a nd) b = if b = a then nd.map Node.val else val h b := by
  by_cases hb : b = a <;> simp [val, hb]

end Writes

/-! ### Segments -/

section Segments

variable {h g : Heap α β} {a : α} {as bs : List α} {p n p' n' : Option α}

/-- The nodes at `as` are linked in this order, after `p` and before `n`. -/
def Segment (h : Heap α β) : Option α → List α → Option α → Prop
  | _, [], _ => True
  | p, a :: as, n => links h a = some (p, as.head?.or n) ∧ Segment h (some a) as n

theorem Segment.congr (hs : Segment h p as n) (hlinks : ∀ a ∈ as, links g a = links h a) :
    Segment g p as n := by
  induction as generalizing p with
  | nil => trivial
  | cons a as ih =>
      obtain ⟨ha, has⟩ := List.forall_mem_cons.mp hlinks
      exact ⟨ha.trans hs.1, ih hs.2 has⟩

theorem segment_append :
    Segment h p (as ++ bs) n ↔
      Segment h p as (bs.head?.or n) ∧ Segment h (as.getLast?.or p) bs n := by
  induction as generalizing p with
  | nil => simp [Segment]
  | cons a as ih =>
      have hhead : (as ++ bs).head?.or n = as.head?.or (bs.head?.or n) := by
        cases as <;> rfl
      have hlast : (a :: as).getLast?.or p = as.getLast?.or (some a) := by
        rw [List.getLast?_cons]
        cases as.getLast? <;> rfl
      rw [List.cons_append, Segment, Segment, hhead, hlast, ih]
      exact and_assoc.symm

/-- A node within a segment. -/
theorem segment_mid :
    Segment h p (as ++ a :: bs) n ↔
      Segment h p as (some a) ∧ links h a = some (as.getLast?.or p, bs.head?.or n) ∧
        Segment h (some a) bs n := by
  rw [segment_append]
  rfl

/-- The last link of a segment is changed. -/
theorem Segment.relink_last (hs : Segment h p as n) (hnodup : as.Nodup)
    (hlast : ∀ b ∈ as.getLast?, links g b = (links h b).map fun l => (l.1, n'))
    (hrest : ∀ b ∈ as, b ∉ as.getLast? → links g b = links h b) : Segment g p as n' := by
  rcases List.eq_nil_or_concat' as with rfl | ⟨init, b, rfl⟩
  · trivial
  · obtain ⟨hinit, hb, -⟩ := segment_mid.mp hs
    have hlast? : (init ++ [b]).getLast? = some b := List.getLast?_concat
    rw [hlast?] at hlast hrest
    refine segment_mid.mpr ⟨hinit.congr ?_, ?_, trivial⟩
    · intro c hc
      have hcb : b ≠ c := fun hbc =>
        (List.nodup_append.mp hnodup).2.2 c hc b (List.mem_singleton_self b) hbc.symm
      exact hrest c (List.mem_append_left _ hc) (by simpa using hcb)
    · rw [hlast b rfl, hb]
      rfl

/-- The first link of a segment is changed. -/
theorem Segment.relink_first (hs : Segment h p as n) (hnodup : as.Nodup)
    (hfirst : ∀ b ∈ as.head?, links g b = (links h b).map fun l => (p', l.2))
    (hrest : ∀ b ∈ as, b ∉ as.head? → links g b = links h b) : Segment g p' as n := by
  cases as with
  | nil => trivial
  | cons b as =>
      refine ⟨?_, hs.2.congr ?_⟩
      · rw [hfirst b rfl, hs.1]
        rfl
      · intro c hc
        have hcb : b ≠ c := fun hbc => (List.nodup_cons.mp hnodup).1 (hbc ▸ hc)
        exact hrest c (List.mem_cons_of_mem _ hc) (by simpa using hcb)

end Segments

/-! ### Whole lists -/

section Lists

variable {h g : Heap α β} {a : α} {as bs : List α} {head tail : Option α}

/-- `head` and `tail` are the ends of the list of the nodes at `as`. -/
structure Linked (h : Heap α β) (head tail : Option α) (as : List α) : Prop where
  head_eq : head = as.head?
  tail_eq : tail = as.getLast?
  nodup : as.Nodup
  segment : Segment h none as none

theorem linked_nil (h : Heap α β) : Linked h none none [] := ⟨rfl, rfl, List.nodup_nil, trivial⟩

theorem Linked.links (hl : Linked h head tail (as ++ a :: bs)) :
    LinkedList.links h a = some (as.getLast?, bs.head?) := by
  simpa using (segment_mid.mp hl.segment).2.1

theorem Linked.exists_node (hl : Linked h head tail as) (ha : a ∈ as) : ∃ nd, h a = some nd := by
  obtain ⟨as₁, as₂, rfl⟩ := List.append_of_mem ha
  obtain ⟨nd, hnd, -⟩ := Option.map_eq_some_iff.mp hl.links
  exact ⟨nd, hnd⟩

theorem Linked.congr (hl : Linked h head tail as)
    (hlinks : ∀ a ∈ as, LinkedList.links g a = LinkedList.links h a) : Linked g head tail as :=
  ⟨hl.head_eq, hl.tail_eq, hl.nodup, hl.segment.congr hlinks⟩

/-- **Push.**  A node that points back at the old tail, and that the old tail points at, joins
    the list at its end. -/
theorem Linked.push (hl : Linked h head tail as) (ha : a ∉ as)
    (hnew : LinkedList.links g a = some (as.getLast?, none))
    (hlast : ∀ b ∈ as.getLast?,
      LinkedList.links g b = (LinkedList.links h b).map fun l => (l.1, some a))
    (hrest : ∀ b ∈ as, b ∉ as.getLast? → LinkedList.links g b = LinkedList.links h b) :
    Linked g (as ++ [a]).head? (some a) (as ++ [a]) where
  head_eq := rfl
  tail_eq := List.getLast?_concat.symm
  nodup := by
    have hdisj : as.Disjoint [a] := by simpa using ha
    exact List.Nodup.append hl.nodup (List.nodup_singleton a) hdisj
  segment := by
    refine segment_mid.mpr ⟨hl.segment.relink_last hl.nodup hlast hrest, ?_, trivial⟩
    simpa using hnew

/-- **Unlink.**  A node leaves the list when the node before it, if any, points at the node
    after it, and the node after it, if any, points back at the node before it. -/
theorem Linked.unlink (hl : Linked h head tail (as ++ a :: bs))
    (hlast : ∀ b ∈ as.getLast?,
      LinkedList.links g b = (LinkedList.links h b).map fun l => (l.1, bs.head?))
    (hfirst : ∀ b ∈ bs.head?,
      LinkedList.links g b = (LinkedList.links h b).map fun l => (as.getLast?, l.2))
    (hrest : ∀ b ∈ as ++ bs, b ∉ as.getLast? → b ∉ bs.head? →
      LinkedList.links g b = LinkedList.links h b) :
    Linked g (as ++ bs).head? (as ++ bs).getLast? (as ++ bs) := by
  obtain ⟨has, -, hbs⟩ := segment_mid.mp hl.segment
  have hnodup : (as ++ bs).Nodup := (List.nodup_middle.mp hl.nodup).of_cons
  obtain ⟨hnas, hnbs, hdisj⟩ := List.nodup_append.mp hnodup
  -- a node of one part is not an end of the other
  have has' : Segment g none as bs.head? := by
    refine has.relink_last hnas hlast fun b hb hnot => ?_
    refine hrest b (List.mem_append_left _ hb) hnot fun hmem => ?_
    exact hdisj b hb b (List.mem_of_mem_head? hmem) rfl
  have hbs' : Segment g as.getLast? bs none := by
    refine hbs.relink_first hnbs hfirst fun b hb hnot => ?_
    refine hrest b (List.mem_append_right _ hb) (fun hmem => ?_) hnot
    exact hdisj b (List.mem_of_getLast? hmem) b hb rfl
  refine ⟨rfl, rfl, hnodup, segment_append.mpr ⟨?_, ?_⟩⟩
  · rwa [Option.or_none]
  · rwa [Option.or_none]

end Lists

end LinkedList
