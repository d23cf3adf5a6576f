import KasparHft.LockFreeMPSCThreads

/-!
# Interleavings of the lock-free mailbox

What holds of the ring in whatever order its threads take their steps.  `Sound k C` is about the
positions: `C` is what was claimed, in the order of the positions, and the cells from the first
position that is not released on, one lap of them, are published, in the making or free.
-/

namespace KasparHft.LockFreeMPSC

open Machine

variable {τ α : Type*}

/-! ### Cells -/

section Cells

variable {q q' : Ring α} {k pos p : Nat} {f : Cell α → Cell α}

theorem cell_modify_self (h : q.modifyCell pos f = some q') : q'.cell pos = (q.cell pos).map f := by
  obtain ⟨cell, hcell, rfl⟩ := modifyCell_eq_some h
  rw [hcell]
  have hlt : pos &&& q.mask < q.buf.length := (List.getElem?_eq_some_iff.mp hcell).1
  exact List.getElem?_set_self hlt

theorem cell_modify_ne (h : q.modifyCell pos f = some q') (hmask : q.mask = 2 ^ k - 1)
    (hne : p % 2 ^ k ≠ pos % 2 ^ k) : q'.cell p = q.cell p := by
  obtain ⟨cell, -, rfl⟩ := modifyCell_eq_some h
  refine List.getElem?_set_ne fun heq => hne ?_
  rw [hmask, Nat.and_two_pow_sub_one_eq_mod, Nat.and_two_pow_sub_one_eq_mod] at heq
  exact heq.symm

theorem cell_congr (hmask : q.mask = 2 ^ k - 1) (hmod : p % 2 ^ k = pos % 2 ^ k) :
    q.cell p = q.cell pos := by
  unfold Ring.cell
  rw [hmask, Nat.and_two_pow_sub_one_eq_mod, Nat.and_two_pow_sub_one_eq_mod, hmod]

/-- Positions of one lap have different cells. -/
theorem mod_ne {n R i j : Nat} (hi : R ≤ i) (hi' : i < R + n) (hj : R ≤ j) (hj' : j < R + n)
    (hij : i ≠ j) : i % n ≠ j % n := by
  have hne : (R + (i - R)) % n ≠ (R + (j - R)) % n :=
    index_ne (by omega) (by omega) (by omega)
  rwa [Nat.add_sub_cancel' hi, Nat.add_sub_cancel' hj] at hne

/-- Each cell is that of one position of a lap. -/
theorem exists_lap {n : Nat} (hn : 0 < n) (R pos : Nat) :
    ∃ p, R ≤ p ∧ p < R + n ∧ p % n = pos % n := by
  refine ⟨R + (pos + (n - R % n)) % n, Nat.le_add_right _ _,
    Nat.add_lt_add_left (Nat.mod_lt _ hn) R, ?_⟩
  have hR := Nat.div_add_mod R n
  have hlt := Nat.mod_lt R hn
  have hsum : R + (pos + (n - R % n)) = pos + n * (R / n + 1) := by
    rw [Nat.mul_add, Nat.mul_one]
    omega
  rw [Nat.add_mod_mod, hsum, Nat.add_mul_mod_self_left]

theorem signedDif_small {a b : Nat} (ha : a < 2 ^ 63) (hb : b < 2 ^ 63) :
    signedDif a b = (a : Int) - b := by
  have hsize : ∀ n, n < 2 ^ 63 → sizeT n = n := fun n hn =>
    Nat.mod_eq_of_lt (hn.trans (by decide))
  have hdif := signedDif_sizeT a b
  rw [hsize a ha, hsize b hb] at hdif
  rw [hdif, Int.bmod_eq_iff (by decide)]
  omega

end Cells

/-! ### The invariant of the positions -/

/-- The position that a producer has claimed and not published. -/
def Push.making : Push α → Option Nat
  | .write _ pos => some pos
  | .publish _ pos => some pos
  | _ => none

/-- The first position that is not released, when `deq` is the next to be popped. -/
def Batch.first (deq : Nat) : Batch α → Nat
  | .pop _ (.read pos) _ => pos
  | .pop _ (.release pos _) _ => pos
  | _ => deq

/-- The item of a position is in its cell for the consumer. -/
def Published (C : List (τ × α)) (q : Ring α) (p : Nat) : Prop :=
  ∃ t x, C[p]? = some (t, x) ∧ q.cell p = some ⟨p + 1, x⟩

/-- The cell of a position of the lap. -/
def CellOk (C : List (τ × α)) (q : Ring α) (producers : τ → Push α) (p : Nat) : Prop :=
  if p < C.length then
    Published C q p ∨ (∃ x, q.cell p = some ⟨p, x⟩) ∧ ∃ t, (producers t).making = some p
  else ∃ x, q.cell p = some ⟨p, x⟩

/-- What a producer knows. -/
def PushOk (k first : Nat) (C : List (τ × α)) (q : Ring α) (t : τ) : Push α → Prop
  | .look _ pos => pos ≤ C.length
  | .claim _ pos => pos ≤ C.length ∧ pos < first + 2 ^ k
  | .write x pos => first ≤ pos ∧ C[pos]? = some (t, x) ∧ ∃ y, q.cell pos = some ⟨pos, y⟩
  | .publish x pos => first ≤ pos ∧ C[pos]? = some (t, x) ∧ q.cell pos = some ⟨pos, x⟩
  | _ => True

/-- What the consumer knows. -/
def PopOk (C : List (τ × α)) (q : Ring α) : Pop α → Prop
  | .load => True
  | .look pos => pos = q.dequeuePos
  | .claim pos => pos = q.dequeuePos ∧ Published C q pos
  | .read pos => q.dequeuePos = pos + 1 ∧ Published C q pos
  | .release pos v => q.dequeuePos = pos + 1 ∧ Published C q pos ∧ ∃ t, C[pos]? = some (t, v)

def BatchOk (C : List (τ × α)) (q : Ring α) : Batch α → Prop
  | .pop _ next _ => PopOk C q next
  | _ => True

/-- The ring and where its threads are, when `C` was claimed. -/
structure Sound (k : Nat) (C : List (τ × α)) (q : Ring α) (producers : τ → Push α)
    (consumer : Batch α) : Prop where
  mask : q.mask = 2 ^ k - 1
  length : q.buf.length = 2 ^ k
  enqueuePos : q.enqueuePos = C.length
  dequeuePos : q.dequeuePos ≤ C.length
  fits : C.length ≤ consumer.first q.dequeuePos + 2 ^ k
  cells : ∀ p, consumer.first q.dequeuePos ≤ p → p < consumer.first q.dequeuePos + 2 ^ k →
    CellOk C q producers p
  producer : ∀ t, PushOk k (consumer.first q.dequeuePos) C q t (producers t)
  batch : BatchOk C q consumer

section Steps

variable [DecidableEq τ] {k : Nat} {C : List (τ × α)} {q q' : Ring α} {producers : τ → Push α}
  {consumer consumer' : Batch α} {t : τ} {x : α} {pos p : Nat}

/-- A producer that goes on without a write. -/
theorem Sound.setProducer (h : Sound k C q producers consumer) (t : τ) {next : Push α}
    (hmaking : next.making = (producers t).making)
    (hok : PushOk k (consumer.first q.dequeuePos) C q t next) :
    Sound k C q (Function.update producers t next) consumer := by
  refine ⟨h.mask, h.length, h.enqueuePos, h.dequeuePos, h.fits, fun p hp hp' => ?_, fun t' => ?_,
    h.batch⟩
  · have hcell := h.cells p hp hp'
    unfold CellOk at hcell ⊢
    split
    next hlt =>
      rw [if_pos hlt] at hcell
      refine hcell.imp id (And.imp id fun ⟨t', ht'⟩ => ⟨t', ?_⟩)
      by_cases heq : t' = t
      · subst heq
        rw [Function.update_self, hmaking, ht']
      · rw [Function.update_of_ne heq, ht']
    next hge => rwa [if_neg hge] at hcell
  · by_cases heq : t' = t
    · subst heq
      rwa [Function.update_self]
    · rw [Function.update_of_ne heq]
      exact h.producer t'

omit [DecidableEq τ] in
/-- The consumer goes on without a write. -/
theorem Sound.setConsumer (h : Sound k C q producers consumer)
    (hfirst : consumer'.first q.dequeuePos = consumer.first q.dequeuePos)
    (hok : BatchOk C q consumer') : Sound k C q producers consumer' :=
  ⟨h.mask, h.length, h.enqueuePos, h.dequeuePos, hfirst ▸ h.fits, hfirst ▸ h.cells,
    hfirst ▸ h.producer, hok⟩

/-! Writes. -/

omit [DecidableEq τ] in
theorem Published.lt (h : Published C q p) : p < C.length := by
  obtain ⟨t, x, hget, -⟩ := h
  exact (List.getElem?_eq_some_iff.mp hget).1

omit [DecidableEq τ] in
theorem Published.append (h : Published C q p) (C' : List (τ × α)) : Published (C ++ C') q p := by
  obtain ⟨t, x, hget, hcell⟩ := h
  exact ⟨t, x, (List.getElem?_append_left (List.getElem?_eq_some_iff.mp hget).1).trans hget, hcell⟩

omit [DecidableEq τ] in
theorem Published.congr (h : Published C q p) (hcell : q'.cell p = q.cell p) :
    Published C q' p := by
  obtain ⟨t, x, hget, hc⟩ := h
  exact ⟨t, x, hget, hcell.trans hc⟩

omit [DecidableEq τ] in
/-- A published cell is not in the making. -/
theorem Published.not_made (h : Published C q p) (hcell : q.cell p = some ⟨p, x⟩) : False := by
  obtain ⟨t, y, -, hc⟩ := h
  have hseq := congrArg Cell.seq (Option.some.inj (hc.symm.trans hcell))
  dsimp only at hseq
  omega

omit [DecidableEq τ] in
theorem PopOk.append {next : Pop α} (h : PopOk C q next) (C' : List (τ × α)) :
    PopOk (C ++ C') q next := by
  cases next with
  | load => trivial
  | look pos => exact h
  | claim pos => exact ⟨h.1, h.2.append C'⟩
  | read pos => exact ⟨h.1, h.2.append C'⟩
  | release pos v =>
      obtain ⟨hdeq, hpub, t, hget⟩ := h
      exact ⟨hdeq, hpub.append C', t,
        (List.getElem?_append_left (List.getElem?_eq_some_iff.mp hget).1).trans hget⟩

omit [DecidableEq τ] in
/-- What the consumer knows is about the first position. -/
theorem PopOk.congr {next : Pop α} (phase : Phase) (got : List α) (h : PopOk C q next)
    (hdeq : q'.dequeuePos = q.dequeuePos)
    (hcell : ∀ p, Published C q p → p = (Batch.pop phase next got).first q.dequeuePos →
      q'.cell p = q.cell p) : PopOk C q' next := by
  cases next with
  | load => trivial
  | look pos => exact Eq.trans h hdeq.symm
  | claim pos => exact ⟨h.1.trans hdeq.symm, h.2.congr (hcell pos h.2 h.1)⟩
  | read pos => exact ⟨hdeq.trans h.1, h.2.congr (hcell pos h.2 rfl)⟩
  | release pos v => exact ⟨hdeq.trans h.1, h.2.1.congr (hcell pos h.2.1 rfl), h.2.2⟩

omit [DecidableEq τ] in
theorem BatchOk.congr (h : BatchOk C q consumer) (hdeq : q'.dequeuePos = q.dequeuePos)
    (hcell : ∀ p, Published C q p → p = consumer.first q.dequeuePos → q'.cell p = q.cell p) :
    BatchOk C q' consumer := by
  cases consumer with
  | pop phase next got => exact PopOk.congr phase got h hdeq hcell
  | _ => trivial

omit [DecidableEq τ] in
theorem Sound.first_le (h : Sound k C q producers consumer) :
    consumer.first q.dequeuePos ≤ C.length := by
  have hbatch := h.batch
  have hdeq := h.dequeuePos
  unfold Batch.first
  split
  next => exact Nat.le_of_lt hbatch.2.lt
  next => exact Nat.le_of_lt hbatch.2.1.lt
  next => exact hdeq

/-- **A claim** takes the next position, whose cell is free. -/
theorem Sound.claimed (h : Sound k C q producers consumer) (hat : producers t = .claim x pos)
    (hpos : q.enqueuePos = pos) :
    Sound k (C ++ [(t, x)]) { q with enqueuePos := pos + 1 }
      (Function.update producers t (.write x pos)) consumer := by
  have hlen : pos = C.length := hpos.symm.trans h.enqueuePos
  have hclaim := h.producer t
  rw [hat] at hclaim
  obtain ⟨-, hlap⟩ := hclaim
  have hfirst := h.first_le
  have hfree := h.cells pos (hlen ▸ hfirst) hlap
  unfold CellOk at hfree
  rw [if_neg (by omega)] at hfree
  have hnew : (C ++ [(t, x)])[pos]? = some (t, x) := by
    rw [hlen]
    exact List.getElem?_concat_length
  have hold : ∀ {p : Nat} {e : τ × α}, C[p]? = some e → (C ++ [(t, x)])[p]? = some e :=
    fun hget => (List.getElem?_append_left (List.getElem?_eq_some_iff.mp hget).1).trans hget
  refine ⟨h.mask, h.length, ?_, ?_, ?_, fun p hp hp' => ?_, fun t' => ?_, ?_⟩
  · rw [List.length_append, List.length_singleton, hlen]
  · rw [List.length_append]
    exact Nat.le_add_right_of_le h.dequeuePos
  · rw [List.length_append, List.length_singleton]
    change C.length + 1 ≤ consumer.first q.dequeuePos + 2 ^ k
    omega
  · change consumer.first q.dequeuePos ≤ p at hp
    change p < consumer.first q.dequeuePos + 2 ^ k at hp'
    have hcell := h.cells p hp hp'
    unfold CellOk at hcell ⊢
    rw [List.length_append, List.length_singleton]
    by_cases hlt : p < C.length
    · rw [if_pos hlt] at hcell
      rw [if_pos (by omega)]
      rcases hcell with hpub | ⟨hmade, t', ht'⟩
      · exact .inl (hpub.append _)
      · refine .inr ⟨hmade, t', ?_⟩
        have hne : t' ≠ t := by
          rintro rfl
          rw [hat] at ht'
          cases ht'
        rwa [Function.update_of_ne hne]
    · rw [if_neg hlt] at hcell
      by_cases hp : p = pos
      · subst hp
        rw [if_pos (by omega)]
        refine .inr ⟨hcell, t, ?_⟩
        rw [Function.update_self]
        rfl
      · rw [if_neg (by omega)]
        exact hcell
  · by_cases heq : t' = t
    · subst heq
      rw [Function.update_self]
      exact ⟨hlen ▸ hfirst, hnew, hfree⟩
    · rw [Function.update_of_ne heq]
      have hproducer := h.producer t'
      generalize producers t' = at_ at hproducer ⊢
      cases at_ with
      | look y p =>
          change p ≤ _
          rw [List.length_append]
          exact Nat.le_add_right_of_le hproducer
      | claim y p =>
          refine ⟨?_, hproducer.2⟩
          rw [List.length_append]
          exact Nat.le_add_right_of_le hproducer.1
      | write y p => exact ⟨hproducer.1, hold hproducer.2.1, hproducer.2.2⟩
      | publish y p => exact ⟨hproducer.1, hold hproducer.2.1, hproducer.2.2⟩
      | _ => trivial
  · have hbatch := h.batch
    cases consumer with
    | pop phase next got =>
        have hpop : PopOk (C ++ [(t, x)]) q next := PopOk.append hbatch _
        exact PopOk.congr phase got hpop rfl fun _ _ _ => rfl
    | _ => trivial

/-- **A producer's write** to the cell it is making. -/
theorem Sound.made (h : Sound k C q producers consumer) {next : Push α} {y : α}
    {f : Cell α → Cell α} (hmaking : (producers t).making = some pos)
    (hle : consumer.first q.dequeuePos ≤ pos) (hget : C[pos]? = some (t, x))
    (hcell : q.cell pos = some ⟨pos, y⟩) (hq : q.modifyCell pos f = some q')
    (hnext : PushOk k (consumer.first q.dequeuePos) C q' t next)
    (hpos : CellOk C q' (Function.update producers t next) pos) :
    Sound k C q' (Function.update producers t next) consumer := by
  have hlap : ∀ p, p < C.length → p < consumer.first q.dequeuePos + 2 ^ k :=
    fun p hp => hp.trans_le h.fits
  have hother : ∀ p, consumer.first q.dequeuePos ≤ p → p < consumer.first q.dequeuePos + 2 ^ k →
      p ≠ pos → q'.cell p = q.cell p := fun p hp hp' hne =>
    cell_modify_ne hq h.mask
      (mod_ne hp hp' hle (hlap pos (List.getElem?_eq_some_iff.mp hget).1) hne)
  obtain ⟨cell, -, rfl⟩ := modifyCell_eq_some hq
  refine ⟨h.mask, (List.length_set ..).trans h.length, h.enqueuePos, h.dequeuePos, h.fits,
    fun p hp hp' => ?_, fun t' => ?_, ?_⟩
  · by_cases heq : p = pos
    · subst heq
      exact hpos
    · have hp₀ := h.cells p hp hp'
      have hsame := hother p hp hp' heq
      unfold CellOk at hp₀ ⊢
      rw [hsame]
      split
      next hlt =>
        rw [if_pos hlt] at hp₀
        refine hp₀.imp (fun hpub => hpub.congr hsame) (And.imp id fun ⟨t', ht'⟩ => ⟨t', ?_⟩)
        have hne : t' ≠ t := by
          rintro rfl
          exact heq (Option.some.inj (ht'.symm.trans hmaking))
        rw [Function.update_of_ne hne, ht']
      next hge => rwa [if_neg hge] at hp₀
  · by_cases heq : t' = t
    · subst heq
      rw [Function.update_self]
      exact hnext
    · rw [Function.update_of_ne heq]
      have hproducer := h.producer t'
      have howner : ∀ {p : Nat} {z : α}, C[p]? = some (t', z) → p ≠ pos := by
        rintro p z hp rfl
        exact heq (Prod.mk.inj (Option.some.inj (hp.symm.trans hget))).1
      generalize producers t' = at_ at hproducer ⊢
      cases at_ with
      | look z p => exact hproducer
      | claim z p => exact hproducer
      | write z p =>
          obtain ⟨hp, hz, hfree⟩ := hproducer
          have hlt := hlap p (List.getElem?_eq_some_iff.mp hz).1
          exact ⟨hp, hz, (hother p hp hlt (howner hz)).symm ▸ hfree⟩
      | publish z p =>
          obtain ⟨hp, hz, hmade⟩ := hproducer
          have hlt := hlap p (List.getElem?_eq_some_iff.mp hz).1
          exact ⟨hp, hz, (hother p hp hlt (howner hz)).trans hmade⟩
      | _ => trivial
  · refine h.batch.congr rfl fun p hpub hp => ?_
    refine hother p hp.ge (hlap p hpub.lt) ?_
    rintro rfl
    exact hpub.not_made hcell

theorem Sound.written (h : Sound k C q producers consumer) (hat : producers t = .write x pos)
    (hq : q.modifyCell pos (fun cell => { cell with data := x }) = some q') :
    Sound k C q' (Function.update producers t (.publish x pos)) consumer := by
  have hwrite := h.producer t
  rw [hat] at hwrite
  obtain ⟨hle, hget, y, hcell⟩ := hwrite
  have hnew : q'.cell pos = some ⟨pos, x⟩ := by
    rw [cell_modify_self hq, hcell]
    rfl
  refine h.made (by rw [hat]; rfl) hle hget hcell hq ⟨hle, hget, hnew⟩ ?_
  unfold CellOk
  rw [if_pos (List.getElem?_eq_some_iff.mp hget).1]
  refine .inr ⟨⟨x, hnew⟩, t, ?_⟩
  rw [Function.update_self]
  rfl

theorem Sound.published (h : Sound k C q producers consumer) (hat : producers t = .publish x pos)
    (hq : q.modifyCell pos (fun cell => { cell with seq := pos + 1 }) = some q') :
    Sound k C q' (Function.update producers t .check) consumer := by
  have hpublish := h.producer t
  rw [hat] at hpublish
  obtain ⟨hle, hget, hcell⟩ := hpublish
  have hnew : q'.cell pos = some ⟨pos + 1, x⟩ := by
    rw [cell_modify_self hq, hcell]
    rfl
  refine h.made (by rw [hat]; rfl) hle hget hcell hq trivial ?_
  unfold CellOk
  rw [if_pos (List.getElem?_eq_some_iff.mp hget).1]
  exact .inl ⟨t, x, hget, hnew⟩

omit [DecidableEq τ] in
/-- The consumer takes a position. -/
theorem Sound.taken {phase : Phase} {got : List α}
    (h : Sound k C q producers (.pop phase (.claim pos) got)) :
    Sound k C { q with dequeuePos := pos + 1 } producers (.pop phase (.read pos) got) := by
  obtain ⟨rfl, hpub⟩ := h.batch
  exact ⟨h.mask, h.length, h.enqueuePos, hpub.lt, h.fits, h.cells, h.producer, rfl, hpub⟩

omit [DecidableEq τ] in
/-- **A release** gives the cell of the first position to the last one of the next lap. -/
theorem Sound.released {phase : Phase} {got : List α} {v : α}
    (h : Sound k C q producers (.pop phase (.release pos v) got))
    (hq : q.modifyCell pos (fun cell => { cell with seq := pos + 2 ^ k }) = some q')
    (hfirst : consumer'.first (pos + 1) = pos + 1) (hok : BatchOk C q' consumer') :
    Sound k C q' producers consumer' := by
  obtain ⟨hdeq, hpub, -⟩ := h.batch
  have hturn : 0 < 2 ^ k := Nat.two_pow_pos k
  have hfits : C.length ≤ pos + 2 ^ k := h.fits
  have hother : ∀ p, pos + 1 ≤ p → p < pos + 2 ^ k → q'.cell p = q.cell p := fun p hp hp' =>
    cell_modify_ne hq h.mask (mod_ne (R := pos) (by omega) hp' (Nat.le_refl _) (by omega)
      (by omega))
  have hlast : ∃ x, q'.cell (pos + 2 ^ k) = some ⟨pos + 2 ^ k, x⟩ := by
    obtain ⟨t, x, -, hcell⟩ := hpub
    obtain ⟨cell, -, heq⟩ := modifyCell_eq_some hq
    have hmask : q'.mask = 2 ^ k - 1 := heq ▸ h.mask
    refine ⟨x, ?_⟩
    rw [cell_congr hmask (Nat.add_mod_right pos _), cell_modify_self hq, hcell]
    rfl
  obtain ⟨hmask, hlength, henq, hdeq'⟩ : q'.mask = q.mask ∧ q'.buf.length = q.buf.length ∧
      q'.enqueuePos = q.enqueuePos ∧ q'.dequeuePos = q.dequeuePos := by
    obtain ⟨cell, -, rfl⟩ := modifyCell_eq_some hq
    exact ⟨rfl, List.length_set .., rfl, rfl⟩
  have hnext : consumer'.first q'.dequeuePos = pos + 1 := by rw [hdeq', hdeq, hfirst]
  refine ⟨hmask.trans h.mask, hlength.trans h.length, henq.trans h.enqueuePos, hdeq' ▸ h.dequeuePos,
    ?_, fun p hp hp' => ?_, fun t' => ?_, hok⟩
  · rw [hnext]
    omega
  · rw [hnext] at hp hp'
    rcases Nat.lt_or_ge p (pos + 2 ^ k) with hlt | hge
    · have hp₀ := h.cells p (Nat.le_of_succ_le hp) hlt
      have hsame := hother p hp hlt
      unfold CellOk at hp₀ ⊢
      rw [hsame]
      split
      next hin =>
        rw [if_pos hin] at hp₀
        exact hp₀.imp_left fun hpub => hpub.congr hsame
      next hge => rwa [if_neg hge] at hp₀
    · cases Nat.le_antisymm (by omega) hge
      unfold CellOk
      rw [if_neg (by omega)]
      exact hlast
  · rw [hnext]
    have hproducer := h.producer t'
    have hahead : ∀ {p : Nat} {z : α}, pos ≤ p → q.cell p = some ⟨p, z⟩ → pos + 1 ≤ p := by
      intro p z hp hfree
      refine Nat.lt_of_le_of_ne hp ?_
      rintro rfl
      exact hpub.not_made hfree
    generalize producers t' = at_ at hproducer ⊢
    cases at_ with
    | look z p => exact hproducer
    | claim z p => exact ⟨hproducer.1, Nat.lt_of_lt_of_le hproducer.2 (by
        change pos + 2 ^ k ≤ _
        omega)⟩
    | write z p =>
        obtain ⟨hp, hz, y, hfree⟩ := hproducer
        have hlt := (List.getElem?_eq_some_iff.mp hz).1.trans_le hfits
        exact ⟨hahead hp hfree, hz, y, (hother p (hahead hp hfree) hlt).trans hfree⟩
    | publish z p =>
        obtain ⟨hp, hz, hmade⟩ := hproducer
        have hlt := (List.getElem?_eq_some_iff.mp hz).1.trans_le hfits
        exact ⟨hahead hp hmade, hz, (hother p (hahead hp hmade) hlt).trans hmade⟩
    | _ => trivial

/-! Looks. -/

section Look

omit [DecidableEq τ]

variable {cell : Cell α}

/-- The cell of a position is that of a position of the lap, and its number tells whether that one
    is published. -/
theorem Sound.cell_seq (h : Sound k C q producers consumer) (hcell : q.cell pos = some cell) :
    ∃ p, consumer.first q.dequeuePos ≤ p ∧ p < consumer.first q.dequeuePos + 2 ^ k ∧
      p % 2 ^ k = pos % 2 ^ k ∧ (cell.seq = p ∨ cell.seq = p + 1 ∧ Published C q p) := by
  obtain ⟨p, hp, hp', hmod⟩ := exists_lap (Nat.two_pow_pos k) (consumer.first q.dequeuePos) pos
  refine ⟨p, hp, hp', hmod, ?_⟩
  have hlap := h.cells p hp hp'
  have hsame : q.cell p = some cell := (cell_congr h.mask hmod).trans hcell
  have hseq : ∀ {n : Nat} {x : α}, q.cell p = some ⟨n, x⟩ → cell.seq = n := fun hn =>
    congrArg Cell.seq (Option.some.inj (hsame.symm.trans hn))
  unfold CellOk at hlap
  split at hlap
  next =>
    rcases hlap with hpub | ⟨⟨x, hx⟩, -⟩
    · obtain ⟨t, x, -, hx⟩ := id hpub
      exact .inr ⟨hseq hx, hpub⟩
    · exact .inl (hseq hx)
  next =>
    obtain ⟨x, hx⟩ := hlap
    exact .inl (hseq hx)

theorem Sound.seq_le (h : Sound k C q producers consumer) (hcell : q.cell pos = some cell) :
    cell.seq ≤ C.length + 2 ^ k := by
  obtain ⟨p, -, hp, -, hseq⟩ := h.cell_seq hcell
  have hfirst := h.first_le
  omega

/-- A free cell of a position that was the next one is in the lap. -/
theorem Sound.lt_of_free (h : Sound k C q producers consumer) (hk : 0 < k)
    (hcell : q.cell pos = some cell) (hseq : cell.seq = pos) :
    pos < consumer.first q.dequeuePos + 2 ^ k := by
  obtain ⟨p, -, hp, hmod, hp' | ⟨hp', -⟩⟩ := h.cell_seq hcell
  · omega
  · -- one number past a position is not that position of another lap
    have htwo : 2 ∣ 2 ^ k := dvd_pow_self 2 (by omega)
    have hparity : p % 2 = pos % 2 := by
      rw [← Nat.mod_mod_of_dvd p htwo, hmod, Nat.mod_mod_of_dvd pos htwo]
    omega

/-- **A number that is behind**: the lap is claimed. -/
theorem Sound.full_of_lt (h : Sound k C q producers consumer) (hpos : pos ≤ C.length)
    (hcell : q.cell pos = some cell) (hlt : cell.seq < pos) :
    C.length = consumer.first q.dequeuePos + 2 ^ k := by
  obtain ⟨p, hp, -, hmod, hseq⟩ := h.cell_seq hcell
  have hturn : p + 2 ^ k ≤ pos := by
    by_contra hnear
    have hlt' : p < pos := by omega
    exact mod_ne (R := p) (Nat.le_refl _) (by omega) (by omega) (by omega) (by omega) hmod
  have hfits := h.fits
  omega

/-- What the consumer sees at the next position. -/
theorem Sound.published_or_free (h : Sound k C q producers consumer)
    (hfirst : consumer.first q.dequeuePos = pos) (hcell : q.cell pos = some cell) :
    (cell.seq = pos + 1 ∧ Published C q pos) ∨
      cell.seq = pos ∧ (C[pos]? = none ∨ ∃ t, (producers t).making = some pos) := by
  have hturn : 0 < 2 ^ k := Nat.two_pow_pos k
  have hlap := h.cells pos hfirst.le (by omega)
  have hseq : ∀ {n : Nat} {x : α}, q.cell pos = some ⟨n, x⟩ → cell.seq = n := fun hn =>
    congrArg Cell.seq (Option.some.inj (hcell.symm.trans hn))
  unfold CellOk at hlap
  split at hlap
  next =>
    rcases hlap with hpub | ⟨⟨x, hx⟩, hmade⟩
    · obtain ⟨t, x, -, hx⟩ := id hpub
      exact .inl ⟨hseq hx, hpub⟩
    · exact .inr ⟨hseq hx, .inr hmade⟩
  next hge =>
    obtain ⟨x, hx⟩ := hlap
    exact .inr ⟨hseq hx, .inl (List.getElem?_eq_none (Nat.not_lt.mp hge))⟩

end Look

end Steps

end KasparHft.LockFreeMPSC
