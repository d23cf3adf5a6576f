import KasparHft.L3Recording
import KasparHft.StableMerge

/-!
# Two recordings in one

`merge_bins.cpp`: of both files one record is read ahead, and the one whose time is not greater is
written next, that of the first file where they are equal.  Records without a time report 0, and
may stand anywhere in a file.

What `-v` prints, and the files that cannot be opened, are left out.
-/

namespace KasparHft.Bfile

open StableMerge

/-- One of the inputs: `have`, with the record that was read ahead and its time, and the file
    behind it. -/
structure Input where
  head? : Option (L3 × UInt64)
  inf : List UInt8

/-- `have = read_l3(f, r, ts)`. -/
def Input.next (inf : List UInt8) : Option Input :=
  match readL3 inf with
  | .record l3 ts inf => some ⟨some (l3, ts), inf⟩
  | .ended => some ⟨none, inf⟩
  | .aborted => none

/-- `while (have1 && have2)`. -/
def mergeLoop : ℕ → Input → Input → List UInt8 → Option (Input × Input × List UInt8)
  | 0, _, _, _ => none
  | fuel + 1, in1, in2, fout =>
      match in1.head?, in2.head? with
      | some (r1, ts1), some (r2, ts2) =>
          if ts1 ≤ ts2 then do
            let written ← writeL3 r1
            mergeLoop fuel (← Input.next in1.inf) in2 (fout ++ written)
          else do
            let written ← writeL3 r2
            mergeLoop fuel in1 (← Input.next in2.inf) (fout ++ written)
      | _, _ => some (in1, in2, fout)

/-- `while (have1)`, and `while (have2)`. -/
def drainLoop : ℕ → Input → List UInt8 → Option (List UInt8)
  | 0, _, _ => none
  | fuel + 1, input, fout =>
      match input.head? with
      | some (r, _) => do
          let written ← writeL3 r
          drainLoop fuel (← Input.next input.inf) (fout ++ written)
      | none => some fout

/-- What is written, if no assertion fails.  A file has no more records than bytes. -/
def mergeBins (f1 f2 : List UInt8) : Option (List UInt8) := do
  let in1 ← Input.next f1
  let in2 ← Input.next f2
  let (in1, in2, fout) ← mergeLoop (f1.length + f2.length + 1) in1 in2 []
  drainLoop (f2.length + 1) in2 (← drainLoop (f1.length + 1) in1 fout)

/-! ### What a file holds -/

/-- The records that `read_l3` finds until the end, each with the time it reports. -/
inductive Reads : List UInt8 → List (L3 × UInt64) → Prop where
  | ended {inf : List UInt8} (hread : readL3 inf = .ended) : Reads inf []
  | record {inf rest : List UInt8} {l3 : L3} {ts : UInt64} {rs : List (L3 × UInt64)}
      (hread : readL3 inf = .record l3 ts rest) (hrest : Reads rest rs) :
      Reads inf ((l3, ts) :: rs)

/-- The time that `read_l3` reports of a record. -/
def L3.time : L3 → UInt64
  | .mboV2 m => m.transactTime
  | .mboTrdV2 m => m.transactTime
  | .mboSnap m => m.transactTime
  | .mbp m => m.transactTime
  | .mbpTrd m => m.transactTime
  | .volume m => m.t0
  | .vol m => m.txtim
  | .sst m => m.txtim
  | .fenicsInstrumentstats m => m.timestamp
  | .dealerwebBookdir m => m.timestampNanoseconds
  | .dealerwebSysEvent m => m.timestampNanoseconds
  | .dealerwebOrderbookstate m => m.timestampNanoseconds
  | .dealerwebInformation m => m.timestampNanoseconds
  | .dealerwebBrokentrade m => m.timestampNanoseconds
  | _ => 0

theorem eq_value_of_ofValue {rectyp : UInt8} {typ : L3Typ} (h : L3Typ.ofValue rectyp = some typ) :
    rectyp = typ.value := by
  have hall : ∀ n : Fin 33, (L3Typ.ofNat n).value = UInt8.ofNat n := by decide
  unfold L3Typ.ofValue at h
  split at h
  next hlt =>
    rw [← Option.some.inj h, hall ⟨_, hlt⟩, UInt8.ofNat_toNat]
  next => cases h

/-- The code of a record stands in it again. -/
theorem readRec_some {β : Type} [Layout β] {rectyp : UInt8} {inf rest : List UInt8}
    {packed : UInt8 × β} (h : readRec rectyp inf = some (packed, rest)) :
    packed.1 = rectyp ∧ rest.length ≤ inf.length := by
  unfold readRec at h
  dsimp only at h
  split at h
  next => cases h
  next =>
    obtain ⟨rfl, rfl⟩ := Prod.mk.inj (Option.some.inj h)
    refine ⟨?_, by rw [List.length_drop]; omega⟩
    change UInt8.ofNat (LittleEndian.ofBytes [rectyp]) = rectyp
    simp [LittleEndian.ofBytes]

theorem readCase_record {α β : Type} [Layout β] {rectyp : UInt8} {inf rest : List UInt8}
    {fromPacked : UInt8 × β → α} {f : α → L3} {ts : α → UInt64} {l3 : L3} {time : UInt64}
    (h : readCase rectyp inf fromPacked f ts = .record l3 time rest) :
    ∃ packed : β, l3 = f (fromPacked (rectyp, packed)) ∧ time = ts (fromPacked (rectyp, packed)) ∧
      rest.length ≤ inf.length := by
  unfold readCase at h
  split at h
  next => cases h
  next packed _ hread =>
    obtain ⟨rfl, hrest⟩ := readRec_some hread
    obtain ⟨rfl, rfl, rfl⟩ := Outcome.record.inj h
    exact ⟨packed.2, rfl, rfl, hrest⟩

/-- **A record that was read** is one that a recording keeps as it is. -/
theorem readL3_record {inf rest : List UInt8} {l3 : L3} {ts : UInt64}
    (h : readL3 inf = .record l3 ts rest) :
    l3.Recordable ∧ l3.recorded = l3 ∧ ts = l3.time ∧ rest.length < inf.length := by
  cases inf with
  | nil => cases h
  | cons rectyp inf =>
      cases htyp : L3Typ.ofValue rectyp with
      | none =>
          rw [readL3, htyp] at h
          cases h
      | some typ =>
          rw [readL3, htyp] at h
          obtain rfl := eq_value_of_ofValue htyp
          cases typ
          case uni | mboV1 | mbotV1 | chrV1 | gapV1 => cases h
          all_goals
            obtain ⟨packed, rfl, rfl, hrest⟩ := readCase_record h
            exact ⟨trivial, rfl, rfl, Nat.lt_succ_of_le hrest⟩

/-- Bytes that are read as some records, whatever stands behind them. -/
def Holds (bytes : List UInt8) (rs : List (L3 × UInt64)) : Prop :=
  ∀ ⦃inf rest⦄, Reads inf rest → Reads (bytes ++ inf) (rs ++ rest)

theorem holds_nil : Holds [] [] := fun _ _ => id

theorem Holds.append {bytes bytes' : List UInt8} {rs rs' : List (L3 × UInt64)}
    (h : Holds bytes rs) (h' : Holds bytes' rs') : Holds (bytes ++ bytes') (rs ++ rs') := by
  intro inf rest hrest
  rw [List.append_assoc, List.append_assoc]
  exact h (h' hrest)

theorem Holds.reads {bytes : List UInt8} {rs : List (L3 × UInt64)} (h : Holds bytes rs) :
    Reads bytes rs := by
  simpa using h (.ended rfl : Reads [] [])

theorem holds_write {l3 : L3} (h : l3.Recordable) :
    ∃ bytes, writeL3 l3 = some bytes ∧ Holds bytes [(l3.recorded, l3.recorded.time)] := by
  obtain ⟨bytes, hwrite, -, hread, -⟩ := comesBack l3 h
  refine ⟨bytes, hwrite, fun inf rest hrest => ?_⟩
  obtain ⟨ts, hts⟩ := hread inf
  obtain ⟨-, -, rfl, -⟩ := readL3_record hts
  exact .record hts hrest

/-- **A recording**: what `write_l3` wrote is read, record by record. -/
theorem exists_reads {l3s : List L3} (h : ∀ l3 ∈ l3s, l3.Recordable) :
    ∃ bytes, writeAll l3s = some bytes ∧
      Reads bytes (l3s.map fun l3 => (l3.recorded, l3.recorded.time)) := by
  suffices hholds : ∃ bytes, writeAll l3s = some bytes ∧
      Holds bytes (l3s.map fun l3 => (l3.recorded, l3.recorded.time)) by
    obtain ⟨bytes, hwrite, hbytes⟩ := hholds
    exact ⟨bytes, hwrite, hbytes.reads⟩
  induction l3s with
  | nil => exact ⟨[], rfl, holds_nil⟩
  | cons l3 l3s ih =>
      obtain ⟨hl3, hrest⟩ := List.forall_mem_cons.mp h
      obtain ⟨first, hfirst, hholds⟩ := holds_write hl3
      obtain ⟨rest, hwrite, hrests⟩ := ih hrest
      exact ⟨first ++ rest, by simp [writeAll, hfirst, hwrite], hholds.append hrests⟩

theorem Reads.length_le {inf : List UInt8} {rs : List (L3 × UInt64)} (h : Reads inf rs) :
    rs.length ≤ inf.length := by
  induction h with
  | ended hread => exact Nat.zero_le _
  | record hread hrest ih =>
      obtain ⟨-, -, -, hlt⟩ := readL3_record hread
      rw [List.length_cons]
      omega

/-! ### The loops -/

/-- The records that an input still has, the one read ahead in front. -/
inductive Input.Has : Input → List (L3 × UInt64) → Prop where
  | none {inf : List UInt8} : Input.Has ⟨none, inf⟩ []
  | some {inf : List UInt8} {r : L3 × UInt64} {rs : List (L3 × UInt64)}
      (hwrite : ∃ bytes, writeL3 r.1 = some bytes ∧ Holds bytes [r]) (hrest : Reads inf rs) :
      Input.Has ⟨some r, inf⟩ (r :: rs)

theorem next_has {inf : List UInt8} {rs : List (L3 × UInt64)} (h : Reads inf rs) :
    ∃ input, Input.next inf = some input ∧ input.Has rs := by
  cases h with
  | ended hread => exact ⟨⟨none, inf⟩, by rw [Input.next, hread], .none⟩
  | @record _ rest l3 ts rs hread hrest =>
      obtain ⟨hrecordable, hback, rfl, -⟩ := readL3_record hread
      refine ⟨⟨some (l3, l3.time), rest⟩, by rw [Input.next, hread], .some ?_ hrest⟩
      have hwrite := holds_write hrecordable
      rwa [hback] at hwrite

/-- `ts1 <= ts2`, of two records. -/
abbrev notLater (a b : L3 × UInt64) : Bool := a.2.toNat ≤ b.2.toNat

/-- What the loop leaves: the records that a merge takes first are written, and one of the inputs
    has none any more. -/
inductive Merging (rs1 rs2 : List (L3 × UInt64)) (fout : List UInt8) :
    Input × Input × List UInt8 → Prop where
  | intro {in1 in2 : Input} {bytes : List UInt8} {rs1' rs2' done : List (L3 × UInt64)}
      (hin1 : in1.Has rs1') (hin2 : in2.Has rs2') (hle1 : rs1'.length ≤ rs1.length)
      (hle2 : rs2'.length ≤ rs2.length) (hholds : Holds bytes done)
      (hmerge : List.merge rs1 rs2 notLater = done ++ (rs1' ++ rs2')) :
      Merging rs1 rs2 fout (in1, in2, fout ++ bytes)

section Turns

variable {r1 r2 : L3 × UInt64} {rs1 rs2 : List (L3 × UInt64)} {bytes fout : List UInt8}
  {left : Input × Input × List UInt8}

theorem merging_stop {in1 in2 : Input} (h1 : in1.Has rs1) (h2 : in2.Has rs2)
    (hempty : rs1 = [] ∨ rs2 = []) : Merging rs1 rs2 fout (in1, in2, fout) := by
  have hmerge : List.merge rs1 rs2 notLater = [] ++ (rs1 ++ rs2) := by
    rcases hempty with rfl | rfl <;> simp
  have hintro : Merging rs1 rs2 fout (in1, in2, fout ++ []) :=
    .intro h1 h2 le_rfl le_rfl holds_nil hmerge
  rwa [List.append_nil] at hintro

theorem Merging.first (hle : r1.2 ≤ r2.2) (hbytes : Holds bytes [r1])
    (h : Merging rs1 (r2 :: rs2) (fout ++ bytes) left) :
    Merging (r1 :: rs1) (r2 :: rs2) fout left := by
  cases h with
  | intro hin1 hin2 hle1 hle2 hholds hmerge =>
      rw [List.append_assoc]
      refine .intro hin1 hin2 (hle1.trans (Nat.le_succ _)) hle2 (hbytes.append hholds) ?_
      rw [List.cons_merge_cons, if_pos (decide_eq_true (UInt64.le_iff_toNat_le.mp hle)), hmerge]
      rfl

theorem Merging.second (hlt : ¬ r1.2 ≤ r2.2) (hbytes : Holds bytes [r2])
    (h : Merging (r1 :: rs1) rs2 (fout ++ bytes) left) :
    Merging (r1 :: rs1) (r2 :: rs2) fout left := by
  cases h with
  | intro hin1 hin2 hle1 hle2 hholds hmerge =>
      rw [List.append_assoc]
      refine .intro hin1 hin2 hle1 (hle2.trans (Nat.le_succ _)) (hbytes.append hholds) ?_
      have hnot : notLater r1 r2 = false :=
        decide_eq_false (mt UInt64.le_iff_toNat_le.mpr hlt)
      rw [List.cons_merge_cons, if_neg (by simp [hnot]), hmerge]
      rfl

end Turns

/-- **The loop merges**: each turn writes the record that a merge takes next. -/
theorem mergeLoop_merges {fuel : ℕ} {in1 in2 : Input} {rs1 rs2 : List (L3 × UInt64)}
    (h1 : in1.Has rs1) (h2 : in2.Has rs2) (hfuel : rs1.length + rs2.length < fuel)
    (fout : List UInt8) :
    ∃ left, mergeLoop fuel in1 in2 fout = some left ∧ Merging rs1 rs2 fout left := by
  induction fuel generalizing in1 in2 rs1 rs2 fout with
  | zero => omega
  | succ fuel ih =>
      cases h1 with
      | none => exact ⟨_, by rw [mergeLoop], merging_stop .none h2 (.inl rfl)⟩
      | @some inf1 r1 rs1 hwrite1 hrest1 =>
          cases h2 with
          | none =>
              exact ⟨_, by rw [mergeLoop], merging_stop (.some hwrite1 hrest1) .none (.inr rfl)⟩
          | @some inf2 r2 rs2 hwrite2 hrest2 =>
              rw [List.length_cons, List.length_cons] at hfuel
              by_cases hle : r1.2 ≤ r2.2
              · obtain ⟨bytes, hbytes, hholds⟩ := hwrite1
                obtain ⟨in1, hnext, hhas⟩ := next_has hrest1
                obtain ⟨left, hloop, hleft⟩ :=
                  ih hhas (.some hwrite2 hrest2) (by rw [List.length_cons]; omega) (fout ++ bytes)
                refine ⟨left, ?_, hleft.first hle hholds⟩
                simp [mergeLoop, hle, hbytes, hnext, hloop]
              · obtain ⟨bytes, hbytes, hholds⟩ := hwrite2
                obtain ⟨in2, hnext, hhas⟩ := next_has hrest2
                obtain ⟨left, hloop, hleft⟩ :=
                  ih (.some hwrite1 hrest1) hhas (by rw [List.length_cons]; omega) (fout ++ bytes)
                refine ⟨left, ?_, hleft.second hle hholds⟩
                simp [mergeLoop, hle, hbytes, hnext, hloop]

/-- The other loops write what the input is left with. -/
theorem drainLoop_drains {fuel : ℕ} {input : Input} {rs : List (L3 × UInt64)}
    (h : input.Has rs) (hfuel : rs.length < fuel) (fout : List UInt8) :
    ∃ bytes, drainLoop fuel input fout = some (fout ++ bytes) ∧ Holds bytes rs := by
  induction fuel generalizing input rs fout with
  | zero => omega
  | succ fuel ih =>
      cases h with
      | none => exact ⟨[], by rw [drainLoop, List.append_nil], holds_nil⟩
      | @some inf r rs hwrite hrest =>
          obtain ⟨bytes, hbytes, hholds⟩ := hwrite
          obtain ⟨input, hnext, hhas⟩ := next_has hrest
          rw [List.length_cons] at hfuel
          obtain ⟨rest, hloop, hrests⟩ := ih hhas (by omega) (fout ++ bytes)
          refine ⟨bytes ++ rest, ?_, hholds.append hrests⟩
          simp [drainLoop, hbytes, hnext, hloop]

/-- **What is written is a merge** of what is read. -/
theorem mergeBins_merges {f1 f2 : List UInt8} {l1 l2 : List (L3 × UInt64)} (h1 : Reads f1 l1)
    (h2 : Reads f2 l2) :
    ∃ fout, mergeBins f1 f2 = some fout ∧ Reads fout (List.merge l1 l2 notLater) := by
  obtain ⟨in1, hnext1, hhas1⟩ := next_has h1
  obtain ⟨in2, hnext2, hhas2⟩ := next_has h2
  have hlen1 := h1.length_le
  have hlen2 := h2.length_le
  obtain ⟨left, hloop, hleft⟩ := mergeLoop_merges hhas1 hhas2
    (by omega : _ < f1.length + f2.length + 1) []
  cases hleft with
  | @intro in1' in2' bytes rs1 rs2 done hin1 hin2 hle1 hle2 hholds hmerge =>
      obtain ⟨tail1, hdrain1, htail1⟩ :=
        drainLoop_drains hin1 (by omega : _ < f1.length + 1) ([] ++ bytes)
      obtain ⟨tail2, hdrain2, htail2⟩ :=
        drainLoop_drains hin2 (by omega : _ < f2.length + 1) ([] ++ bytes ++ tail1)
      refine ⟨[] ++ bytes ++ tail1 ++ tail2, ?_, ?_⟩
      · simp only [mergeBins, hnext1, hnext2, hloop, hdrain1, hdrain2, Option.bind_eq_bind,
          Option.bind_some]
      · rw [hmerge, List.nil_append, List.append_assoc]
        exact (hholds.append (htail1.append htail2)).reads

/-- **Two recordings in one.**  The output holds the records of both inputs, each input's in their
    own order; and where the times that are not 0 do not decrease in either, they do not decrease
    in the output, and the first input's come before the second's of the same time. -/
theorem merge_bins_merges {f1 f2 : List UInt8} {l1 l2 : List (L3 × UInt64)} (h1 : Reads f1 l1)
    (h2 : Reads f2 l2) :
    ∃ fout merged, mergeBins f1 f2 = some fout ∧ Reads fout (merged.map Prod.snd) ∧
      part .first merged = l1 ∧ part .second merged = l2 ∧
      ((l1.filter fun r => r.2 ≠ 0).Pairwise (fun a b => a.2 ≤ b.2) →
        (l2.filter fun r => r.2 ≠ 0).Pairwise (fun a b => a.2 ≤ b.2) →
        (merged.filter fun m => m.2.2 ≠ 0).Pairwise (InOrder fun r => r.2.toNat)) := by
  obtain ⟨fout, hmerge, hreads⟩ := mergeBins_merges h1 h2
  obtain ⟨hfirst, hsecond⟩ : part .first (merge (fun r => r.2.toNat) l1 l2) = l1 ∧
      part .second (merge (fun r => r.2.toNat) l1 l2) = l2 := part_merge
  refine ⟨fout, merge (fun r => r.2.toNat) l1 l2, hmerge, ?_, hfirst, hsecond, fun hl1 hl2 => ?_⟩
  · rwa [map_snd_merge]
  · -- a record without a time has the least key
    refine pairwise_merge (p := fun r : L3 × UInt64 => r.2 ≠ 0) ?_ ?_
      (hl1.imp UInt64.le_iff_toNat_le.mp) (hl2.imp UInt64.le_iff_toNat_le.mp)
    · intro x y hx
      have hzero : x.2 = 0 := by simpa using hx
      simp [hzero]
    · intro x y hx hy
      have hzero : y.2 = 0 := by simpa using hy
      have hpos : x.2.toNat ≠ 0 := fun h => by simp [← UInt64.toNat_inj, h] at hx
      rw [hzero]
      exact Nat.pos_of_ne_zero hpos

/-- A volume behind the end of a batch, and one of the same time in the other recording. -/
theorem merge_bins_merges_volumes :
    ∃ f1 f2 fout merged,
      writeAll [.eob ⟨0, 1⟩, .volume ⟨0, 7, 1, 5, 9, 3⟩] = some f1 ∧
      writeAll [.volume ⟨0, 7, 2, 5, 9, 4⟩] = some f2 ∧ mergeBins f1 f2 = some fout ∧
      Reads fout (merged.map Prod.snd) ∧ (part .first merged).length = 2 ∧
      (part .second merged).length = 1 ∧
      (merged.filter fun m => m.2.2 ≠ 0).Pairwise (InOrder fun r => r.2.toNat) := by
  have h1 : ∀ l3 ∈ [L3.eob ⟨0, 1⟩, .volume ⟨0, 7, 1, 5, 9, 3⟩], l3.Recordable := by
    simp [L3.Recordable]
  have h2 : ∀ l3 ∈ [L3.volume ⟨0, 7, 2, 5, 9, 4⟩], l3.Recordable := by simp [L3.Recordable]
  obtain ⟨f1, hwrite1, hreads1⟩ := exists_reads h1
  obtain ⟨f2, hwrite2, hreads2⟩ := exists_reads h2
  obtain ⟨fout, merged, hmerge, hreads, hfirst, hsecond, hsorted⟩ :=
    merge_bins_merges hreads1 hreads2
  exact ⟨f1, f2, fout, merged, hwrite1, hwrite2, hmerge, hreads, by rw [hfirst]; rfl,
    by rw [hsecond]; rfl, hsorted (by decide) (by decide)⟩

end KasparHft.Bfile
