import KasparHft.L3Records

/-!
# Recordings

`r_l3.hpp`: `write_l3` packs a record, puts the code of its type in front and appends it to the
file; `read_l3` reads a code, then as many bytes as a packed record of that type has.  The layer
that compresses keeps the bytes, so a file is here the bytes that are still to be read.
-/

namespace KasparHft.Bfile

/-- `en::l3`: the types of records, in the order of their values. -/
inductive L3Typ where
  | uni | mboV1 | mbotV1 | mbp | mbpt | som | vol | sst | fdf | odf | sdf | lim | chrV1 | gapV1
  | eob | mbos | mboV2 | chrV2 | gapV2 | mbotV2 | fenicsSystemevent
  | fenicsInstrumenttradingaction | fenicsInstrumentstats | fenicsBdf | dealerwebBookdir
  | dealerwebSysevent | dealerwebOrderbookstate | dealerwebInformation | dealerwebBrokentrade
  | interval | qlen | volume | eop
deriving DecidableEq, Repr

def L3Typ.value (typ : L3Typ) : UInt8 := UInt8.ofNat typ.ctorIdx

def L3Typ.ofValue (value : UInt8) : Option L3Typ :=
  if value.toNat < 33 then some (L3Typ.ofNat value.toNat) else none

/-- `l3_t`. -/
inductive L3 where
  | mboV2 (m : L3MboV2)
  | mboTrdV2 (m : L3MboTrdV2)
  | mboSnap (m : L3MboSnap)
  | mbp (m : L3Mbp)
  | mbpTrd (m : L3MbpTrd)
  | som (m : L3Som)
  | volume (m : L3Volume)
  | interval (m : L3Interval)
  | qlen (m : L3Qlen)
  | vol (m : L3Vol)
  | sst (m : L3Sst)
  | fdf (m : L3Fdf)
  | odf (m : L3Odf)
  | sdf (m : L3Sdf)
  | lim (m : L3Lim)
  | gapV2 (m : L3GapV2)
  | chrV2 (m : L3ChrV2)
  | eob (m : L3Eob)
  | eop (m : L3Eop)
  | sim (m : L3Sim)
  | fenicsSysEvent (m : L3FenicsSysEvent)
  | fenicsBdf (m : L3FenicsBdf)
  | fenicsTradingAction (m : L3FenicsTradingAction)
  | fenicsInstrumentstats (m : L3FenicsInstrumentstats)
  | dealerwebBookdir (m : L3DealerwebBookdir)
  | dealerwebSysEvent (m : L3DealerwebSysEvent)
  | dealerwebOrderbookstate (m : L3DealerwebOrderbookstate)
  | dealerwebInformation (m : L3DealerwebInformation)
  | dealerwebBrokentrade (m : L3DealerwebBrokentrade)

/-! ### Writing -/

/-- The bytes of a packed record, with the code of its type. -/
def writeRecord {β : Type} [Layout β] (typ : L3Typ) (packed : UInt8 × β) : List UInt8 :=
  Layout.write (typ.value, packed.2)

/-- `write_l3`: what is appended.  Of a simulation no record can be written. -/
def writeL3 : L3 → Option (List UInt8)
  | .mboV2 m => some (writeRecord .mboV2 m.toPacked)
  | .mboTrdV2 m => some (writeRecord .mbotV2 m.toPacked)
  | .mboSnap m => some (writeRecord .mbos m.toPacked)
  | .mbp m => some (writeRecord .mbp m.toPacked)
  | .mbpTrd m => some (writeRecord .mbpt m.toPacked)
  | .som m => some (writeRecord .som m.toPacked)
  | .volume m => some (writeRecord .volume m.toPacked)
  | .interval m => some (writeRecord .interval m.toPacked)
  | .qlen m => some (writeRecord .qlen m.toPacked)
  | .vol m => some (writeRecord .vol m.toPacked)
  | .sst m => some (writeRecord .sst m.toPacked)
  | .fdf m => some (writeRecord .fdf m.toPacked)
  | .odf m => some (writeRecord .odf m.toPacked)
  | .sdf m => some (writeRecord .sdf m.toPacked)
  | .lim m => some (writeRecord .lim m.toPacked)
  | .gapV2 m => some (writeRecord .gapV2 m.toPacked)
  | .chrV2 m => some (writeRecord .chrV2 m.toPacked)
  | .eob m => some (writeRecord .eob m.toPacked)
  | .eop m => some (writeRecord .eop m.toPacked)
  | .sim _ => none
  | .fenicsSysEvent m => some (writeRecord .fenicsSystemevent m.toPacked)
  | .fenicsBdf m => some (writeRecord .fenicsBdf m.toPacked)
  | .fenicsTradingAction m => some (writeRecord .fenicsInstrumenttradingaction m.toPacked)
  | .fenicsInstrumentstats m => some (writeRecord .fenicsInstrumentstats m.toPacked)
  | .dealerwebBookdir m => some (writeRecord .dealerwebBookdir m.toPacked)
  | .dealerwebSysEvent m => some (writeRecord .dealerwebSysevent m.toPacked)
  | .dealerwebOrderbookstate m => some (writeRecord .dealerwebOrderbookstate m.toPacked)
  | .dealerwebInformation m => some (writeRecord .dealerwebInformation m.toPacked)
  | .dealerwebBrokentrade m => some (writeRecord .dealerwebBrokentrade m.toPacked)

/-- The file after some records. -/
def writeAll : List L3 → Option (List UInt8)
  | [] => some []
  | l3 :: l3s => do return (← writeL3 l3) ++ (← writeAll l3s)

/-! ### Reading -/

/-- What a call of `read_l3` comes to: a record, its time and the file behind it; the end of the
    file, however much of a record was left; or an assertion that fails. -/
inductive Outcome where
  | record (l3 : L3) (ts : UInt64) (inf : List UInt8)
  | ended
  | aborted

/-- `read_rec`: the rest of a packed record, if it is all there. -/
def readRec {β : Type} [Layout β] (rectyp : UInt8) (inf : List UInt8) :
    Option ((UInt8 × β) × List UInt8) :=
  let szToRead := Layout.size (UInt8 × β) - Layout.size UInt8
  if inf.length < szToRead then none
  else some (Layout.read (rectyp :: inf.take szToRead), inf.drop szToRead)

/-- What the cases of `read_l3` have in common. -/
def readCase {α β : Type} [Layout β] (rectyp : UInt8) (inf : List UInt8)
    (fromPacked : UInt8 × β → α) (l3 : α → L3) (ts : α → UInt64) : Outcome :=
  match readRec rectyp inf with
  | none => .ended
  | some (packed, inf) => .record (l3 (fromPacked packed)) (ts (fromPacked packed)) inf

/-- `read_l3`. -/
def readL3 : List UInt8 → Outcome
  | [] => .ended
  | rectyp :: inf =>
      match L3Typ.ofValue rectyp with
      | some .mboV2 => readCase rectyp inf L3MboV2.fromPacked .mboV2 fun m => m.transactTime
      | some .mbotV2 =>
          readCase rectyp inf L3MboTrdV2.fromPacked .mboTrdV2 fun m => m.transactTime
      | some .mbos => readCase rectyp inf L3MboSnap.fromPacked .mboSnap fun m => m.transactTime
      | some .mbp => readCase rectyp inf L3Mbp.fromPacked .mbp fun m => m.transactTime
      | some .mbpt => readCase rectyp inf L3MbpTrd.fromPacked .mbpTrd fun m => m.transactTime
      | some .som => readCase rectyp inf L3Som.fromPacked .som fun _ => 0
      | some .volume => readCase rectyp inf L3Volume.fromPacked .volume fun m => m.t0
      | some .interval => readCase rectyp inf L3Interval.fromPacked .interval fun _ => 0
      | some .qlen => readCase rectyp inf L3Qlen.fromPacked .qlen fun _ => 0
      | some .vol => readCase rectyp inf L3Vol.fromPacked .vol fun m => m.txtim
      | some .sst => readCase rectyp inf L3Sst.fromPacked .sst fun m => m.txtim
      | some .fdf => readCase rectyp inf L3Fdf.fromPacked .fdf fun _ => 0
      | some .odf => readCase rectyp inf L3Odf.fromPacked .odf fun _ => 0
      | some .sdf => readCase rectyp inf L3Sdf.fromPacked .sdf fun _ => 0
      | some .lim => readCase rectyp inf L3Lim.fromPacked .lim fun _ => 0
      | some .chrV2 => readCase rectyp inf L3ChrV2.fromPacked .chrV2 fun _ => 0
      | some .gapV2 => readCase rectyp inf L3GapV2.fromPacked .gapV2 fun _ => 0
      | some .eob => readCase rectyp inf L3Eob.fromPacked .eob fun _ => 0
      | some .eop => readCase rectyp inf L3Eop.fromPacked .eop fun _ => 0
      | some .fenicsSystemevent =>
          readCase rectyp inf L3FenicsSysEvent.fromPacked .fenicsSysEvent fun _ => 0
      | some .fenicsBdf => readCase rectyp inf L3FenicsBdf.fromPacked .fenicsBdf fun _ => 0
      | some .fenicsInstrumenttradingaction =>
          readCase rectyp inf L3FenicsTradingAction.fromPacked .fenicsTradingAction fun _ => 0
      | some .fenicsInstrumentstats =>
          readCase rectyp inf L3FenicsInstrumentstats.fromPacked .fenicsInstrumentstats
            fun m => m.timestamp
      | some .dealerwebBookdir =>
          readCase rectyp inf L3DealerwebBookdir.fromPacked .dealerwebBookdir
            fun m => m.timestampNanoseconds
      | some .dealerwebSysevent =>
          readCase rectyp inf L3DealerwebSysEvent.fromPacked .dealerwebSysEvent
            fun m => m.timestampNanoseconds
      | some .dealerwebOrderbookstate =>
          readCase rectyp inf L3DealerwebOrderbookstate.fromPacked .dealerwebOrderbookstate
            fun m => m.timestampNanoseconds
      | some .dealerwebInformation =>
          readCase rectyp inf L3DealerwebInformation.fromPacked .dealerwebInformation
            fun m => m.timestampNanoseconds
      | some .dealerwebBrokentrade =>
          readCase rectyp inf L3DealerwebBrokentrade.fromPacked .dealerwebBrokentrade
            fun m => m.timestampNanoseconds
      | some .uni | some .mboV1 | some .mbotV1 | some .chrV1 | some .gapV1 | none => .aborted

/-- `n` calls of `read_l3`, if none aborts: the records, and `none` where it returned false. -/
def readAll : ℕ → List UInt8 → Option (List (Option L3))
  | 0, _ => some []
  | n + 1, inf =>
      match readL3 inf with
      | .record l3 _ inf => (readAll n inf).map (some l3 :: ·)
      | .ended => (readAll n []).map (none :: ·)
      | .aborted => none

/-! ### What comes back -/

/-- A record as a recording keeps it: under the code of its type, without what lives only in the
    program. -/
def L3.recorded : L3 → L3
  | .mboV2 m =>
      .mboV2 { m with
        typ := L3Typ.value .mboV2, ingressQlen := 0, pktEntryIdx := 0, pktSeqNum := 0 }
  | .mboTrdV2 m =>
      .mboTrdV2 { m with
        typ := L3Typ.value .mbotV2, ingressQlen := 0, pktEntryIdx := 0, pktSeqNum := 0 }
  | .mboSnap m => .mboSnap { m with typ := L3Typ.value .mbos }
  | .mbp m => .mbp { m with typ := L3Typ.value .mbp }
  | .mbpTrd m => .mbpTrd { m with typ := L3Typ.value .mbpt }
  | .som m => .som { m with typ := L3Typ.value .som }
  | .volume m => .volume { m with typ := L3Typ.value .volume }
  | .interval m => .interval { m with typ := L3Typ.value .interval }
  | .qlen m => .qlen { m with typ := L3Typ.value .qlen }
  | .vol m => .vol { m with typ := L3Typ.value .vol }
  | .sst m => .sst { m with typ := L3Typ.value .sst }
  | .fdf m => .fdf { m with typ := L3Typ.value .fdf }
  | .odf m => .odf { m with typ := L3Typ.value .odf }
  | .sdf m => .sdf { m with typ := L3Typ.value .sdf }
  | .lim m => .lim { m with typ := L3Typ.value .lim }
  | .gapV2 m => .gapV2 { m with typ := L3Typ.value .gapV2 }
  | .chrV2 m => .chrV2 { m with typ := L3Typ.value .chrV2 }
  | .eob m => .eob { m with typ := L3Typ.value .eob }
  | .eop m => .eop { m with typ := L3Typ.value .eop }
  | .sim m => .sim m
  | .fenicsSysEvent m => .fenicsSysEvent { m with typ := L3Typ.value .fenicsSystemevent }
  | .fenicsBdf m => .fenicsBdf { m with typ := L3Typ.value .fenicsBdf }
  | .fenicsTradingAction m =>
      .fenicsTradingAction { m with typ := L3Typ.value .fenicsInstrumenttradingaction }
  | .fenicsInstrumentstats m =>
      .fenicsInstrumentstats { m with typ := L3Typ.value .fenicsInstrumentstats }
  | .dealerwebBookdir m => .dealerwebBookdir { m with typ := L3Typ.value .dealerwebBookdir }
  | .dealerwebSysEvent m => .dealerwebSysEvent { m with typ := L3Typ.value .dealerwebSysevent }
  | .dealerwebOrderbookstate m =>
      .dealerwebOrderbookstate { m with typ := L3Typ.value .dealerwebOrderbookstate }
  | .dealerwebInformation m =>
      .dealerwebInformation { m with typ := L3Typ.value .dealerwebInformation }
  | .dealerwebBrokentrade m =>
      .dealerwebBrokentrade { m with typ := L3Typ.value .dealerwebBrokentrade }

/-- `write_l3` can write it. -/
def L3.Recordable : L3 → Prop
  | .sim _ => False
  | _ => True

/-- A record that comes back: it was written as some bytes, they are read as that record, whatever
    stands behind them, and nothing is read of fewer. -/
def ComesBack (l3 : L3) : Prop :=
  ∃ bytes, writeL3 l3 = some bytes ∧ bytes ≠ [] ∧
    (∀ inf, ∃ ts, readL3 (bytes ++ inf) = .record l3.recorded ts inf) ∧
    ∀ k < bytes.length, readL3 (bytes.take k) = .ended

variable {α β : Type} [Layout β]

theorem length_writeRecord (typ : L3Typ) (packed : UInt8 × β) :
    (writeRecord typ packed).length = 1 + Layout.size β :=
  Layout.length_write (typ.value, packed.2)

/-- The code comes first. -/
theorem writeRecord_eq_cons (typ : L3Typ) (packed : UInt8 × β) :
    writeRecord typ packed = typ.value :: Layout.write packed.2 := by
  have hcode : Layout.write typ.value = [typ.value] := by
    change [UInt8.ofNat typ.value.toNat] = _
    rw [UInt8.ofNat_toNat]
  change Layout.write typ.value ++ Layout.write packed.2 = _
  rw [hcode]
  rfl

theorem size_rest : Layout.size (UInt8 × β) - Layout.size UInt8 = Layout.size β :=
  Nat.add_sub_cancel_left _ _

theorem readRec_write (typ : L3Typ) (packed : UInt8 × β) (inf : List UInt8) :
    readRec typ.value (Layout.write packed.2 ++ inf) = some ((typ.value, packed.2), inf) := by
  have hlength := Layout.length_write packed.2
  unfold readRec
  rw [size_rest, if_neg (by rw [List.length_append, hlength]; omega), List.take_left' hlength,
    List.drop_left' hlength, ← writeRecord_eq_cons typ packed]
  exact congrArg (fun p => some (p, inf)) (Layout.read_write (typ.value, packed.2))

theorem readRec_short {inf : List UInt8} (rectyp : UInt8) (h : inf.length < Layout.size β) :
    readRec (β := β) rectyp inf = none := by
  unfold readRec
  rw [size_rest]
  exact if_pos h

/-- **One type of records**: its branch of `write_l3` and its case of `read_l3` agree. -/
theorem comesBack_of {l3 : L3} (typ : L3Typ) (packed : UInt8 × β) (fromPacked : UInt8 × β → α)
    (f : α → L3) (ts : α → UInt64) (hwrite : writeL3 l3 = some (writeRecord typ packed))
    (hread : ∀ inf, readL3 (typ.value :: inf) = readCase typ.value inf fromPacked f ts)
    (hback : f (fromPacked (typ.value, packed.2)) = l3.recorded) : ComesBack l3 := by
  refine ⟨_, hwrite, ?_, fun inf => ⟨ts (fromPacked (typ.value, packed.2)), ?_⟩,
    fun k hk => ?_⟩
  · rw [writeRecord_eq_cons]
    exact List.cons_ne_nil _ _
  · rw [writeRecord_eq_cons, List.cons_append, hread, readCase, readRec_write, ← hback]
  · rw [length_writeRecord] at hk
    cases k with
    | zero => rfl
    | succ k =>
        have hshort : ((Layout.write packed.2).take k).length < Layout.size β := by
          rw [List.length_take, Layout.length_write]
          omega
        rw [writeRecord_eq_cons, List.take_succ_cons, hread, readCase, readRec_short _ hshort]

/-- **Every type of records.** -/
theorem comesBack : ∀ l3 : L3, l3.Recordable → ComesBack l3
  | .mboV2 m, _ =>
      comesBack_of .mboV2 m.toPacked L3MboV2.fromPacked .mboV2 (·.transactTime) rfl (fun _ => rfl)
        rfl
  | .mboTrdV2 m, _ =>
      comesBack_of .mbotV2 m.toPacked L3MboTrdV2.fromPacked .mboTrdV2 (·.transactTime) rfl
        (fun _ => rfl) rfl
  | .mboSnap m, _ =>
      comesBack_of .mbos m.toPacked L3MboSnap.fromPacked .mboSnap (·.transactTime) rfl
        (fun _ => rfl) rfl
  | .mbp m, _ =>
      comesBack_of .mbp m.toPacked L3Mbp.fromPacked .mbp (·.transactTime) rfl (fun _ => rfl) rfl
  | .mbpTrd m, _ =>
      comesBack_of .mbpt m.toPacked L3MbpTrd.fromPacked .mbpTrd (·.transactTime) rfl
        (fun _ => rfl) rfl
  | .som m, _ =>
      comesBack_of .som m.toPacked L3Som.fromPacked .som (fun _ => 0) rfl (fun _ => rfl) rfl
  | .volume m, _ =>
      comesBack_of .volume m.toPacked L3Volume.fromPacked .volume (·.t0) rfl (fun _ => rfl) rfl
  | .interval m, _ =>
      comesBack_of .interval m.toPacked L3Interval.fromPacked .interval (fun _ => 0) rfl
        (fun _ => rfl) rfl
  | .qlen m, _ =>
      comesBack_of .qlen m.toPacked L3Qlen.fromPacked .qlen (fun _ => 0) rfl (fun _ => rfl) rfl
  | .vol m, _ =>
      comesBack_of .vol m.toPacked L3Vol.fromPacked .vol (·.txtim) rfl (fun _ => rfl) rfl
  | .sst m, _ =>
      comesBack_of .sst m.toPacked L3Sst.fromPacked .sst (·.txtim) rfl (fun _ => rfl) rfl
  | .fdf m, _ =>
      comesBack_of .fdf m.toPacked L3Fdf.fromPacked .fdf (fun _ => 0) rfl (fun _ => rfl) rfl
  | .odf m, _ =>
      comesBack_of .odf m.toPacked L3Odf.fromPacked .odf (fun _ => 0) rfl (fun _ => rfl) rfl
  | .sdf m, _ =>
      comesBack_of .sdf m.toPacked L3Sdf.fromPacked .sdf (fun _ => 0) rfl (fun _ => rfl) rfl
  | .lim m, _ =>
      comesBack_of .lim m.toPacked L3Lim.fromPacked .lim (fun _ => 0) rfl (fun _ => rfl) rfl
  | .gapV2 m, _ =>
      comesBack_of .gapV2 m.toPacked L3GapV2.fromPacked .gapV2 (fun _ => 0) rfl (fun _ => rfl) rfl
  | .chrV2 m, _ =>
      comesBack_of .chrV2 m.toPacked L3ChrV2.fromPacked .chrV2 (fun _ => 0) rfl (fun _ => rfl) rfl
  | .eob m, _ =>
      comesBack_of .eob m.toPacked L3Eob.fromPacked .eob (fun _ => 0) rfl (fun _ => rfl) rfl
  | .eop m, _ =>
      comesBack_of .eop m.toPacked L3Eop.fromPacked .eop (fun _ => 0) rfl (fun _ => rfl) rfl
  | .sim _, h => h.elim
  | .fenicsSysEvent m, _ =>
      comesBack_of .fenicsSystemevent m.toPacked L3FenicsSysEvent.fromPacked .fenicsSysEvent
        (fun _ => 0) rfl (fun _ => rfl) rfl
  | .fenicsBdf m, _ =>
      comesBack_of .fenicsBdf m.toPacked L3FenicsBdf.fromPacked .fenicsBdf (fun _ => 0) rfl
        (fun _ => rfl) rfl
  | .fenicsTradingAction m, _ =>
      comesBack_of .fenicsInstrumenttradingaction m.toPacked L3FenicsTradingAction.fromPacked
        .fenicsTradingAction (fun _ => 0) rfl (fun _ => rfl) rfl
  | .fenicsInstrumentstats m, _ =>
      comesBack_of .fenicsInstrumentstats m.toPacked L3FenicsInstrumentstats.fromPacked
        .fenicsInstrumentstats (·.timestamp) rfl (fun _ => rfl) rfl
  | .dealerwebBookdir m, _ =>
      comesBack_of .dealerwebBookdir m.toPacked L3DealerwebBookdir.fromPacked .dealerwebBookdir
        (·.timestampNanoseconds) rfl (fun _ => rfl) rfl
  | .dealerwebSysEvent m, _ =>
      comesBack_of .dealerwebSysevent m.toPacked L3DealerwebSysEvent.fromPacked .dealerwebSysEvent
        (·.timestampNanoseconds) rfl (fun _ => rfl) rfl
  | .dealerwebOrderbookstate m, _ =>
      comesBack_of .dealerwebOrderbookstate m.toPacked L3DealerwebOrderbookstate.fromPacked
        .dealerwebOrderbookstate (·.timestampNanoseconds) rfl (fun _ => rfl) rfl
  | .dealerwebInformation m, _ =>
      comesBack_of .dealerwebInformation m.toPacked L3DealerwebInformation.fromPacked
        .dealerwebInformation (·.timestampNanoseconds) rfl (fun _ => rfl) rfl
  | .dealerwebBrokentrade m, _ =>
      comesBack_of .dealerwebBrokentrade m.toPacked L3DealerwebBrokentrade.fromPacked
        .dealerwebBrokentrade (·.timestampNanoseconds) rfl (fun _ => rfl) rfl

/-! ### Files -/

/-- What calls return that read these records and then find the end. -/
def returns : List L3 → ℕ → List (Option L3)
  | _, 0 => []
  | [], n + 1 => none :: returns [] n
  | l3 :: l3s, n + 1 => some l3.recorded :: returns l3s n

theorem readAll_nil (n : ℕ) : readAll n [] = some (returns [] n) := by
  induction n with
  | zero => rfl
  | succ n ih =>
      rw [readAll, readL3, ih]
      rfl

/-- Of a file that is cut somewhere the records before the cut are read, and no part of the one
    that it goes through. -/
theorem readAll_take {l3s : List L3} (h : ∀ l3 ∈ l3s, ComesBack l3) {bytes : List UInt8}
    (hwrite : writeAll l3s = some bytes) (cut : ℕ) :
    ∃ m ≤ l3s.length, (bytes.length ≤ cut → m = l3s.length) ∧
      ∀ n, readAll n (bytes.take cut) = some (returns (l3s.take m) n) := by
  induction l3s generalizing bytes cut with
  | nil =>
      cases hwrite
      refine ⟨0, le_rfl, fun _ => rfl, fun n => ?_⟩
      rw [List.take_nil]
      exact readAll_nil n
  | cons l3 l3s ih =>
      obtain ⟨⟨first, hfirst, -, hread, hshort⟩, hrest⟩ := List.forall_mem_cons.mp h
      simp only [writeAll, hfirst, Option.bind_eq_bind, Option.bind_some,
        Option.bind_eq_some_iff] at hwrite
      obtain ⟨rest, hrestBytes, heq⟩ := hwrite
      obtain rfl : first ++ rest = bytes := Option.some_inj.mp heq
      rcases Nat.lt_or_ge cut first.length with hcut | hcut
      · -- the cut goes through the first record
        refine ⟨0, Nat.zero_le _, fun hle => ?_, fun n => ?_⟩
        · rw [List.length_append] at hle
          omega
        · rw [List.take_append_of_le_length hcut.le]
          cases n with
          | zero => rfl
          | succ n =>
              rw [readAll, hshort cut hcut, readAll_nil]
              rfl
      · obtain ⟨m, hm, hall, hreads⟩ := ih hrest hrestBytes (cut - first.length)
        have htake : (first ++ rest).take cut = first ++ rest.take (cut - first.length) := by
          rw [List.take_append, List.take_of_length_le hcut]
        refine ⟨m + 1, Nat.succ_le_succ hm, fun hle => ?_, fun n => ?_⟩
        · rw [List.length_append] at hle
          rw [hall (by omega), List.length_cons]
        · obtain ⟨ts, hrecord⟩ := hread (rest.take (cut - first.length))
          cases n with
          | zero => rfl
          | succ n =>
              rw [htake, readAll, hrecord]
              change (readAll n (rest.take (cut - first.length))).map _ = _
              rw [hreads n]
              rfl

theorem writeAll_some {l3s : List L3} (h : ∀ l3 ∈ l3s, ComesBack l3) :
    ∃ bytes, writeAll l3s = some bytes := by
  induction l3s with
  | nil => exact ⟨[], rfl⟩
  | cons l3 l3s ih =>
      obtain ⟨⟨first, hfirst, -⟩, hrest⟩ := List.forall_mem_cons.mp h
      obtain ⟨rest, hrestBytes⟩ := ih hrest
      exact ⟨first ++ rest, by simp [writeAll, hfirst, hrestBytes]⟩

/-- **A recording comes back** record by record, and then the end; and of one that is cut at any
    byte some of the first records come back, and then the end. -/
theorem recording_comes_back (l3s : List L3) (h : ∀ l3 ∈ l3s, l3.Recordable) :
    ∃ bytes, writeAll l3s = some bytes ∧ (∀ n, readAll n bytes = some (returns l3s n)) ∧
      ∀ cut, ∃ m ≤ l3s.length, ∀ n, readAll n (bytes.take cut) = some (returns (l3s.take m) n) := by
  have hall : ∀ l3 ∈ l3s, ComesBack l3 := fun l3 hl3 => comesBack l3 (h l3 hl3)
  obtain ⟨bytes, hwrite⟩ := writeAll_some hall
  refine ⟨bytes, hwrite, fun n => ?_, fun cut => ?_⟩
  · obtain ⟨m, -, hm, hreads⟩ := readAll_take hall hwrite bytes.length
    have hn := hreads n
    rwa [hm le_rfl, List.take_length, List.take_length] at hn
  · obtain ⟨m, hm, -, hreads⟩ := readAll_take hall hwrite cut
    exact ⟨m, hm, hreads⟩

/-- The end of a packet, and a gap behind it. -/
theorem packet_comes_back :
    ∃ bytes, writeAll [.eop ⟨0, 1, 7, 1000⟩, .gapV2 ⟨0, 1⟩] = some bytes ∧
      (∀ n, readAll n bytes = some (returns [.eop ⟨0, 1, 7, 1000⟩, .gapV2 ⟨0, 1⟩] n)) ∧
      ∀ cut, ∃ m ≤ 2, ∀ n, readAll n (bytes.take cut) =
        some (returns ([L3.eop ⟨0, 1, 7, 1000⟩, .gapV2 ⟨0, 1⟩].take m) n) :=
  recording_comes_back [.eop ⟨0, 1, 7, 1000⟩, .gapV2 ⟨0, 1⟩] (by simp [L3.Recordable])

end KasparHft.Bfile
