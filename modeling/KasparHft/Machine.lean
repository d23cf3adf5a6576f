import Mathlib.Data.List.Basic
import Mathlib.Data.List.Induction
import Mathlib.Tactic.Common

/-!
# Partial machines and their runs

A machine takes one event at a time, returns its next state and what it emitted,
and may abort (`none`).  A run stops at the first abort, so a statement about the
state after a run is a statement about every state the process really reaches.

`run_induction` is the one induction every invariant of the development uses: it
carries the events consumed and the outputs emitted so far, so ghost history needs
no state of its own.  `AllSteps` says that each step of a run meets a condition on
the state before it and on the event.
-/

namespace Machine

variable {σ ε ο : Type*}

/-- Run a machine over a list of events, concatenating what the steps emit. -/
def run (step : σ → ε → Option (σ × List ο)) : σ → List ε → Option (σ × List ο)
  | s, [] => some (s, [])
  | s, e :: es =>
      match step s e with
      | none => none
      | some (s', o) =>
          match run step s' es with
          | none => none
          | some (s'', os) => some (s'', o ++ os)

/-- Every step the run from `s` takes satisfies `P` (the state before it, its event). -/
def AllSteps (step : σ → ε → Option (σ × List ο)) (P : σ → ε → Prop) : σ → List ε → Prop
  | _, [] => True
  | s, e :: es =>
      P s e ∧
        match step s e with
        | none => True
        | some (s', _) => AllSteps step P s' es

/-- The events of a run, each with what its step emitted. -/
def trace (step : σ → ε → Option (σ × List ο)) : σ → List ε → List (ε × List ο)
  | _, [] => []
  | s, e :: es =>
      match step s e with
      | none => []
      | some (s', o) => (e, o) :: trace step s' es

section Runs

variable {step : σ → ε → Option (σ × List ο)} {P : σ → ε → Prop}

@[simp] theorem run_nil (s : σ) : run step s [] = some (s, []) := rfl

theorem run_cons {s t : σ} {e : ε} {es : List ε} {out : List ο} :
    run step s (e :: es) = some (t, out) ↔
      ∃ s' o os, step s e = some (s', o) ∧ run step s' es = some (t, os) ∧ out = o ++ os := by
  simp only [run]
  constructor
  · intro h
    rcases hs : step s e with _ | ⟨s', o⟩
    · simp [hs] at h
    · rcases hr : run step s' es with _ | ⟨s'', os⟩
      · simp [hs, hr] at h
      · simp only [hs, hr, Option.some.injEq, Prod.mk.injEq] at h
        obtain ⟨rfl, rfl⟩ := h
        exact ⟨s', o, os, rfl, hr, rfl⟩
  · rintro ⟨s', o, os, hs, hr, rfl⟩
    simp [hs, hr]

theorem run_one (s : σ) (e : ε) : run step s [e] = step s e := by
  unfold run
  rcases step s e with _ | ⟨t, o⟩
  · rfl
  · exact congrArg (fun out => some (t, out)) (List.append_nil o)

theorem run_append {s t : σ} {es fs : List ε} {out : List ο} :
    run step s (es ++ fs) = some (t, out) ↔
      ∃ m o₁ o₂, run step s es = some (m, o₁) ∧ run step m fs = some (t, o₂) ∧
        out = o₁ ++ o₂ := by
  induction es generalizing s out with
  | nil => simp
  | cons e es ih =>
      rw [List.cons_append, run_cons]
      constructor
      · rintro ⟨s', o, os, hs, hr, hout⟩
        obtain ⟨m, o₁, o₂, h₁, h₂, rfl⟩ := ih.mp hr
        refine ⟨m, o ++ o₁, o₂, run_cons.mpr ⟨s', o, o₁, hs, h₁, rfl⟩, h₂, ?_⟩
        rw [hout, List.append_assoc]
      · rintro ⟨m, o₁, o₂, h₁, h₂, rfl⟩
        obtain ⟨s', o, os, hs, hr, rfl⟩ := run_cons.mp h₁
        exact ⟨s', o, os ++ o₂, hs, ih.mpr ⟨m, os, o₂, hr, h₂, rfl⟩, List.append_assoc _ _ _⟩

/-- A run goes on from where it is, or has aborted. -/
theorem run_append_eq (s : σ) (es fs : List ε) :
    run step s (es ++ fs) = (run step s es).bind fun m =>
      (run step m.1 fs).map fun r => (r.1, m.2 ++ r.2) := by
  apply Option.ext
  rintro ⟨t, out⟩
  rw [run_append, Option.bind_eq_some_iff]
  constructor
  · rintro ⟨m, o₁, o₂, h₁, h₂, rfl⟩
    exact ⟨(m, o₁), h₁, Option.map_eq_some_iff.mpr ⟨(t, o₂), h₂, rfl⟩⟩
  · rintro ⟨⟨m, o₁⟩, h₁, hmap⟩
    obtain ⟨⟨t', o₂⟩, h₂, heq⟩ := Option.map_eq_some_iff.mp hmap
    cases heq
    exact ⟨m, o₁, o₂, h₁, h₂, rfl⟩

theorem run_concat {s t : σ} {es : List ε} {e : ε} {out : List ο} :
    run step s (es ++ [e]) = some (t, out) ↔
      ∃ m o₁ o₂, run step s es = some (m, o₁) ∧ step m e = some (t, o₂) ∧ out = o₁ ++ o₂ := by
  rw [run_append]
  constructor
  · rintro ⟨m, o₁, o₂, h₁, h₂, rfl⟩
    obtain ⟨s', o, os, hs, hr, rfl⟩ := run_cons.mp h₂
    simp only [run_nil, Option.some.injEq, Prod.mk.injEq] at hr
    obtain ⟨rfl, rfl⟩ := hr
    exact ⟨m, o₁, o, h₁, hs, by simp⟩
  · rintro ⟨m, o₁, o₂, h₁, h₂, rfl⟩
    exact ⟨m, o₁, o₂, h₁, run_cons.mpr ⟨t, o₂, [], h₂, rfl, by simp⟩, rfl⟩

/-- A machine that never aborts runs over every list of events. -/
theorem exists_run (htotal : ∀ s e, ∃ r, step s e = some r) (s : σ) (es : List ε) :
    ∃ t out, run step s es = some (t, out) := by
  induction es generalizing s with
  | nil => exact ⟨s, [], rfl⟩
  | cons e es ih =>
      obtain ⟨⟨s', o⟩, hs⟩ := htotal s e
      obtain ⟨t, os, hr⟩ := ih s'
      exact ⟨t, o ++ os, run_cons.mpr ⟨s', o, os, hs, hr, rfl⟩⟩

theorem allSteps_cons {s : σ} {e : ε} {es : List ε} :
    AllSteps step P s (e :: es) ↔
      P s e ∧ ∀ s' o, step s e = some (s', o) → AllSteps step P s' es := by
  simp only [AllSteps]
  rcases step s e with _ | ⟨s', o⟩
  · simp
  · simp only [Option.some.injEq, Prod.mk.injEq, and_congr_right_iff]
    intro _
    exact ⟨fun h a b hab => hab.1 ▸ h, fun h => h s' o ⟨rfl, rfl⟩⟩

theorem allSteps_append {s : σ} {es fs : List ε} :
    AllSteps step P s (es ++ fs) ↔
      AllSteps step P s es ∧
        ∀ t out, run step s es = some (t, out) → AllSteps step P t fs := by
  induction es generalizing s with
  | nil =>
      simp only [List.nil_append, run_nil, Option.some.injEq, Prod.mk.injEq]
      constructor
      · rintro hall
        exact ⟨trivial, fun t out ⟨ht, _⟩ => ht ▸ hall⟩
      · rintro ⟨-, hall⟩
        exact hall s [] ⟨rfl, rfl⟩
  | cons e es ih =>
      rw [List.cons_append, allSteps_cons, allSteps_cons]
      constructor
      · rintro ⟨hP, hrest⟩
        refine ⟨⟨hP, fun s' o hs => (ih.mp (hrest s' o hs)).1⟩, ?_⟩
        intro t out hrun
        obtain ⟨s', o, os, hs, hr, -⟩ := run_cons.mp hrun
        exact (ih.mp (hrest s' o hs)).2 t os hr
      · rintro ⟨⟨hP, hrest⟩, hlast⟩
        refine ⟨hP, fun s' o hs => ih.mpr ⟨hrest s' o hs, ?_⟩⟩
        intro t os hr
        exact hlast t (o ++ os) (run_cons.mpr ⟨s', o, os, hs, hr, rfl⟩)

/-- One more step after a run. -/
theorem allSteps_concat {s t : σ} {es : List ε} {e : ε} {out : List ο}
    (hrun : run step s es = some (t, out)) :
    AllSteps step P s (es ++ [e]) ↔ AllSteps step P s es ∧ P t e := by
  rw [allSteps_append]
  refine and_congr_right fun _ => ⟨fun h => (allSteps_cons.mp (h t out hrun)).1, ?_⟩
  intro hP t' out' hrun'
  obtain ⟨rfl, -⟩ := Prod.mk.inj (Option.some.inj (hrun.symm.trans hrun'))
  exact allSteps_cons.mpr ⟨hP, fun _ _ _ => trivial⟩

/-- Every step of a run meets `P` when each step from a state that a run reaches does. -/
theorem allSteps_of_reached {s₀ : σ} {es : List ε}
    (h : ∀ past e rest s out, es = past ++ e :: rest → run step s₀ past = some (s, out) → P s e) :
    AllSteps step P s₀ es := by
  suffices hfrom : ∀ rest past s out, es = past ++ rest → run step s₀ past = some (s, out) →
      AllSteps step P s rest from hfrom es [] s₀ [] rfl rfl
  intro rest
  induction rest with
  | nil => exact fun _ _ _ _ _ => trivial
  | cons e rest ih =>
      intro past s out hes hrun
      refine allSteps_cons.mpr ⟨h past e rest s out hes hrun, ?_⟩
      intro s' o hs
      refine ih (past ++ [e]) s' (out ++ o) ?_ (run_concat.mpr ⟨s, out, o, hrun, hs, rfl⟩)
      rw [hes, List.append_assoc]
      rfl

/-- **The invariant rule.**  If `I` holds at the start with no history and every step
    that meets `P` carries it over, appending the event and the outputs to the history,
    then it holds after every run whose steps all meet `P`. -/
theorem run_induction {I : List ε → List ο → σ → Prop} {s₀ s : σ} {es : List ε} {os : List ο}
    (h0 : I [] [] s₀)
    (hstep : ∀ es os s e s' o, I es os s → P s e → step s e = some (s', o) →
      I (es ++ [e]) (os ++ o) s')
    (hP : AllSteps step P s₀ es) (hrun : run step s₀ es = some (s, os)) : I es os s := by
  -- generalise the start to a state that already has a history
  suffices key : ∀ (fs : List ε) (past : List ε) (emitted : List ο) (m : σ) (out : List ο),
      I past emitted m → AllSteps step P m fs → run step m fs = some (s, out) →
      I (past ++ fs) (emitted ++ out) s by
    simpa using key es [] [] s₀ os h0 hP hrun
  intro fs
  induction fs with
  | nil =>
      intro past emitted m out hI _ hr
      simp only [run_nil, Option.some.injEq, Prod.mk.injEq] at hr
      obtain ⟨rfl, rfl⟩ := hr
      simpa using hI
  | cons f fs ih =>
      intro past emitted m out hI hall hr
      obtain ⟨m', o, os', hs, hr', rfl⟩ := run_cons.mp hr
      obtain ⟨hPf, hrest⟩ := allSteps_cons.mp hall
      have hI' := hstep past emitted m f m' o hI hPf hs
      simpa [List.append_assoc] using ih _ _ _ _ hI' (hrest m' o hs) hr'

theorem trace_append_of_run {s t : σ} {es fs : List ε} {out : List ο}
    (hrun : run step s es = some (t, out)) :
    trace step s (es ++ fs) = trace step s es ++ trace step t fs := by
  induction es generalizing s out with
  | nil =>
      simp only [run_nil, Option.some.injEq, Prod.mk.injEq] at hrun
      obtain ⟨rfl, -⟩ := hrun
      rfl
  | cons e es ih =>
      obtain ⟨s', o, os, hs, hr, -⟩ := run_cons.mp hrun
      simp only [List.cons_append, trace, hs, ih hr]

/-- The invariant rule over traces: the history pairs each event with its outputs. -/
theorem trace_induction {I : List (ε × List ο) → σ → Prop} {s₀ s : σ} {es : List ε}
    {os : List ο} (h0 : I [] s₀)
    (hstep : ∀ tr s e s' o, I tr s → P s e → step s e = some (s', o) → I (tr ++ [(e, o)]) s')
    (hP : AllSteps step P s₀ es) (hrun : run step s₀ es = some (s, os)) :
    I (trace step s₀ es) s := by
  refine (run_induction (I := fun es os s => run step s₀ es = some (s, os) ∧
    I (trace step s₀ es) s) ⟨rfl, h0⟩ ?_ hP hrun).2
  intro past emitted m e m' o ⟨hpast, hI⟩ hPe hs
  refine ⟨run_concat.mpr ⟨m, emitted, o, hpast, hs, rfl⟩, ?_⟩
  rw [trace_append_of_run hpast]
  have hlast : trace step m [e] = [(e, o)] := by simp only [trace, hs]
  rw [hlast]
  exact hstep _ _ _ _ _ hI hPe hs

theorem allSteps_true (s : σ) (es : List ε) : AllSteps step (fun _ _ => True) s es := by
  induction es generalizing s with
  | nil => trivial
  | cons e es ih => exact allSteps_cons.mpr ⟨trivial, fun s' _ _ => ih s'⟩

/-- A condition on the events alone. -/
theorem allSteps_of_forall {Q : ε → Prop} {es : List ε} (hQ : ∀ e ∈ es, Q e) (s : σ) :
    AllSteps step (fun _ e => Q e) s es := by
  induction es generalizing s with
  | nil => trivial
  | cons e es ih =>
      obtain ⟨hQe, hQes⟩ := List.forall_mem_cons.mp hQ
      exact allSteps_cons.mpr ⟨hQe, fun s' _ _ => ih hQes s'⟩

theorem allSteps_and {Q : σ → ε → Prop} {s : σ} {es : List ε} (hP : AllSteps step P s es)
    (hQ : AllSteps step Q s es) : AllSteps step (fun s e => P s e ∧ Q s e) s es := by
  induction es generalizing s with
  | nil => trivial
  | cons e es ih =>
      obtain ⟨hPe, hPes⟩ := allSteps_cons.mp hP
      obtain ⟨hQe, hQes⟩ := allSteps_cons.mp hQ
      exact allSteps_cons.mpr ⟨⟨hPe, hQe⟩, fun s' o hs => ih (hPes s' o hs) (hQes s' o hs)⟩

/-- The invariant rule for runs without a condition on their steps. -/
theorem run_invariant {I : List ε → List ο → σ → Prop} {s₀ s : σ} {es : List ε} {os : List ο}
    (h0 : I [] [] s₀)
    (hstep : ∀ es os s e s' o, I es os s → step s e = some (s', o) → I (es ++ [e]) (os ++ o) s')
    (hrun : run step s₀ es = some (s, os)) : I es os s :=
  run_induction (P := fun _ _ => True) h0
    (fun es os s e s' o hI _ hs => hstep es os s e s' o hI hs) (allSteps_true s₀ es) hrun

/-- The invariant rule for a machine that does not abort where `I` and `P` hold. -/
theorem exists_run_induction {I : List ο → σ → Prop} {s₀ : σ} {es : List ε} (h0 : I [] s₀)
    (hstep : ∀ os s e, I os s → P s e → ∃ r, step s e = some r ∧ I (os ++ r.2) r.1)
    (hP : AllSteps step P s₀ es) : ∃ s os, run step s₀ es = some (s, os) ∧ I os s := by
  induction es using List.reverseRecOn with
  | nil => exact ⟨s₀, [], rfl, h0⟩
  | append_singleton past e ih =>
      rw [allSteps_append] at hP
      obtain ⟨s, os, hrun, hI⟩ := ih hP.1
      obtain ⟨⟨s', o⟩, hs, hI'⟩ := hstep os s e hI (allSteps_cons.mp (hP.2 s os hrun)).1
      exact ⟨s', os ++ o, run_concat.mpr ⟨s, os, o, hrun, hs, rfl⟩, hI'⟩

/-- **The exactness rule.**  Where `J` is kept by the steps that find `I` and meet `P`, and a step
    that finds `J` and `I` keeps `I` exactly when it meets `P`, a run has `I` after each of its
    steps exactly when all its steps meet `P`. -/
theorem always_iff_allSteps {I J : List ο → σ → Prop} {Q : σ → ε → Prop} {s₀ t : σ}
    {es : List ε} {os : List ο} (hJ0 : J [] s₀) (hI0 : I [] s₀)
    (hJ : ∀ os s e s' o, J os s → Q s e → I os s → P s e → step s e = some (s', o) →
      J (os ++ o) s')
    (hI : ∀ os s e s' o, J os s → Q s e → I os s → step s e = some (s', o) →
      (I (os ++ o) s' ↔ P s e))
    (hQ : AllSteps step Q s₀ es) (hrun : run step s₀ es = some (t, os)) :
    (∀ past rest s out, es = past ++ rest → run step s₀ past = some (s, out) → I out s) ↔
      AllSteps step P s₀ es := by
  constructor
  · intro halways
    -- along the run both the condition and `J` follow from what came before
    suffices hall : ∀ past rest, es = past ++ rest → AllSteps step P s₀ past ∧
        ∀ s out, run step s₀ past = some (s, out) → J out s from (hall es [] (by simp)).1
    intro past
    induction past using List.reverseRecOn with
    | nil =>
        intro rest _
        refine ⟨trivial, fun s out hpast => ?_⟩
        cases hpast
        exact hJ0
    | append_singleton past e ih =>
        intro rest hsplit
        have hbefore : es = past ++ e :: rest := by simpa using hsplit
        obtain ⟨hall, hJpast⟩ := ih (e :: rest) hbefore
        have hnext : ∀ m out s' o, run step s₀ past = some (m, out) →
            step m e = some (s', o) → P m e ∧ J (out ++ o) s' := by
          intro m out s' o hpast hstep
          have henv : Q m e := by
            rw [hbefore, allSteps_append] at hQ
            exact (allSteps_cons.mp (hQ.2 m out hpast)).1
          have hhere := halways past (e :: rest) m out hbefore hpast
          have hafter := halways (past ++ [e]) rest s' (out ++ o) hsplit
            (run_concat.mpr ⟨m, out, o, hpast, hstep, rfl⟩)
          have hP := (hI out m e s' o (hJpast m out hpast) henv hhere hstep).mp hafter
          exact ⟨hP, hJ out m e s' o (hJpast m out hpast) henv hhere hP hstep⟩
        constructor
        · refine allSteps_append.mpr ⟨hall, fun m out hpast => ?_⟩
          rw [hsplit] at hrun
          obtain ⟨s', out', -, hrun', -⟩ := run_append.mp hrun
          obtain ⟨m', o₁, o₂, hpast', hstep, -⟩ := run_concat.mp hrun'
          cases hpast.symm.trans hpast'
          exact allSteps_cons.mpr ⟨(hnext m out s' o₂ hpast hstep).1, fun _ _ _ => trivial⟩
        · intro s' out' hrun'
          obtain ⟨m, o₁, o₂, hpast, hstep, rfl⟩ := run_concat.mp hrun'
          exact (hnext m o₁ s' o₂ hpast hstep).2
  · intro hall past rest s out hsplit hpast
    rw [hsplit, allSteps_append] at hQ hall
    refine (run_induction (I := fun _ os s => J os s ∧ I os s) ⟨hJ0, hI0⟩ ?_
      (allSteps_and hQ.1 hall.1) hpast).2
    intro _ os s e s' o hinv hP hstep
    exact ⟨hJ os s e s' o hinv.1 hP.1 hinv.2 hP.2 hstep,
      (hI os s e s' o hinv.1 hP.1 hinv.2 hstep).mpr hP.2⟩

end Runs

/-! ### Simulation -/

/-- **The simulation rule.**  Where the steps of an abstract machine match those of a machine,
    output for output, from states that `R` relates, so do its runs. -/
theorem run_simulation {τ : Type*} {step : σ → ε → Option (σ × List ο)}
    {spec : τ → ε → Option (τ × List ο)} {R : τ → σ → Prop} {P : τ → ε → Prop} {a₀ : τ} {s₀ s : σ}
    {es : List ε} {os : List ο} (h0 : R a₀ s₀)
    (hstep : ∀ a s e s' o, R a s → P a e → step s e = some (s', o) →
      ∃ a', spec a e = some (a', o) ∧ R a' s')
    (hP : AllSteps spec P a₀ es) (hrun : run step s₀ es = some (s, os)) :
    ∃ a, run spec a₀ es = some (a, os) ∧ R a s := by
  induction es generalizing a₀ s₀ os with
  | nil =>
      simp only [run_nil, Option.some.injEq, Prod.mk.injEq] at hrun
      obtain ⟨rfl, rfl⟩ := hrun
      exact ⟨a₀, rfl, h0⟩
  | cons e es ih =>
      obtain ⟨s', o, os', hs, hr, rfl⟩ := run_cons.mp hrun
      obtain ⟨hPe, hPes⟩ := allSteps_cons.mp hP
      obtain ⟨a', ha, hR⟩ := hstep a₀ s₀ e s' o h0 hPe hs
      obtain ⟨a, har, hRa⟩ := ih hR (hPes a' o ha) hr
      exact ⟨a, run_cons.mpr ⟨a', o, os', ha, har, rfl⟩, hRa⟩

/-! ### Ghost state

Some conditions on a run speak of what happened before (which orders an uncross removed,
how much of an order is left).  `withGhost` carries such a value along without letting the
machine see it. -/

section Ghost

variable {γ : Type*} {step : σ → ε → Option (σ × List ο)} {ghost : σ → ε → γ → γ}

/-- The machine with a ghost value beside its state. -/
def withGhost (step : σ → ε → Option (σ × List ο)) (ghost : σ → ε → γ → γ) (sg : σ × γ)
    (e : ε) : Option ((σ × γ) × List ο) :=
  (step sg.1 e).map fun r => ((r.1, ghost sg.1 e sg.2), r.2)

theorem withGhost_eq_some {s s' : σ} {g g' : γ} {e : ε} {o : List ο} :
    withGhost step ghost (s, g) e = some ((s', g'), o) ↔
      step s e = some (s', o) ∧ g' = ghost s e g := by
  unfold withGhost
  rw [Option.map_eq_some_iff]
  constructor
  · rintro ⟨⟨t, o'⟩, hs, heq⟩
    cases heq
    exact ⟨hs, rfl⟩
  · rintro ⟨hs, rfl⟩
    exact ⟨(s', o), hs, rfl⟩

/-- A run of the machine is a run with the ghost. -/
theorem run_withGhost {s t : σ} {es : List ε} {out : List ο} (ghost : σ → ε → γ → γ) (g : γ)
    (hrun : run step s es = some (t, out)) :
    ∃ g', run (withGhost step ghost) (s, g) es = some ((t, g'), out) := by
  induction es generalizing s g out with
  | nil =>
      simp only [run_nil, Option.some.injEq, Prod.mk.injEq] at hrun
      obtain ⟨rfl, rfl⟩ := hrun
      exact ⟨g, rfl⟩
  | cons e es ih =>
      obtain ⟨s', o, os, hs, hr, rfl⟩ := run_cons.mp hrun
      obtain ⟨g', hr'⟩ := ih (ghost s e g) hr
      exact ⟨g', run_cons.mpr ⟨(s', ghost s e g), o, os, withGhost_eq_some.mpr ⟨hs, rfl⟩, hr', rfl⟩⟩

end Ghost

/-! ### Renaming -/

section Renaming

variable {σ' ε' ο' : Type*} {step : σ → ε → Option (σ × List ο)}
  {step' : σ' → ε' → Option (σ' × List ο')} {onState : σ → σ'} {onEvent : ε → ε'} {onOut : ο → ο'}

theorem trace_map (h : ∀ s e, step' (onState s) (onEvent e) =
      (step s e).map fun r => (onState r.1, r.2.map onOut)) (s : σ) (es : List ε) :
    trace step' (onState s) (es.map onEvent) =
      (trace step s es).map fun r => (onEvent r.1, r.2.map onOut) := by
  induction es generalizing s with
  | nil => rfl
  | cons e es ih =>
      rw [List.map_cons, trace, trace, h]
      rcases step s e with _ | ⟨s', o⟩
      · rfl
      · simp [ih]

theorem allSteps_map {P : σ' → ε' → Prop} (h : ∀ s e, step' (onState s) (onEvent e) =
      (step s e).map fun r => (onState r.1, r.2.map onOut)) (s : σ) (es : List ε) :
    AllSteps step' P (onState s) (es.map onEvent) ↔
      AllSteps step (fun s e => P (onState s) (onEvent e)) s es := by
  induction es generalizing s with
  | nil => rfl
  | cons e es ih =>
      rw [List.map_cons, AllSteps, AllSteps, h]
      rcases step s e with _ | ⟨s', o⟩
      · rfl
      · exact and_congr_right fun _ => ih s'

end Renaming

instance decidableAllSteps (step : σ → ε → Option (σ × List ο)) (P : σ → ε → Prop)
    [∀ s e, Decidable (P s e)] : ∀ s es, Decidable (AllSteps step P s es)
  | _, [] => isTrue trivial
  | s, e :: es =>
      match h : step s e with
      | none => decidable_of_iff (P s e) (by simp [AllSteps, h])
      | some (s', _) =>
          have := decidableAllSteps step P s' es
          decidable_of_iff (P s e ∧ AllSteps step P s' es) (by simp [AllSteps, h])

end Machine
