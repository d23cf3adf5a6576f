import Mathlib.Data.List.Basic
import Mathlib.Logic.Function.Basic
import Mathlib.Tactic.Common

/-!
# A registry and the lists it points into

Items live in lists, one list for each location, and carry an id and a datum.  A registry
maps keys to entries; an entry names an item by id, says where it is and repeats its datum.
`Agree` says that the two hold the same items.  The rules are one for each paired update:
an item appended and registered, removed and forgotten, changed in place.
-/

namespace Registry

variable {κ ι δ : Type*} {L : Type*}

/-- What a registry knows of an item. -/
structure Entry (ι L δ : Type*) where
  id : ι
  loc : L
  dat : δ

/-- The registry `r` and the lists `q` hold the same items, each once. -/
structure Agree (r : κ → Option (Entry ι L δ)) (q : L → List (ι × δ)) : Prop where
  rests : ∀ k e, r k = some e → (e.id, e.dat) ∈ q e.loc
  listed : ∀ l x, x ∈ q l → ∃ k, r k = some ⟨x.1, l, x.2⟩
  inj : ∀ k k' e e', r k = some e → r k' = some e' → e.id = e'.id → k = k'
  nodup : ∀ l, ((q l).map Prod.fst).Nodup

theorem Agree.empty : Agree (fun _ : κ => (none : Option (Entry ι L δ))) fun _ => [] where
  rests k e he := by cases he
  listed l x hx := (List.not_mem_nil hx).elim
  inj k k' e e' he := by cases he
  nodup l := List.nodup_nil

variable {r : κ → Option (Entry ι L δ)} {q : L → List (ι × δ)}

/-- An item with the id of an entry is the item of the entry. -/
theorem Agree.unique (h : Agree r q) {k : κ} {e : Entry ι L δ} (hk : r k = some e) {l : L}
    {x : ι × δ} (hx : x ∈ q l) (hid : x.1 = e.id) : l = e.loc ∧ x.2 = e.dat := by
  obtain ⟨k', hk'⟩ := h.listed l x hx
  have hkk : k' = k := h.inj k' k _ e hk' hk hid
  rw [hkk, hk] at hk'
  cases Option.some.inj hk'
  exact ⟨rfl, rfl⟩

/-- An item with another id than that of an entry is registered under another key. -/
theorem Agree.other (h : Agree r q) {k : κ} {e : Entry ι L δ} (hk : r k = some e) {l : L}
    {x : ι × δ} (hx : x ∈ q l) (hid : x.1 ≠ e.id) :
    ∃ k', k' ≠ k ∧ r k' = some ⟨x.1, l, x.2⟩ := by
  obtain ⟨k', hk'⟩ := h.listed l x hx
  refine ⟨k', ?_, hk'⟩
  rintro rfl
  rw [hk] at hk'
  cases Option.some.inj hk'
  exact hid rfl

variable [DecidableEq κ] [DecidableEq L]

/-- **An item is appended and registered** under a new key and a new id. -/
theorem Agree.insert (h : Agree r q) {k : κ} {e : Entry ι L δ} (hk : r k = none)
    (hfresh : ∀ k' e', r k' = some e' → e'.id ≠ e.id) :
    Agree (Function.update r k (some e))
      (Function.update q e.loc (q e.loc ++ [(e.id, e.dat)])) := by
  have hmem : ∀ l x, x ∈ Function.update q e.loc (q e.loc ++ [(e.id, e.dat)]) l ↔
      x ∈ q l ∨ l = e.loc ∧ x = (e.id, e.dat) := by
    intro l x
    by_cases hl : l = e.loc
    · subst hl
      simp
    · simp [hl]
  have hnew : ∀ l x, x ∈ q l → x.1 ≠ e.id := by
    intro l x hx
    obtain ⟨k', hk'⟩ := h.listed l x hx
    exact hfresh k' _ hk'
  refine ⟨?_, ?_, ?_, ?_⟩
  · intro k' e' he'
    rw [hmem]
    by_cases hkk : k' = k
    · rw [hkk, Function.update_self] at he'
      cases Option.some.inj he'
      exact .inr ⟨rfl, rfl⟩
    · rw [Function.update_of_ne hkk] at he'
      exact .inl (h.rests k' e' he')
  · intro l x hx
    rcases (hmem l x).mp hx with hx | ⟨rfl, rfl⟩
    · obtain ⟨k', hk'⟩ := h.listed l x hx
      refine ⟨k', ?_⟩
      rw [Function.update_of_ne, hk']
      rintro rfl
      rw [hk] at hk'
      cases hk'
    · exact ⟨k, Function.update_self ..⟩
  · intro k₁ k₂ e₁ e₂ h₁ h₂ hid
    by_cases hk₁ : k₁ = k <;> by_cases hk₂ : k₂ = k
    · rw [hk₁, hk₂]
    · rw [hk₁, Function.update_self] at h₁
      rw [Function.update_of_ne hk₂] at h₂
      cases Option.some.inj h₁
      exact absurd hid.symm (hfresh k₂ e₂ h₂)
    · rw [hk₂, Function.update_self] at h₂
      rw [Function.update_of_ne hk₁] at h₁
      cases Option.some.inj h₂
      exact absurd hid (hfresh k₁ e₁ h₁)
    · rw [Function.update_of_ne hk₁] at h₁
      rw [Function.update_of_ne hk₂] at h₂
      exact h.inj k₁ k₂ e₁ e₂ h₁ h₂ hid
  · intro l
    by_cases hl : l = e.loc
    · subst hl
      rw [Function.update_self, List.map_append]
      refine List.nodup_append.mpr ⟨h.nodup _, by simp, ?_⟩
      intro i hi j hj
      obtain ⟨x, hx, rfl⟩ := List.mem_map.mp hi
      have hj : j = e.id := by simpa using hj
      exact hj ▸ hnew _ x hx
    · rw [Function.update_of_ne hl]
      exact h.nodup l

variable [DecidableEq ι]

/-- **An item is removed and its key forgotten.** -/
theorem Agree.erase (h : Agree r q) {k : κ} {e : Entry ι L δ} (hk : r k = some e) :
    Agree (Function.update r k none)
      (Function.update q e.loc ((q e.loc).filter fun x => x.1 ≠ e.id)) := by
  have hmem : ∀ l x, x ∈ Function.update q e.loc ((q e.loc).filter fun x => x.1 ≠ e.id) l ↔
      x ∈ q l ∧ x.1 ≠ e.id := by
    intro l x
    by_cases hl : l = e.loc
    · subst hl
      simp
    · rw [Function.update_of_ne hl]
      exact ⟨fun hx => ⟨hx, fun hid => hl (h.unique hk hx hid).1⟩, And.left⟩
  have hother : ∀ {k' e'}, Function.update r k none k' = some e' → k' ≠ k ∧ r k' = some e' := by
    intro k' e' he'
    by_cases hkk : k' = k
    · rw [hkk, Function.update_self] at he'
      cases he'
    · rw [Function.update_of_ne hkk] at he'
      exact ⟨hkk, he'⟩
  refine ⟨?_, ?_, ?_, ?_⟩
  · intro k' e' he'
    obtain ⟨hkk, he'⟩ := hother he'
    exact (hmem _ _).mpr ⟨h.rests k' e' he', fun hid => hkk (h.inj k' k e' e he' hk hid)⟩
  · intro l x hx
    obtain ⟨hx, hid⟩ := (hmem l x).mp hx
    obtain ⟨k', hne, hk'⟩ := h.other hk hx hid
    refine ⟨k', ?_⟩
    rw [Function.update_of_ne hne, hk']
  · intro k₁ k₂ e₁ e₂ h₁ h₂ hid
    exact h.inj k₁ k₂ e₁ e₂ (hother h₁).2 (hother h₂).2 hid
  · intro l
    by_cases hl : l = e.loc
    · subst hl
      rw [Function.update_self]
      exact (h.nodup _).sublist (List.Sublist.map _ List.filter_sublist)
    · rw [Function.update_of_ne hl]
      exact h.nodup l

/-- A change of data leaves the ids. -/
theorem map_fst_setDat (i : ι) (d : δ) (l : List (ι × δ)) :
    (l.map fun x => if x.1 = i then (x.1, d) else x).map Prod.fst = l.map Prod.fst := by
  rw [List.map_map]
  apply List.map_congr_left
  intro x _
  by_cases hid : x.1 = i
  · simp [hid]
  · simp [hid]

/-- **An item changes in place.** -/
theorem Agree.modify (h : Agree r q) {k : κ} {e : Entry ι L δ} (hk : r k = some e) (d : δ) :
    Agree (Function.update r k (some { e with dat := d }))
      (Function.update q e.loc
        ((q e.loc).map fun x => if x.1 = e.id then (x.1, d) else x)) := by
  have hmem : ∀ l x, x ∈ Function.update q e.loc
        ((q e.loc).map fun x => if x.1 = e.id then (x.1, d) else x) l ↔
      x ∈ q l ∧ x.1 ≠ e.id ∨ l = e.loc ∧ x = (e.id, d) := by
    intro l x
    by_cases hl : l = e.loc
    · subst hl
      rw [Function.update_self, List.mem_map]
      constructor
      · rintro ⟨y, hy, rfl⟩
        by_cases hid : y.1 = e.id
        · rw [if_pos hid, hid]
          exact .inr ⟨rfl, rfl⟩
        · rw [if_neg hid]
          exact .inl ⟨hy, hid⟩
      · rintro (⟨hx, hid⟩ | ⟨-, rfl⟩)
        · exact ⟨x, hx, if_neg hid⟩
        · exact ⟨(e.id, e.dat), h.rests k e hk, if_pos rfl⟩
    · rw [Function.update_of_ne hl]
      constructor
      · exact fun hx => .inl ⟨hx, fun hid => hl (h.unique hk hx hid).1⟩
      · rintro (⟨hx, -⟩ | ⟨hl', -⟩)
        · exact hx
        · exact absurd hl' hl
  have hother : ∀ {k' e'}, Function.update r k (some { e with dat := d }) k' = some e' →
      ∃ e'', r k' = some e'' ∧ e''.id = e'.id ∧ (k' ≠ k → e' = e'') := by
    intro k' e' he'
    by_cases hkk : k' = k
    · rw [hkk, Function.update_self] at he'
      cases Option.some.inj he'
      exact ⟨e, hkk ▸ hk, rfl, fun hne => absurd hkk hne⟩
    · rw [Function.update_of_ne hkk] at he'
      exact ⟨e', he', rfl, fun _ => rfl⟩
  refine ⟨?_, ?_, ?_, ?_⟩
  · intro k' e' he'
    rw [hmem]
    by_cases hkk : k' = k
    · rw [hkk, Function.update_self] at he'
      cases Option.some.inj he'
      exact .inr ⟨rfl, rfl⟩
    · obtain ⟨e'', hk', -, heq⟩ := hother he'
      rw [heq hkk]
      exact .inl ⟨h.rests k' e'' hk', fun hid => hkk (h.inj k' k e'' e hk' hk hid)⟩
  · intro l x hx
    rcases (hmem l x).mp hx with ⟨hx, hid⟩ | ⟨rfl, rfl⟩
    · obtain ⟨k', hne, hk'⟩ := h.other hk hx hid
      refine ⟨k', ?_⟩
      rw [Function.update_of_ne hne, hk']
    · exact ⟨k, Function.update_self ..⟩
  · intro k₁ k₂ e₁ e₂ h₁ h₂ hid
    obtain ⟨e₁', hk₁, hid₁, -⟩ := hother h₁
    obtain ⟨e₂', hk₂, hid₂, -⟩ := hother h₂
    exact h.inj k₁ k₂ e₁' e₂' hk₁ hk₂ (by rw [hid₁, hid₂, hid])
  · intro l
    by_cases hl : l = e.loc
    · subst hl
      rw [Function.update_self, map_fst_setDat]
      exact h.nodup _
    · rw [Function.update_of_ne hl]
      exact h.nodup l

end Registry
