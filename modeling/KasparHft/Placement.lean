import Mathlib.Data.List.Perm.Basic
import Mathlib.Data.List.Nodup
import Mathlib.Tactic.Common

/-!
# Items that are each in exactly one place

Containers are indexed by places, of which there may be any number.  `Placement held all` says that
no container repeats an item, no two share one, and together they hold exactly the items of `all`.
It is kept when items move from one place to another and when new items are put in one place.
-/

structure Placement {ι α : Type*} (held : ι → List α) (all : List α) : Prop where
  nodup : ∀ a, (held a).Nodup
  apart : ∀ {a b x}, x ∈ held a → x ∈ held b → a = b
  covers : ∀ x, x ∈ all ↔ ∃ a, x ∈ held a

namespace Placement

variable {ι α : Type*} {held held' : ι → List α} {all : List α}

theorem nil (hheld : ∀ a, held a = []) : Placement held [] where
  nodup a := by simp [hheld a]
  apart ha _ := by simp [hheld] at ha
  covers x := by simp [hheld]

/-- **Exactly one place** holds an item. -/
theorem existsUnique (h : Placement held all) {x : α} (hx : x ∈ all) : ∃! a, x ∈ held a := by
  obtain ⟨a, ha⟩ := (h.covers x).mp hx
  exact ⟨a, ha, fun b hb => h.apart hb ha⟩

/-- Items that move from `a` to `b`. -/
theorem move (h : Placement held all) {a b : ι} (moved : List α) (hab : a ≠ b)
    (hfrom : (held a).Perm (moved ++ held' a))
    (hto : (held' b).Perm (moved ++ held b))
    (hother : ∀ c, c ≠ a → c ≠ b → held' c = held c) : Placement held' all := by
  obtain ⟨hmoved, hleft, hgone⟩ := List.nodup_append.mp (hfrom.nodup_iff.mp (h.nodup a))
  have hin : ∀ {x}, x ∈ moved → x ∈ held a := fun hx =>
    hfrom.mem_iff.mpr (List.mem_append_left _ hx)
  have hstay : ∀ {x}, x ∈ held' a → x ∈ held a := fun hx =>
    hfrom.mem_iff.mpr (List.mem_append_right _ hx)
  -- where an item was before: it stayed, or it moved to `b`
  have hback : ∀ {c x}, x ∈ held' c → x ∈ held c ∧ x ∉ moved ∨ x ∈ moved ∧ c = b := by
    intro c x hx
    by_cases hca : c = a
    · subst hca
      exact .inl ⟨hstay hx, fun hm => hgone x hm x hx rfl⟩
    by_cases hcb : c = b
    · subst hcb
      rcases List.mem_append.mp (hto.mem_iff.mp hx) with hm | hm
      · exact .inr ⟨hm, rfl⟩
      · exact .inl ⟨hm, fun hm' => hab (h.apart (hin hm') hm)⟩
    · rw [hother c hca hcb] at hx
      exact .inl ⟨hx, fun hm => hca (h.apart hx (hin hm))⟩
  refine ⟨fun c => ?_, fun {c d x} hc hd => ?_, fun x => (h.covers x).trans ⟨?_, ?_⟩⟩
  · by_cases hca : c = a
    · exact hca ▸ hleft
    by_cases hcb : c = b
    · subst hcb
      exact hto.nodup_iff.mpr (List.nodup_append.mpr
        ⟨hmoved, h.nodup c, fun x hm y hy hxy => hab (h.apart (hin hm) (hxy ▸ hy))⟩)
    · exact hother c hca hcb ▸ h.nodup c
  · rcases hback hc with ⟨hc, hnot⟩ | ⟨hm, rfl⟩
    · rcases hback hd with ⟨hd, -⟩ | ⟨hm, -⟩
      · exact h.apart hc hd
      · exact absurd hm hnot
    · rcases hback hd with ⟨-, hnot⟩ | ⟨-, rfl⟩
      · exact absurd hm hnot
      · rfl
  · rintro ⟨c, hc⟩
    by_cases hca : c = a
    · subst hca
      rcases List.mem_append.mp (hfrom.mem_iff.mp hc) with hm | hm
      · exact ⟨b, hto.mem_iff.mpr (List.mem_append_left _ hm)⟩
      · exact ⟨c, hm⟩
    by_cases hcb : c = b
    · exact ⟨c, by subst hcb; exact hto.mem_iff.mpr (List.mem_append_right _ hc)⟩
    · exact ⟨c, (hother c hca hcb).symm ▸ hc⟩
  · rintro ⟨c, hc⟩
    rcases hback hc with ⟨hc, -⟩ | ⟨hm, -⟩
    · exact ⟨c, hc⟩
    · exact ⟨a, hin hm⟩

/-- New items that are put in `b`. -/
theorem add (h : Placement held all) {b : ι} {new : List α} (hnew : new.Nodup)
    (hfresh : ∀ x ∈ new, x ∉ all) (hto : (held' b).Perm (new ++ held b))
    (hother : ∀ c, c ≠ b → held' c = held c) : Placement held' (all ++ new) := by
  have hout : ∀ {c x}, x ∈ new → x ∉ held c := fun {c x} hx hc =>
    hfresh x hx ((h.covers x).mpr ⟨c, hc⟩)
  have hback : ∀ {c x}, x ∈ held' c → x ∈ held c ∨ x ∈ new ∧ c = b := by
    intro c x hx
    by_cases hcb : c = b
    · subst hcb
      rcases List.mem_append.mp (hto.mem_iff.mp hx) with hn | hc
      · exact .inr ⟨hn, rfl⟩
      · exact .inl hc
    · exact .inl (hother c hcb ▸ hx)
  refine ⟨fun c => ?_, fun {c d x} hc hd => ?_, fun x => List.mem_append.trans ⟨?_, ?_⟩⟩
  · by_cases hcb : c = b
    · subst hcb
      exact hto.nodup_iff.mpr (List.nodup_append.mpr
        ⟨hnew, h.nodup c, fun x hx y hy hxy => hout hx (hxy ▸ hy)⟩)
    · exact hother c hcb ▸ h.nodup c
  · rcases hback hc with hc | ⟨hx, rfl⟩
    · rcases hback hd with hd | ⟨hx, -⟩
      · exact h.apart hc hd
      · exact absurd hc (hout hx)
    · rcases hback hd with hd | ⟨-, rfl⟩
      · exact absurd hd (hout hx)
      · rfl
  · rintro (hx | hx)
    · obtain ⟨c, hc⟩ := (h.covers x).mp hx
      by_cases hcb : c = b
      · exact ⟨c, by subst hcb; exact hto.mem_iff.mpr (List.mem_append_right _ hc)⟩
      · exact ⟨c, (hother c hcb).symm ▸ hc⟩
    · exact ⟨b, hto.mem_iff.mpr (List.mem_append_left _ hx)⟩
  · rintro ⟨c, hc⟩
    rcases hback hc with hc | ⟨hx, -⟩
    · exact .inl ((h.covers x).mpr ⟨c, hc⟩)
    · exact .inr hx

end Placement
