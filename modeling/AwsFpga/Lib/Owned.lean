import Mathlib.Data.Set.Insert
import Mathlib.Logic.Function.Basic

/-!
# Resources and the owners that record them

`record o` is the resource an owner holds, if any. `Owned` says that the taken
resources are exactly the recorded ones, each by one owner.
-/

namespace Lib

variable {ι ε : Type*} {taken : Set ε} {record : ι → Option ε} {o : ι} {e : ε}

structure Owned (taken : Set ε) (record : ι → Option ε) : Prop where
  mem_iff : ∀ e, e ∈ taken ↔ ∃ o, record o = some e
  unique : ∀ o o' e, record o = some e → record o' = some e → o = o'

theorem Owned.empty (h : ∀ o, record o = none) : Owned ∅ record where
  mem_iff := by simp [h]
  unique := by simp [h]

variable [DecidableEq ι]

theorem Owned.take (h : Owned taken record) (ho : record o = none) (he : e ∉ taken) :
    Owned (insert e taken) (Function.update record o (some e)) where
  mem_iff := by
    intro e'
    rw [Set.mem_insert_iff, h.mem_iff]
    constructor
    · rintro (rfl | ⟨o', ho'⟩)
      · exact ⟨o, Function.update_self ..⟩
      · have hne : o' ≠ o := by
          rintro rfl
          rw [ho] at ho'
          cases ho'
        exact ⟨o', by rw [Function.update_of_ne hne, ho']⟩
    · rintro ⟨o', ho'⟩
      by_cases hoo : o' = o
      · rw [hoo, Function.update_self] at ho'
        exact .inl (Option.some.inj ho').symm
      · rw [Function.update_of_ne hoo] at ho'
        exact .inr ⟨o', ho'⟩
  unique := by
    have hfresh : ∀ o', record o' ≠ some e := fun o' ho' => he ((h.mem_iff e).mpr ⟨o', ho'⟩)
    intro o₁ o₂ e' h₁ h₂
    by_cases ho₁ : o₁ = o <;> by_cases ho₂ : o₂ = o
    · rw [ho₁, ho₂]
    · rw [ho₁, Function.update_self] at h₁
      rw [Function.update_of_ne ho₂, ← h₁] at h₂
      exact absurd h₂ (hfresh o₂)
    · rw [ho₂, Function.update_self] at h₂
      rw [Function.update_of_ne ho₁, ← h₂] at h₁
      exact absurd h₁ (hfresh o₁)
    · rw [Function.update_of_ne ho₁] at h₁
      rw [Function.update_of_ne ho₂] at h₂
      exact h.unique o₁ o₂ e' h₁ h₂

theorem Owned.give (h : Owned taken record) (ho : record o = some e) :
    Owned (taken \ {e}) (Function.update record o none) where
  mem_iff := by
    intro e'
    rw [Set.mem_sdiff, Set.mem_singleton_iff, h.mem_iff]
    constructor
    · rintro ⟨⟨o', ho'⟩, hne⟩
      have hoo : o' ≠ o := by
        rintro rfl
        exact hne (Option.some.inj (ho'.symm.trans ho))
      exact ⟨o', by rw [Function.update_of_ne hoo, ho']⟩
    · rintro ⟨o', ho'⟩
      by_cases hoo : o' = o
      · rw [hoo, Function.update_self] at ho'
        cases ho'
      · rw [Function.update_of_ne hoo] at ho'
        refine ⟨⟨o', ho'⟩, ?_⟩
        rintro rfl
        exact hoo (h.unique o' o e' ho' ho)
  unique := by
    intro o₁ o₂ e' h₁ h₂
    by_cases ho₁ : o₁ = o
    · rw [ho₁, Function.update_self] at h₁
      cases h₁
    · by_cases ho₂ : o₂ = o
      · rw [ho₂, Function.update_self] at h₂
        cases h₂
      · rw [Function.update_of_ne ho₁] at h₁
        rw [Function.update_of_ne ho₂] at h₂
        exact h.unique o₁ o₂ e' h₁ h₂

end Lib
