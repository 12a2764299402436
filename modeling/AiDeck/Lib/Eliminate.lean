import Mathlib
import AiDeck.Lib.Loop

/-! # Candidates that exclude each other

All candidates are compared pair by pair; of two that clash the weaker one is out, and
so is the later one of two that are as good. Whoever is out is compared no more. -/
namespace AiDeck.Lib.Eliminate

open AiDeck.Lib.Loop

section
variable {α : Type*} [LinearOrder α] (clash : ℕ → ℕ → Prop) [∀ i j, Decidable (clash i j)]
  (score : ℕ → α)

/-- Candidate `i` against candidate `j`, where `out` are the ones that are out. -/
def against (i : ℕ) (out : Finset ℕ) (j : ℕ) : Finset ℕ :=
  if j ∈ out ∨ j = i ∨ i ∈ out then out
  else if clash i j then (if score j > score i then insert i out else insert j out)
  else out

/-- Candidate `i` against all of them. -/
def againstAll (n : ℕ) (out : Finset ℕ) (i : ℕ) : Finset ℕ :=
  if i ∈ out then out else (List.range n).foldl (against clash score i) out

/-- All candidates against each other. -/
def eliminate (n : ℕ) : Finset ℕ := (List.range n).foldl (againstAll clash score n) ∅

variable {clash score} {n : ℕ}

theorem subset_against (i j : ℕ) (out : Finset ℕ) : out ⊆ against clash score i out j := by
  rw [against]
  split
  · exact Finset.Subset.refl _
  · split
    · split <;> exact Finset.subset_insert _ _
    · exact Finset.Subset.refl _

theorem subset_againstAll (i : ℕ) (out : Finset ℕ) : out ⊆ againstAll clash score n out i := by
  rw [againstAll]
  split
  · exact Finset.Subset.refl _
  · exact foldl_range_spec (I := fun _ t => out ⊆ t) (Finset.Subset.refl _)
      fun k _ t ht => ht.trans (subset_against i k t)

/-- The candidates that are not out do not clash with `i`, as far as `k`. -/
def Settled (clash : ℕ → ℕ → Prop) (k i : ℕ) (out : Finset ℕ) : Prop :=
  i ∉ out → ∀ j < k, j ≠ i → j ∉ out → ¬ clash i j

omit [∀ i j, Decidable (clash i j)] in
theorem Settled.mono {k i : ℕ} {out out' : Finset ℕ} (h : Settled clash k i out)
    (hsub : out ⊆ out') : Settled clash k i out' :=
  fun hi j hj hne hout => h (fun hmem => hi (hsub hmem)) j hj hne fun hmem => hout (hsub hmem)

theorem settled_againstAll (i : ℕ) (out : Finset ℕ) :
    Settled clash n i (againstAll clash score n out i) := by
  rw [againstAll]
  split
  next hi => exact fun hnot => absurd hi hnot
  next hi =>
    refine foldl_range_spec (I := fun k t => Settled clash k i t)
      (fun _ j hj => absurd hj (Nat.not_lt_zero j)) fun k _ t ht => ?_
    intro hnot j hj hne hout hclash
    have hsub : t ⊆ against clash score i t k := subset_against i k t
    rcases Nat.lt_succ_iff_lt_or_eq.mp hj with hlt | rfl
    · exact ht (fun hmem => hnot (hsub hmem)) j hlt hne (fun hmem => hout (hsub hmem)) hclash
    · have hi' : i ∉ t := fun hmem => hnot (hsub hmem)
      have hj' : j ∉ t := fun hmem => hout (hsub hmem)
      rw [against, if_neg (by simp [hi', hj', hne]), if_pos hclash] at hnot hout
      split at hnot
      next hgt => exact hnot (Finset.mem_insert_self i t)
      next hle =>
        rw [if_neg hle] at hout
        exact hout (Finset.mem_insert_self j t)

/-- **The ones that are left do not clash.** -/
theorem eliminate_settled : ∀ i < n, Settled clash n i (eliminate clash score n) := by
  refine foldl_range_spec (I := fun k t => ∀ i < k, Settled clash n i t)
    (fun i hi => absurd hi (Nat.not_lt_zero i)) fun k _ t ht i hi => ?_
  rcases Nat.lt_succ_iff_lt_or_eq.mp hi with hlt | rfl
  · exact (ht i hlt).mono (subset_againstAll k t)
  · exact settled_againstAll i t

/-- Whoever is out clashes with one that is as good. -/
def Beaten (clash : ℕ → ℕ → Prop) (score : ℕ → α) (n : ℕ) (out : Finset ℕ) : Prop :=
  ∀ i ∈ out, ∃ j < n, j ≠ i ∧ clash i j ∧ score i ≤ score j

theorem Beaten.against {i j : ℕ} {out : Finset ℕ} (h : Beaten clash score n out)
    (hsymm : ∀ i j, clash i j → clash j i) (hi : i < n) (hj : j < n) :
    Beaten clash score n (against clash score i out j) := by
  rw [Eliminate.against]
  split
  · exact h
  next hnot =>
    have hne : j ≠ i := fun he => hnot (Or.inr (Or.inl he))
    split
    next hclash =>
      split
      next hgt => exact (Finset.forall_mem_insert _ _ _).mpr ⟨⟨j, hj, hne, hclash, hgt.le⟩, h⟩
      next hle =>
        exact (Finset.forall_mem_insert _ _ _).mpr
          ⟨⟨i, hi, hne.symm, hsymm i j hclash, not_lt.mp hle⟩, h⟩
    · exact h

/-- **Nobody is out without a reason.** -/
theorem eliminate_beaten (hsymm : ∀ i j, clash i j → clash j i) :
    Beaten clash score n (eliminate clash score n) := by
  refine foldl_range_spec (I := fun _ t => Beaten clash score n t)
    (fun i hi => absurd hi (Finset.notMem_empty i)) fun i hi t ht => ?_
  rw [againstAll]
  split
  · exact ht
  · exact foldl_range_spec (I := fun _ t => Beaten clash score n t) ht
      fun j hj t ht => ht.against hsymm hi hj

/-- **The first of the best ones is left.** -/
theorem eliminate_best (hsymm : ∀ i j, clash i j → clash j i) {m : ℕ}
    (hfirst : ∀ i < m, score i < score m) (hbest : ∀ i < n, score i ≤ score m) :
    m ∉ eliminate clash score n := by
  -- once it was compared with all, nobody is left to put it out
  refine (foldl_range_spec (I := fun k t => m ∉ t ∧ (m < k → Settled clash n m t))
    ⟨Finset.notMem_empty m, fun hlt => absurd hlt (Nat.not_lt_zero m)⟩ fun i hi t ht => ?_).1
  refine ⟨?_, fun hlt => ?_⟩
  · rw [againstAll]
    split
    · exact ht.1
    · refine (foldl_range_spec (I := fun _ u => t ⊆ u ∧ m ∉ u) ⟨Finset.Subset.refl _, ht.1⟩
        fun j hj u hu => ⟨hu.1.trans (subset_against i j u), ?_⟩).2
      rw [against]
      split
      · exact hu.2
      next hnot =>
        split
        next hclash =>
          split
          next hgt =>
            rw [Finset.mem_insert, not_or]
            exact ⟨fun he => absurd (hbest j hj) (not_le.mpr (he ▸ hgt)), hu.2⟩
          next hle =>
            rw [Finset.mem_insert, not_or]
            refine ⟨fun he => ?_, hu.2⟩
            subst he
            have hlt : m < i := by
              by_contra hge
              rcases Nat.lt_or_eq_of_le (Nat.le_of_not_lt hge) with hlt | heq
              · exact hle (hfirst i hlt)
              · exact hnot (Or.inr (Or.inl heq.symm))
            exact ht.2 hlt ht.1 i hi hlt.ne' (fun hmem => hnot (Or.inr (Or.inr (hu.1 hmem))))
              (hsymm i m hclash)
        · exact hu.2
  · rcases Nat.lt_succ_iff_lt_or_eq.mp hlt with hlt | rfl
    · exact (ht.2 hlt).mono (subset_againstAll i t)
    · exact settled_againstAll m t

end

end AiDeck.Lib.Eliminate
