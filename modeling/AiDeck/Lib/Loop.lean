import Mathlib

/-! # Counting loops

`for (i = start; i < upper; i = step + i)` around a body that may stop and that
appends to a trace. The rules say when the loop runs to its end and what its
trace holds then, in terms of the counter values it visits. -/
namespace AiDeck.Lib.Loop

variable {ε α : Type*}

/-- The loop from `i` on, with a bound on its rounds. -/
def forLoop (diverged : ε) (upper step : ℤ) (body : ℤ → Except ε (List α)) :
    ℕ → ℤ → Except ε (List α)
  | 0, _ => .error diverged
  | fuel + 1, i =>
    if i < upper then do
      let now ← body i
      let later ← forLoop diverged upper step body fuel (step + i)
      return now ++ later
    else return []

/-- The run comes to its end. -/
def Runs (r : Except ε (List α)) : Prop := ∃ t, r = .ok t

/-- The run comes to its end and `a` is in its trace. -/
def Emits (r : Except ε (List α)) (a : α) : Prop := ∃ t, r = .ok t ∧ a ∈ t

@[simp] theorem runs_ok (t : List α) : Runs (.ok t : Except ε (List α)) := ⟨t, rfl⟩

@[simp] theorem emits_ok {t : List α} {a : α} : Emits (.ok t : Except ε (List α)) a ↔ a ∈ t := by
  constructor
  · intro ⟨u, hu, ha⟩
    cases hu
    exact ha
  · intro ha
    exact ⟨t, rfl, ha⟩

/-- The values of the counter in a loop from `i` on. -/
def Visits (upper step i v : ℤ) : Prop := i ≤ v ∧ v < upper ∧ step ∣ v - i

theorem visits_one {upper i v : ℤ} : Visits upper 1 i v ↔ i ≤ v ∧ v < upper := by
  simp [Visits]

theorem visits_zero {upper step v : ℤ} : Visits upper step 0 v ↔ 0 ≤ v ∧ v < upper ∧ step ∣ v := by
  rw [Visits, sub_zero]

/-- From zero the counter runs through the multiples of the step. -/
theorem visits_multiples {upper step v : ℤ} (hstep : 0 < step) :
    Visits upper step 0 v ↔ ∃ k, 0 ≤ k ∧ step * k < upper ∧ v = step * k := by
  rw [visits_zero]
  constructor
  · intro ⟨h0, hlt, k, hk⟩
    subst hk
    exact ⟨k, nonneg_of_mul_nonneg_right h0 hstep, hlt, rfl⟩
  · intro ⟨k, h0, hlt, hk⟩
    subst hk
    exact ⟨mul_nonneg hstep.le h0, hlt, dvd_mul_right step k⟩

theorem visits_iff {upper step : ℤ} (hstep : 0 < step) {i v : ℤ} :
    Visits upper step i v ↔ i < upper ∧ (v = i ∨ Visits upper step (step + i) v) := by
  constructor
  · intro ⟨hle, hlt, k, hk⟩
    refine ⟨by omega, ?_⟩
    by_cases h : v = i
    · exact .inl h
    · have hpos : 0 < step * k := by omega
      have hstep' : step ≤ step * k :=
        le_mul_of_one_le_right hstep.le (pos_of_mul_pos_right hpos hstep.le)
      exact .inr ⟨by omega, hlt, k - 1, by rw [mul_sub, ← hk]; ring⟩
  · rintro ⟨hi, rfl | ⟨hle, hlt, k, hk⟩⟩
    · exact ⟨le_refl _, hi, by simp⟩
    · exact ⟨by omega, hlt, k + 1, by rw [mul_add, ← hk]; ring⟩

/-! ## The rule of the loop -/

section
variable {diverged : ε} {upper step : ℤ} {body : ℤ → Except ε (List α)} (hstep : 0 < step)

/-- A round of a loop that ends. -/
theorem forLoop_round {fuel : ℕ} {i : ℤ} (hi : i < upper) {t : List α} :
    forLoop diverged upper step body (fuel + 1) i = .ok t ↔
      ∃ now later, body i = .ok now ∧
        forLoop diverged upper step body fuel (step + i) = .ok later ∧ t = now ++ later := by
  rw [forLoop, if_pos hi]
  cases body i with
  | error e => simp [bind, Except.bind]
  | ok now =>
    cases forLoop diverged upper step body fuel (step + i) with
    | error e => simp [bind, Except.bind]
    | ok later => simp [bind, Except.bind, pure, Except.pure, eq_comm]

theorem forLoop_done {fuel : ℕ} {i : ℤ} (hi : ¬ i < upper) :
    forLoop diverged upper step body (fuel + 1) i = .ok [] := by
  rw [forLoop, if_neg hi]
  rfl

include hstep

/-- A loop with enough rounds ends when each of its rounds does. -/
theorem forLoop_runs {fuel : ℕ} {i : ℤ} (hfuel : (upper - i).toNat < fuel) :
    Runs (forLoop diverged upper step body fuel i) ↔
      ∀ v, Visits upper step i v → Runs (body v) := by
  induction fuel generalizing i with
  | zero => omega
  | succ fuel ih =>
    by_cases hi : i < upper
    · have hrest := ih (i := step + i) (by omega)
      constructor
      · intro ⟨t, ht⟩ v hv
        obtain ⟨now, later, hnow, hlater, -⟩ := (forLoop_round hi).mp ht
        obtain rfl | hv := ((visits_iff hstep).mp hv).2
        · exact ⟨now, hnow⟩
        · exact hrest.mp ⟨later, hlater⟩ v hv
      · intro h
        obtain ⟨now, hnow⟩ := h i ((visits_iff hstep).mpr ⟨hi, .inl rfl⟩)
        obtain ⟨later, hlater⟩ :=
          hrest.mpr fun v hv => h v ((visits_iff hstep).mpr ⟨hi, .inr hv⟩)
        exact ⟨now ++ later, (forLoop_round hi).mpr ⟨now, later, hnow, hlater, rfl⟩⟩
    · rw [forLoop_done hi]
      constructor
      · intro _ v hv
        exact absurd ((visits_iff hstep).mp hv).1 hi
      · intro _
        exact runs_ok []

/-- What is in the trace was put there by a round. -/
theorem mem_forLoop {fuel : ℕ} {i : ℤ} {t : List α}
    (ht : forLoop diverged upper step body fuel i = .ok t) {a : α} :
    a ∈ t ↔ ∃ v, Visits upper step i v ∧ Emits (body v) a := by
  induction fuel generalizing i t with
  | zero => cases ht
  | succ fuel ih =>
    by_cases hi : i < upper
    · obtain ⟨now, later, hnow, hlater, rfl⟩ := (forLoop_round hi).mp ht
      have hbody : Emits (body i) a ↔ a ∈ now := by rw [hnow, emits_ok]
      rw [List.mem_append, ih hlater, ← hbody]
      constructor
      · intro h
        obtain h | ⟨v, hv, h⟩ := h
        · exact ⟨i, (visits_iff hstep).mpr ⟨hi, .inl rfl⟩, h⟩
        · exact ⟨v, (visits_iff hstep).mpr ⟨hi, .inr hv⟩, h⟩
      · intro ⟨v, hv, h⟩
        obtain rfl | hv := ((visits_iff hstep).mp hv).2
        · exact .inl h
        · exact .inr ⟨v, hv, h⟩
    · rw [forLoop_done hi] at ht
      cases ht
      constructor
      · intro h
        cases h
      · intro ⟨v, hv, _⟩
        exact absurd ((visits_iff hstep).mp hv).1 hi

theorem forLoop_emits {fuel : ℕ} {i : ℤ} {a : α}
    (h : Runs (forLoop diverged upper step body fuel i)) :
    Emits (forLoop diverged upper step body fuel i) a ↔
      ∃ v, Visits upper step i v ∧ Emits (body v) a := by
  obtain ⟨t, ht⟩ := h
  rw [← mem_forLoop hstep ht, ht, emits_ok]

end

/-- A loop that counts by one and appends `n` entries in each round. -/
theorem forLoop_length {diverged : ε} {upper : ℤ} {body : ℤ → Except ε (List α)} {n : ℕ}
    (hbody : ∀ v t, body v = .ok t → t.length = n) {fuel : ℕ} {i : ℤ} {t : List α}
    (ht : forLoop diverged upper 1 body fuel i = .ok t) :
    t.length = (upper - i).toNat * n := by
  induction fuel generalizing i t with
  | zero => cases ht
  | succ fuel ih =>
    by_cases hi : i < upper
    · obtain ⟨now, later, hnow, hlater, rfl⟩ := (forLoop_round hi).mp ht
      have hrounds : (upper - i).toNat = (upper - (1 + i)).toNat + 1 := by omega
      rw [List.length_append, hbody i now hnow, ih hlater, hrounds, Nat.succ_mul, Nat.add_comm]
    · rw [forLoop_done hi] at ht
      cases ht
      rw [show (upper - i).toNat = 0 by omega, Nat.zero_mul]
      rfl

/-! ## Loops over the first numbers -/

/-- What every round of a loop over `0, …, n - 1` brings one further holds at its end. -/
theorem foldl_range_spec {σ : Type*} {f : σ → ℕ → σ} {I : ℕ → σ → Prop} {n : ℕ} {s : σ}
    (hs : I 0 s) (hstep : ∀ k < n, ∀ s, I k s → I (k + 1) (f s k)) :
    I n ((List.range n).foldl f s) := by
  induction n with
  | zero => exact hs
  | succ n ih =>
    rw [List.range_succ, List.foldl_append, List.foldl_cons, List.foldl_nil]
    exact hstep n (Nat.lt_succ_self n) _ (ih fun k hk => hstep k (by omega))

/-! ## While loops -/

section
variable {σ : Type*} (cond : σ → Bool) (body : σ → σ)

/-- `while (cond) body`, with a bound on its rounds. -/
def whileLoop : ℕ → σ → Option σ
  | 0, _ => none
  | fuel + 1, s => if cond s then whileLoop fuel (body s) else some s

/-- A loop whose rounds keep `I` and lower its index ends, with `I` and without its condition. -/
theorem whileLoop_spec {I : ℕ → σ → Prop}
    (hbody : ∀ k s, I k s → cond s = true → ∃ j < k, I j (body s)) {fuel k : ℕ} {s : σ}
    (hs : I k s) (hfuel : k < fuel) :
    ∃ t, whileLoop cond body fuel s = some t ∧ cond t = false ∧ ∃ j ≤ k, I j t := by
  induction fuel generalizing k s with
  | zero => omega
  | succ fuel ih =>
    rw [whileLoop]
    cases hc : cond s with
    | false => exact ⟨s, rfl, hc, k, le_rfl, hs⟩
    | true =>
      obtain ⟨j, hj, hnext⟩ := hbody k s hs hc
      obtain ⟨t, ht, hstop, i, hi, hI⟩ := ih hnext (by omega)
      exact ⟨t, ht, hstop, i, by omega, hI⟩

end

end AiDeck.Lib.Loop
