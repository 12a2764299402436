import Mathlib

/-! # Transition systems

States, initial states and steps; what holds of every reachable state and of every run,
runs given by their actions, and when runs come to an end. -/
namespace AiDeck.Lib

/-- A transition system over the states `σ`. -/
structure Transition (σ : Type) where
  init : σ → Prop
  step : σ → σ → Prop

namespace Transition

variable {σ : Type}

inductive Reachable (T : Transition σ) : σ → Prop
  | init {s : σ} (h : T.init s) : Reachable T s
  | step {s t : σ} (h : Reachable T s) (hstep : T.step s t) : Reachable T t

variable {T : Transition σ}

/-- What holds initially and is kept by every step holds of every reachable state. -/
theorem Reachable.invariant {P : σ → Prop} {s : σ} (h : T.Reachable s)
    (hinit : ∀ s, T.init s → P s) (hstep : ∀ s t, P s → T.step s t → P t) : P s := by
  induction h with
  | init h => exact hinit _ h
  | step _ hs ih => exact hstep _ _ ih hs

section
variable {α ε : Type} (enabled : σ → α → Prop) [∀ s a, Decidable (enabled s a)]
  (run : σ → α → Except ε σ)

/-- The state after the actions of a list, if each of them is enabled and succeeds. -/
def follow : σ → List α → Option σ
  | s, [] => some s
  | s, a :: l =>
    if enabled s a then
      match run s a with
      | .ok t => follow t l
      | .error _ => none
    else none

theorem Reachable.follow {s t : σ} {l : List α} (h : T.Reachable s)
    (hstep : ∀ s a t, enabled s a → run s a = .ok t → T.step s t)
    (hf : Transition.follow enabled run s l = some t) : T.Reachable t := by
  induction l generalizing s with
  | nil => exact Option.some.inj hf ▸ h
  | cons a l ih =>
    rw [Transition.follow] at hf
    by_cases ha : enabled s a
    · rw [if_pos ha] at hf
      cases hok : run s a with
      | ok u =>
        rw [hok] at hf
        exact ih (h.step (hstep s a u ha hok)) hf
      | error e =>
        rw [hok] at hf
        cases hf
    · rw [if_neg ha] at hf
      cases hf

end

/-- The state after the actions of a list, where a step is a partial function. -/
theorem Reachable.run {ε : Type} {step : σ → ε → Option σ} {s t : σ} (events : List ε)
    (h : T.Reachable s) (hstep : ∀ s e t, step s e = some t → T.step s t)
    (hrun : events.foldlM step s = some t) : T.Reachable t := by
  induction events generalizing s with
  | nil => exact Option.some.inj hrun ▸ h
  | cons e events ih =>
    rw [List.foldlM_cons] at hrun
    obtain ⟨u, hu, hrun⟩ := Option.bind_eq_some_iff.mp hrun
    exact ih (h.step (hstep s e u hu)) hrun

/-- The error of an action that does not succeed. -/
def failure {α ε : Type} : Except ε α → Option ε
  | .error e => some e
  | .ok _ => none

theorem failure_eq {α ε : Type} {x : Except ε α} {e : ε} (h : failure x = some e) :
    x = .error e := by
  cases x with
  | error e' => rw [Option.some.inj h]
  | ok _ => cases h

end Transition

/-- A system whose steps carry events. -/
structure Labelled (σ ε : Type) where
  init : σ
  step : σ → ε → σ → Prop

namespace Labelled

variable {σ ε : Type}

/-- The events of a run and the state it leads to. -/
inductive Runs (T : Labelled σ ε) : List ε → σ → Prop
  | init : Runs T [] T.init
  | step {log : List ε} {s t : σ} {e : ε} (h : Runs T log s) (hstep : T.step s e t) :
    Runs T (log ++ [e]) t

variable {T : Labelled σ ε} {log : List ε} {s : σ}

theorem Runs.invariant {P : List ε → σ → Prop} (h : T.Runs log s) (hinit : P [] T.init)
    (hstep : ∀ log s e t, P log s → T.step s e t → P (log ++ [e]) t) : P log s := by
  induction h with
  | init => exact hinit
  | step _ hs ih => exact hstep _ _ _ _ ih hs

/-- A run up to one of its events, and the step with it. -/
theorem Runs.split {a b : List ε} {e : ε} (h : T.Runs (a ++ e :: b) s) :
    ∃ t u, T.Runs a t ∧ T.step t e u := by
  generalize hl : a ++ e :: b = l at h
  induction h generalizing b with
  | init => exact absurd hl (List.append_ne_nil_of_right_ne_nil a (List.cons_ne_nil e b))
  | @step log s u e' h hstep ih =>
    rcases List.eq_nil_or_concat b with rfl | ⟨b', x, rfl⟩
    · obtain ⟨rfl, he⟩ := List.append_inj' hl rfl
      obtain rfl := (List.cons.inj he).1
      exact ⟨s, u, h, hstep⟩
    · rw [List.concat_eq_append, ← List.cons_append, ← List.append_assoc] at hl
      exact ih (List.append_inj' hl rfl).1

/-- Forward simulation: every run of `T` is one of `U` with the same events. -/
theorem Runs.simulated {τ : Type} {U : Labelled τ ε} {R : σ → τ → Prop} (h : T.Runs log s)
    (hinit : R T.init U.init)
    (hstep : ∀ s t e u, R s u → T.step s e t → ∃ v, U.step u e v ∧ R t v) :
    ∃ u, U.Runs log u ∧ R s u := by
  induction h with
  | init => exact ⟨U.init, .init, hinit⟩
  | step _ hs ih =>
    obtain ⟨u, hu, hR⟩ := ih
    obtain ⟨v, hv, hR'⟩ := hstep _ _ _ u hR hs
    exact ⟨v, hu.step hv, hR'⟩

end Labelled

/-- Something holds at each element of a list with one more. -/
theorem forall_split_concat {α : Type} {P : List α → α → Prop} {l : List α} {a : α} :
    (∀ earlier x later, l ++ [a] = earlier ++ x :: later → P earlier x) ↔
      (∀ earlier x later, l = earlier ++ x :: later → P earlier x) ∧ P l a := by
  constructor
  · intro h
    refine ⟨?_, h l a [] rfl⟩
    rintro earlier x later rfl
    exact h earlier x (later ++ [a]) (by rw [List.append_assoc, List.cons_append])
  · rintro ⟨h, ha⟩ earlier x later heq
    rcases List.eq_nil_or_concat later with rfl | ⟨later', b, rfl⟩
    · obtain ⟨rfl, hx⟩ := List.append_inj' heq rfl
      obtain rfl := (List.cons.inj hx).1
      exact ha
    · rw [List.concat_eq_append, ← List.cons_append, ← List.append_assoc] at heq
      exact h earlier x later' (List.append_inj' heq rfl).1

/-- Steps that keep `P` and lower a well-founded measure come to an end; `P` and the
measure may look at data `δ` beside the state. -/
theorem acc_of_decreasing {σ δ α : Type} [LT α] [WellFoundedLT α] {R : σ → σ → Prop}
    {P : δ → σ → Prop} (m : δ → σ → α)
    (hstep : ∀ d s t, P d s → R s t → ∃ d', P d' t ∧ m d' t < m d s) {d : δ} {s : σ} (h : P d s) :
    Acc (fun t s => R s t) s := by
  generalize hm : m d s = a
  induction a using WellFoundedLT.induction generalizing d s with
  | ind a ih =>
    refine .intro s fun t ht => ?_
    obtain ⟨d', hkept, hlower⟩ := hstep d s t h ht
    exact ih (m d' t) (hm ▸ hlower) hkept rfl

/-- A call that succeeds has succeeded up to its last step. -/
theorem bind_ok {ε α β : Type} {x : Except ε α} {f : α → Except ε β} {b : β}
    (h : (do let a ← x; f a) = .ok b) : ∃ a, x = .ok a ∧ f a = .ok b := by
  cases x with
  | error e => cases h
  | ok a => exact ⟨a, rfl, h⟩

end AiDeck.Lib
