import Mathlib

/-! # A bus that sends and receives at once

In every beat one cell of a memory is sent and one cell that comes in is stored, where
the beat has a source and a target. -/
namespace AiDeck.Lib

variable {α : Type}

/-- The positions one beat reads and stores. -/
structure Beat where
  source : Option Nat
  target : Option Nat
  deriving DecidableEq, Repr

/-- The next `n` beats from a source and to a target. -/
def beats (n : Nat) (source target : Option Nat) : List Beat :=
  (List.range n).map fun k => ⟨source.map (· + k), target.map (· + k)⟩

/-- Store what comes in. -/
def Beat.store (b : Beat) (m : Nat → α) (x : α) : Nat → α :=
  match b.target with
  | some a => Function.update m a x
  | none => m

/-- The beats of `l`, with what comes in from position `i` of a stream on: what is sent,
and the memory. -/
def exchange (incoming : Nat → α) : Nat → List Beat → (Nat → α) → List (Option α) × (Nat → α)
  | _, [], m => ([], m)
  | i, b :: l, m =>
    let rest := exchange incoming (i + 1) l (b.store m (incoming i))
    (b.source.map m :: rest.1, rest.2)

@[simp] theorem beats_length (n : Nat) (source target : Option Nat) :
    (beats n source target).length = n := by
  simp [beats]

theorem beats_source (n p : Nat) (target : Option Nat) :
    (beats n (some p) target).map Beat.source = (List.range' p n).map some := by
  simp [beats, List.range'_eq_map_range, Function.comp_def]

theorem beats_target (n p : Nat) (source : Option Nat) :
    (beats n source (some p)).map Beat.target = (List.range' p n).map some := by
  simp [beats, List.range'_eq_map_range, Function.comp_def]

theorem beats_take {a n : Nat} (h : a ≤ n) (source target : Option Nat) :
    (beats n source target).take a = beats a source target := by
  rw [beats, ← List.map_take, List.take_range, min_eq_left h, beats]

theorem beats_no_target (n : Nat) (source : Option Nat) :
    (beats n source none).filterMap Beat.target = [] := by
  simp [beats, List.filterMap_map]

variable {incoming : Nat → α} {i p : Nat} {m : Nat → α} {l l' : List Beat}

theorem Beat.store_of_ne {b : Beat} (h : b.target ≠ some p) {x : α} : b.store m x p = m p := by
  cases htarget : b.target with
  | none => rw [store, htarget]
  | some a =>
    rw [store, htarget]
    refine Function.update_of_ne ?_ _ _
    rintro rfl
    exact h htarget

/-- What is sent by the first beats does not depend on the later ones. -/
theorem exchange_take (n : Nat) :
    (exchange incoming i l m).1.take n = (exchange incoming i (l.take n) m).1 := by
  induction l generalizing i m n with
  | nil => simp [exchange]
  | cons b l ih =>
    cases n with
    | zero => rfl
    | succ n =>
      rw [exchange, List.take_succ_cons, List.take_succ_cons, exchange, ih]

/-- A cell no beat stores to. -/
theorem exchange_frame (h : ∀ b ∈ l, b.target ≠ some p) :
    (exchange incoming i l m).2 p = m p := by
  induction l generalizing i m with
  | nil => rfl
  | cons b l ih =>
    have hrest := ih (i := i + 1) (m := b.store m (incoming i)) fun b' hb' =>
      h b' (List.mem_cons_of_mem _ hb')
    exact hrest.trans (Beat.store_of_ne (h b List.mem_cons_self))

/-- Cells that are sent and not stored to are sent as they were. -/
theorem exchange_sent (h : ∀ b ∈ l, ∀ a, b.source = some a → ∀ b' ∈ l, b'.target ≠ some a) :
    (exchange incoming i l m).1 = l.map fun b => b.source.map m := by
  induction l generalizing i m with
  | nil => rfl
  | cons b l ih =>
    have hrest := ih (i := i + 1) (m := b.store m (incoming i)) fun c hc a ha c' hc' =>
      h c (List.mem_cons_of_mem _ hc) a ha c' (List.mem_cons_of_mem _ hc')
    rw [exchange, hrest, List.map_cons]
    refine congrArg (b.source.map m :: ·) (List.map_congr_left fun c hc => ?_)
    cases hsource : c.source with
    | none => rfl
    | some a =>
      have hb := h c (List.mem_cons_of_mem _ hc) a hsource b List.mem_cons_self
      have hone : b.store m (incoming i) a = m a := Beat.store_of_ne hb
      exact congrArg some hone

/-- Beats with targets one after the other store what comes in. -/
theorem exchange_stored (h : l.map Beat.target = (List.range' p l.length).map some) {k : Nat}
    (hk : k < l.length) : (exchange incoming i l m).2 (p + k) = incoming (i + k) := by
  induction l generalizing i m p k with
  | nil => cases hk
  | cons b l ih =>
    rw [List.length_cons, List.range'_succ, List.map_cons, List.map_cons] at h
    obtain ⟨hb, hl⟩ := List.cons.inj h
    cases k with
    | zero =>
      have hframe : ∀ c ∈ l, c.target ≠ some p := by
        intro c hc heq
        have hmem : some p ∈ (List.range' (p + 1) l.length).map some :=
          hl ▸ heq ▸ List.mem_map_of_mem hc
        obtain ⟨a, ha, haeq⟩ := List.mem_map.mp hmem
        have hle := (List.mem_range'_1.mp ha).1
        have hap := Option.some.inj haeq
        omega
      refine (exchange_frame hframe).trans ?_
      rw [Beat.store, hb]
      exact Function.update_self ..
    | succ k =>
      have hrest := ih (i := i + 1) (m := b.store m (incoming i)) hl (Nat.lt_of_succ_lt_succ hk)
      rw [Nat.add_right_comm, Nat.add_right_comm i 1 k] at hrest
      exact hrest

end AiDeck.Lib
