import Mathlib

/-! # Chains of pointers

`next` sends a node to its successor; a chain is a path along it that ends at a node
without one. -/
namespace AiDeck.Lib

variable {α : Type}

/-- From `start` the pointers lead through the nodes of `l` to the end. -/
inductive Chain (next : α → Option α) : Option α → List α → Prop
  | nil : Chain next none []
  | cons {a : α} {l : List α} (h : Chain next (next a) l) : Chain next (some a) (a :: l)

/-- The last node on the path from `a`, found in at most `n` nodes. -/
def lastNode (next : α → Option α) : Nat → α → Option α
  | 0, _ => none
  | n + 1, a => match next a with
    | none => some a
    | some b => lastNode next n b

namespace Chain

variable {next next' : α → Option α} {start : Option α} {l : List α}

theorem congr (h : Chain next start l) (heq : ∀ a ∈ l, next a = next' a) : Chain next' start l := by
  induction h with
  | nil => exact .nil
  | @cons a l _ ih =>
    refine .cons ?_
    rw [← heq a List.mem_cons_self]
    exact ih fun b hb => heq b (List.mem_cons_of_mem a hb)

theorem eq_nil (h : Chain next none l) : l = [] := by cases h; rfl

theorem start_eq_none (h : Chain next start []) : start = none := by cases h; rfl

/-- The pointers determine the nodes. -/
theorem unique {l' : List α} (h : Chain next start l) (h' : Chain next start l') : l = l' := by
  induction h generalizing l' with
  | nil => exact h'.eq_nil.symm
  | cons _ ih => cases h' with
    | cons h' => rw [ih h']

theorem exists_last {a : α} (h : Chain next (some a) l) {n : Nat} (hn : l.length ≤ n) :
    ∃ z init, l = init ++ [z] ∧ lastNode next n a = some z ∧ next z = none := by
  induction n generalizing a l with
  | zero => cases h; cases hn
  | succ n ih =>
    cases h with
    | @cons _ rest hrest =>
      cases hnext : next a with
      | none =>
        rw [hnext] at hrest
        rw [hrest.eq_nil]
        exact ⟨a, [], rfl, by rw [lastNode, hnext], hnext⟩
      | some b =>
        rw [hnext] at hrest
        obtain ⟨z, init, rfl, hz, hend⟩ := ih hrest (Nat.le_of_succ_le_succ hn)
        exact ⟨z, a :: init, rfl, by rw [lastNode, hnext]; exact hz, hend⟩

variable [DecidableEq α]

theorem update_of_notMem {a : α} {p : Option α} (h : Chain next start l) (ha : a ∉ l) :
    Chain (Function.update next a p) start l := by
  refine h.congr fun b hb => ?_
  rw [Function.update_of_ne]
  rintro rfl
  exact ha hb

/-- A node without a successor, hung on the last one. -/
theorem concat {z a : α} {init : List α} (h : Chain next start (init ++ [z]))
    (hnodup : (init ++ [z]).Nodup) (ha : next a = none) (hnot : a ∉ init ++ [z]) :
    Chain (Function.update next z (some a)) start (init ++ [z] ++ [a]) := by
  induction init generalizing start with
  | nil =>
    cases h with
    | cons h =>
      refine .cons ?_
      rw [Function.update_self]
      refine .cons ?_
      rw [Function.update_of_ne (by rintro rfl; exact hnot List.mem_cons_self), ha]
      exact .nil
  | cons b init ih =>
    cases h with
    | cons h =>
      rw [List.cons_append, List.nodup_cons] at hnodup
      refine .cons ?_
      have hb : b ≠ z := by
        rintro rfl
        exact hnodup.1 (List.mem_append_right init (List.mem_singleton_self b))
      rw [Function.update_of_ne hb]
      exact ih h hnodup.2 fun hm => hnot (List.mem_cons_of_mem b hm)

end Chain

end AiDeck.Lib
