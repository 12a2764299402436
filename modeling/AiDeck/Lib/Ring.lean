import Mathlib

/-! # Windows of a ring

The indices of a circular buffer from one position on. -/
namespace AiDeck.Lib

/-- The `n` indices from `start` on in a ring of `capacity` slots. -/
def ring (capacity start n : Nat) : List Nat :=
  (List.range n).map fun i => (start + i) % capacity

variable {capacity start n : Nat}

@[simp] theorem ring_length : (ring capacity start n).length = n := by
  simp [ring]

@[simp] theorem ring_zero : ring capacity start 0 = [] := rfl

theorem ring_add (a b : Nat) :
    ring capacity start (a + b) = ring capacity start a ++ ring capacity (start + a) b := by
  simp only [ring, List.range_add, List.map_append, List.map_map, Function.comp_def, Nat.add_assoc]

theorem ring_concat :
    ring capacity start (n + 1) = ring capacity start n ++ [(start + n) % capacity] := by
  simp [ring, List.range_succ]

theorem ring_cons :
    ring capacity start (n + 1) = start % capacity :: ring capacity (start + 1) n := by
  rw [Nat.add_comm, ring_add]
  simp [ring]

/-- Two positions less than one turn apart are different slots. -/
theorem mod_ne_of_lt {a b : Nat} (hlt : a < b) (hturn : b < a + capacity) :
    a % capacity ≠ b % capacity := by
  intro heq
  obtain ⟨k, hk⟩ : capacity ∣ b - a := (Nat.modEq_iff_dvd' hlt.le).mp heq
  rcases k with _ | k
  · omega
  · have hle : capacity ≤ capacity * (k + 1) := Nat.le_mul_of_pos_right _ k.succ_pos
    omega

theorem ring_nodup (h : n ≤ capacity) : (ring capacity start n).Nodup := by
  refine List.nodup_range.map_on ?_
  intro i hi j hj heq
  rw [List.mem_range] at hi hj
  rcases Nat.lt_trichotomy i j with hij | rfl | hij
  · exact absurd heq (mod_ne_of_lt (by omega) (by omega))
  · rfl
  · exact absurd heq.symm (mod_ne_of_lt (by omega) (by omega))

/-- One step back from one step on. -/
theorem ring_pred (hcapacity : 0 < capacity) (p : Nat) :
    ((p + 1) % capacity + capacity - 1) % capacity = p % capacity := by
  rw [Nat.add_sub_assoc hcapacity, Nat.mod_add_mod, Nat.add_assoc, Nat.add_sub_of_le hcapacity,
    Nat.add_mod_right]

/-! ## A ring that overwrites its oldest element

The elements are written one after the other; the ring holds the last `capacity` of them. -/

section
variable {α : Type} {slots s : Nat → α} {a : α} {l : List α}

/-- The slots from `start` on hold `l`. -/
def Keeps (capacity : Nat) (slots : Nat → α) (start : Nat) (l : List α) : Prop :=
  (ring capacity start l.length).map slots = l

theorem keeps_nil : Keeps capacity slots start [] := rfl

theorem Keeps.head (h : Keeps capacity slots start (a :: l)) : slots (start % capacity) = a := by
  rw [Keeps, List.length_cons, ring_cons, List.map_cons] at h
  exact (List.cons.inj h).1

theorem Keeps.tail (h : Keeps capacity slots start (a :: l)) :
    Keeps capacity slots (start + 1) l := by
  rw [Keeps, List.length_cons, ring_cons, List.map_cons] at h
  exact (List.cons.inj h).2

theorem Keeps.concat (h : Keeps capacity slots start l) (hroom : l.length < capacity)
    (hput : s ((start + l.length) % capacity) = a)
    (hkeep : ∀ i, i ≠ (start + l.length) % capacity → s i = slots i) :
    Keeps capacity s start (l ++ [a]) := by
  rw [Keeps, List.length_append, List.length_singleton, ring_concat, List.map_append,
    List.map_singleton, hput]
  congr 1
  have hnodup : (ring capacity start (l.length + 1)).Nodup := ring_nodup hroom
  rw [ring_concat] at hnodup
  refine Eq.trans (List.map_congr_left fun i hi => hkeep i ?_) h
  rintro rfl
  exact List.disjoint_of_nodup_append hnodup hi (List.mem_singleton_self _)

/-- A write behind the last `capacity` elements of `l`. -/
theorem Keeps.overwrite (hcapacity : 0 < capacity)
    (h : Keeps capacity slots start (l.rtake capacity))
    (hput : s ((start + (l.rtake capacity).length) % capacity) = a)
    (hkeep : ∀ i, i ≠ (start + (l.rtake capacity).length) % capacity → s i = slots i) :
    ∃ start', Keeps capacity s start' ((l ++ [a]).rtake capacity) ∧
      start' + ((l ++ [a]).rtake capacity).length = start + (l.rtake capacity).length + 1 := by
  have hlength : (l.rtake capacity).length = min l.length capacity := by
    rw [List.rtake, List.length_drop]
    omega
  by_cases hroom : l.length < capacity
  · have hall : l.rtake capacity = l := by
      rw [List.rtake, Nat.sub_eq_zero_of_le hroom.le, List.drop_zero]
    have hall' : (l ++ [a]).rtake capacity = l ++ [a] := by
      rw [List.rtake, List.length_append, List.length_singleton,
        Nat.sub_eq_zero_of_le hroom, List.drop_zero]
    rw [hall] at h hput hkeep
    rw [hall', hall]
    refine ⟨start, h.concat hroom hput hkeep, ?_⟩
    rw [List.length_append, List.length_singleton, Nat.add_assoc]
  · obtain ⟨n, rfl⟩ := Nat.exists_eq_succ_of_ne_zero hcapacity.ne'
    obtain ⟨x, rest, hrest⟩ : ∃ x rest, l.rtake (n + 1) = x :: rest := by
      refine List.exists_cons_of_length_pos ?_
      rw [hlength]
      omega
    have hlast : (l ++ [a]).rtake (n + 1) = rest ++ [a] := by
      rw [List.rtake_concat_succ]
      congr 1
      have htail : l.rtake n = (l.rtake (n + 1)).tail := by
        rw [List.rtake, List.rtake, List.tail_drop]
        congr 1
        omega
      rw [htail, hrest, List.tail_cons]
    have hsame : start + (l.rtake (n + 1)).length = start + 1 + rest.length := by
      rw [hrest, List.length_cons]
      omega
    rw [hsame] at hput hkeep ⊢
    rw [hrest, List.length_cons] at hlength
    rw [hlast]
    refine ⟨start + 1, (hrest ▸ h).tail.concat (by omega) hput hkeep, ?_⟩
    rw [List.length_append, List.length_singleton]
    rfl

end

end AiDeck.Lib
