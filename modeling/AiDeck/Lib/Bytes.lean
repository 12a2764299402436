import Mathlib

/-! # Memories and streams as functions of a position

A memory block and an input stream are both functions of a natural position.
`segment` reads a run of cells, `overwrite` stores one, `feed` puts a finite
prefix in front of a stream; 32-bit words are stored little endian. -/
namespace AiDeck.Lib.Bytes

variable {α : Type}

/-- The `n` cells from position `p` on. -/
def segment (m : Nat → α) (p n : Nat) : List α := (List.range n).map fun i => m (p + i)

/-- Store the cells of `l` from position `p` on. -/
def overwrite (m : Nat → α) (p : Nat) (l : List α) : Nat → α := fun i =>
  if p ≤ i then l.getD (i - p) (m i) else m i

/-- A stream that starts with the cells of `l` and goes on as `tail`. -/
def feed (l : List α) (tail : Nat → α) : Nat → α := fun i => l.getD i (tail (i - l.length))

@[simp] theorem segment_length (m : Nat → α) (p n : Nat) : (segment m p n).length = n := by
  simp [segment]

@[simp] theorem segment_getElem (m : Nat → α) (p n i : Nat) (h : i < (segment m p n).length) :
    (segment m p n)[i] = m (p + i) := by
  simp [segment]

theorem segment_getElem? (m : Nat → α) {p n i : Nat} (h : i < n) :
    (segment m p n)[i]? = some (m (p + i)) := by
  simp [segment, h]

theorem segment_getD (m : Nat → α) {p n i : Nat} (d : α) (h : i < n) :
    (segment m p n).getD i d = m (p + i) := by
  rw [List.getD_eq_getElem?_getD, segment_getElem? m h, Option.getD_some]

theorem segment_congr {m m' : Nat → α} {p q n : Nat} (h : ∀ i < n, m (p + i) = m' (q + i)) :
    segment m p n = segment m' q n := by
  apply List.map_congr_left
  intro i hi
  exact h i (List.mem_range.mp hi)

theorem segment_add (m : Nat → α) (p a b : Nat) :
    segment m p (a + b) = segment m p a ++ segment m (p + a) b := by
  simp only [segment, List.range_add, List.map_append, List.map_map, Function.comp_def,
    Nat.add_assoc]

theorem segment_mul (m : Nat → α) (p a b : Nat) :
    segment m p (a * b) = (List.range a).flatMap fun i => segment m (p + i * b) b := by
  induction a with
  | zero => simp [segment]
  | succ a ih =>
    rw [List.range_succ, List.flatMap_append, ← ih, List.flatMap_singleton, Nat.add_one_mul,
      segment_add]

theorem segment_take (m : Nat → α) (p : Nat) {a n : Nat} (h : a ≤ n) :
    (segment m p n).take a = segment m p a := by
  obtain ⟨b, rfl⟩ := Nat.exists_eq_add_of_le h
  rw [segment_add, List.take_left' (by simp)]

theorem segment_drop (m : Nat → α) (p : Nat) {a n : Nat} (h : a ≤ n) :
    (segment m p n).drop a = segment m (p + a) (n - a) := by
  obtain ⟨b, rfl⟩ := Nat.exists_eq_add_of_le h
  rw [segment_add, List.drop_left' (by simp), Nat.add_sub_cancel_left]

theorem overwrite_before (m : Nat → α) {p i : Nat} (l : List α) (h : i < p) :
    overwrite m p l i = m i := by
  simp [overwrite, show ¬ p ≤ i by omega]

theorem overwrite_after (m : Nat → α) {p i : Nat} (l : List α) (h : p + l.length ≤ i) :
    overwrite m p l i = m i := by
  simp only [overwrite]
  split
  · rw [List.getD_eq_default _ _ (by omega)]
  · rfl

theorem overwrite_at (m : Nat → α) (p : Nat) {l : List α} {i : Nat} (h : i < l.length) :
    overwrite m p l (p + i) = l[i] := by
  simp only [overwrite, Nat.le_add_right, if_true, Nat.add_sub_cancel_left]
  exact List.getD_eq_getElem _ _ h

theorem segment_overwrite (m : Nat → α) (p : Nat) (l : List α) :
    segment (overwrite m p l) p l.length = l := by
  apply List.ext_getElem (by simp)
  intro i hi hl
  rw [segment_getElem, overwrite_at m p hl]

/-- What is stored behind what was stored before is stored with it. -/
theorem overwrite_append (m : Nat → α) (p : Nat) (l l' : List α) :
    overwrite (overwrite m p l) (p + l.length) l' = overwrite m p (l ++ l') := by
  funext i
  rcases Nat.lt_or_ge i p with hlt | hge
  · rw [overwrite_before _ _ (by omega), overwrite_before _ _ hlt, overwrite_before _ _ hlt]
  · obtain ⟨k, rfl⟩ := Nat.exists_eq_add_of_le hge
    rcases Nat.lt_or_ge k l.length with hk | hk
    · rw [overwrite_before _ _ (by omega), overwrite_at m p hk,
        overwrite_at m p (by rw [List.length_append]; omega), List.getElem_append_left hk]
    · rcases Nat.lt_or_ge (k - l.length) l'.length with hk' | hk'
      · rw [show p + k = p + l.length + (k - l.length) by omega, overwrite_at _ _ hk',
          show p + l.length + (k - l.length) = p + k by omega,
          overwrite_at m p (by rw [List.length_append]; omega), List.getElem_append_right hk]
      · rw [overwrite_after _ _ (by omega), overwrite_after _ _ (by omega),
          overwrite_after _ _ (by rw [List.length_append]; omega)]

theorem overwrite_nil (m : Nat → α) (p : Nat) : overwrite m p [] = m := by
  funext i
  rcases Nat.lt_or_ge i p with hlt | hge
  · exact overwrite_before m [] hlt
  · exact overwrite_after m [] (by simpa using hge)

theorem segment_overwrite_disjoint (m : Nat → α) {p q n : Nat} (l : List α)
    (h : q + n ≤ p ∨ p + l.length ≤ q) :
    segment (overwrite m p l) q n = segment m q n := by
  apply segment_congr
  intro i hi
  rcases h with h | h
  · exact overwrite_before m l (by omega)
  · exact overwrite_after m l (by omega)

theorem feed_left (l : List α) (tail : Nat → α) {i : Nat} (h : i < l.length) :
    feed l tail i = l[i] := List.getD_eq_getElem _ _ h

theorem segment_feed (l : List α) (tail : Nat → α) : segment (feed l tail) 0 l.length = l := by
  apply List.ext_getElem (by simp)
  intro i hi hl
  rw [segment_getElem, Nat.zero_add, feed_left _ _ hl]

/-! ## Little-endian words -/

/-- The two bytes of a half word, least significant first. -/
def toLE16 (w : UInt16) : List UInt8 := [.ofNat w.toNat, .ofNat (w.toNat / 2 ^ 8)]

/-- The half word stored in the first two bytes of `l`. -/
def ofLE16 (l : List UInt8) : UInt16 :=
  .ofNat ((l.getD 0 0).toNat + 2 ^ 8 * (l.getD 1 0).toNat)

@[simp] theorem ofLE16_toLE16 (w : UInt16) (l : List UInt8) : ofLE16 (toLE16 w ++ l) = w := by
  have hw := w.toNat_lt
  apply UInt16.toNat_inj.mp
  simp only [ofLE16, toLE16, List.cons_append, List.nil_append, List.getD_cons_zero,
    List.getD_cons_succ, UInt8.toNat_ofNat', UInt16.toNat_ofNat']
  omega

/-- The four bytes of a word, least significant first. -/
def toLE32 (w : UInt32) : List UInt8 :=
  [.ofNat w.toNat, .ofNat (w.toNat / 2 ^ 8), .ofNat (w.toNat / 2 ^ 16), .ofNat (w.toNat / 2 ^ 24)]

/-- The word stored in the first four bytes of `l`, least significant first. -/
def ofLE32 (l : List UInt8) : UInt32 :=
  .ofNat ((l.getD 0 0).toNat + 2 ^ 8 * (l.getD 1 0).toNat + 2 ^ 16 * (l.getD 2 0).toNat +
    2 ^ 24 * (l.getD 3 0).toNat)

@[simp] theorem toLE32_length (w : UInt32) : (toLE32 w).length = 4 := rfl

@[simp] theorem ofLE32_toLE32 (w : UInt32) : ofLE32 (toLE32 w) = w := by
  have hw := w.toNat_lt
  apply UInt32.toNat_inj.mp
  simp only [ofLE32, toLE32, List.getD_cons_zero, List.getD_cons_succ, UInt8.toNat_ofNat',
    UInt32.toNat_ofNat']
  omega

theorem toLE32_ofLE32 {l : List UInt8} (h : l.length = 4) : toLE32 (ofLE32 l) = l := by
  obtain ⟨a, b, c, d, rfl⟩ := List.length_eq_four.mp h
  have ha := a.toNat_lt
  have hb := b.toNat_lt
  have hc := c.toNat_lt
  have hd := d.toNat_lt
  have hbytes : ∀ (x : UInt8) (n : Nat), n % 2 ^ 8 = x.toNat → UInt8.ofNat n = x := fun x n hn =>
    UInt8.toNat_inj.mp (by rw [UInt8.toNat_ofNat', hn])
  simp only [toLE32, ofLE32, List.getD_cons_zero, List.getD_cons_succ, UInt32.toNat_ofNat']
  rw [hbytes a _ (by omega), hbytes b _ (by omega), hbytes c _ (by omega), hbytes d _ (by omega)]

theorem ofLE32_append (w : UInt32) (l : List UInt8) : ofLE32 (toLE32 w ++ l) = w :=
  ofLE32_toLE32 w

end AiDeck.Lib.Bytes
