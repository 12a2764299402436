import AiDeck.Lib.Chain

/-! # Intrusive lists

nanocockpit/lib/list.h: the heads and the elements of all lists with their pointers.
A loop is given one round for each element that exists, which is enough for every
list without a cycle. -/
namespace AiDeck.Coroutine
open AiDeck.Lib

/-- Why a program does not go on: `CO_ASSERTION_FAILURE`, which exits with a message, a
loop without an end, or an access through `NULL`. -/
inductive Stop where
  | assertion (message : String)
  | diverged
  | nullPointer
  deriving DecidableEq, Repr

/-- `first` of every `list_head_t` and `next` of every `list_el_t`; `NULL` is `none`. -/
structure Lists (Head El : Type) where
  first : Head → Option El
  next : El → Option El

section
variable {Head El : Type} [DecidableEq Head] [DecidableEq El]

def listElInit (s : Lists Head El) (el : El) : Lists Head El :=
  { s with next := Function.update s.next el none }

def listHeadInit (s : Lists Head El) (head : Head) : Lists Head El :=
  { s with first := Function.update s.first head none }

def listPopFront (s : Lists Head El) (head : Head) : Option El × Lists Head El :=
  match s.first head with
  | none => (none, s)
  | some el =>
    (some el, { first := Function.update s.first head (s.next el)
                next := Function.update s.next el none })

/-- The rounds of the loop of `list_clear`. -/
def listClearLoop : Nat → Lists Head El → Head → Except Stop (Lists Head El)
  | 0, _, _ => .error .diverged
  | n + 1, s, head => match s.first head with
    | none => .ok (listHeadInit s head)
    | some _ => listClearLoop n (listPopFront s head).2 head

variable [Fintype El]

def listAppend (s : Lists Head El) (head : Head) (el : El) : Except Stop (Lists Head El) :=
  match s.first head with
  | none => .ok { s with first := Function.update s.first head (some el) }
  | some first => match lastNode s.next (Fintype.card El) first with
    | none => .error .diverged
    | some last => .ok { s with next := Function.update s.next last (some el) }

def listClear (s : Lists Head El) (head : Head) : Except Stop (Lists Head El) :=
  listClearLoop (Fintype.card El + 1) s head

end

/-! ## What the pointers stand for -/

/-- The pointers of `s` hold the lists `W`: no element is on two of them or twice on
one, and an element on none has no successor. -/
structure Holds {Head El : Type} (W : Head → List El) (s : Lists Head El) : Prop where
  chain : ∀ h, Chain s.next (s.first h) (W h)
  nodup : ∀ h, (W h).Nodup
  disjoint : ∀ h h' a, a ∈ W h → a ∈ W h' → h = h'
  detached : ∀ a, (∀ h, a ∉ W h) → s.next a = none

section
variable {Head El : Type} {W : Head → List El} {s : Lists Head El} {head : Head} {el : El}

theorem Holds.first_eq_none_iff (h : Holds W s) : s.first head = none ↔ W head = [] := by
  have hchain := h.chain head
  constructor
  · intro hf
    rw [hf] at hchain
    exact hchain.eq_nil
  · intro hw
    rw [hw] at hchain
    exact hchain.start_eq_none

theorem Holds.first_eq_some {rest : List El} (h : Holds W s) (hw : W head = el :: rest) :
    s.first head = some el ∧ Chain s.next (s.next el) rest := by
  have hchain := h.chain head
  rw [hw] at hchain
  generalize s.first head = start at hchain
  cases hchain with
  | cons hrest => exact ⟨rfl, hrest⟩

variable [DecidableEq El]

theorem listElInit_holds (h : Holds W s) (hnot : ∀ i, el ∉ W i) : Holds W (listElInit s el) := by
  refine ⟨fun i => (h.chain i).update_of_notMem (hnot i), h.nodup, h.disjoint, ?_⟩
  intro a ha
  by_cases he : a = el
  · rw [he]; exact Function.update_self ..
  · exact (Function.update_of_ne he ..).trans (h.detached a ha)

variable [DecidableEq Head]

omit [DecidableEq El] in
theorem listHeadInit_eq (h : Holds W s) (hw : W head = []) : listHeadInit s head = s := by
  have hfirst := h.first_eq_none_iff.mpr hw
  rw [listHeadInit, ← hfirst, Function.update_eq_self]

omit [DecidableEq El] in
/-- The lists with one of them shortened hold nothing new. -/
theorem update_subset {l : List El} (hl : l ⊆ W head) (i : Head) :
    Function.update W head l i ⊆ W i := by
  by_cases hi : i = head
  · subst hi
    rwa [Function.update_self]
  · rw [Function.update_of_ne hi]
    exact List.Subset.refl _

theorem listPopFront_nil (h : Holds W s) (hw : W head = []) :
    listPopFront s head = (none, s) := by
  rw [listPopFront, h.first_eq_none_iff.mpr hw]

theorem listPopFront_cons {rest : List El} (h : Holds W s) (hw : W head = el :: rest) :
    ∃ s', listPopFront s head = (some el, s') ∧ Holds (Function.update W head rest) s' := by
  obtain ⟨hfirst, hrest⟩ := h.first_eq_some hw
  have hnodup := h.nodup head
  rw [hw, List.nodup_cons] at hnodup
  have hsub : rest ⊆ W head := hw ▸ List.subset_cons_self el rest
  refine ⟨_, by rw [listPopFront, hfirst], ?_, ?_, ?_, ?_⟩
  · intro i
    by_cases hi : i = head
    · subst hi
      simp only [Function.update_self]
      exact hrest.update_of_notMem hnodup.1
    · simp only [Function.update_of_ne hi]
      refine (h.chain i).update_of_notMem fun hm => hi ?_
      exact h.disjoint i head el hm (hw ▸ List.mem_cons_self)
  · intro i
    by_cases hi : i = head
    · subst hi
      rw [Function.update_self]
      exact hnodup.2
    · rw [Function.update_of_ne hi]
      exact h.nodup i
  · intro i j a hai haj
    exact h.disjoint i j a (update_subset hsub i hai) (update_subset hsub j haj)
  · intro a ha
    by_cases he : a = el
    · rw [he]; exact Function.update_self ..
    · refine (Function.update_of_ne he ..).trans (h.detached a fun i hm => ha i ?_)
      by_cases hi : i = head
      · subst hi
        rw [Function.update_self]
        rw [hw] at hm
        exact (List.mem_cons.mp hm).resolve_left he
      · rwa [Function.update_of_ne hi]

theorem listClearLoop_holds (n : Nat) (h : Holds W s) (hn : (W head).length < n) :
    ∃ s', listClearLoop n s head = .ok s' ∧ Holds (Function.update W head []) s' := by
  induction n generalizing W s with
  | zero => cases hn
  | succ n ih =>
    cases hw : W head with
    | nil =>
      rw [listClearLoop, h.first_eq_none_iff.mpr hw]
      refine ⟨s, congrArg Except.ok (listHeadInit_eq h hw), ?_⟩
      rwa [← hw, Function.update_eq_self]
    | cons el rest =>
      obtain ⟨s', hpop, h'⟩ := listPopFront_cons h hw
      have hlen : (Function.update W head rest head).length < n := by
        rw [Function.update_self]
        rw [hw, List.length_cons] at hn
        exact Nat.lt_of_succ_lt_succ hn
      obtain ⟨t, ht, hholds⟩ := ih h' hlen
      refine ⟨t, ?_, ?_⟩
      · rw [listClearLoop, (h.first_eq_some hw).1]
        simp only [hpop, ht]
      · rwa [Function.update_idem] at hholds

variable [Fintype El]

theorem listClear_holds (head : Head) (h : Holds W s) :
    ∃ s', listClear s head = .ok s' ∧ Holds (Function.update W head []) s' :=
  listClearLoop_holds _ h (Nat.lt_succ_of_le (h.nodup head).length_le_card)

theorem listAppend_holds (head : Head) (h : Holds W s) (hnot : ∀ i, el ∉ W i) :
    ∃ s', listAppend s head el = .ok s' ∧
      Holds (Function.update W head (W head ++ [el])) s' := by
  have hel := h.detached el hnot
  have hmem : ∀ i a, a ∈ Function.update W head (W head ++ [el]) i →
      a ∈ W i ∨ (i = head ∧ a = el) := by
    intro i a ha
    by_cases hi : i = head
    · subst hi
      rw [Function.update_self, List.mem_append, List.mem_singleton] at ha
      exact ha.imp_right fun he => ⟨rfl, he⟩
    · rw [Function.update_of_ne hi] at ha
      exact Or.inl ha
  have hgrow : ∀ i, W i ⊆ Function.update W head (W head ++ [el]) i := by
    intro i a ha
    by_cases hi : i = head
    · subst hi
      rw [Function.update_self]
      exact List.mem_append_left _ ha
    · rwa [Function.update_of_ne hi]
  have hnodup : ∀ i, (Function.update W head (W head ++ [el]) i).Nodup := by
    intro i
    by_cases hi : i = head
    · subst hi
      rw [Function.update_self, List.nodup_append]
      refine ⟨h.nodup i, List.nodup_singleton el, ?_⟩
      intro a ha b hb he
      exact hnot i (List.mem_singleton.mp hb ▸ he ▸ ha)
    · rw [Function.update_of_ne hi]
      exact h.nodup i
  have hdisjoint : ∀ i j a, a ∈ Function.update W head (W head ++ [el]) i →
      a ∈ Function.update W head (W head ++ [el]) j → i = j := by
    intro i j a hi hj
    rcases hmem i a hi with hi' | ⟨hi', he⟩
    · rcases hmem j a hj with hj' | ⟨-, he⟩
      · exact h.disjoint i j a hi' hj'
      · exact absurd (he ▸ hi') (hnot i)
    · rcases hmem j a hj with hj' | ⟨hj', -⟩
      · exact absurd (he ▸ hj') (hnot j)
      · exact hi'.trans hj'.symm
  cases hw : W head with
  | nil =>
    rw [hw] at hgrow hnodup hdisjoint
    refine ⟨_, by rw [listAppend, h.first_eq_none_iff.mpr hw], ?_, hnodup, hdisjoint, ?_⟩
    · intro i
      by_cases hi : i = head
      · subst hi
        simp only [Function.update_self]
        exact .cons (hel ▸ .nil)
      · simp only [Function.update_of_ne hi]
        exact h.chain i
    · intro a ha
      exact h.detached a fun i hm => ha i (hgrow i hm)
  | cons a rest =>
    obtain ⟨hfirst, -⟩ := h.first_eq_some hw
    have hchain := h.chain head
    rw [hfirst] at hchain
    obtain ⟨z, init, hinit, hlast, -⟩ := hchain.exists_last (h.nodup head).length_le_card
    have hz : z ∈ W head := hinit ▸ List.mem_append_right init (List.mem_singleton_self z)
    rw [← hw]
    refine ⟨_, by simp only [listAppend, hfirst, hlast]; rfl, ?_, hnodup, hdisjoint, ?_⟩
    · intro i
      by_cases hi : i = head
      · subst hi
        rw [Function.update_self]
        have hc := h.chain i
        have hn := h.nodup i
        have hnoti := hnot i
        rw [hinit] at hc hn hnoti ⊢
        exact hc.concat hn hel hnoti
      · rw [Function.update_of_ne hi]
        exact (h.chain i).update_of_notMem fun hm => hi (h.disjoint i head z hm hz)
    · intro b hb
      have hne : b ≠ z := by
        rintro rfl
        exact hb head (hgrow head hz)
      exact (Function.update_of_ne hne ..).trans (h.detached b fun i hm => hb i (hgrow i hm))

end

end AiDeck.Coroutine
