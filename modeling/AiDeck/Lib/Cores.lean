import Mathlib

/-! # Cores on one memory

Some cores run their programs over one memory, in any interleaving, until all of
them have reached a barrier. Where no core writes to what another one looks at,
every interleaving leaves what each core would have left alone. -/
namespace AiDeck.Lib.Cores

variable {ι α β : Type*}

/-! ## Programs -/

/-- An assignment to a cell; the value is read off the memory before it. -/
structure Assign (α β : Type*) where
  cell : α
  value : (α → β) → β

section
variable [DecidableEq α]

def Assign.run (s : Assign α β) (m : α → β) : α → β := Function.update m s.cell (s.value m)

/-- The memory after the assignments of a list, done in order. -/
def run (l : List (Assign α β)) (m : α → β) : α → β := l.foldl (fun m s => s.run m) m

@[simp] theorem run_nil (m : α → β) : run [] m = m := rfl

@[simp] theorem run_cons (s : Assign α β) (l : List (Assign α β)) (m : α → β) :
    run (s :: l) m = run l (s.run m) := rfl

theorem run_append (k l : List (Assign α β)) (m : α → β) : run (k ++ l) m = run l (run k m) :=
  List.foldl_append

theorem run_concat (l : List (Assign α β)) (s : Assign α β) (m : α → β) :
    run (l ++ [s]) m = s.run (run l m) := by
  rw [run_append]
  rfl

end

/-- A core that writes to `own` cells only and looks at `sees` only. -/
structure Within (own sees : Set α) (s : Assign α β) : Prop where
  cell : s.cell ∈ own
  value : ∀ ⦃m n : α → β⦄, Set.EqOn m n sees → s.value m = s.value n

section
variable [DecidableEq α] {own sees : Set α} {s : Assign α β} {l : List (Assign α β)} {m n : α → β}

omit [DecidableEq α] in
theorem Within.mono (h : Within own sees s) {own' sees' : Set α} (hown : own ⊆ own')
    (hsees : sees ⊆ sees') : Within own' sees' s :=
  ⟨hown h.cell, fun _ _ heq => h.value (heq.mono hsees)⟩

theorem Within.run_of_notMem (h : Within own sees s) {x : α} (hx : x ∉ own) : s.run m x = m x :=
  Function.update_of_ne (fun he : x = s.cell => hx (he ▸ h.cell)) _ _

theorem Within.run_eqOn (h : Within own sees s) (hmn : Set.EqOn m n sees) :
    Set.EqOn (s.run m) (s.run n) sees := by
  intro x hx
  rw [Assign.run, Assign.run, h.value hmn]
  by_cases he : x = s.cell
  · rw [he, Function.update_self, Function.update_self]
  · rw [Function.update_of_ne he, Function.update_of_ne he, hmn hx]

theorem run_of_notMem (h : ∀ s ∈ l, Within own sees s) {x : α} (hx : x ∉ own) :
    run l m x = m x := by
  induction l generalizing m with
  | nil => rfl
  | cons s l ih =>
    have ⟨hs, hl⟩ := List.forall_mem_cons.mp h
    rw [run_cons, ih hl, hs.run_of_notMem hx]

theorem run_eqOn (h : ∀ s ∈ l, Within own sees s) (hmn : Set.EqOn m n sees) :
    Set.EqOn (run l m) (run l n) sees := by
  induction l generalizing m n with
  | nil => exact hmn
  | cons s l ih =>
    have ⟨hs, hl⟩ := List.forall_mem_cons.mp h
    exact ih hl (hs.run_eqOn hmn)

end

/-- A cell that no assignment of the list is to. -/
theorem run_unwritten [DecidableEq α] {l : List (Assign α β)} {x : α} (h : ∀ s ∈ l, s.cell ≠ x)
    (m : α → β) : run l m x = m x := by
  induction l generalizing m with
  | nil => rfl
  | cons s l ih =>
    have ⟨hs, hl⟩ := List.forall_mem_cons.mp h
    rw [run_cons, ih hl]
    exact Function.update_of_ne hs.symm _ _

/-- The program of a core that keeps something in registers from one step to the next. -/
def steps {σ κ τ : Type*} (next : σ → κ → List τ × σ) : σ → List κ → List τ × σ
  | s, [] => ([], s)
  | s, k :: ks =>
    ((next s k).1 ++ (steps next (next s k).2 ks).1, (steps next (next s k).2 ks).2)

/-! ## Interleavings -/

/-- The list does what is left of every core's program, each in its own order. -/
inductive Interleaves {σ : Type*} [DecidableEq ι] : (ι → List σ) → List σ → Prop
  | done {p : ι → List σ} (h : ∀ c, p c = []) : Interleaves p []
  | turn {p : ι → List σ} {c : ι} {s : σ} {rest l : List σ} (h : p c = s :: rest)
      (hl : Interleaves (Function.update p c rest) l) : Interleaves p (s :: l)

/-- The cores can always be scheduled to their ends. -/
theorem exists_interleaves {σ : Type*} [DecidableEq ι] [Fintype ι] (p : ι → List σ) :
    ∃ l, Interleaves p l := by
  generalize hn : ∑ c, (p c).length = n
  induction n generalizing p with
  | zero =>
    have hzero := Finset.sum_eq_zero_iff.mp hn
    exact ⟨[], .done fun c => List.length_eq_zero_iff.mp (hzero c (Finset.mem_univ c))⟩
  | succ n ih =>
    have hne : ∑ c, (p c).length ≠ 0 := by rw [hn]; exact Nat.succ_ne_zero n
    obtain ⟨c, -, hc⟩ := Finset.exists_ne_zero_of_sum_ne_zero hne
    obtain ⟨s, rest, hs⟩ := List.exists_cons_of_ne_nil
      (List.ne_nil_of_length_pos (Nat.pos_of_ne_zero hc))
    have hsum : ∑ d, (Function.update p c rest d).length = n := by
      have hrest := Finset.sum_erase_add Finset.univ (fun d => (p d).length) (Finset.mem_univ c)
      have hrest' := Finset.sum_erase_add Finset.univ
        (fun d => (Function.update p c rest d).length) (Finset.mem_univ c)
      have hsame : ∑ d ∈ Finset.univ.erase c, (Function.update p c rest d).length =
          ∑ d ∈ Finset.univ.erase c, (p d).length := by
        refine Finset.sum_congr rfl fun d hd => ?_
        rw [Function.update_of_ne (Finset.ne_of_mem_erase hd)]
      rw [Function.update_self, hsame] at hrest'
      have hlength : (p c).length = rest.length + 1 := by
        rw [hs, List.length_cons]
      omega
    obtain ⟨l, hl⟩ := ih _ hsum
    exact ⟨s :: l, .turn hs hl⟩

/-- An interleaving does what the cores do, no more and no less. -/
theorem Interleaves.mem {σ : Type*} [DecidableEq ι] {p : ι → List σ} {l : List σ}
    (h : Interleaves p l) {s : σ} : s ∈ l ↔ ∃ c, s ∈ p c := by
  induction h with
  | done hdone => simp [hdone]
  | @turn p c t rest l hc _ ih =>
    rw [List.mem_cons, ih]
    constructor
    · rintro (rfl | ⟨d, hd⟩)
      · exact ⟨c, hc ▸ List.mem_cons_self⟩
      · by_cases hdc : d = c
        · subst hdc
          rw [Function.update_self] at hd
          exact ⟨d, hc ▸ List.mem_cons_of_mem t hd⟩
        · rw [Function.update_of_ne hdc] at hd
          exact ⟨d, hd⟩
    · intro ⟨d, hd⟩
      by_cases hdc : d = c
      · subst hdc
        rcases List.mem_cons.mp (hc ▸ hd) with rfl | hrest
        · exact Or.inl rfl
        · exact Or.inr ⟨d, by rwa [Function.update_self]⟩
      · exact Or.inr ⟨d, by rwa [Function.update_of_ne hdc]⟩

/-- Assignments that see nothing of what they write do so as in the memory before, as long as
those to the same cell agree. -/
theorem run_of_mem [DecidableEq α] {own sees : Set α} {l : List (Assign α β)} {m : α → β}
    (h : ∀ s ∈ l, Within own sees s) (hdisj : Disjoint own sees)
    (hsame : ∀ s ∈ l, ∀ t ∈ l, s.cell = t.cell → s.value m = t.value m) {s : Assign α β}
    (hs : s ∈ l) : run l m s.cell = s.value m := by
  induction l using List.reverseRecOn with
  | nil => cases hs
  | append_singleton l t ih =>
    have hlast : t ∈ l ++ [t] := List.mem_append_right l (List.mem_singleton_self t)
    have hfirst : ∀ s ∈ l, s ∈ l ++ [t] := fun s hs => List.mem_append_left _ hs
    have hbefore : Set.EqOn (run l m) m sees := fun y hy =>
      run_of_notMem (fun s hs => h s (hfirst s hs)) (Set.disjoint_right.mp hdisj hy)
    rw [run_concat, Assign.run, (h t hlast).value hbefore]
    by_cases heq : s.cell = t.cell
    · rw [heq, Function.update_self, hsame s hs t hlast heq]
    · rw [Function.update_of_ne heq]
      refine ih (fun s hs => h s (hfirst s hs))
        (fun s hs t ht => hsame s (hfirst s hs) t (hfirst t ht)) ?_
      rcases List.mem_append.mp hs with hs | hs
      · exact hs
      · exact absurd (congrArg Assign.cell (List.mem_singleton.mp hs)) heq

theorem run_of_within [DecidableEq α] {own sees : Set α} {l : List (Assign α β)} {m : α → β}
    {g : α → β} (h : ∀ s ∈ l, Within own sees s) (hdisj : Disjoint own sees)
    (hvalue : ∀ s ∈ l, s.value m = g s.cell) {x : α} (hx : ∃ s ∈ l, s.cell = x) :
    run l m x = g x := by
  obtain ⟨s, hs, rfl⟩ := hx
  rw [run_of_mem h hdisj (fun s hs t ht heq => ?_) hs, hvalue s hs]
  rw [hvalue s hs, hvalue t ht, heq]

/-- Assignments whose values follow from the cells, in any order. -/
theorem run_of_values [DecidableEq α] {l : List (Assign α β)} {g : α → β}
    (h : ∀ s ∈ l, ∀ m, s.value m = g s.cell) {x : α} (hx : ∃ s ∈ l, s.cell = x) (m : α → β) :
    run l m x = g x := by
  refine @run_of_within _ _ _ Set.univ ∅ _ _ _ (fun s hs => ?_) (Set.disjoint_empty _)
    (fun s hs => h s hs m) x hx
  exact ⟨Set.mem_univ _, fun m n _ => (h s hs m).trans (h s hs n).symm⟩

section
variable [DecidableEq ι] {p : ι → List (Assign α β)} {own sees : ι → Set α}

/-- No core writes to what another core looks at. -/
structure Apart (own sees : ι → Set α) (p : ι → List (Assign α β)) : Prop where
  within : ∀ c, ∀ s ∈ p c, Within (own c) (sees c) s
  apart : ∀ ⦃c d : ι⦄, c ≠ d → Disjoint (own c) (sees d)

theorem Apart.turn (h : Apart own sees p) {c : ι} {s : Assign α β} {rest : List (Assign α β)}
    (hc : p c = s :: rest) : Apart own sees (Function.update p c rest) := by
  refine ⟨fun d t ht => ?_, h.apart⟩
  by_cases hd : d = c
  · subst hd
    rw [Function.update_self] at ht
    exact h.within d t (hc ▸ List.mem_cons_of_mem s ht)
  · rw [Function.update_of_ne hd] at ht
    exact h.within d t ht

variable [DecidableEq α] {l : List (Assign α β)}

/-- **Each core finds its cells as if it had run alone.** -/
theorem Interleaves.eqOn (hl : Interleaves p l) (h : Apart own sees p) (m : α → β) (c : ι) :
    Set.EqOn (run l m) (run (p c) m) (sees c) := by
  induction hl generalizing m with
  | done hdone =>
    rw [hdone c]
    exact Set.eqOn_refl _ _
  | @turn p d s rest l hd _ ih =>
    have hrest := ih (h.turn hd) (s.run m)
    have hs : Within (own d) (sees d) s := h.within d s (hd ▸ List.mem_cons_self)
    by_cases hcd : c = d
    · subst hcd
      rw [Function.update_self] at hrest
      rw [hd]
      exact hrest
    · rw [Function.update_of_ne hcd] at hrest
      have hsame : Set.EqOn (s.run m) m (sees c) := fun x hx =>
        hs.run_of_notMem (Set.disjoint_right.mp (h.apart (Ne.symm hcd)) hx)
      exact hrest.trans (run_eqOn (h.within c) hsame)

/-- What no core owns stays as it was. -/
theorem Interleaves.of_notMem (hl : Interleaves p l) (h : Apart own sees p) (m : α → β) {x : α}
    (hx : ∀ c, x ∉ own c) : run l m x = m x := by
  induction hl generalizing m with
  | done _ => rfl
  | @turn p d s rest l hd _ ih =>
    have hs : Within (own d) (sees d) s := h.within d s (hd ▸ List.mem_cons_self)
    rw [run_cons, ih (h.turn hd) (s.run m), hs.run_of_notMem (hx d)]

end

/-! ## Units of work -/

section
variable {κ σ : Type*} [DecidableEq ι] [DecidableEq κ] {p : ι → List σ} {q : κ → List σ}

/-- The first step of some units done one after another is the first step of one of them. -/
theorem flatMap_eq_cons {us : List κ} (hus : us.Nodup) {s : σ} {rest : List σ}
    (h : us.flatMap q = s :: rest) :
    ∃ u ∈ us, ∃ tail, q u = s :: tail ∧ us.flatMap (Function.update q u tail) = rest := by
  induction us with
  | nil => cases h
  | cons u us ih =>
    have ⟨hu, hus'⟩ := List.nodup_cons.mp hus
    rw [List.flatMap_cons] at h
    cases hq : q u with
    | nil =>
      rw [hq, List.nil_append] at h
      obtain ⟨v, hv, tail, hvq, hrest⟩ := ih hus' h
      refine ⟨v, List.mem_cons_of_mem u hv, tail, hvq, ?_⟩
      have hne : u ≠ v := fun he => hu (he ▸ hv)
      rw [List.flatMap_cons, Function.update_of_ne hne, hq, List.nil_append, hrest]
    | cons t tail =>
      rw [hq, List.cons_append] at h
      obtain ⟨rfl, hrest⟩ := List.cons.inj h
      refine ⟨u, List.mem_cons_self, tail, hq, ?_⟩
      rw [List.flatMap_cons, Function.update_self, ← hrest]
      congr 1
      refine List.flatMap_congr fun v hv => ?_
      rw [Function.update_of_ne]
      exact fun he => hu (he ▸ hv)

/-- Cores that do distinct units one after another interleave the units. -/
theorem Interleaves.units {l : List σ} (hl : Interleaves p l) {work : ι → List κ}
    (hp : ∀ c, p c = (work c).flatMap q) (hidle : ∀ u, (∀ c, u ∉ work c) → q u = [])
    (hnodup : ∀ c, (work c).Nodup) (hdisj : ∀ ⦃c d⦄, c ≠ d → (work c).Disjoint (work d)) :
    Interleaves q l := by
  induction hl generalizing q with
  | @done p h =>
    refine .done fun u => ?_
    by_cases hu : ∃ c, u ∈ work c
    · obtain ⟨c, hc⟩ := hu
      exact List.flatMap_eq_nil_iff.mp ((hp c).symm.trans (h c)) u hc
    · exact hidle u (not_exists.mp hu)
  | @turn p c s rest l hc hl ih =>
    obtain ⟨u, hu, tail, huq, hrest⟩ := flatMap_eq_cons (hnodup c) ((hp c).symm.trans hc)
    refine .turn huq (ih (q := Function.update q u tail) ?_ ?_)
    · intro d
      by_cases hd : d = c
      · subst hd
        rw [Function.update_self, hrest]
      · rw [Function.update_of_ne hd, hp d]
        refine List.flatMap_congr fun v hv => ?_
        rw [Function.update_of_ne]
        exact fun he => hdisj hd hv (he ▸ hu)
    · intro v hv
      have hne : v ≠ u := fun he => hv c (he ▸ hu)
      rw [Function.update_of_ne hne]
      exact hidle v hv

end

/-- The units below `n`, shared out to `k` cores. -/
structure Shares (n k : ℕ) (work : Fin k → List ℕ) : Prop where
  nodup : ∀ c, (work c).Nodup
  disjoint : ∀ ⦃c d⦄, c ≠ d → (work c).Disjoint (work d)
  mem : ∀ u, (∃ c, u ∈ work c) ↔ u < n

theorem Shares.unique {n k : ℕ} {work : Fin k → List ℕ} (h : Shares n k work) {u : ℕ} {c d : Fin k}
    (hc : u ∈ work c) (hd : u ∈ work d) : c = d :=
  by_contra fun hne => h.disjoint hne hc hd

/-- Shares that are the whole loop, one after another. -/
theorem Shares.of_flatMap {n k : ℕ} {f : ℕ → List ℕ}
    (h : (List.range k).flatMap f = List.range n) : Shares n k fun c => f c := by
  have hnodup : ((List.range k).flatMap f).Nodup := h ▸ List.nodup_range
  have ⟨hone, hpair⟩ := List.nodup_flatMap.mp hnodup
  refine ⟨fun c => hone c (List.mem_range.mpr c.isLt), fun c d hcd => ?_, fun u => ?_⟩
  · have : Std.Symm (Function.onFun List.Disjoint f) := ⟨fun _ _ hd => hd.symm⟩
    exact hpair.forall (List.mem_range.mpr c.isLt) (List.mem_range.mpr d.isLt)
      (fun he => hcd (Fin.ext he))
  · rw [← List.mem_range, ← h, List.mem_flatMap]
    constructor
    · intro ⟨c, hc⟩
      exact ⟨c, List.mem_range.mpr c.isLt, hc⟩
    · intro ⟨c, hc, hu⟩
      exact ⟨⟨c, List.mem_range.mp hc⟩, hu⟩

/-! ## Phases -/

section
variable [DecidableEq ι] [DecidableEq α]

/-- From one barrier to the next. -/
def Phase (p : ι → List (Assign α β)) (m n : α → β) : Prop :=
  ∃ l, Interleaves p l ∧ n = run l m

variable {p : ι → List (Assign α β)} {own sees : ι → Set α} {m n : α → β}

theorem Phase.eqOn (hphase : Phase p m n) (h : Apart own sees p) (c : ι) :
    Set.EqOn n (run (p c) m) (sees c) := by
  obtain ⟨l, hl, rfl⟩ := hphase
  exact hl.eqOn h m c

theorem Phase.of_notMem (hphase : Phase p m n) (h : Apart own sees p) {x : α}
    (hx : ∀ c, x ∉ own c) : n x = m x := by
  obtain ⟨l, hl, rfl⟩ := hphase
  exact hl.of_notMem h m hx

/-- A phase of assignments whose values follow from the cells. -/
theorem Phase.of_values (hphase : Phase p m n) {g : α → β}
    (h : ∀ c, ∀ s ∈ p c, ∀ m, s.value m = g s.cell) {x : α} (hx : ∃ c, ∃ s ∈ p c, s.cell = x) :
    n x = g x := by
  obtain ⟨l, hl, rfl⟩ := hphase
  refine run_of_values (fun s hs => ?_) ?_ m
  · obtain ⟨c, hc⟩ := hl.mem.mp hs
    exact h c s hc
  · obtain ⟨c, s, hs, hcell⟩ := hx
    exact ⟨s, hl.mem.mpr ⟨c, hs⟩, hcell⟩

/-- A phase in which the cores share out units is a phase of the units. -/
theorem Phase.units {n k : ℕ} {work : Fin k → List ℕ} {q : ℕ → List (Assign α β)}
    {m m' : α → β} (h : Phase (fun c => (work c).flatMap q) m m') (hwork : Shares n k work) :
    Phase (fun u => if u < n then q u else []) m m' := by
  obtain ⟨l, hl, rfl⟩ := h
  refine ⟨l, hl.units (fun c => ?_) (fun u hu => ?_) hwork.nodup hwork.disjoint, rfl⟩
  · refine List.flatMap_congr fun u hu => ?_
    rw [if_pos ((hwork.mem u).mp ⟨c, hu⟩)]
  · exact if_neg fun hlt => not_exists.mpr hu ((hwork.mem u).mpr hlt)

/-- **The units of a phase, each as if done alone**, and the cells of none of them. -/
theorem Phase.unit {n : ℕ} {q : ℕ → List (Assign α β)} {m m' : α → β}
    (h : Phase (fun u => if u < n then q u else []) m m') (own sees : ℕ → Set α)
    (hwithin : ∀ u < n, ∀ s ∈ q u, Within (own u) (sees u) s)
    (hdisj : ∀ u < n, ∀ v < n, u ≠ v → Disjoint (own u) (sees v)) :
    (∀ u < n, Set.EqOn m' (run (q u) m) (sees u)) ∧ ∀ x, (∀ u < n, x ∉ own u) → m' x = m x := by
  have hapart : Apart (fun u => {x | u < n ∧ x ∈ own u}) (fun u => {x | u < n ∧ x ∈ sees u})
      (fun u => if u < n then q u else []) := by
    constructor
    · intro u s hs
      by_cases hu : u < n
      · rw [if_pos hu] at hs
        have hs := hwithin u hu s hs
        exact ⟨⟨hu, hs.cell⟩, fun m m' heq => hs.value fun x hx => heq ⟨hu, hx⟩⟩
      · rw [if_neg hu] at hs
        cases hs
    · intro u v huv
      refine Set.disjoint_left.mpr fun x hx hx' => ?_
      exact Set.disjoint_left.mp (hdisj u hx.1 v hx'.1 huv) hx.2 hx'.2
  constructor
  · intro u hu x hx
    have heq := h.eqOn hapart u (show x ∈ {x | u < n ∧ x ∈ sees u} from ⟨hu, hx⟩)
    rwa [if_pos hu] at heq
  · intro x hx
    exact h.of_notMem hapart fun u hmem => hx u hmem.1 hmem.2

theorem exists_phase [Fintype ι] (p : ι → List (Assign α β)) (m : α → β) : ∃ n, Phase p m n := by
  obtain ⟨l, hl⟩ := exists_interleaves p
  exact ⟨run l m, l, hl, rfl⟩

end

end AiDeck.Lib.Cores
