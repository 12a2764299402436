import Mathlib

/-! # What becomes of captures

A history of captures into buffers: each one that completes is dropped or discarded at once, or
is ready until it is delivered or discarded. A delivery is fresh if its capture completed after
the consumer began to wait. -/
namespace AiDeck.Lib

inductive CaptureFate where
  | ready
  | delivered
  | dropped
  | discarded
  deriving DecidableEq, Repr

structure Completion (β : Type) where
  buffer : β
  fate : CaptureFate
  deriving DecidableEq

/-- What the consumer was given: a buffer, the place of its capture among the completed ones, and
how many of them there were when it began to wait. -/
structure Delivery (β : Type) where
  buffer : β
  capture : Option Nat
  waitingSince : Nat
  deriving DecidableEq

structure Captures (β : Type) where
  completions : List (Completion β)
  ready : Option Nat
  waitingSince : Nat
  deliveries : List (Delivery β)

namespace Captures

variable {β : Type}

def empty : Captures β := ⟨[], none, 0, []⟩

/-- The consumer begins to wait. -/
def wait (h : Captures β) : Captures β := { h with waitingSince := h.completions.length }

/-- A capture completes, and is ready. -/
def makeReady (h : Captures β) (buffer : β) : Captures β :=
  { h with
    completions := h.completions ++ [⟨buffer, .ready⟩]
    ready := some h.completions.length }

/-- A capture completes, and is dropped or discarded. -/
def complete (h : Captures β) (buffer : β) (fate : CaptureFate) : Captures β :=
  { h with completions := h.completions ++ [⟨buffer, fate⟩] }

/-- The completions with the fate of the ready one decided. -/
def decided (h : Captures β) (fate : CaptureFate) : List (Completion β) :=
  match h.ready with
  | none => h.completions
  | some i => h.completions.modify i fun c => { c with fate := fate }

/-- The consumer is given a buffer. -/
def deliver (h : Captures β) (buffer : β) : Captures β :=
  { h with
    completions := h.decided .delivered
    ready := none
    deliveries := h.deliveries ++ [⟨buffer, h.ready, h.waitingSince⟩] }

/-- The ready capture is given up. -/
def discard (h : Captures β) : Captures β :=
  { h with completions := h.decided .discarded, ready := none }

def dropped (h : Captures β) : Nat := h.completions.countP fun c => c.fate = .dropped

/-- The capture that is ready is in this buffer. -/
def ReadyIn (h : Captures β) (buffer : β) : Prop :=
  ∃ i, h.ready = some i ∧ h.completions[i]? = some ⟨buffer, .ready⟩

/-- A delivery of a capture into its buffer that completed after the consumer began to wait. -/
def Fresh (h : Captures β) (d : Delivery β) : Prop :=
  ∃ i, d.capture = some i ∧ d.waitingSince ≤ i ∧ h.completions[i]? = some ⟨d.buffer, .delivered⟩

structure Sound (h : Captures β) : Prop where
  began : h.waitingSince ≤ h.completions.length
  ready_iff : ∀ i, h.ready = some i ↔ ∃ buffer, h.completions[i]? = some ⟨buffer, .ready⟩
  since : ∀ i, h.ready = some i → h.waitingSince ≤ i
  fresh : ∀ d ∈ h.deliveries, h.Fresh d
  delivered : ∀ i buffer, h.completions[i]? = some ⟨buffer, .delivered⟩ →
    ∃ d ∈ h.deliveries, d.capture = some i
  once : (h.deliveries.map Delivery.capture).Nodup

theorem sound_empty : (empty : Captures β).Sound where
  began := Nat.le_refl _
  ready_iff i := by
    refine iff_of_false (by simp [empty]) ?_
    rintro ⟨buffer, h⟩
    cases h
  since i h := by cases h
  fresh d h := absurd h List.not_mem_nil
  delivered i buffer h := by cases h
  once := List.nodup_nil

/-! ## Completions -/

section
variable {h : Captures β} {buffer : β} {fate : CaptureFate}

theorem getElem?_concat {α : Type} {l : List α} {a x : α} {i : Nat} :
    (l ++ [a])[i]? = some x ↔ l[i]? = some x ∨ i = l.length ∧ a = x := by
  rcases Nat.lt_trichotomy i l.length with hi | rfl | hi
  · rw [List.getElem?_append_left hi]
    simp [hi.ne]
  · simp
  · rw [List.getElem?_eq_none (by simp; omega), List.getElem?_eq_none hi.le]
    simp [hi.ne']

/-- More completions keep the freshness of a delivery. -/
theorem Fresh.concat {d : Delivery β} {c : Completion β} {h' : Captures β} (hd : h.Fresh d)
    (hc : h'.completions = h.completions ++ [c]) : h'.Fresh d := by
  obtain ⟨i, hcapture, hsince, hi⟩ := hd
  refine ⟨i, hcapture, hsince, ?_⟩
  rw [hc, getElem?_concat]
  exact .inl hi

theorem Sound.wait (h' : h.Sound) (hready : h.ready = none) : h.wait.Sound where
  began := Nat.le_refl _
  ready_iff := h'.ready_iff
  since i hi := by
    have hi' : h.ready = some i := hi
    rw [hready] at hi'
    cases hi'
  fresh := h'.fresh
  delivered := h'.delivered
  once := h'.once

theorem Sound.complete (h' : h.Sound) (hfate : fate = .dropped ∨ fate = .discarded) :
    (h.complete buffer fate).Sound where
  began := h'.began.trans (by simp [Captures.complete])
  ready_iff i := by
    refine (h'.ready_iff i).trans ?_
    have hne : fate ≠ .ready := by rcases hfate with rfl | rfl <;> decide
    simp only [Captures.complete, getElem?_concat, Completion.mk.injEq, hne, and_false, or_false]
  since := h'.since
  fresh d hd := (h'.fresh d hd).concat rfl
  delivered i b hi := by
    have hne : fate ≠ .delivered := by rcases hfate with rfl | rfl <;> decide
    simp only [Captures.complete, getElem?_concat, Completion.mk.injEq, hne, and_false,
      or_false] at hi
    exact h'.delivered i b hi
  once := h'.once

theorem Sound.makeReady (h' : h.Sound) (hready : h.ready = none) :
    (h.makeReady buffer).Sound where
  began := h'.began.trans (by simp [Captures.makeReady])
  ready_iff i := by
    have hnone : ∀ b, h.completions[i]? ≠ some ⟨b, .ready⟩ := by
      intro b hb
      have hi := (h'.ready_iff i).mpr ⟨b, hb⟩
      rw [hready] at hi
      cases hi
    simp only [Captures.makeReady, getElem?_concat, hnone, false_or, Completion.mk.injEq, and_true,
      Option.some.injEq]
    exact ⟨fun hi => ⟨buffer, hi.symm, rfl⟩, fun ⟨_, hi, _⟩ => hi.symm⟩
  since i hi := Option.some.inj hi ▸ h'.began
  fresh d hd := (h'.fresh d hd).concat rfl
  delivered i b hi := by
    simp only [Captures.makeReady, getElem?_concat, Completion.mk.injEq, reduceCtorEq, and_false,
      or_false] at hi
    exact h'.delivered i b hi
  once := h'.once

theorem readyIn_makeReady (h : Captures β) (buffer : β) : (h.makeReady buffer).ReadyIn buffer :=
  ⟨h.completions.length, rfl, getElem?_concat.mpr (.inr ⟨rfl, rfl⟩)⟩

theorem ReadyIn.complete {b : β} (h' : h.ReadyIn b) : (h.complete buffer fate).ReadyIn b := by
  obtain ⟨i, hready, hi⟩ := h'
  exact ⟨i, hready, getElem?_concat.mpr (.inl hi)⟩

/-! ## Decisions -/

/-- Only the ready completion is changed. -/
theorem getElem?_decided {i j : Nat} (hready : h.ready = some i)
    (hi : h.completions[i]? = some ⟨buffer, .ready⟩) {c : Completion β} :
    (h.decided fate)[j]? = some c ↔
      if j = i then c = ⟨buffer, fate⟩ else h.completions[j]? = some c := by
  simp only [decided, hready, List.getElem?_modify]
  by_cases hj : j = i
  · subst hj
    simp [hi, eq_comm]
  · simp [hj, Ne.symm hj]

theorem Sound.decided_ready (h' : h.Sound) (hr : h.ReadyIn buffer) (hfate : fate ≠ .ready)
    (i : Nat) : ¬ ∃ b, (h.decided fate)[i]? = some ⟨b, .ready⟩ := by
  obtain ⟨k, hready, hk⟩ := hr
  rintro ⟨b, hb⟩
  rw [getElem?_decided hready hk] at hb
  by_cases hi : i = k
  · rw [if_pos hi] at hb
    exact hfate (Completion.mk.inj hb).2.symm
  · rw [if_neg hi] at hb
    have hi' := (h'.ready_iff i).mpr ⟨b, hb⟩
    rw [hready] at hi'
    exact hi (Option.some.inj hi').symm

/-- What was delivered stays so. -/
theorem decided_delivered (fate : CaptureFate) (hr : h.ReadyIn buffer) {i : Nat} {b : β}
    (hi : h.completions[i]? = some ⟨b, .delivered⟩) :
    h.ready ≠ some i ∧ (h.decided fate)[i]? = some ⟨b, .delivered⟩ := by
  obtain ⟨k, hready, hk⟩ := hr
  have hne : i ≠ k := by
    rintro rfl
    rw [hi] at hk
    cases hk
  refine ⟨fun heq => hne (Option.some.inj (heq.symm.trans hready)), ?_⟩
  rw [getElem?_decided hready hk, if_neg hne]
  exact hi

theorem length_decided (h : Captures β) (fate : CaptureFate) :
    (h.decided fate).length = h.completions.length := by
  unfold decided
  cases h.ready with
  | none => rfl
  | some i => exact List.length_modify _ _ _

theorem Sound.discard (h' : h.Sound) (hr : h.ReadyIn buffer) : h.discard.Sound where
  began := h'.began.trans (length_decided h .discarded).ge
  ready_iff i := iff_of_false (by simp [Captures.discard])
    (h'.decided_ready hr (by decide) i)
  since i hi := by cases hi
  fresh d hd := by
    obtain ⟨i, hcapture, hsince, hi⟩ := h'.fresh d hd
    exact ⟨i, hcapture, hsince, (decided_delivered _ hr hi).2⟩
  delivered i b hi := by
    obtain ⟨k, hready, hk⟩ := hr
    have hi' : (h.decided .discarded)[i]? = some ⟨b, .delivered⟩ := hi
    rw [getElem?_decided hready hk] at hi'
    by_cases heq : i = k
    · rw [if_pos heq] at hi'
      cases hi'
    · rw [if_neg heq] at hi'
      exact h'.delivered i b hi'
  once := h'.once

/-- The ready capture is delivered fresh, and not a second time. -/
theorem Sound.deliver (h' : h.Sound) (hr : h.ReadyIn buffer) : (h.deliver buffer).Sound where
  began := h'.began.trans (length_decided h .delivered).ge
  ready_iff i := iff_of_false (by simp [Captures.deliver])
    (h'.decided_ready hr (by decide) i)
  since i hi := by cases hi
  fresh d hd := by
    obtain hd | hd := List.mem_append.mp hd
    · obtain ⟨i, hcapture, hsince, hi⟩ := h'.fresh d hd
      exact ⟨i, hcapture, hsince, (decided_delivered _ hr hi).2⟩
    · obtain rfl := List.mem_singleton.mp hd
      obtain ⟨k, hready, hk⟩ := hr
      refine ⟨k, hready, h'.since k hready, ?_⟩
      exact (getElem?_decided hready hk).mpr (by rw [if_pos rfl])
  delivered i b hi := by
    obtain ⟨k, hready, hk⟩ := hr
    have hi' : (h.decided .delivered)[i]? = some ⟨b, .delivered⟩ := hi
    rw [getElem?_decided hready hk] at hi'
    by_cases heq : i = k
    · exact ⟨_, List.mem_append_right _ (List.mem_singleton_self _), hready.trans (heq ▸ rfl)⟩
    · rw [if_neg heq] at hi'
      obtain ⟨d, hd, hcapture⟩ := h'.delivered i b hi'
      exact ⟨d, List.mem_append_left _ hd, hcapture⟩
  once := by
    have hnew : h.ready ∉ h.deliveries.map Delivery.capture := by
      intro hmem
      obtain ⟨d, hd, hcapture⟩ := List.mem_map.mp hmem
      obtain ⟨i, hi, -, hcompletion⟩ := h'.fresh d hd
      exact (decided_delivered .delivered hr hcompletion).1 (hcapture.symm.trans hi)
    show ((h.deliveries ++ [_]).map Delivery.capture).Nodup
    rw [List.map_append, List.map_singleton, ← List.concat_eq_append]
    exact h'.once.concat hnew

end

/-! ## Drops -/

theorem dropped_complete (h : Captures β) (buffer : β) (fate : CaptureFate) :
    (h.complete buffer fate).dropped = h.dropped + if fate = .dropped then 1 else 0 := by
  simp [dropped, complete, List.countP_append, List.countP_cons]

theorem dropped_makeReady (h : Captures β) (buffer : β) :
    (h.makeReady buffer).dropped = h.dropped := by
  simp [dropped, makeReady, List.countP_append]

/-- The ready completion was not dropped, and it is not by what it becomes. -/
theorem countP_decided {h : Captures β} {buffer : β} {fate : CaptureFate} (hr : h.ReadyIn buffer)
    (hfate : fate ≠ .dropped) :
    (h.decided fate).countP (fun c => c.fate = .dropped) = h.dropped := by
  obtain ⟨i, hready, hi⟩ := hr
  obtain ⟨hlt, hget⟩ := List.getElem?_eq_some_iff.mp hi
  have hsplit : h.completions = h.completions.take i ++ h.completions[i] ::
      h.completions.drop (i + 1) := by
    rw [← List.drop_eq_getElem_cons hlt, List.take_append_drop]
  have hcount := congrArg (List.countP fun c => decide (c.fate = .dropped)) hsplit
  simp only [decided, hready, dropped]
  rw [hcount, List.modify_eq_take_cons_drop hlt, hget]
  simp [List.countP_append, hfate]

theorem dropped_deliver {h : Captures β} {buffer : β} (hr : h.ReadyIn buffer) :
    (h.deliver buffer).dropped = h.dropped := countP_decided hr (by decide)

theorem dropped_discard {h : Captures β} {buffer : β} (hr : h.ReadyIn buffer) :
    h.discard.dropped = h.dropped := countP_decided hr (by decide)

end Captures

end AiDeck.Lib
