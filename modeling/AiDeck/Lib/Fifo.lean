import AiDeck.Lib.Transition

/-! # Queues whose elements are filled and read in place

A bounded FIFO over slots `α` with values `β`. A slot is acquired by the producer,
becomes ready with the value it is committed with, is held by the consumer and is free
again. A full queue may drop its oldest ready element for a new slot. -/
namespace AiDeck.Lib

/-- How an element leaves the ready ones. -/
inductive Fate where
  | consumed
  | overwritten
  deriving DecidableEq, Repr

/-- The elements held by the consumer, the ready ones and the slots of the producer, each
oldest first. `removed` is the history: the values that were ready, with their fate. -/
structure Fifo (α β : Type) where
  consumed : List (α × β)
  ready : List (α × β)
  acquired : List α
  removed : List (β × Fate)

namespace Fifo

variable {α β : Type}

/-- The slots in use. -/
def slots (f : Fifo α β) : List α :=
  f.consumed.map Prod.fst ++ (f.ready.map Prod.fst ++ f.acquired)

def empty : Fifo α β := ⟨[], [], [], []⟩

/-- A call with its result and the value it is about. -/
inductive Event (α β : Type) where
  | acquire (overwrite : Bool) (slot : Option α)
  | fill (slot : α)
  | commit (slot : α) (value : β)
  | discard (slot : α)
  | peek (front : Option (α × β))
  | consume (front : Option (α × β))
  | release (slot : α) (value : β)

inductive Step (capacity : Nat) : Fifo α β → Event α β → Fifo α β → Prop
  | acquire {c r a l o s} (hroom : (slots ⟨c, r, a, l⟩).length < capacity)
      (hfree : s ∉ slots ⟨c, r, a, l⟩) :
    Step capacity ⟨c, r, a, l⟩ (.acquire o (some s)) ⟨c, r, a ++ [s], l⟩
  | overwrite {c x r a l s} (hfull : (slots ⟨c, x :: r, a, l⟩).length = capacity)
      (hfree : s ∉ slots ⟨c, r, a, l⟩) :
    Step capacity ⟨c, x :: r, a, l⟩ (.acquire true (some s))
      ⟨c, r, a ++ [s], l ++ [(x.2, .overwritten)]⟩
  | refuse {f o} (hfull : f.slots.length = capacity) (hkeep : o = false ∨ f.ready = []) :
    Step capacity f (.acquire o none) f
  | fill {f s} (hs : s ∈ f.acquired) : Step capacity f (.fill s) f
  | commit {c r a l s v} :
    Step capacity ⟨c, r, s :: a, l⟩ (.commit s v) ⟨c, r ++ [(s, v)], a, l⟩
  | discard {c r a l s} : Step capacity ⟨c, r, a ++ [s], l⟩ (.discard s) ⟨c, r, a, l⟩
  | peek {f} : Step capacity f (.peek f.ready.head?) f
  | consume {c x r a l} :
    Step capacity ⟨c, x :: r, a, l⟩ (.consume (some x))
      ⟨c ++ [x], r, a, l ++ [(x.2, .consumed)]⟩
  | starve {f} (hready : f.ready = []) : Step capacity f (.consume none) f
  | release {c r a l s v} :
    Step capacity ⟨(s, v) :: c, r, a, l⟩ (.release s v) ⟨c, r, a, l⟩

/-- The queue as a system. -/
def system (α β : Type) (capacity : Nat) : Labelled (Fifo α β) (Event α β) where
  init := empty
  step := Step capacity

/-! ## What the events say -/

/-- The value an event makes ready. -/
def Event.committed : Event α β → Option β
  | .commit _ v => some v
  | _ => none

/-- The value an event hands to the consumer. -/
def Event.consumed : Event α β → Option β
  | .consume x => x.map Prod.snd
  | _ => none

/-- The value the consumer gives back. -/
def Event.released : Event α β → Option β
  | .release _ v => some v
  | _ => none

def Event.commits (log : List (Event α β)) : List β := log.filterMap committed
def Event.consumes (log : List (Event α β)) : List β := log.filterMap consumed
def Event.releases (log : List (Event α β)) : List β := log.filterMap released

@[simp] theorem Event.commits_concat (log : List (Event α β)) (e : Event α β) :
    commits (log ++ [e]) = commits log ++ e.committed.toList := by
  cases h : e.committed <;> simp [commits, h]

@[simp] theorem Event.consumes_concat (log : List (Event α β)) (e : Event α β) :
    consumes (log ++ [e]) = consumes log ++ e.consumed.toList := by
  cases h : e.consumed <;> simp [consumes, h]

@[simp] theorem Event.releases_concat (log : List (Event α β)) (e : Event α β) :
    releases (log ++ [e]) = releases log ++ e.released.toList := by
  cases h : e.released <;> simp [releases, h]

/-- The values consumed, those overwritten left out. -/
def handed (l : List (β × Fate)) : List β :=
  (l.filter fun x => x.2 = .consumed).map Prod.fst

@[simp] theorem handed_consumed (l : List (β × Fate)) (v : β) :
    handed (l ++ [(v, .consumed)]) = handed l ++ [v] := by
  simp [handed]

@[simp] theorem handed_overwritten (l : List (β × Fate)) (v : β) :
    handed (l ++ [(v, .overwritten)]) = handed l := by
  simp [handed]

/-! ## Slots -/

/-- The slots in use are distinct and at most `capacity`. -/
structure Proper (capacity : Nat) (f : Fifo α β) : Prop where
  nodup : f.slots.Nodup
  length_le : f.slots.length ≤ capacity

theorem Proper.step {capacity : Nat} {f g : Fifo α β} {e : Event α β} (h : Proper capacity f)
    (hstep : Step capacity f e g) : Proper capacity g := by
  obtain ⟨hnodup, hlength⟩ := h
  cases hstep with
  | @acquire c r a l o s hroom hfree =>
    have hslots : slots ⟨c, r, a ++ [s], l⟩ = (slots ⟨c, r, a, l⟩).concat s := by
      simp [slots]
    constructor
    · rw [hslots]
      exact hnodup.concat hfree
    · rw [hslots, List.length_concat]
      exact hroom
  | @overwrite c x r a l s hfull hfree =>
    have hslots : slots ⟨c, r, a ++ [s], l ++ [(x.2, .overwritten)]⟩ =
      (slots ⟨c, r, a, l⟩).concat s := by simp [slots]
    have hsub : (slots ⟨c, r, a, l⟩).Sublist (slots ⟨c, x :: r, a, l⟩) :=
      (List.Sublist.refl _).append ((List.sublist_cons_self _ _).append (List.Sublist.refl _))
    constructor
    · rw [hslots]
      exact (hnodup.sublist hsub).concat hfree
    · rw [hslots, List.length_concat]
      simp only [slots, List.length_append, List.length_map, List.length_cons] at hfull ⊢
      omega
  | refuse _ _ => exact ⟨hnodup, hlength⟩
  | fill _ => exact ⟨hnodup, hlength⟩
  | @commit c r a l s v =>
    have hslots : slots ⟨c, r ++ [(s, v)], a, l⟩ = slots ⟨c, r, s :: a, l⟩ := by simp [slots]
    exact ⟨hslots ▸ hnodup, hslots ▸ hlength⟩
  | @discard c r a l s =>
    have hsub : (slots ⟨c, r, a, l⟩).Sublist (slots ⟨c, r, a ++ [s], l⟩) :=
      (List.Sublist.refl _).append ((List.Sublist.refl _).append (List.sublist_append_left _ _))
    exact ⟨hnodup.sublist hsub, hsub.length_le.trans hlength⟩
  | peek => exact ⟨hnodup, hlength⟩
  | @consume c x r a l =>
    have hslots : slots ⟨c ++ [x], r, a, l ++ [(x.2, .consumed)]⟩ =
      slots ⟨c, x :: r, a, l⟩ := by simp [slots]
    exact ⟨hslots ▸ hnodup, hslots ▸ hlength⟩
  | starve _ => exact ⟨hnodup, hlength⟩
  | @release c r a l s v =>
    have hsub : (slots ⟨c, r, a, l⟩).Sublist (slots ⟨(s, v) :: c, r, a, l⟩) :=
      List.sublist_cons_self _ _
    exact ⟨hnodup.sublist hsub, hsub.length_le.trans hlength⟩

theorem proper {capacity : Nat} {log : List (Event α β)} {f : Fifo α β}
    (h : (system α β capacity).Runs log f) : Proper capacity f :=
  h.invariant (P := fun _ f => Proper capacity f) ⟨List.nodup_nil, Nat.zero_le _⟩
    fun _ _ _ _ hf hstep => hf.step hstep

/-- A slot of the producer is neither ready nor held by the consumer. -/
theorem Proper.acquired {capacity : Nat} {f : Fifo α β} (h : Proper capacity f) {s : α}
    (hs : s ∈ f.acquired) : s ∉ f.ready.map Prod.fst ∧ s ∉ f.consumed.map Prod.fst := by
  obtain ⟨-, hrest, hdisjoint⟩ := List.nodup_append'.mp h.nodup
  obtain ⟨-, -, hready⟩ := List.nodup_append'.mp hrest
  exact ⟨fun hr => hready hr hs, fun hc => hdisjoint hc (List.mem_append_right _ hs)⟩

/-! ## Order -/

/-- The history agrees with the events: what was committed was removed, in order, or is
ready; what was removed without being overwritten was handed out; what was handed out was
given back or is held. -/
structure Accounted (log : List (Event α β)) (f : Fifo α β) : Prop where
  commits : Event.commits log = f.removed.map Prod.fst ++ f.ready.map Prod.snd
  consumes : Event.consumes log = handed f.removed
  releases : Event.consumes log = Event.releases log ++ f.consumed.map Prod.snd

/-- An event that moves no value. -/
theorem Accounted.quiet {log : List (Event α β)} {f g : Fifo α β} {e : Event α β}
    (h : Accounted log f) (hcommitted : e.committed = none) (hconsumed : e.consumed = none)
    (hreleased : e.released = none) (hc : g.consumed = f.consumed) (hr : g.ready = f.ready)
    (hl : g.removed = f.removed) : Accounted (log ++ [e]) g := by
  obtain ⟨hcommits, hconsumes, hreleases⟩ := h
  constructor
  · simpa [hcommitted, hr, hl] using hcommits
  · simpa [hconsumed, hl] using hconsumes
  · simpa [hconsumed, hreleased, hc] using hreleases

theorem Accounted.step {capacity : Nat} {log : List (Event α β)} {f g : Fifo α β}
    {e : Event α β} (h : Accounted log f) (hstep : Step capacity f e g) :
    Accounted (log ++ [e]) g := by
  cases hstep with
  | acquire _ _ => exact h.quiet rfl rfl rfl rfl rfl rfl
  | @overwrite c x r a l s _ _ =>
    refine ⟨?_, ?_, ?_⟩
    · simpa [Event.committed] using h.commits
    · simpa [Event.consumed] using h.consumes
    · simpa [Event.consumed, Event.released] using h.releases
  | refuse _ _ => exact h.quiet rfl rfl rfl rfl rfl rfl
  | fill _ => exact h.quiet rfl rfl rfl rfl rfl rfl
  | commit =>
    refine ⟨?_, ?_, ?_⟩
    · simp [Event.committed, h.commits]
    · simpa [Event.consumed] using h.consumes
    · simpa [Event.consumed, Event.released] using h.releases
  | discard => exact h.quiet rfl rfl rfl rfl rfl rfl
  | peek => exact h.quiet rfl rfl rfl rfl rfl rfl
  | consume =>
    refine ⟨?_, ?_, ?_⟩
    · simpa [Event.committed] using h.commits
    · simp [Event.consumed, h.consumes]
    · simp [Event.consumed, Event.released, h.releases]
  | starve _ => exact h.quiet rfl rfl rfl rfl rfl rfl
  | release =>
    refine ⟨?_, ?_, ?_⟩
    · simpa [Event.committed] using h.commits
    · simpa [Event.consumed] using h.consumes
    · simp [Event.consumed, Event.released, h.releases]

theorem accounted {capacity : Nat} {log : List (Event α β)} {f : Fifo α β}
    (h : (system α β capacity).Runs log f) : Accounted log f :=
  h.invariant (P := Accounted) ⟨rfl, rfl, rfl⟩ fun _ _ _ _ hf hstep => hf.step hstep

/-- Without overwriting nothing is lost. -/
theorem kept {capacity : Nat} {log : List (Event α β)} {f : Fifo α β}
    (h : (system α β capacity).Runs log f) (hlog : ∀ s, .acquire true s ∉ log) :
    Event.commits log = Event.consumes log ++ f.ready.map Prod.snd := by
  have hconsumed : ∀ x ∈ f.removed, x.2 = .consumed := by
    refine h.invariant (P := fun log f => (∀ s, .acquire true s ∉ log) →
      ∀ x ∈ f.removed, x.2 = .consumed) (fun _ _ hx => absurd hx List.not_mem_nil) ?_ hlog
    intro log f e g ih hstep hlog x hx
    have ih := ih fun s hs => hlog s (List.mem_append_left _ hs)
    cases hstep with
    | @overwrite c y r a l s _ _ =>
      exact absurd (List.mem_append_right _ (List.mem_singleton_self _)) (hlog (some s))
    | consume =>
      rcases List.mem_append.mp hx with hx | hx
      · exact ih x hx
      · rw [List.mem_singleton.mp hx]
    | _ => exact ih x hx
  have hall : handed f.removed = f.removed.map Prod.fst := by
    rw [handed, List.filter_eq_self.mpr]
    intro x hx
    simpa using hconsumed x hx
  rw [(accounted h).commits, (accounted h).consumes, hall]

end Fifo

end AiDeck.Lib
