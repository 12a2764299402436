import AiDeck.Queues.AsyncInvariant

/-! # Signals of the asynchronous queue

Events carry no count. A callback that was pending before a side began to wait wakes it
although there is nothing to take, and a discarded slot wakes nobody. -/
namespace AiDeck.Queues
open AiDeck.Lib AiDeck.Coroutine

variable {Task : Type}

/-! ## No wake-up without an element -/

/-- There is something to take when a side that waits is woken, and a call that does not
wait leaves something to a side that has been woken. -/
def Timely (s : AsyncSystem Task) : AsyncAction Task → Prop
  | .schedule => ∀ d : Side, s.rt.queue.head? = some (.task (.event d)) → s.el d ≠ 0 →
      0 < s.q.available d
  | .acquire _ _ => ¬ (s.el .push ≠ 0 ∧ s.rt.eventDone .push = true ∧ s.q.available .push = 1)
  | .consume _ _ => ¬ (s.el .pop ≠ 0 ∧ s.rt.eventDone .pop = true ∧ s.q.available .pop = 1)
  | _ => True

instance Timely.decidable [DecidableEq Task] (s : AsyncSystem Task) (a : AsyncAction Task) :
    Decidable (Timely s a) :=
  match a with
  | .schedule => inferInstanceAs (Decidable (∀ d : Side,
      s.rt.queue.head? = some (.task (.event d)) → s.el d ≠ 0 → 0 < s.q.available d))
  | .acquire _ _ => inferInstanceAs (Decidable
      (¬ (s.el .push ≠ 0 ∧ s.rt.eventDone .push = true ∧ s.q.available .push = 1)))
  | .consume _ _ => inferInstanceAs (Decidable
      (¬ (s.el .pop ≠ 0 ∧ s.rt.eventDone .pop = true ∧ s.q.available .pop = 1)))
  | .commit _ => inferInstanceAs (Decidable True)
  | .discard _ => inferInstanceAs (Decidable True)
  | .release _ => inferInstanceAs (Decidable True)

/-- A side that waits and has been woken has something to take. -/
def SideView.Safe (v : SideView) : Prop :=
  v.waiting = true → v.signalled = true → 0 < v.available

theorem Effect.safe {s : AsyncSystem Task} {a : AsyncAction Task} {d : Side}
    {v : SideView} (h : (s.view d).Safe) (htimely : Timely s a)
    (heffect : Effect s a d (s.view d) v) : v.Safe := by
  cases heffect with
  | keep => exact h
  | take ha hsome =>
    intro hwaiting hsignalled
    have hnotOne : (s.view d).available ≠ 1 := by
      intro hone
      have hel : s.el d ≠ 0 := by simpa [AsyncSystem.view] using hwaiting
      cases a with
      | acquire =>
        obtain rfl := Option.some.inj ha
        exact htimely ⟨hel, hsignalled, hone⟩
      | consume =>
        obtain rfl := Option.some.inj ha
        exact htimely ⟨hel, hsignalled, hone⟩
      | _ => cases ha
    have hmore : 0 < (s.view d).available - 1 := by omega
    exact hmore
  | wait _ _ =>
    intro _ hsignalled
    cases hsignalled
  | free => exact fun _ _ => Nat.succ_pos _
  | discard _ _ => exact fun _ _ => Nat.succ_pos _
  | callback ha hq =>
    intro hwaiting _
    subst ha
    exact htimely d (by rw [hq]; rfl) (by simpa [AsyncSystem.view] using hwaiting)
  | finish _ _ _ =>
    intro hwaiting
    cases hwaiting

/-- A side that waits for its call, with all earlier ones completed, or one that does not. -/
def AllCompleted (s : AsyncSystem Task) (d : Side) : Prop :=
  (s.el d = 0 ∧ s.asked d = (s.completed d).map Prod.fst) ∨
    (s.el d ≠ 0 ∧ ∃ t, s.rt.doneTask d = some (.other t) ∧
      s.asked d = (s.completed d).map Prod.fst ++ [t])

theorem Caller.allCompleted {s : AsyncSystem Task} {home : Side → Home Side Empty} {d : Side}
    (h : Caller home s d) : AllCompleted s d := by
  cases h with
  | rest _ hel hasked => exact .inl ⟨hel, hasked⟩
  | waits t hel hdone _ hasked _ => exact .inr ⟨hel, t, hdone, hasked⟩

/-- **No wake-up without an element.** In every run whose actions are timely no assertion
is reached: every action succeeds. The asynchronous calls have completed, in order, but
for the one that waits; each has stored an element, and the `done_task`s pushed are those
of the completed calls, once each. -/
theorem reachable_timely {capacity : Nat} (hcapacity : 1 ≤ capacity)
    {s : AsyncSystem Task} (h : (asyncQueue Task capacity Timely).Reachable s) :
    (∀ a : AsyncAction Task, a.Enabled s → Timely s a → ∃ t, a.run s = .ok t) ∧
      (∀ d, AllCompleted s d) ∧ (∀ d, ∀ x ∈ s.completed d, x.2 ≠ 0) ∧
      s.pushed.Perm s.doneTasks := by
  obtain ⟨⟨home, W, hinv⟩, hsafe⟩ := reachable_asyncInv hcapacity (P := fun _ v => v.Safe) h
    (fun _ _ hrest hwaiting => by rw [hrest] at hwaiting; cases hwaiting)
    (fun _ _ d _ hP htimely heffect => heffect.safe (hP d) htimely)
  refine ⟨?_, fun d => (hinv.caller d).allCompleted, hinv.values, hinv.pushed⟩
  intro a ha _
  rcases hinv.step ha with ⟨t, hok, -⟩ | ⟨d, hstale, -, -⟩
  · exact ⟨t, hok⟩
  · have hsome := hsafe d (by simpa [AsyncSystem.view] using hstale.waiting) hstale.signalled
    exact absurd hstale.none hsome.ne'

/-- A queue of one slot just initialised. -/
def AsyncSystem.fresh : AsyncSystem Nat :=
  { rt := coEventInit (coEventPush (coEventInit .zero queueFree) queueFree) queueReady
    q := Queue.empty 1 4 16, el := fun _ => 0, vars := fun _ => 0, ran := [], asked := fun _ => []
    completed := fun _ => [] }

theorem AsyncSystem.fresh_started : fresh.Started 1 :=
  ⟨.zero, fun _ => 0, 4, 16, Runtime.zero_initial, rfl⟩

/-- A run given by its actions. -/
def AsyncSystem.follow (cond : AsyncSystem Nat → AsyncAction Nat → Prop)
    [∀ s a, Decidable (cond s a)] (s : AsyncSystem Nat) (l : List (AsyncAction Nat)) :
    Option (AsyncSystem Nat) :=
  Transition.follow (fun s a => AsyncAction.Enabled s a ∧ cond s a) AsyncAction.run s l

theorem AsyncSystem.follow_reachable {cond : AsyncSystem Nat → AsyncAction Nat → Prop}
    [∀ s a, Decidable (cond s a)] {l : List (AsyncAction Nat)} {t : AsyncSystem Nat}
    (hf : fresh.follow cond l = some t) : (asyncQueue Nat 1 cond).Reachable t :=
  Transition.Reachable.follow _ _ (.init fresh_started)
    (fun _ a _ ha hok => ⟨a, ha.1, ha.2, hok⟩) hf

/-- A consumer waits, is woken by a commit and has its element. -/
theorem reachable_timely_woken : ∃ s : AsyncSystem Nat,
    s.completed .pop = [(2, 16)] ∧ s.asked .pop = [2] ∧ s.pushed.Perm s.doneTasks := by
  have hrun : (AsyncSystem.fresh.follow Timely [.consume 200 (some 2), .acquire 100 (some 1),
      .schedule, .schedule, .commit 16, .schedule, .schedule, .schedule]).map
      (fun s => (s.completed .pop, s.asked .pop)) = some ([(2, 16)], [2]) := by decide
  obtain ⟨s, hs, hvalues⟩ := Option.map_eq_some_iff.mp hrun
  obtain ⟨hcompleted, hasked⟩ := Prod.mk.inj hvalues
  exact ⟨s, hcompleted, hasked,
    (reachable_timely le_rfl (AsyncSystem.follow_reachable hs)).2.2.2⟩

/-- The consumer polls the element away while `queue_ready` is pending and then waits: the
pending callback wakes its coroutine, which finds no element. -/
theorem stale_queueReady : ∃ s : AsyncSystem Nat,
    (asyncQueue Nat 1 fun _ _ => True).Reachable s ∧ AsyncAction.Enabled s .schedule ∧
      AsyncAction.run s .schedule =
        .error (.assertion "queue_ready asserted but queue is empty\n") := by
  have hrun : (AsyncSystem.fresh.follow (fun _ _ => True) [.schedule, .acquire 100 (some 1),
      .commit 16, .consume 200 none, .release 16, .consume 200 (some 2), .schedule, .schedule,
      .schedule, .schedule]).map
      (fun s => (s.rt.queue.isEmpty, Transition.failure (AsyncAction.run s .schedule))) =
      some (false, some (.assertion "queue_ready asserted but queue is empty\n")) := by decide
  obtain ⟨s, hs, hvalues⟩ := Option.map_eq_some_iff.mp hrun
  obtain ⟨hqueue, hfails⟩ := Prod.mk.inj hvalues
  exact ⟨s, AsyncSystem.follow_reachable hs, hqueue, Transition.failure_eq hfails⟩

/-! ## No lost wake-up -/

/-- A slot is not discarded while the producer waits with no signal of a free slot to
come. -/
def Signalled (s : AsyncSystem Task) : AsyncAction Task → Prop
  | .discard _ => s.el .push ≠ 0 → s.rt.eventDone queueFree = true ∨
      0 < s.rt.queue.countP (isCallbackOf queueFree)
  | _ => True

instance Signalled.decidable (s : AsyncSystem Task) (a : AsyncAction Task) :
    Decidable (Signalled s a) :=
  match a with
  | .discard _ => inferInstanceAs (Decidable (s.el .push ≠ 0 →
      s.rt.eventDone queueFree = true ∨ 0 < s.rt.queue.countP (isCallbackOf queueFree)))
  | .acquire _ _ => inferInstanceAs (Decidable True)
  | .consume _ _ => inferInstanceAs (Decidable True)
  | .commit _ => inferInstanceAs (Decidable True)
  | .release _ => inferInstanceAs (Decidable True)
  | .schedule => inferInstanceAs (Decidable True)

/-- A side that waits has been woken or will be, or there is nothing to take. -/
def SideView.Wakeable (v : SideView) : Prop :=
  v.waiting = true → v.signalled = true ∨ 0 < v.pending ∨ v.available = 0

theorem Effect.wakeable {s : AsyncSystem Task} {a : AsyncAction Task}
    {d : Side} {v : SideView} (h : (s.view d).Wakeable) (hsignalled : Signalled s a)
    (heffect : Effect s a d (s.view d) v) : v.Wakeable := by
  cases heffect with
  | keep => exact h
  | take _ hsome =>
    intro hwaiting
    rcases h hwaiting with hs | hp | hnone
    · exact .inl hs
    · exact .inr (.inl hp)
    · exact absurd hnone hsome.ne'
  | wait _ hnone => exact fun _ => .inr (.inr hnone)
  | free => exact fun _ => .inr (.inl (Nat.succ_pos _))
  | discard ha hd =>
    intro hwaiting
    subst ha hd
    exact (hsignalled (by simpa [AsyncSystem.view] using hwaiting)).imp_right .inl
  | callback _ _ => exact fun _ => .inl rfl
  | finish _ _ _ =>
    intro hwaiting
    cases hwaiting

/-- A waiting side whose event is done has its coroutine in the queue of the scheduler. -/
theorem AsyncInv.woken {s : AsyncSystem Task} {home : Side → Home Side Empty}
    {W : Side → List Side} {d : Side} (h : AsyncInv home W s) (hel : s.el d ≠ 0)
    (hdone : s.rt.eventDone d = true) : .resume d ∈ s.rt.queue := by
  have hqueued : home d = .queued := by
    cases h.caller d with
    | rest _ hzero _ => exact absurd hzero hel
    | waits _ _ _ _ _ hplace =>
      cases hplace with
      | starting hh _ => exact hh
      | listed hh =>
        have hmem := (h.rt.waiting d d).mpr hh
        rw [h.rt.woken d hdone] at hmem
        cases hmem
      | resumed hh _ _ => exact hh
  obtain ⟨p, hp, hctx⟩ := List.mem_filterMap.mp ((h.rt.queued d).mpr hqueued)
  cases p with
  | resume c =>
    obtain rfl := Option.some.inj hctx
    exact hp
  | task _ => cases hctx

/-- **No lost wake-up.** In every run in which a discard does not free a slot behind the
back of a waiting producer: when no task is pending, an acquire waits only for a full queue
and a consume only for an empty one. -/
theorem reachable_signalled {capacity : Nat} (hcapacity : 1 ≤ capacity)
    {s : AsyncSystem Task} (h : (asyncQueue Task capacity Signalled).Reachable s)
    (hquiet : s.rt.queue = []) :
    (s.el .push ≠ 0 → s.q.Full) ∧ (s.el .pop ≠ 0 → s.q.count = 0) := by
  obtain ⟨⟨home, W, hinv⟩, hwakeable⟩ := reachable_asyncInv hcapacity
    (P := fun _ v => v.Wakeable) h
    (fun _ _ hrest hwaiting => by rw [hrest] at hwaiting; cases hwaiting)
    (fun _ _ d _ hP hsignalled heffect => heffect.wakeable (hP d) hsignalled)
  have hnone : ∀ d, s.el d ≠ 0 → s.q.available d = 0 := by
    intro d hel
    rcases hwakeable d (by simpa [AsyncSystem.view] using hel) with hs | hp | hn
    · have hmem := hinv.woken hel hs
      rw [hquiet] at hmem
      cases hmem
    · rw [show (s.view d).pending = s.rt.queue.countP (isCallbackOf d) from rfl, hquiet] at hp
      cases hp
    · exact hn
  refine ⟨fun hel => ?_, hnone .pop⟩
  obtain ⟨base, hq⟩ := hinv.queue
  have hbound := hq.bound
  have hzero := hnone .push hel
  simp only [Queue.available] at hzero
  unfold Queue.Full
  omega

/-- The producer waits, behind a full queue. -/
theorem reachable_signalled_full : ∃ s : AsyncSystem Nat,
    s.rt.queue = [] ∧ s.el .push = 200 ∧ s.q.Full := by
  have hrun : (AsyncSystem.fresh.follow Signalled [.schedule, .acquire 100 (some 1),
      .acquire 200 (some 2), .schedule, .schedule]).map
      (fun s => (s.rt.queue.isEmpty, s.el .push)) = some (true, 200) := by decide
  obtain ⟨s, hs, hvalues⟩ := Option.map_eq_some_iff.mp hrun
  obtain ⟨hqueue, hel⟩ := Prod.mk.inj hvalues
  have hquiet : s.rt.queue = [] := List.isEmpty_iff.mp hqueue
  have hfull := (reachable_signalled le_rfl (AsyncSystem.follow_reachable hs) hquiet).1
  exact ⟨s, hquiet, hel, hfull (hel ▸ by decide)⟩

/-- The producer discards its slot after its next acquire has begun to wait: nothing is
pending and the queue is empty, but the acquire waits. -/
theorem discard_unsignalled : ∃ s : AsyncSystem Nat,
    (asyncQueue Nat 1 fun _ _ => True).Reachable s ∧ s.rt.queue = [] ∧ s.el .push ≠ 0 ∧
      ¬ s.q.Full := by
  have hrun : (AsyncSystem.fresh.follow (fun _ _ => True) [.schedule, .acquire 100 (some 1),
      .acquire 200 (some 2), .discard 16, .schedule, .schedule]).map
      (fun s => (s.rt.queue.isEmpty, decide (s.el .push ≠ 0 ∧ ¬ s.q.Full))) =
      some (true, true) := by decide
  obtain ⟨s, hs, hvalues⟩ := Option.map_eq_some_iff.mp hrun
  obtain ⟨hqueue, hwaits⟩ := Prod.mk.inj hvalues
  have hwaits := of_decide_eq_true hwaits
  exact ⟨s, AsyncSystem.follow_reachable hs, List.isEmpty_iff.mp hqueue, hwaits.1, hwaits.2⟩

end AiDeck.Queues
