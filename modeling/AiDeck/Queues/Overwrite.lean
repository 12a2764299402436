import AiDeck.Queues.Refinement

/-! # Overwriting the oldest element

The users of a queue commit in the order in which they acquired, discard the newest slot
first and release in the order in which they consumed. Their calls pass all checks but
one: `queue_push_acquire` drops the oldest ready element as a consumer would, and fails
when the consumer still holds an older one. -/
namespace AiDeck.Queues
open AiDeck.Lib AiDeck.Coroutine

/-! ## A full queue -/

theorem queuePopRelease_outOfOrder {q : Queue} {el : Address} (hlt : q.startConsume < q.capacity)
    (hcount : q.countConsume ≠ 0) (hne : el ≠ q.slot q.startConsume) :
    queuePopRelease q el = .error (.assertion "Attempt to release element out-of-order\n") := by
  rw [queuePopRelease, queueGetEl_ok hlt]
  exact (if_neg hcount).trans (if_pos hne)

namespace Queue.Consistent

variable {base : Nat} {q : Queue}

theorem queuePeek_ok (h : q.Consistent base) : ∃ el, queuePeek q = .ok el := by
  by_cases hcount : q.count = 0
  · exact ⟨0, if_pos hcount⟩
  · have hlt : q.start < q.capacity := h.start ▸ Nat.mod_lt _ h.capacity
    exact ⟨q.slot q.start, (if_neg hcount).trans (queueGetEl_ok hlt)⟩

theorem queuePopConsume_ready (h : q.Consistent base) (hcount : q.count ≠ 0) :
    queuePopConsume q = .ok (q.slot q.start, q.consumed) := by
  have hlt : q.start < q.capacity := h.start ▸ Nat.mod_lt _ h.capacity
  rw [queuePopConsume, queuePeek, if_neg hcount, queueGetEl_ok hlt]
  exact if_pos (Queue.slot_ne h.buffer _)

theorem queuePopConsume_ok (h : q.Consistent base) : ∃ x, queuePopConsume q = .ok x := by
  by_cases hcount : q.count = 0
  · refine ⟨(0, q), ?_⟩
    rw [queuePopConsume, queuePeek, if_pos hcount]
    rfl
  · exact ⟨_, h.queuePopConsume_ready hcount⟩

theorem queuePushNext_ok (h : q.Consistent base) (n : Nat) :
    queuePushNext q n = .ok (q.slot q.endAcq, q.acquired n) := by
  have hlt : q.endAcq < q.capacity := h.endAcq ▸ Nat.mod_lt _ h.capacity
  rw [queuePushNext, queueGetEl_ok hlt]
  rfl

/-- On a full queue with a ready element: consume, release, and hand out the slot. -/
theorem queuePushAcquire_full (h : q.Consistent base) (hfull : q.Full) (hcount : q.count ≠ 0) :
    queuePushAcquire q true =
      (queuePopRelease q.consumed (q.slot q.start)).bind fun q' =>
        queuePushNext q' ((q.endAcq + 1) % q.capacity) := by
  have hacquire : queuePushAcquire q true = (queuePopConsume q).bind fun popped =>
      (queuePopRelease popped.2 popped.1).bind fun q' =>
        queuePushNext q' ((q.endAcq + 1) % q.capacity) :=
    (if_pos hfull).trans (if_neg hcount)
  rw [hacquire, h.queuePopConsume_ready hcount]
  rfl

/-- In a full queue the next slot is the first ready one, if the consumer holds none. -/
theorem endAcq_full (h : q.Consistent base) (hfull : q.Full) (hconsume : q.countConsume = 0) :
    q.endAcq = q.start := by
  unfold Full at hfull
  rw [h.endAcq, h.start, show base + q.countConsume + q.count + q.countAcq =
    base + q.countConsume + q.capacity by omega, Nat.add_mod_right]

/-- With nothing held by the consumer, the oldest ready element is dropped for its slot. -/
theorem queuePushAcquire_evicts (h : q.Consistent base) (hfull : q.Full) (hcount : q.count ≠ 0)
    (hconsume : q.countConsume = 0) :
    queuePushAcquire q true = .ok (q.slot q.start,
      q.consumed.released.acquired ((q.endAcq + 1) % q.capacity)) := by
  have hstart : q.startConsume = q.start := by
    rw [h.startConsume, h.start, hconsume, Nat.add_zero]
  have hrelease : queuePopRelease q.consumed (q.slot q.start) = .ok q.consumed.released := by
    rw [← hstart]
    exact (h.consumed hcount).queuePopRelease_ok (Nat.succ_ne_zero _)
  have hnext := ((h.consumed hcount).released (Nat.succ_ne_zero _)).queuePushNext_ok
    ((q.endAcq + 1) % q.capacity)
  rw [h.queuePushAcquire_full hfull hcount, hrelease]
  refine hnext.trans ?_
  change Except.ok (q.slot q.endAcq, _) = Except.ok (q.slot q.start, _)
  rw [h.endAcq_full hfull hconsume]

/-- With an element held by the consumer, the release is out of order. -/
theorem queuePushAcquire_clash (h : q.Consistent base) (helSize : 0 < q.elSize) (hfull : q.Full)
    (hcount : q.count ≠ 0) (hconsume : q.countConsume ≠ 0) :
    queuePushAcquire q true =
      .error (.assertion "Attempt to release element out-of-order\n") := by
  have hlt : q.startConsume < q.capacity := h.startConsume ▸ Nat.mod_lt _ h.capacity
  have hne : q.slot q.start ≠ q.slot q.startConsume := fun heq =>
    hconsume (h.consume_empty helSize hcount heq)
  have hrelease : queuePopRelease q.consumed (q.slot q.start) =
      .error (.assertion "Attempt to release element out-of-order\n") :=
    queuePopRelease_outOfOrder hlt (Nat.succ_ne_zero q.countConsume) hne
  rw [h.queuePushAcquire_full hfull hcount, hrelease]
  rfl

theorem queuePushAcquire_ok (h : q.Consistent base) {overwrite : Bool}
    (hfree : ¬ (overwrite = true ∧ q.Full ∧ q.count ≠ 0 ∧ q.countConsume ≠ 0)) :
    ∃ x, queuePushAcquire q overwrite = .ok x := by
  by_cases hfull : q.Full
  · cases overwrite with
    | false => exact ⟨(0, q), if_pos hfull⟩
    | true =>
      by_cases hcount : q.count = 0
      · refine ⟨(0, q), ?_⟩
        exact (if_pos hfull).trans (if_pos hcount)
      · have hconsume : q.countConsume = 0 := by
          by_contra hne
          exact hfree ⟨rfl, hfull, hcount, hne⟩
        exact ⟨_, h.queuePushAcquire_evicts hfull hcount hconsume⟩
  · exact ⟨_, (if_neg hfull).trans (h.queuePushNext_ok _)⟩

end Queue.Consistent

/-! ## The users -/

/-- The clients of a queue, with the elements that were consumed and not released, oldest
first. -/
structure Users where
  client : Client
  taken : List Address

/-- A call, with the element that is given back, or a write of the producer. -/
inductive UserCall where
  | acquire (overwrite : Bool)
  | write (el : Address) (i : Nat) (b : UInt8)
  | commit (el : Address)
  | discard (el : Address)
  | peek
  | consume
  | release (el : Address)

/-- What is given back, and in which order. -/
def UserCall.InOrder (u : Users) : UserCall → Prop
  | write el i _ => el ∈ u.client.held ∧ i < u.client.q.elSize
  | commit el => u.client.held.head? = some el
  | discard el => u.client.held.getLast? = some el
  | release el => u.taken.head? = some el
  | _ => True

def UserCall.run (u : Users) : UserCall → Except Stop Users
  | acquire overwrite => do
    let x ← queuePushAcquire u.client.q overwrite
    return ⟨⟨x.2, u.client.mem, u.client.held ++ (pointer x.1).toList⟩, u.taken⟩
  | write el i b =>
    return ⟨⟨u.client.q, Function.update u.client.mem (el + i) b, u.client.held⟩, u.taken⟩
  | commit el => do
    let q ← queuePushCommit u.client.q el
    return ⟨⟨q, u.client.mem, u.client.held.erase el⟩, u.taken⟩
  | discard el => do
    let q ← queuePushDiscard u.client.q el
    return ⟨⟨q, u.client.mem, u.client.held.erase el⟩, u.taken⟩
  | peek => do
    let _ ← queuePeek u.client.q
    return u
  | consume => do
    let x ← queuePopConsume u.client.q
    return ⟨⟨x.2, u.client.mem, u.client.held⟩, u.taken ++ (pointer x.1).toList⟩
  | release el => do
    let q ← queuePopRelease u.client.q el
    return ⟨⟨q, u.client.mem, u.client.held⟩, u.taken.erase el⟩

/-- An overwriting acquire on a full queue with a ready element, while the consumer holds
one. -/
def UserCall.Clashes (u : Users) : UserCall → Prop
  | acquire overwrite => overwrite = true ∧ u.client.q.Full ∧ queueGetCount u.client.q ≠ 0 ∧
      u.taken ≠ []
  | _ => False

/-- The users of a queue just initialised. -/
def users (q : Queue) (mem : Nat → UInt8) : Transition Users where
  init u := u = ⟨⟨q, mem, []⟩, []⟩
  step u t := ∃ o : UserCall, o.InOrder u ∧ o.run u = .ok t

/-! ## The users and the FIFO -/

/-- The elements of the consumer after a call. -/
def takes (taken : List Address) : Call → List Address
  | .consume x => taken ++ (x.map Prod.fst).toList
  | .release el _ => taken.erase el
  | _ => taken

theorem takes_step {capacity : Nat} {f f' : Fifo Address (List UInt8)} {e : Call}
    (h : Fifo.Step capacity f e f') :
    f'.consumed.map Prod.fst = takes (f.consumed.map Prod.fst) e := by
  cases h with
  | consume => simp [takes]
  | starve => simp [takes]
  | release => simp [takes]
  | _ => rfl

/-- A call that succeeds is a step of the clients. -/
theorem UserCall.run_step {u t : Users} {o : UserCall} (horder : o.InOrder u) (h : o.run u = .ok t) :
    ∃ e, Client.Step u.client e t.client ∧ t.taken = takes u.taken e := by
  cases o with
  | acquire overwrite =>
    obtain ⟨x, hx, hreturn⟩ := bind_ok h
    obtain rfl := Except.ok.inj hreturn
    exact ⟨_, .acquire hx, rfl⟩
  | write el i b =>
    obtain rfl := Except.ok.inj h
    exact ⟨_, .write horder.1 horder.2, rfl⟩
  | commit el =>
    obtain ⟨q, hq, hreturn⟩ := bind_ok h
    obtain rfl := Except.ok.inj hreturn
    exact ⟨_, .commit hq, rfl⟩
  | discard el =>
    obtain ⟨q, hq, hreturn⟩ := bind_ok h
    obtain rfl := Except.ok.inj hreturn
    exact ⟨_, .discard hq, rfl⟩
  | peek =>
    obtain ⟨el, hel, hreturn⟩ := bind_ok h
    obtain rfl := Except.ok.inj hreturn
    exact ⟨_, .peek hel, rfl⟩
  | consume =>
    obtain ⟨x, hx, hreturn⟩ := bind_ok h
    obtain rfl := Except.ok.inj hreturn
    refine ⟨_, .consume hx, ?_⟩
    simp [takes, Client.front, Function.comp_def]
  | release el =>
    obtain ⟨q, hq, hreturn⟩ := bind_ok h
    obtain rfl := Except.ok.inj hreturn
    exact ⟨_, .release hq, rfl⟩

/-- The queue and the memory hold a FIFO whose consumed elements the consumer holds. -/
structure Users.Holds (base : Nat) (u : Users) (f : Fifo Address (List UInt8)) : Prop where
  represents : Represents base u.client f
  taken : u.taken = f.consumed.map Prod.fst

namespace Users.Holds

variable {base : Nat} {u t : Users} {f : Fifo Address (List UInt8)} {o : UserCall} {el : Address}

theorem step (h : u.Holds base f) (horder : o.InOrder u) (hok : o.run u = .ok t) :
    ∃ f' base', t.Holds base' f' := by
  obtain ⟨e, hstep, htaken⟩ := o.run_step horder hok
  obtain ⟨-, f', base', hfifo, hrep⟩ := h.represents.step hstep
  exact ⟨f', base', hrep, by rw [htaken, h.taken, takes_step hfifo]⟩

theorem countConsume (h : u.Holds base f) : u.client.q.countConsume = u.taken.length := by
  rw [h.taken, h.represents.consumed, Queue.window_length]

/-- The oldest slot of the producer is the next to be committed. -/
theorem first_held (h : u.Holds base f) (hel : u.client.held.head? = some el) :
    u.client.q.countAcq ≠ 0 ∧ el = u.client.q.slot u.client.q.endReady := by
  rw [h.represents.held, h.represents.acquired] at hel
  cases hcount : u.client.q.countAcq with
  | zero =>
    rw [hcount] at hel
    cases hel
  | succ n =>
    rw [hcount, Queue.window_cons, List.head?_cons, ← h.represents.consistent.endReady] at hel
    exact ⟨Nat.succ_ne_zero n, (Option.some.inj hel).symm⟩

/-- The newest slot of the producer is the one before the end. -/
theorem last_held (h : u.Holds base f) (hel : u.client.held.getLast? = some el) :
    u.client.q.countAcq ≠ 0 ∧ el = u.client.q.slot u.client.q.prevEndAcq := by
  rw [h.represents.held, h.represents.acquired] at hel
  cases hcount : u.client.q.countAcq with
  | zero =>
    rw [hcount] at hel
    cases hel
  | succ n =>
    have hprev := h.represents.consistent.prevEndAcq (hcount ▸ Nat.succ_ne_zero n)
    rw [hcount, Nat.succ_sub_one] at hprev
    rw [hcount, Queue.window_concat, List.getLast?_concat, ← hprev] at hel
    exact ⟨Nat.succ_ne_zero n, (Option.some.inj hel).symm⟩

/-- The oldest element of the consumer is the next to be released. -/
theorem first_taken (h : u.Holds base f) (hel : u.taken.head? = some el) :
    u.client.q.countConsume ≠ 0 ∧ el = u.client.q.slot u.client.q.startConsume := by
  rw [h.taken, h.represents.consumed] at hel
  cases hcount : u.client.q.countConsume with
  | zero =>
    rw [hcount] at hel
    cases hel
  | succ n =>
    rw [hcount, Queue.window_cons, List.head?_cons, ← h.represents.consistent.startConsume] at hel
    exact ⟨Nat.succ_ne_zero n, (Option.some.inj hel).symm⟩

/-- A call in order passes its checks, but for an acquire that clashes. -/
theorem passes (h : u.Holds base f) (horder : o.InOrder u) (hclear : ¬ o.Clashes u) :
    ∃ t, o.run u = .ok t := by
  have hq := h.represents.consistent
  cases o with
  | acquire overwrite =>
    obtain ⟨x, hx⟩ : ∃ x, queuePushAcquire u.client.q overwrite = .ok x := hq.queuePushAcquire_ok (by
      rintro ⟨hoverwrite, hfull, hcount, hconsume⟩
      refine hclear ⟨hoverwrite, hfull, hcount, ?_⟩
      rw [h.countConsume] at hconsume
      exact List.ne_nil_of_length_pos (Nat.pos_of_ne_zero hconsume))
    exact ⟨_, by rw [UserCall.run, hx]; rfl⟩
  | write el i b => exact ⟨_, rfl⟩
  | commit el =>
    obtain ⟨hcount, rfl⟩ := h.first_held horder
    exact ⟨_, by rw [UserCall.run, hq.queuePushCommit_ok hcount]; rfl⟩
  | discard el =>
    obtain ⟨hcount, rfl⟩ := h.last_held horder
    exact ⟨_, by rw [UserCall.run, hq.queuePushDiscard_ok hcount]; rfl⟩
  | peek =>
    obtain ⟨el, hel⟩ := hq.queuePeek_ok
    exact ⟨_, by rw [UserCall.run, hel]; rfl⟩
  | consume =>
    obtain ⟨x, hx⟩ := hq.queuePopConsume_ok
    exact ⟨_, by rw [UserCall.run, hx]; rfl⟩
  | release el =>
    obtain ⟨hcount, rfl⟩ := h.first_taken horder
    exact ⟨_, by rw [UserCall.run, hq.queuePopRelease_ok hcount]; rfl⟩

theorem clash_fails (h : u.Holds base f) (hclash : o.Clashes u) :
    o.run u = .error (.assertion "Attempt to release element out-of-order\n") := by
  cases o with
  | acquire overwrite =>
    obtain ⟨rfl, hfull, hcount, htaken⟩ := hclash
    have hconsume : u.client.q.countConsume ≠ 0 := by
      rw [h.countConsume]
      exact (List.length_pos_of_ne_nil htaken).ne'
    rw [UserCall.run, h.represents.consistent.queuePushAcquire_clash h.represents.elSize hfull hcount
      hconsume]
    rfl
  | _ => cases hclash

/-- The oldest ready element is dropped, its slot handed out. -/
theorem evicts (h : u.Holds base f) {x : Address × List UInt8} {r : List (Address × List UInt8)}
    (hfull : u.client.q.Full) (hready : f.ready = x :: r) (htaken : u.taken = []) :
    ∃ q, queuePushAcquire u.client.q true = .ok (x.1, q) ∧
      (⟨⟨q, u.client.mem, u.client.held ++ [x.1]⟩, []⟩ : Users).Holds (base + 1)
        ⟨[], r, f.acquired ++ [x.1], f.removed ++ [(x.2, .overwritten)]⟩ := by
  obtain ⟨consumed, ready, acquired, removed⟩ := f
  obtain rfl : ready = x :: r := hready
  obtain rfl : consumed = [] := List.map_eq_nil_iff.mp (h.taken ▸ htaken)
  have hconsume : u.client.q.countConsume = 0 := by
    rw [h.countConsume, htaken, List.length_nil]
  have hrep := h.represents
  have hconsistent := hrep.consistent
  have hcount : u.client.q.count ≠ 0 := fun hzero => by cases hrep.count_zero.mp hzero
  have hfirst : x.1 = u.client.q.slot u.client.q.start := by
    obtain ⟨n, hn⟩ := Nat.exists_eq_succ_of_ne_zero hcount
    have hwindow := hrep.ready
    rw [hn, Queue.window_cons, List.map_cons, ← hconsistent.start] at hwindow
    exact (List.cons.inj hwindow).1
  have hend : u.client.q.endAcq = u.client.q.start := hconsistent.endAcq_full hfull hconsume
  have hdropped := (hrep.consume rfl removed).release (l := removed ++ [(x.2, .overwritten)])
    (s := x.1) (v := x.2) (k := []) rfl
  have hroom : ¬ u.client.q.consumed.released.Full := by
    unfold Queue.Full at hfull ⊢
    simp only [Queue.released, Queue.consumed]
    omega
  have hacquired := hdropped.acquire hroom (removed ++ [(x.2, .overwritten)])
  refine ⟨_, hfirst ▸ hconsistent.queuePushAcquire_evicts hfull hcount hconsume, ?_, rfl⟩
  have hslot : u.client.q.consumed.released.slot u.client.q.consumed.released.endAcq = x.1 := by
    rw [hfirst, ← hend]
    rfl
  rw [hslot] at hacquired
  exact hacquired

end Users.Holds

/-! ## Runs -/

variable {capacity elSize : Nat} {buffer : Address} {q : Queue} {mem : Nat → UInt8} {u : Users}

theorem Users.reachable_holds (hcapacity : 1 ≤ capacity) (helSize : 1 ≤ elSize)
    (hinit : queueInit capacity elSize buffer = .ok q) (h : (users q mem).Reachable u) :
    ∃ f base, u.Holds base f := by
  obtain ⟨hbuffer, rfl⟩ := queueInit_eq hinit
  refine h.invariant (P := fun u => ∃ f base, u.Holds base f) (fun s hs => ?_)
    fun s t hs hstep => ?_
  · obtain rfl : s = _ := hs
    exact ⟨.empty, 0, .empty hcapacity helSize hbuffer mem, rfl⟩
  · obtain ⟨f, base, hholds⟩ := hs
    obtain ⟨o, horder, hok⟩ := hstep
    exact hholds.step horder hok

/-- **Overwriting fails exactly behind the consumer.** In every reachable state of users in
order, the queue and the memory hold a FIFO and a call passes its checks unless it is an
overwriting acquire on a full queue with a ready element, while an element is consumed and
not released. When nothing is consumed such an acquire drops the oldest ready element
and nothing else and returns its slot. -/
theorem overwrites_iff (hcapacity : 1 ≤ capacity) (helSize : 1 ≤ elSize)
    (hinit : queueInit capacity elSize buffer = .ok q) (h : (users q mem).Reachable u) :
    ∃ f base, u.Holds base f ∧
      (∀ o : UserCall, o.InOrder u → ((∃ t, o.run u = .ok t) ↔ ¬ o.Clashes u)) ∧
      ∀ x r, u.client.q.Full → f.ready = x :: r → u.taken = [] →
        ∃ q', queuePushAcquire u.client.q true = .ok (x.1, q') ∧
          (⟨⟨q', u.client.mem, u.client.held ++ [x.1]⟩, []⟩ : Users).Holds (base + 1)
            ⟨[], r, f.acquired ++ [x.1], f.removed ++ [(x.2, .overwritten)]⟩ := by
  obtain ⟨f, base, hholds⟩ := Users.reachable_holds hcapacity helSize hinit h
  refine ⟨f, base, hholds, fun o horder => ?_, fun x r => hholds.evicts⟩
  constructor
  · rintro ⟨t, hok⟩ hclash
    cases (hholds.clash_fails hclash).symm.trans hok
  · exact hholds.passes horder

/-- Two elements are committed to two slots. -/
theorem Users.reachable_ready : ∃ u, (users (Queue.empty 2 4 16) fun _ => 0).Reachable u ∧
    u.client.q = { Queue.empty 2 4 16 with count := 2 } ∧ u.taken = [] := by
  have hinit : (users (Queue.empty 2 4 16) fun _ => 0).Reachable
      ⟨⟨Queue.empty 2 4 16, fun _ => 0, []⟩, []⟩ := .init rfl
  have hfirst := hinit.step ⟨.acquire false, trivial, rfl⟩
  have hcommit := hfirst.step ⟨.commit 16, rfl, rfl⟩
  have hsecond := hcommit.step ⟨.acquire false, trivial, rfl⟩
  have hready := hsecond.step ⟨.commit 20, rfl, rfl⟩
  exact ⟨_, hready, rfl, rfl⟩

/-- With nothing consumed, the older one is overwritten. -/
theorem overwrites_iff_ready : ∃ u, (users (Queue.empty 2 4 16) fun _ => 0).Reachable u ∧
    u.client.q.Full ∧ ∃ t, (UserCall.acquire true).run u = .ok t := by
  obtain ⟨u, hreach, hq, htaken⟩ := Users.reachable_ready
  obtain ⟨f, base, -, hiff, -⟩ := overwrites_iff (show 1 ≤ 2 by decide) (show 1 ≤ 4 by decide)
    (show queueInit 2 4 16 = .ok _ from rfl) hreach
  refine ⟨u, hreach, by rw [hq]; decide, (hiff (.acquire true) trivial).mpr ?_⟩
  intro hclash
  exact hclash.2.2.2 htaken

/-- With the older one consumed, the younger one is not overwritten. -/
theorem overwrite_aborts : ∃ u, (users (Queue.empty 2 4 16) fun _ => 0).Reachable u ∧
    u.client.q.Full ∧ queueGetCount u.client.q = 1 ∧
    queuePushAcquire u.client.q true =
      .error (.assertion "Attempt to release element out-of-order\n") := by
  obtain ⟨u, hreach, hq, htaken⟩ := Users.reachable_ready
  have hconsume : (UserCall.consume).run u =
      .ok ⟨⟨u.client.q.consumed, u.client.mem, u.client.held⟩, [16]⟩ := by
    rw [UserCall.run, hq, htaken]
    rfl
  refine ⟨_, hreach.step ⟨.consume, trivial, hconsume⟩, ?_, ?_, ?_⟩
  · rw [hq]
    exact (rfl : 0 + 1 + 1 = 2)
  · rw [hq]
    rfl
  · rw [hq]
    rfl

end AiDeck.Queues
