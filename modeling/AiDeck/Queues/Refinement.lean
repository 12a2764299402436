import AiDeck.Queues.Queue

/-! # The circular buffer as a FIFO

A producer and a consumer call the queue with the elements they were given; the producer
writes to the slots it has acquired. -/
namespace AiDeck.Queues
open AiDeck.Lib AiDeck.Lib.Bytes AiDeck.Coroutine

/-- The queue, the memory, and the slots the producer has acquired and not given back. -/
structure Client where
  q : Queue
  mem : Nat → UInt8
  held : List Address

/-- A pointer that is not `NULL`. -/
def pointer (el : Address) : Option Address := if el = 0 then none else some el

/-- The bytes of an element. -/
def Client.element (c : Client) (el : Address) : List UInt8 := segment c.mem el c.q.elSize

def Client.front (c : Client) (el : Address) : Option (Address × List UInt8) :=
  (pointer el).map fun el => (el, c.element el)

abbrev Call := Fifo.Event Address (List UInt8)

/-- Any call that passes the checks of the queue, and the writes of the producer. -/
inductive Client.Step : Client → Call → Client → Prop
  | acquire {c overwrite el q} (h : queuePushAcquire c.q overwrite = .ok (el, q)) :
    Step c (.acquire overwrite (pointer el)) ⟨q, c.mem, c.held ++ (pointer el).toList⟩
  | write {c el i b} (hel : el ∈ c.held) (hi : i < c.q.elSize) :
    Step c (.fill el) ⟨c.q, Function.update c.mem (el + i) b, c.held⟩
  | commit {c el q} (h : queuePushCommit c.q el = .ok q) :
    Step c (.commit el (c.element el)) ⟨q, c.mem, c.held.erase el⟩
  | discard {c el q} (h : queuePushDiscard c.q el = .ok q) :
    Step c (.discard el) ⟨q, c.mem, c.held.erase el⟩
  | peek {c el} (h : queuePeek c.q = .ok el) : Step c (.peek (c.front el)) c
  | consume {c el q} (h : queuePopConsume c.q = .ok (el, q)) :
    Step c (.consume (c.front el)) ⟨q, c.mem, c.held⟩
  | release {c el q} (h : queuePopRelease c.q el = .ok q) :
    Step c (.release el (c.element el)) ⟨q, c.mem, c.held⟩

/-- The clients of a queue just initialised. -/
def client (q : Queue) (mem : Nat → UInt8) : Labelled Client Call where
  init := ⟨q, mem, []⟩
  step := Client.Step

/-! ## The simulation relation -/

/-- The three windows of the ring between the four positions. -/
def Queue.window (q : Queue) (start n : Nat) : List Address :=
  (ring q.capacity start n).map q.slot

/-- The queue and the memory hold the FIFO. -/
structure Represents (base : Nat) (c : Client) (f : Fifo Address (List UInt8)) : Prop where
  consistent : c.q.Consistent base
  elSize : 0 < c.q.elSize
  consumed : f.consumed.map Prod.fst = c.q.window base c.q.countConsume
  ready : f.ready.map Prod.fst = c.q.window (base + c.q.countConsume) c.q.count
  acquired : f.acquired =
    c.q.window (base + c.q.countConsume + c.q.count) c.q.countAcq
  held : c.held = f.acquired
  contents : ∀ x ∈ f.consumed ++ f.ready, c.element x.1 = x.2

theorem Queue.slot_inj {q : Queue} (h : 0 < q.elSize) {i j : Nat} (heq : q.slot i = q.slot j) :
    i = j :=
  Nat.eq_of_mul_eq_mul_right h (Nat.add_left_cancel heq)

/-- The oldest ready element is the oldest one not released only when the consumer holds
none. -/
theorem Queue.Consistent.consume_empty {base : Nat} {q : Queue} (h : q.Consistent base)
    (helSize : 0 < q.elSize) (hcount : q.count ≠ 0)
    (heq : q.slot q.start = q.slot q.startConsume) : q.countConsume = 0 := by
  have hbound := h.bound
  by_contra hne
  have hturn : base + q.countConsume < base + q.capacity := by omega
  refine mod_ne_of_lt (a := base) (by omega) hturn ?_
  rw [← h.startConsume, ← h.start]
  exact (Queue.slot_inj helSize heq).symm

@[simp] theorem Queue.window_length (q : Queue) (start n : Nat) :
    (q.window start n).length = n := by
  simp [window]

theorem Queue.window_cons (q : Queue) (start n : Nat) :
    q.window start (n + 1) = q.slot (start % q.capacity) :: q.window (start + 1) n := by
  simp [window, ring_cons]

theorem Queue.window_concat (q : Queue) (start n : Nat) :
    q.window start (n + 1) = q.window start n ++ [q.slot ((start + n) % q.capacity)] := by
  simp [window, ring_concat]

theorem Queue.window_add (q : Queue) (start a b : Nat) :
    q.window start (a + b) = q.window start a ++ q.window (start + a) b := by
  simp [window, ring_add]

theorem Queue.window_nodup {q : Queue} (h : 0 < q.elSize) {start n : Nat}
    (hn : n ≤ q.capacity) : (q.window start n).Nodup :=
  (List.nodup_map_iff fun _ _ heq => Queue.slot_inj h heq).mpr (ring_nodup hn)

theorem Queue.slot_add_le (q : Queue) {i j : Nat} (h : i < j) :
    q.slot i + q.elSize ≤ q.slot j := by
  rw [slot, slot, Nat.add_assoc, ← Nat.succ_mul]
  exact Nat.add_le_add_left (Nat.mul_le_mul_right _ h) _

/-- Two different slots share no byte. -/
theorem Queue.slot_disjoint (q : Queue) {i j : Nat} (hne : q.slot i ≠ q.slot j) :
    q.slot i + q.elSize ≤ q.slot j ∨ q.slot j + q.elSize ≤ q.slot i := by
  rcases Nat.lt_trichotomy i j with hij | rfl | hij
  · exact .inl (q.slot_add_le hij)
  · exact absurd rfl hne
  · exact .inr (q.slot_add_le hij)

namespace Represents

variable {base : Nat} {c : Client} {f : Fifo Address (List UInt8)}

theorem slots (h : Represents base c f) :
    f.slots = c.q.window base (c.q.countConsume + (c.q.count + c.q.countAcq)) := by
  rw [Fifo.slots, h.consumed, h.ready, h.acquired, Queue.window_add, Queue.window_add]

theorem slots_length (h : Represents base c f) :
    f.slots.length = c.q.countConsume + (c.q.count + c.q.countAcq) := by
  rw [h.slots, Queue.window_length]

theorem slots_nodup (h : Represents base c f) : f.slots.Nodup := by
  rw [h.slots]
  exact Queue.window_nodup h.elSize h.consistent.bound

theorem count_zero (h : Represents base c f) : c.q.count = 0 ↔ f.ready = [] := by
  have hlength := congrArg List.length h.ready
  rw [List.length_map, Queue.window_length] at hlength
  rw [← hlength, List.length_eq_zero_iff]

/-- The pointer to the oldest ready element. -/
theorem front (h : Represents base c f) {el : Address} (hpeek : queuePeek c.q = .ok el) :
    c.front el = f.ready.head? := by
  rcases queuePeek_cases hpeek with ⟨hcount, rfl⟩ | ⟨hcount, rfl⟩
  · rw [h.count_zero.mp hcount]
    rfl
  · cases hready : f.ready with
    | nil => exact absurd (h.count_zero.mpr hready) hcount
    | cons x rest =>
      obtain ⟨n, hn⟩ := Nat.exists_eq_succ_of_ne_zero hcount
      have hfirst := h.ready
      rw [hready, hn, Queue.window_cons, List.map_cons] at hfirst
      have hslot : x.1 = c.q.slot c.q.start := h.consistent.start ▸ (List.cons.inj hfirst).1
      have hcontent : c.element x.1 = x.2 :=
        h.contents x (by simp [hready])
      have hne : c.q.slot c.q.start ≠ 0 := Queue.slot_ne h.consistent.buffer _
      rw [Client.front, pointer, if_neg hne, List.head?_cons, Option.map_some, ← hslot, hcontent]

/-- The next slot is not in use. -/
theorem fresh (h : Represents base c f) (hroom : ¬ c.q.Full) :
    f.slots.length < c.q.capacity ∧ c.q.slot c.q.endAcq ∉ f.slots := by
  have hlt : c.q.countConsume + (c.q.count + c.q.countAcq) < c.q.capacity := by
    have hbound := h.consistent.bound
    unfold Queue.Full at hroom
    omega
  have hnext : c.q.endAcq =
      (base + (c.q.countConsume + (c.q.count + c.q.countAcq))) % c.q.capacity := by
    rw [h.consistent.endAcq, Nat.add_assoc, Nat.add_assoc]
  refine ⟨h.slots_length.trans_lt hlt, ?_⟩
  have hnodup : (c.q.window base (c.q.countConsume + (c.q.count + c.q.countAcq) + 1)).Nodup :=
    Queue.window_nodup h.elSize hlt
  rw [Queue.window_concat, ← h.slots, ← hnext] at hnodup
  exact fun hmem => List.disjoint_of_nodup_append hnodup hmem (List.mem_singleton_self _)

end Represents

/-! ## The operations keep the relation -/

namespace Represents

variable {base : Nat} {c : Client} {f : Fifo Address (List UInt8)}

theorem acquire (h : Represents base c f) (hroom : ¬ c.q.Full) (l : List (List UInt8 × Fate)) :
    Represents base ⟨c.q.acquired ((c.q.endAcq + 1) % c.q.capacity), c.mem,
      c.held ++ [c.q.slot c.q.endAcq]⟩
      ⟨f.consumed, f.ready, f.acquired ++ [c.q.slot c.q.endAcq], l⟩ := by
  refine ⟨h.consistent.acquired hroom, h.elSize, h.consumed, h.ready, ?_, ?_, h.contents⟩
  · have hwindow := c.q.window_concat (base + c.q.countConsume + c.q.count) c.q.countAcq
    rw [← h.acquired, ← h.consistent.endAcq] at hwindow
    exact hwindow.symm
  · rw [h.held]

theorem commit {s : Address} {a : List Address} (h : Represents base c f)
    (hacquired : f.acquired = s :: a) (l : List (List UInt8 × Fate)) :
    Represents base ⟨c.q.committed, c.mem, c.held.erase s⟩
      ⟨f.consumed, f.ready ++ [(s, c.element s)], a, l⟩ := by
  have hlength := congrArg List.length h.acquired
  rw [hacquired, Queue.window_length, List.length_cons] at hlength
  have hwindow := h.acquired
  rw [hacquired, ← hlength, Queue.window_cons] at hwindow
  obtain ⟨hslot, hrest⟩ := List.cons.inj hwindow
  refine ⟨h.consistent.committed (by omega), h.elSize, h.consumed, ?_, ?_, ?_, ?_⟩
  · have hconcat := c.q.window_concat (base + c.q.countConsume) c.q.count
    rw [← h.ready, ← hslot] at hconcat
    rw [List.map_append]
    exact hconcat.symm
  · have hcount : c.q.committed.countAcq = a.length := by
      simp only [Queue.committed]
      omega
    rw [hcount]
    exact hrest
  · rw [h.held, hacquired, List.erase_cons_head]
  · intro x hx
    rw [← List.append_assoc] at hx
    rcases List.mem_append.mp hx with hx | hx
    · exact h.contents x hx
    · obtain rfl := List.mem_singleton.mp hx
      rfl

theorem discard {s : Address} {a : List Address} (h : Represents base c f)
    (hacquired : f.acquired = a ++ [s]) (l : List (List UInt8 × Fate)) :
    Represents base ⟨c.q.discarded, c.mem, c.held.erase s⟩
      ⟨f.consumed, f.ready, a, l⟩ := by
  have hlength := congrArg List.length h.acquired
  rw [hacquired, Queue.window_length, List.length_append, List.length_singleton] at hlength
  have hwindow := h.acquired
  rw [hacquired, ← hlength, Queue.window_concat] at hwindow
  refine ⟨h.consistent.discarded (by omega), h.elSize, h.consumed, h.ready, ?_, ?_, h.contents⟩
  · have hcount : c.q.discarded.countAcq = a.length := by
      simp only [Queue.discarded]
      omega
    rw [hcount]
    exact (List.append_inj' hwindow rfl).1
  · have hnodup := List.nodup_append'.mp (List.nodup_append'.mp h.slots_nodup).2.1
    have hfresh : s ∉ a := by
      have hacq := hnodup.2.1
      rw [hacquired] at hacq
      exact fun hs => List.disjoint_of_nodup_append hacq hs (List.mem_singleton_self _)
    rw [h.held, hacquired, List.erase_append_right _ hfresh, List.erase_cons_head,
      List.append_nil]

theorem consume {x : Address × List UInt8} {r : List (Address × List UInt8)}
    (h : Represents base c f) (hready : f.ready = x :: r) (l : List (List UInt8 × Fate)) :
    Represents base ⟨c.q.consumed, c.mem, c.held⟩ ⟨f.consumed ++ [x], r, f.acquired, l⟩ := by
  have hlength := congrArg List.length h.ready
  rw [hready, List.length_map, Queue.window_length, List.length_cons] at hlength
  have hwindow := h.ready
  rw [hready, ← hlength, Queue.window_cons, List.map_cons] at hwindow
  obtain ⟨hslot, hrest⟩ := List.cons.inj hwindow
  have hcount : c.q.consumed.count = r.length := by
    simp only [Queue.consumed]
    omega
  refine ⟨h.consistent.consumed (by omega), h.elSize, ?_, ?_, ?_, h.held, ?_⟩
  · have hconcat := c.q.window_concat base c.q.countConsume
    rw [← h.consumed, ← hslot] at hconcat
    rw [List.map_append]
    exact hconcat.symm
  · rw [hcount]
    exact hrest
  · have hacq := h.acquired
    rw [show base + c.q.countConsume + c.q.count =
      base + (c.q.countConsume + 1) + r.length by omega] at hacq
    rw [hcount]
    exact hacq
  · intro y hy
    refine h.contents y ?_
    rw [hready]
    simpa using hy

theorem release {s : Address} {v : List UInt8} {k : List (Address × List UInt8)}
    (h : Represents base c f) (hconsumed : f.consumed = (s, v) :: k)
    (l : List (List UInt8 × Fate)) :
    Represents (base + 1) ⟨c.q.released, c.mem, c.held⟩ ⟨k, f.ready, f.acquired, l⟩ := by
  have hlength := congrArg List.length h.consumed
  rw [hconsumed, List.length_map, Queue.window_length, List.length_cons] at hlength
  have hwindow := h.consumed
  rw [hconsumed, ← hlength, Queue.window_cons, List.map_cons] at hwindow
  have hcount : c.q.released.countConsume = k.length := by
    simp only [Queue.released]
    omega
  have hbase : base + 1 + k.length = base + c.q.countConsume := by omega
  refine ⟨h.consistent.released (by omega), h.elSize, ?_, ?_, ?_, h.held, ?_⟩
  · rw [hcount]
    exact (List.cons.inj hwindow).2
  · rw [hcount, hbase]
    exact h.ready
  · rw [hcount, hbase]
    exact h.acquired
  · intro y hy
    refine h.contents y ?_
    rw [hconsumed]
    exact List.mem_cons_of_mem _ hy

theorem mem_slot (h : Represents base c f) {s : Address} (hs : s ∈ f.slots) :
    ∃ i, s = c.q.slot i := by
  rw [h.slots] at hs
  obtain ⟨i, -, rfl⟩ := List.mem_map.mp hs
  exact ⟨i, rfl⟩

/-- A write to a slot of the producer. -/
theorem write (h : Represents base c f) {s : Address} (hs : s ∈ f.acquired) {i : Nat}
    (hi : i < c.q.elSize) (b : UInt8) :
    Represents base ⟨c.q, Function.update c.mem (s + i) b, c.held⟩ f := by
  refine ⟨h.consistent, h.elSize, h.consumed, h.ready, h.acquired, h.held, ?_⟩
  intro x hx
  rw [← h.contents x hx]
  obtain ⟨j, hj⟩ := h.mem_slot (s := s) (by simp [Fifo.slots, hs])
  have hxslots : x.1 ∈ f.consumed.map Prod.fst ++ f.ready.map Prod.fst := by
    rw [← List.map_append]
    exact List.mem_map_of_mem hx
  obtain ⟨k, hk⟩ := h.mem_slot (s := x.1) (by
    rw [Fifo.slots, ← List.append_assoc]
    exact List.mem_append_left _ hxslots)
  have hne : x.1 ≠ s := by
    have hnodup := h.slots_nodup
    rw [Fifo.slots, ← List.append_assoc] at hnodup
    rintro rfl
    exact List.disjoint_of_nodup_append hnodup hxslots hs
  refine segment_congr fun n hn => Function.update_of_ne ?_ _ _
  have hn' : n < c.q.elSize := hn
  rcases c.q.slot_disjoint (hk ▸ hj ▸ hne) with hle | hle
  · rw [← hk, ← hj] at hle
    exact (Nat.lt_of_lt_of_le (Nat.add_lt_add_left hn' _) (Nat.le_add_right_of_le hle)).ne
  · rw [← hk, ← hj] at hle
    exact (Nat.lt_of_lt_of_le (Nat.add_lt_add_left hi _) (Nat.le_add_right_of_le hle)).ne'

theorem full_iff (h : Represents base c f) : c.q.Full ↔ f.slots.length = c.q.capacity := by
  rw [h.slots_length, Queue.Full]
  constructor <;> intro heq <;> omega

/-- A step of the FIFO with the same event, to what the client has then. -/
def Matched (capacity : Nat) (f : Fifo Address (List UInt8)) (e : Call) (c' : Client) : Prop :=
  c'.q.capacity = capacity ∧ ∃ f' base', Fifo.Step capacity f e f' ∧ Represents base' c' f'

theorem acquire_matched (h : Represents base c f) {overwrite : Bool} {el : Address} {q : Queue}
    (hok : queuePushAcquire c.q overwrite = .ok (el, q)) :
    Matched c.q.capacity f (.acquire overwrite (pointer el))
      ⟨q, c.mem, c.held ++ (pointer el).toList⟩ := by
  obtain ⟨consumed, ready, acquired, removed⟩ := f
  rcases queuePushAcquire_cases h.consistent.buffer hok with ⟨hfull, hkeep, rfl, rfl⟩ |
    ⟨hroom, rfl, rfl⟩ | ⟨hfull, rfl, hcount, hslot, rfl, rfl⟩
  · refine ⟨rfl, _, base, .refuse (h.full_iff.mp hfull) ?_, ?_⟩
    · exact hkeep.imp_right h.count_zero.mp
    · rw [pointer, if_pos rfl, Option.toList_none, List.append_nil]
      exact h
  · have hne := Queue.slot_ne h.consistent.buffer c.q.endAcq
    obtain ⟨hlength, hfree⟩ := h.fresh hroom
    rw [pointer, if_neg hne]
    exact ⟨rfl, _, base, .acquire hlength hfree, h.acquire hroom removed⟩
  · have hzero := h.consistent.consume_empty h.elSize hcount hslot
    have hconsumed := h.consumed
    rw [hzero, Queue.window, ring_zero, List.map_nil] at hconsumed
    obtain rfl : consumed = [] := List.map_eq_nil_iff.mp hconsumed
    cases ready with
    | nil => exact absurd (h.count_zero.mpr rfl) hcount
    | cons x r =>
      have hdropped := (h.consume rfl removed).release (l := removed) (s := x.1) (v := x.2)
        (k := []) rfl
      have hroom : ¬ c.q.consumed.released.Full := by
        have hbound := h.consistent.bound
        unfold Queue.Full at hfull ⊢
        simp only [Queue.released, Queue.consumed]
        omega
      have hne := Queue.slot_ne h.consistent.buffer c.q.endAcq
      obtain ⟨-, hfree⟩ := hdropped.fresh hroom
      rw [pointer, if_neg hne]
      exact ⟨rfl, _, base + 1, .overwrite (h.full_iff.mp hfull) hfree,
        hdropped.acquire hroom _⟩

theorem consume_matched (h : Represents base c f) {el : Address} {q : Queue}
    (hok : queuePopConsume c.q = .ok (el, q)) :
    Matched c.q.capacity f (.consume (c.front el)) ⟨q, c.mem, c.held⟩ := by
  obtain ⟨consumed, ready, acquired, removed⟩ := f
  rcases queuePopConsume_cases h.consistent.buffer hok with ⟨hcount, rfl, rfl⟩ |
    ⟨hcount, rfl, rfl⟩
  · exact ⟨rfl, _, base, .starve (h.count_zero.mp hcount), h⟩
  · have hpeek : queuePeek c.q = .ok (c.q.slot c.q.start) := by
      rw [queuePeek, if_neg hcount, h.consistent.start]
      exact queueGetEl_ok (Nat.mod_lt _ h.consistent.capacity)
    rw [h.front hpeek]
    cases ready with
    | nil => exact absurd (h.count_zero.mpr rfl) hcount
    | cons x r => exact ⟨rfl, _, base, .consume, h.consume rfl _⟩

theorem release_matched (h : Represents base c f) {el : Address} {q : Queue}
    (hok : queuePopRelease c.q el = .ok q) :
    Matched c.q.capacity f (.release el (c.element el)) ⟨q, c.mem, c.held⟩ := by
  obtain ⟨consumed, ready, acquired, removed⟩ := f
  obtain ⟨hcount, rfl, rfl⟩ := queuePopRelease_eq hok
  obtain ⟨n, hn⟩ := Nat.exists_eq_succ_of_ne_zero hcount
  have hconsumed := h.consumed
  rw [hn, Queue.window_cons, ← h.consistent.startConsume] at hconsumed
  cases consumed with
  | nil => cases hconsumed
  | cons x k =>
    obtain ⟨s, v⟩ := x
    rw [List.map_cons] at hconsumed
    have hs : s = c.q.slot c.q.startConsume := (List.cons.inj hconsumed).1
    have hv : c.element s = v := h.contents (s, v) List.mem_cons_self
    rw [← hs, hv]
    exact ⟨rfl, _, base + 1, .release, h.release rfl removed⟩

/-- Every call and every write is a step of the FIFO with the same event. -/
theorem step {c' : Client} {e : Call} (h : Represents base c f) (hstep : Client.Step c e c') :
    c'.q.capacity = c.q.capacity ∧
      ∃ f' base', Fifo.Step c.q.capacity f e f' ∧ Represents base' c' f' := by
  obtain ⟨consumed, ready, acquired, removed⟩ := f
  cases hstep with
  | acquire hok => exact h.acquire_matched hok
  | @write el i b hel hi =>
    have hel := h.held ▸ hel
    exact ⟨rfl, _, base, .fill hel, h.write hel hi b⟩
  | @commit el q hok =>
    obtain ⟨hcount, rfl, rfl⟩ := queuePushCommit_eq hok
    obtain ⟨n, hn⟩ := Nat.exists_eq_succ_of_ne_zero hcount
    have hacquired := h.acquired
    rw [hn, Queue.window_cons, ← h.consistent.endReady] at hacquired
    obtain rfl : acquired = _ := hacquired
    exact ⟨rfl, _, base, .commit, h.commit rfl removed⟩
  | @discard el q hok =>
    obtain ⟨hcount, rfl, rfl⟩ := queuePushDiscard_eq hok
    have hprev := h.consistent.prevEndAcq hcount
    obtain ⟨n, hn⟩ := Nat.exists_eq_succ_of_ne_zero hcount
    have hacquired := h.acquired
    rw [hn, Nat.succ_sub_one] at hprev
    rw [hn, Queue.window_concat, ← hprev] at hacquired
    obtain rfl : acquired = _ := hacquired
    exact ⟨rfl, _, base, .discard, h.discard rfl removed⟩
  | peek hok =>
    rw [h.front hok]
    exact ⟨rfl, _, base, .peek, h⟩
  | consume hok => exact h.consume_matched hok
  | release hok => exact h.release_matched hok

theorem empty {capacity elSize : Nat} {buffer : Address} (hcapacity : 1 ≤ capacity)
    (helSize : 1 ≤ elSize) (hbuffer : buffer ≠ 0) (mem : Nat → UInt8) :
    Represents 0 ⟨Queue.empty capacity elSize buffer, mem, []⟩ Fifo.empty :=
  ⟨.empty hcapacity hbuffer, helSize, rfl, rfl, rfl, rfl,
    fun _ hx => absurd hx List.not_mem_nil⟩

end Represents

/-- **The circular buffer refines the FIFO.** Every run of calls that pass the checks of
the queue, with writes to acquired slots between them, is a run of the FIFO with the same
events, and queue and memory represent the FIFO it leads to: its slots are distinct and at
most `capacity`, the values are those committed, removed in commit order and, unless an
acquire overwrites, all handed to the consumer, and no slot of the producer is ready or
held by the consumer. -/
theorem client_refines {capacity elSize : Nat} {buffer : Address} {q : Queue}
    {mem : Nat → UInt8} {log : List Call} {c : Client} (hcapacity : 1 ≤ capacity)
    (helSize : 1 ≤ elSize) (hinit : queueInit capacity elSize buffer = .ok q)
    (h : (client q mem).Runs log c) :
    ∃ f base, (Fifo.system Address (List UInt8) capacity).Runs log f ∧ Represents base c f ∧
      c.q.capacity = capacity ∧ f.slots.Nodup ∧ f.slots.length ≤ capacity ∧
      queueGetCount c.q = f.ready.length ∧
      Fifo.Event.commits log = f.removed.map Prod.fst ++ f.ready.map Prod.snd ∧
      Fifo.Event.consumes log = Fifo.handed f.removed ∧
      Fifo.Event.consumes log = Fifo.Event.releases log ++ f.consumed.map Prod.snd ∧
      ((∀ s, .acquire true s ∉ log) →
        Fifo.Event.commits log = Fifo.Event.consumes log ++ f.ready.map Prod.snd) ∧
      ∀ el ∈ c.held, el ∉ f.ready.map Prod.fst ∧ el ∉ f.consumed.map Prod.fst := by
  obtain ⟨hbuffer, rfl⟩ := queueInit_eq hinit
  obtain ⟨f, hrun, base, hrep, hcap⟩ := h.simulated
    (U := Fifo.system Address (List UInt8) capacity)
    (R := fun c f => ∃ base, Represents base c f ∧ c.q.capacity = capacity)
    ⟨0, Represents.empty hcapacity helSize hbuffer mem, rfl⟩
    (by
      rintro c c' e f ⟨base, hrep, rfl⟩ hstep
      obtain ⟨hcap, f', base', hf, hrep'⟩ := hrep.step hstep
      exact ⟨f', hf, base', hrep', hcap⟩)
  have hproper := Fifo.proper hrun
  have haccounted := Fifo.accounted hrun
  have hcount : queueGetCount c.q = f.ready.length := by
    have hlength := congrArg List.length hrep.ready
    rw [List.length_map, Queue.window_length] at hlength
    exact hlength.symm
  refine ⟨f, base, hrun, hrep, hcap, hproper.nodup, hproper.length_le, hcount,
    haccounted.commits, haccounted.consumes, haccounted.releases, Fifo.kept hrun, ?_⟩
  intro el hel
  exact hproper.acquired (hrep.held ▸ hel)

/-- The only slot is written, committed and acquired again by overwriting. -/
theorem client_refines_overwritten :
    ∃ f base c, (Fifo.system Address (List UInt8) 1).Runs [.acquire false (some 16), .fill 16,
      .commit 16 [7], .acquire true (some 16)] f ∧ Represents base c f ∧ c.held = [16] := by
  have hacquire : (client (Queue.empty 1 1 16) fun _ => 0).Runs ([] ++ [.acquire false (some 16)])
      ⟨(Queue.empty 1 1 16).acquired 0, fun _ => 0, [16]⟩ := .step .init (@Client.Step.acquire _ false 16 _ rfl)
  have hwrite : (client (Queue.empty 1 1 16) fun _ => 0).Runs
      ([.acquire false (some 16)] ++ [.fill 16])
      ⟨(Queue.empty 1 1 16).acquired 0, Function.update (fun _ => 0) 16 7, [16]⟩ :=
    .step hacquire (@Client.Step.write _ 16 0 7 (List.mem_singleton_self _) Nat.one_pos)
  have hcommit : (client (Queue.empty 1 1 16) fun _ => 0).Runs
      ([.acquire false (some 16), .fill 16] ++ [.commit 16 [7]])
      ⟨((Queue.empty 1 1 16).acquired 0).committed, Function.update (fun _ => 0) 16 7, []⟩ :=
    .step hwrite (@Client.Step.commit _ 16 _ rfl)
  have hoverwrite : (client (Queue.empty 1 1 16) fun _ => 0).Runs
      ([.acquire false (some 16), .fill 16, .commit 16 [7]] ++ [.acquire true (some 16)])
      ⟨(((Queue.empty 1 1 16).acquired 0).committed.consumed.released).acquired 0,
        Function.update (fun _ => 0) 16 7, [16]⟩ := 
    .step hcommit (@Client.Step.acquire _ true 16 _ rfl)
  have hinit : queueInit 1 1 16 = .ok (Queue.empty 1 1 16) := rfl
  obtain ⟨f, base, hrun, hrep, -⟩ := client_refines le_rfl le_rfl hinit hoverwrite
  exact ⟨f, base, _, hrun, hrep, rfl⟩

end AiDeck.Queues
