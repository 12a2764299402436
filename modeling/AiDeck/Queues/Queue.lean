import AiDeck.Lib.Bytes
import AiDeck.Lib.Fifo
import AiDeck.Lib.Ring
import AiDeck.Coroutine.List

/-! # The circular buffer

nanocockpit/lib/queue.c: elements are written and read in the buffer, between acquire
and commit and between consume and release. A failed assertion ends the program. -/
namespace AiDeck.Queues
open AiDeck.Lib AiDeck.Lib.Bytes AiDeck.Coroutine

/-- An address; `NULL` is 0. -/
abbrev Address := Nat

/-- `queue_t`; `endReady` is its `end`. -/
structure Queue where
  capacity : Nat
  elSize : Nat
  start : Nat
  endReady : Nat
  count : Nat
  endAcq : Nat
  countAcq : Nat
  startConsume : Nat
  countConsume : Nat
  buffer : Address
  deriving DecidableEq, Repr

/-- An empty queue with the buffer the allocator returned. -/
def Queue.empty (capacity elSize : Nat) (buffer : Address) : Queue :=
  { capacity := capacity, elSize := elSize, start := 0, endReady := 0, count := 0, endAcq := 0
    countAcq := 0, startConsume := 0, countConsume := 0, buffer := buffer }

/-- `queue_init`, with the address `pi_l2_malloc` returned. -/
def queueInit (capacity elSize : Nat) (buffer : Address) : Except Stop Queue :=
  if buffer = 0 then .error (.assertion "Queue buffer allocation failed\n")
  else .ok (Queue.empty capacity elSize buffer)

/-- The address of slot `i`. -/
def Queue.slot (q : Queue) (i : Nat) : Address := q.buffer + i * q.elSize

def queueGetEl (q : Queue) (i : Nat) : Except Stop Address :=
  if q.capacity ≤ i then .error (.assertion "Queue access out of bounds\n")
  else .ok (q.slot i)

def queueGetCount (q : Queue) : Nat := q.count

def queuePeek (q : Queue) : Except Stop Address :=
  if q.count = 0 then .ok 0 else queueGetEl q q.start

/-- The assignments of `queue_pop_consume`. -/
def Queue.consumed (q : Queue) : Queue :=
  { q with
    start := (q.start + 1) % q.capacity
    count := q.count - 1
    countConsume := q.countConsume + 1 }

def queuePopConsume (q : Queue) : Except Stop (Address × Queue) := do
  let el ← queuePeek q
  if el ≠ 0 then return (el, q.consumed) else return (el, q)

/-- The assignments of `queue_pop_release`. -/
def Queue.released (q : Queue) : Queue :=
  { q with
    startConsume := (q.startConsume + 1) % q.capacity
    countConsume := q.countConsume - 1 }

def queuePopRelease (q : Queue) (el : Address) : Except Stop Queue := do
  let expectedEl ← queueGetEl q q.startConsume
  if q.countConsume = 0 then .error (.assertion "No pending consumed element\n")
  else if el ≠ expectedEl then .error (.assertion "Attempt to release element out-of-order\n")
  else return q.released

/-- The assignments of `queue_push_acquire`. -/
def Queue.acquired (q : Queue) (nextEndAcq : Nat) : Queue :=
  { q with
    endAcq := nextEndAcq
    countAcq := q.countAcq + 1 }

/-- The end of `queue_push_acquire`: the next slot is handed out. -/
def queuePushNext (q : Queue) (nextEndAcq : Nat) : Except Stop (Address × Queue) := do
  let el ← queueGetEl q q.endAcq
  return (el, q.acquired nextEndAcq)

def queuePushAcquire (q : Queue) (overwrite : Bool) : Except Stop (Address × Queue) :=
  let nextEndAcq := (q.endAcq + 1) % q.capacity
  if q.countAcq + q.count + q.countConsume = q.capacity then
    if !overwrite then .ok (0, q)
    -- full of elements in use, nothing to overwrite
    else if q.count = 0 then .ok (0, q)
    else do
      let popped ← queuePopConsume q
      let q ← queuePopRelease popped.2 popped.1
      queuePushNext q nextEndAcq
  else queuePushNext q nextEndAcq

/-- The assignments of `queue_push_commit`. -/
def Queue.committed (q : Queue) : Queue :=
  { q with
    endReady := (q.endReady + 1) % q.capacity
    count := q.count + 1
    countAcq := q.countAcq - 1 }

def queuePushCommit (q : Queue) (el : Address) : Except Stop Queue := do
  let expectedEl ← queueGetEl q q.endReady
  if q.countAcq = 0 then .error (.assertion "No pending acquired element\n")
  else if el ≠ expectedEl then .error (.assertion "Attempt to commit element out-of-order\n")
  else return q.committed

/-- The slot before `end_acq`. -/
def Queue.prevEndAcq (q : Queue) : Nat := (q.endAcq + q.capacity - 1) % q.capacity

/-- The assignments of `queue_push_discard`. -/
def Queue.discarded (q : Queue) : Queue :=
  { q with
    endAcq := q.prevEndAcq
    countAcq := q.countAcq - 1 }

def queuePushDiscard (q : Queue) (el : Address) : Except Stop Queue := do
  let expectedEl ← queueGetEl q q.prevEndAcq
  if q.countAcq = 0 then .error (.assertion "No pending acquired element\n")
  else if el ≠ expectedEl then .error (.assertion "Attempt to discard element out-of-order\n")
  else return q.discarded

/-! ## What a call that passes its checks does -/

theorem queueInit_eq {capacity elSize : Nat} {buffer : Address} {q : Queue}
    (h : queueInit capacity elSize buffer = .ok q) :
    buffer ≠ 0 ∧ q = Queue.empty capacity elSize buffer := by
  rw [queueInit] at h
  split at h
  · cases h
  · exact ⟨by assumption, (Except.ok.inj h).symm⟩

theorem queueGetEl_eq {q : Queue} {i : Nat} {el : Address} (h : queueGetEl q i = .ok el) :
    i < q.capacity ∧ el = q.slot i := by
  rw [queueGetEl] at h
  split at h
  · cases h
  · exact ⟨by omega, (Except.ok.inj h).symm⟩

theorem queueGetEl_ok {q : Queue} {i : Nat} (h : i < q.capacity) :
    queueGetEl q i = .ok (q.slot i) := if_neg (Nat.not_le.mpr h)

/-- A front element or none. -/
theorem queuePeek_cases {q : Queue} {el : Address} (h : queuePeek q = .ok el) :
    (q.count = 0 ∧ el = 0) ∨ (q.count ≠ 0 ∧ el = q.slot q.start) := by
  rw [queuePeek] at h
  split at h
  · exact .inl ⟨by assumption, (Except.ok.inj h).symm⟩
  · exact .inr ⟨by assumption, (queueGetEl_eq h).2⟩

theorem Queue.slot_ne {q : Queue} (h : q.buffer ≠ 0) (i : Nat) : q.slot i ≠ 0 :=
  (Nat.add_pos_left (Nat.pos_of_ne_zero h) _).ne'

theorem queuePopConsume_cases {q q' : Queue} {el : Address} (hbuffer : q.buffer ≠ 0)
    (h : queuePopConsume q = .ok (el, q')) :
    (q.count = 0 ∧ el = 0 ∧ q' = q) ∨
      (q.count ≠ 0 ∧ el = q.slot q.start ∧ q' = q.consumed) := by
  obtain ⟨front, hpeek, hreturn⟩ := bind_ok h
  rcases queuePeek_cases hpeek with ⟨hcount, rfl⟩ | ⟨hcount, rfl⟩
  · obtain ⟨rfl, rfl⟩ := Prod.mk.inj (Except.ok.inj hreturn)
    exact .inl ⟨hcount, rfl, rfl⟩
  · have hne : q.slot q.start ≠ 0 := Queue.slot_ne hbuffer _
    have heq : (Except.ok (q.slot q.start, q.consumed) : Except Stop _) = .ok (el, q') :=
      (if_pos hne).symm.trans hreturn
    obtain ⟨rfl, rfl⟩ := Prod.mk.inj (Except.ok.inj heq)
    exact .inr ⟨hcount, rfl, rfl⟩

/-- The last two checks of a call that is given an element back. -/
theorem checks_pass {q' x : Queue} {count : Nat} {el expectedEl : Address} {e₁ e₂ : Stop}
    (h : (if count = 0 then .error e₁ else if el ≠ expectedEl then .error e₂
      else pure x : Except Stop Queue) = .ok q') :
    count ≠ 0 ∧ el = expectedEl ∧ q' = x := by
  split at h
  · cases h
  · split at h
    · cases h
    · rename_i hcount hel
      exact ⟨hcount, not_not.mp hel, (Except.ok.inj h).symm⟩

theorem queuePopRelease_eq {q q' : Queue} {el : Address} (h : queuePopRelease q el = .ok q') :
    q.countConsume ≠ 0 ∧ el = q.slot q.startConsume ∧ q' = q.released := by
  obtain ⟨expectedEl, hget, hchecks⟩ := bind_ok h
  obtain ⟨-, rfl⟩ := queueGetEl_eq hget
  exact checks_pass hchecks

theorem queuePushCommit_eq {q q' : Queue} {el : Address} (h : queuePushCommit q el = .ok q') :
    q.countAcq ≠ 0 ∧ el = q.slot q.endReady ∧ q' = q.committed := by
  obtain ⟨expectedEl, hget, hchecks⟩ := bind_ok h
  obtain ⟨-, rfl⟩ := queueGetEl_eq hget
  exact checks_pass hchecks

theorem queuePushDiscard_eq {q q' : Queue} {el : Address}
    (h : queuePushDiscard q el = .ok q') :
    q.countAcq ≠ 0 ∧ el = q.slot q.prevEndAcq ∧ q' = q.discarded := by
  obtain ⟨expectedEl, hget, hchecks⟩ := bind_ok h
  obtain ⟨-, rfl⟩ := queueGetEl_eq hget
  exact checks_pass hchecks

theorem queuePushNext_eq {q q' : Queue} {n : Nat} {el : Address}
    (h : queuePushNext q n = .ok (el, q')) : el = q.slot q.endAcq ∧ q' = q.acquired n := by
  obtain ⟨expectedEl, hget, hreturn⟩ := bind_ok h
  obtain ⟨-, rfl⟩ := queueGetEl_eq hget
  obtain ⟨rfl, rfl⟩ := Prod.mk.inj (Except.ok.inj hreturn)
  exact ⟨rfl, rfl⟩

/-- Every slot is in use. -/
def Queue.Full (q : Queue) : Prop := q.countAcq + q.count + q.countConsume = q.capacity

instance Queue.decidableFull (q : Queue) : Decidable q.Full :=
  inferInstanceAs (Decidable (_ = _))

/-- `queue_push_acquire` refuses, hands out a free slot, or hands out the slot of the
oldest ready element, which is then also the oldest one not released. -/
theorem queuePushAcquire_cases {q q' : Queue} {overwrite : Bool} {el : Address}
    (hbuffer : q.buffer ≠ 0) (h : queuePushAcquire q overwrite = .ok (el, q')) :
    (q.Full ∧ (overwrite = false ∨ q.count = 0) ∧ el = 0 ∧ q' = q) ∨
    (¬ q.Full ∧ el = q.slot q.endAcq ∧ q' = q.acquired ((q.endAcq + 1) % q.capacity)) ∨
    (q.Full ∧ overwrite = true ∧ q.count ≠ 0 ∧ q.slot q.start = q.slot q.startConsume ∧
      el = q.slot q.endAcq ∧
      q' = q.consumed.released.acquired ((q.endAcq + 1) % q.capacity)) := by
  rw [queuePushAcquire] at h
  split at h
  · rename_i hfull
    split at h
    · rename_i hkeep
      obtain ⟨rfl, rfl⟩ := Prod.mk.inj (Except.ok.inj h)
      exact .inl ⟨hfull, .inl (by simpa using hkeep), rfl, rfl⟩
    · rename_i hoverwrite
      split at h
      · rename_i hcount
        obtain ⟨rfl, rfl⟩ := Prod.mk.inj (Except.ok.inj h)
        exact .inl ⟨hfull, .inr hcount, rfl, rfl⟩
      · rename_i hcount
        obtain ⟨popped, hpop, hrest⟩ := bind_ok h
        obtain ⟨front, q₁⟩ := popped
        obtain ⟨q₂, hrelease, hnext⟩ := bind_ok hrest
        rcases queuePopConsume_cases hbuffer hpop with ⟨hzero, -⟩ | ⟨-, rfl, rfl⟩
        · exact absurd hzero hcount
        · obtain ⟨-, hslot, rfl⟩ := queuePopRelease_eq hrelease
          obtain ⟨rfl, rfl⟩ := queuePushNext_eq hnext
          exact .inr (.inr ⟨hfull, by simpa using hoverwrite, hcount, hslot, rfl, rfl⟩)
  · rename_i hfull
    obtain ⟨rfl, rfl⟩ := queuePushNext_eq h
    exact .inr (.inl ⟨hfull, rfl, rfl⟩)

/-! ## Indices and counters -/

/-- The indices and counters: with `base` slots freed so far, the four positions follow
one another around the ring. -/
structure Queue.Consistent (q : Queue) (base : Nat) : Prop where
  capacity : 0 < q.capacity
  buffer : q.buffer ≠ 0
  bound : q.countConsume + (q.count + q.countAcq) ≤ q.capacity
  startConsume : q.startConsume = base % q.capacity
  start : q.start = (base + q.countConsume) % q.capacity
  endReady : q.endReady = (base + q.countConsume + q.count) % q.capacity
  endAcq : q.endAcq = (base + q.countConsume + q.count + q.countAcq) % q.capacity

namespace Queue.Consistent

variable {base : Nat} {q : Queue}

theorem empty {capacity elSize : Nat} {buffer : Address} (hcapacity : 0 < capacity)
    (hbuffer : buffer ≠ 0) : (Queue.empty capacity elSize buffer).Consistent 0 :=
  ⟨hcapacity, hbuffer, Nat.zero_le _, (Nat.zero_mod _).symm, (Nat.zero_mod _).symm,
    (Nat.zero_mod _).symm, (Nat.zero_mod _).symm⟩

theorem acquired (h : q.Consistent base) (hroom : ¬ q.Full) :
    (q.acquired ((q.endAcq + 1) % q.capacity)).Consistent base := by
  refine ⟨h.capacity, h.buffer, ?_, h.startConsume, h.start, h.endReady, ?_⟩
  · have hbound := h.bound
    unfold Full at hroom
    simp only [Queue.acquired]
    omega
  · simp only [Queue.acquired, h.endAcq, Nat.mod_add_mod, Nat.add_assoc]

theorem committed (h : q.Consistent base) (hcount : q.countAcq ≠ 0) :
    q.committed.Consistent base := by
  have hbound := h.bound
  refine ⟨h.capacity, h.buffer, ?_, h.startConsume, h.start, ?_, ?_⟩
  · simp only [Queue.committed]
    omega
  · simp only [Queue.committed, h.endReady, Nat.mod_add_mod, Nat.add_assoc]
  · simp only [Queue.committed, h.endAcq]
    congr 1
    omega

theorem prevEndAcq (h : q.Consistent base) (hcount : q.countAcq ≠ 0) :
    q.prevEndAcq =
      (base + q.countConsume + q.count + (q.countAcq - 1)) % q.capacity := by
  obtain ⟨n, hn⟩ := Nat.exists_eq_succ_of_ne_zero hcount
  rw [Queue.prevEndAcq, h.endAcq, hn, Nat.succ_eq_add_one, ← Nat.add_assoc,
    ring_pred h.capacity, Nat.add_sub_cancel]

theorem discarded (h : q.Consistent base) (hcount : q.countAcq ≠ 0) :
    q.discarded.Consistent base := by
  have hbound := h.bound
  refine ⟨h.capacity, h.buffer, ?_, h.startConsume, h.start, h.endReady,
    h.prevEndAcq hcount⟩
  simp only [Queue.discarded]
  omega

theorem consumed (h : q.Consistent base) (hcount : q.count ≠ 0) :
    q.consumed.Consistent base := by
  have hbound := h.bound
  refine ⟨h.capacity, h.buffer, ?_, h.startConsume, ?_, ?_, ?_⟩
  · simp only [Queue.consumed]
    omega
  · simp only [Queue.consumed, h.start, Nat.mod_add_mod, Nat.add_assoc]
  · simp only [Queue.consumed, h.endReady]
    congr 1
    omega
  · simp only [Queue.consumed, h.endAcq]
    congr 1
    omega

theorem released (h : q.Consistent base) (hcount : q.countConsume ≠ 0) :
    q.released.Consistent (base + 1) := by
  have hbound := h.bound
  refine ⟨h.capacity, h.buffer, ?_, ?_, ?_, ?_, ?_⟩
  · simp only [Queue.released]
    omega
  · simp only [Queue.released, h.startConsume, Nat.mod_add_mod]
  · simp only [Queue.released, h.start]
    congr 1
    omega
  · simp only [Queue.released, h.endReady]
    congr 1
    omega
  · simp only [Queue.released, h.endAcq]
    congr 1
    omega

theorem queuePushCommit_ok (h : q.Consistent base) (hcount : q.countAcq ≠ 0) :
    queuePushCommit q (q.slot q.endReady) = .ok q.committed := by
  have hlt : q.endReady < q.capacity := h.endReady ▸ Nat.mod_lt _ h.capacity
  rw [queuePushCommit, queueGetEl_ok hlt]
  exact (if_neg hcount).trans (if_neg (not_not.mpr rfl))

theorem queuePushDiscard_ok (h : q.Consistent base) (hcount : q.countAcq ≠ 0) :
    queuePushDiscard q (q.slot q.prevEndAcq) = .ok q.discarded := by
  have hlt : q.prevEndAcq < q.capacity := h.prevEndAcq hcount ▸ Nat.mod_lt _ h.capacity
  rw [queuePushDiscard, queueGetEl_ok hlt]
  exact (if_neg hcount).trans (if_neg (not_not.mpr rfl))

theorem queuePopRelease_ok (h : q.Consistent base) (hcount : q.countConsume ≠ 0) :
    queuePopRelease q (q.slot q.startConsume) = .ok q.released := by
  have hlt : q.startConsume < q.capacity := h.startConsume ▸ Nat.mod_lt _ h.capacity
  rw [queuePopRelease, queueGetEl_ok hlt]
  exact (if_neg hcount).trans (if_neg (not_not.mpr rfl))

end Queue.Consistent

end AiDeck.Queues
