import AiDeck.Wifi.Pipeline

/-! # The invariant of the capture pipeline

At each statement the variables, the event bit and the DMA are in one of four shapes: quiet, with
a consumer that does not wait; awaiting a frame; draining; and drained. -/
namespace AiDeck.Wifi
open AiDeck.Lib

/-- One capture is counted and not yet queued. -/
def Point.counted : Point → Nat
  | queueing _ => 1
  | _ => 0

inductive Shape where
  /-- `k` captures are queued, none into the buffers `free`; which frame is selected and not yet
  delivered, if any. -/
  | quiet (streaming : Bool) (k : Nat) (free : List Buffer) (ready : Option Buffer)
  /-- The consumer waits, or the frame it waited for is selected. -/
  | awaiting (streaming : Bool) (k : Nat) (free : List Buffer)
  | draining (buffer : Buffer)
  | drained (streaming : Bool) (ready : Option Buffer)
  deriving DecidableEq

/-- The shape at a statement. -/
def shapeAt (streaming : Bool) (processingBuffer readyBuffer : Buffer) : Point → Shape
  | .connected | .disconnecting | .beginning =>
    if streaming then .quiet true 2 [processingBuffer] (some processingBuffer)
    else .quiet false 0 [] none
  | .delaying | .beginWaiting => .quiet false 0 [] none
  | .clearing | .discarding | .returning =>
    .quiet true 2 [processingBuffer] (some processingBuffer)
  | .processing | .endWaiting => .quiet true 2 [processingBuffer] none
  | .draining => .draining processingBuffer
  | .clearingAgain | .stopping => .drained true (some processingBuffer)
  | .notWaiting | .notDiscarding => .drained false none
  | .counting .first | .queueing .first => .awaiting false 0 [1, 2, 0]
  | .counting .second | .queueing .second => .awaiting false 1 [2, 0]
  | .beginWait => .awaiting false 2 [0]
  | .beginProcessing => .quiet false 1 [0, readyBuffer] (some readyBuffer)
  | .counting .third | .queueing .third => .quiet false 1 [0, processingBuffer] (some processingBuffer)
  | .beginStreaming => .quiet false 2 [processingBuffer] (some processingBuffer)
  | .endWait => .awaiting true 2 [processingBuffer]
  | .counting .refill | .queueing .refill =>
    .quiet true 1 [processingBuffer, readyBuffer] (some readyBuffer)
  | .endProcessing => .quiet true 2 [readyBuffer] (some readyBuffer)

section
variable (s : State)

def ReadyFrame : Option Buffer → Prop
  | none => s.captures.ready = none
  | some buffer => s.captures.ReadyIn buffer

structure Quiet (streaming : Bool) (k : Nat) (free : List Buffer) (ready : Option Buffer) :
    Prop where
  streaming : s.cameraStreaming = streaming
  waiting : s.consumerWaiting = false
  discarding : s.discardingCaptures = false
  bit : s.captureDoneBit = false
  length : s.dma.length = k
  unqueued : ∀ buffer ∈ free, buffer ∉ s.dma
  nodup : free.Nodup
  ready : ReadyFrame s ready

/-- The consumer waits. -/
structure Waits (k : Nat) : Prop where
  waiting : s.consumerWaiting = true
  bit : s.captureDoneBit = false
  length : s.dma.length = k
  ready : s.captures.ready = none

/-- The frame in `ready_buffer` is selected. -/
structure Selected (k : Nat) (free : List Buffer) : Prop where
  waiting : s.consumerWaiting = false
  bit : s.captureDoneBit = true
  length : s.dma.length + 1 = k
  queued : s.readyBuffer ∉ s.dma
  other : s.readyBuffer ∉ free
  ready : s.captures.ReadyIn s.readyBuffer

structure Awaiting (streaming : Bool) (k : Nat) (free : List Buffer) : Prop where
  streaming : s.cameraStreaming = streaming
  discarding : s.discardingCaptures = false
  unqueued : ∀ buffer ∈ free, buffer ∉ s.dma
  nodup : free.Nodup
  selected : Waits s k ∨ Selected s k free

structure Draining (buffer : Buffer) : Prop where
  streaming : s.cameraStreaming = true
  waiting : s.consumerWaiting = false
  discarding : s.discardingCaptures = true
  bit : s.captureDoneBit = true ↔ s.dma = []
  length : s.dma.length ≤ 2
  unqueued : buffer ∉ s.dma
  ready : s.captures.ReadyIn buffer

structure Drained (streaming : Bool) (ready : Option Buffer) : Prop where
  streaming : s.cameraStreaming = streaming
  waiting : s.consumerWaiting = false
  discarding : s.discardingCaptures = true
  bit : s.captureDoneBit = false
  dma : s.dma = []
  ready : ReadyFrame s ready

def Holds : Shape → Prop
  | .quiet streaming k free ready => Quiet s streaming k free ready
  | .awaiting streaming k free => Awaiting s streaming k free
  | .draining buffer => Draining s buffer
  | .drained streaming ready => Drained s streaming ready

def State.shape : Shape := shapeAt s.cameraStreaming s.processingBuffer s.readyBuffer s.point

/-- `outstanding_captures()` is the number of captures queued in the DMA, and one more where
`schedule_capture` has counted one that it has not queued yet. -/
def Counted : Prop := s.outstandingCaptures = .ofNat (s.dma.length + s.point.counted)

structure Inv : Prop where
  nodup : s.dma.Nodup
  counted : Counted s
  dropped : s.droppedFrames = .ofNat s.captures.dropped
  sound : s.captures.Sound
  shape : Holds s s.shape

end

theorem inv_start : Inv .start where
  nodup := List.nodup_nil
  counted := rfl
  dropped := rfl
  sound := Captures.sound_empty
  shape := ⟨rfl, rfl, rfl, rfl, rfl, fun _ h => absurd h List.not_mem_nil, List.nodup_nil, rfl⟩

/-! ## Completions -/

section
variable {s : State} {b : Buffer} {now : UInt32}

theorem counted_completed {q c : UInt32} {n : Nat} (h : q - c = .ofNat (n + 1)) :
    q - (c + 1) = .ofNat n := by
  rw [UInt32.ofNat_add] at h
  grind

theorem counted_scheduled {q c : UInt32} {n : Nat} (h : q - c = .ofNat n) :
    q + 1 - c = .ofNat (n + 1) := by
  rw [UInt32.ofNat_add]
  grind

/-- A replaced capture goes to the end of the queue. -/
theorem requeued_perm {l : List Buffer} (hb : b ∈ l) : (l.erase b ++ [b]).Perm l :=
  (List.perm_append_singleton b (l.erase b)).trans (List.perm_cons_erase hb).symm

theorem length_erase {l : List Buffer} (hb : b ∈ l) : (l.erase b).length + 1 = l.length := by
  have hpos := List.length_pos_of_mem hb
  rw [List.length_erase_of_mem hb]
  omega

theorem captureDone_dropped (hd : s.discardingCaptures = false) (hw : s.consumerWaiting = false) :
    s.captureDone b now = { s with dma := s.dma.erase b }.dropCapture b now := by
  simp only [State.captureDone, hd, hw, Bool.false_eq_true, if_false]

theorem captureDone_selected (hd : s.discardingCaptures = false) (hw : s.consumerWaiting = true) :
    s.captureDone b now = { s with dma := s.dma.erase b }.selectCapture b now := by
  simp only [State.captureDone, hd, hw, Bool.false_eq_true, if_false, if_true]

theorem captureDone_discarded (hd : s.discardingCaptures = true) :
    s.captureDone b now = { s with dma := s.dma.erase b }.discardCapture b := by
  simp only [State.captureDone, hd, if_true]

/-- What does not depend on the shape where a capture is replaced. -/
theorem Inv.dropCapture (h : Inv s) (hb : b ∈ s.dma)
    (hshape : Holds ({ s with dma := s.dma.erase b }.dropCapture b now) s.shape) :
    Inv ({ s with dma := s.dma.erase b }.dropCapture b now) where
  nodup := (requeued_perm hb).nodup_iff.mpr h.nodup
  counted := by
    show s.capturesQueued - s.capturesCompleted = .ofNat ((s.dma.erase b ++ [b]).length + _)
    rw [(requeued_perm hb).length_eq]
    exact h.counted
  dropped := by
    show s.droppedFrames + 1 = .ofNat (s.captures.complete b .dropped).dropped
    rw [Captures.dropped_complete, if_pos rfl, UInt32.ofNat_add, h.dropped]
    rfl
  sound := h.sound.complete (.inl rfl)
  shape := hshape

theorem ReadyFrame.dropCapture {ready : Option Buffer} (h : ReadyFrame s ready) (l : List Buffer) :
    ReadyFrame ({ s with dma := l }.dropCapture b now) ready := by
  cases ready with
  | none => exact h
  | some buffer => exact Captures.ReadyIn.complete h

theorem Quiet.dropCapture {streaming : Bool} {k : Nat} {free : List Buffer} {ready : Option Buffer}
    (h : Quiet s streaming k free ready) (hb : b ∈ s.dma) :
    Quiet ({ s with dma := s.dma.erase b }.dropCapture b now) streaming k free ready where
  streaming := h.streaming
  waiting := h.waiting
  discarding := h.discarding
  bit := h.bit
  length := (requeued_perm hb).length_eq.trans h.length
  unqueued buffer hmem := mt (requeued_perm hb).mem_iff.mp (h.unqueued buffer hmem)
  nodup := h.nodup
  ready := h.ready.dropCapture _

theorem Selected.dropCapture {k : Nat} {free : List Buffer} (h : Selected s k free)
    (hb : b ∈ s.dma) : Selected ({ s with dma := s.dma.erase b }.dropCapture b now) k free where
  waiting := h.waiting
  bit := h.bit
  length := (congrArg (· + 1) (requeued_perm hb).length_eq).trans h.length
  queued := mt (requeued_perm hb).mem_iff.mp h.queued
  other := h.other
  ready := h.ready.complete

theorem Waits.selectCapture {k : Nat} {free : List Buffer} (h : Waits s k)
    (hfree : ∀ buffer ∈ free, buffer ∉ s.dma) (hnodup : s.dma.Nodup) (hb : b ∈ s.dma) :
    Selected ({ s with dma := s.dma.erase b }.selectCapture b now) k free where
  waiting := rfl
  bit := rfl
  length := (length_erase hb).trans h.length
  queued := hnodup.not_mem_erase
  other hmem := hfree b hmem hb
  ready := Captures.readyIn_makeReady _ b

/-- The shape of a wait does not depend on `ready_buffer`. -/
theorem shapeAt_awaiting {streaming : Bool} {p r : Buffer} {point : Point} {st : Bool} {k : Nat}
    {free : List Buffer} (h : shapeAt streaming p r point = .awaiting st k free) (r' : Buffer) :
    shapeAt streaming p r' point = .awaiting st k free := by
  cases point with
  | counting site | queueing site => cases site <;> simp_all [shapeAt]
  | connected | disconnecting | beginning =>
    simp only [shapeAt] at h
    split at h <;> cases h
  | _ => simp_all [shapeAt]

theorem shapeAt_draining {streaming : Bool} {p r : Buffer} {point : Point} {buffer : Buffer}
    (h : shapeAt streaming p r point = .draining buffer) : point = .draining := by
  cases point with
  | counting site | queueing site => cases site <;> simp [shapeAt] at h
  | connected | disconnecting | beginning =>
    simp only [shapeAt] at h
    split at h <;> cases h
  | draining => rfl
  | _ => simp [shapeAt] at h

theorem Inv.counted_completed (h : Inv s) (hb : b ∈ s.dma) :
    s.capturesQueued - (s.capturesCompleted + 1) =
      .ofNat ((s.dma.erase b).length + s.point.counted) := by
  have hcounted : s.capturesQueued - s.capturesCompleted =
      .ofNat ((s.dma.erase b).length + s.point.counted + 1) := by
    rw [Nat.add_right_comm, length_erase hb]
    exact h.counted
  exact AiDeck.Wifi.counted_completed hcounted

theorem discardCapture_eq (s : State) (b : Buffer) : s.discardCapture b =
    { s with
      capturesCompleted := s.capturesCompleted + 1
      captures := s.captures.complete b .discarded
      captureDoneBit :=
        if s.capturesQueued - (s.capturesCompleted + 1) = 0 then true else s.captureDoneBit } := by
  by_cases hzero : s.capturesQueued - (s.capturesCompleted + 1) = 0
  · simp only [State.discardCapture, State.outstandingCaptures, hzero, if_true]
  · simp only [State.discardCapture, State.outstandingCaptures, hzero, if_false]

/-- The bit is set with the last capture. -/
theorem Draining.discardCapture {buffer : Buffer} (h : Draining s buffer) (hb : b ∈ s.dma)
    (hcounted : s.capturesQueued - (s.capturesCompleted + 1) = .ofNat (s.dma.erase b).length) :
    Draining ({ s with dma := s.dma.erase b }.discardCapture b) buffer := by
  have hle := h.length
  have hlength := length_erase hb
  have hbit : s.captureDoneBit = false := by
    cases hs : s.captureDoneBit with
    | false => rfl
    | true => exact absurd (h.bit.mp hs ▸ hb) List.not_mem_nil
  have hzero : s.capturesQueued - (s.capturesCompleted + 1) = 0 ↔ s.dma.erase b = [] := by
    rw [hcounted, ← UInt32.toNat_inj, UInt32.toNat_ofNat', Nat.mod_eq_of_lt (by omega),
      ← List.length_eq_zero_iff]
    rfl
  rw [discardCapture_eq]
  refine ⟨h.streaming, h.waiting, h.discarding, ?_, ?_, mt List.mem_of_mem_erase h.unqueued,
    h.ready.complete⟩
  · show (if s.capturesQueued - (s.capturesCompleted + 1) = 0 then true else s.captureDoneBit) =
      true ↔ s.dma.erase b = []
    rw [← hzero, hbit]
    split <;> simp_all
  · show (s.dma.erase b).length ≤ 2
    omega

theorem Inv.captureDone (h : Inv s) (hb : b ∈ s.dma) : Inv (s.captureDone b now) := by
  have hshape := h.shape
  cases hcase : s.shape with
  | quiet streaming k free ready =>
    rw [hcase] at hshape
    rw [captureDone_dropped hshape.discarding hshape.waiting]
    exact h.dropCapture hb (hcase ▸ Quiet.dropCapture hshape hb)
  | awaiting streaming k free =>
    rw [hcase] at hshape
    obtain hwaits | hselected := Awaiting.selected hshape
    · rw [captureDone_selected hshape.discarding hwaits.waiting]
      refine ⟨h.nodup.erase b, h.counted_completed hb, ?_, h.sound.makeReady hwaits.ready, ?_⟩
      · exact h.dropped.trans (congrArg _ (Captures.dropped_makeReady s.captures b).symm)
      · have hsame : ({ s with dma := s.dma.erase b }.selectCapture b now).shape =
            .awaiting streaming k free := shapeAt_awaiting hcase b
        rw [hsame]
        exact ⟨hshape.streaming, hshape.discarding,
          fun buffer hmem => mt List.mem_of_mem_erase (hshape.unqueued buffer hmem), hshape.nodup,
          .inr (hwaits.selectCapture hshape.unqueued h.nodup hb)⟩
    · rw [captureDone_dropped hshape.discarding hselected.waiting]
      refine h.dropCapture hb ?_
      rw [hcase]
      exact ⟨hshape.streaming, hshape.discarding,
        fun buffer hmem => mt (requeued_perm hb).mem_iff.mp (hshape.unqueued buffer hmem),
        hshape.nodup, .inr (hselected.dropCapture hb)⟩
  | draining buffer =>
    rw [hcase] at hshape
    have hpoint : s.point = .draining := shapeAt_draining hcase
    have hcounted := h.counted_completed hb
    rw [hpoint] at hcounted
    rw [captureDone_discarded hshape.discarding]
    have hdrained := Draining.discardCapture hshape hb hcounted
    rw [discardCapture_eq] at hdrained ⊢
    refine ⟨h.nodup.erase b, ?_, ?_, h.sound.complete (.inr rfl), ?_⟩
    · show _ = UInt32.ofNat ((s.dma.erase b).length + s.point.counted)
      rw [hpoint]
      exact hcounted
    · refine h.dropped.trans (congrArg _ ?_)
      exact (Captures.dropped_complete s.captures b .discarded).symm
    · show Holds _ s.shape
      rw [hcase]
      exact hdrained
  | drained streaming ready =>
    rw [hcase] at hshape
    exact absurd hb (by rw [hshape.dma]; exact List.not_mem_nil)

/-! ## The task -/

/-- A shape says nothing of these variables. -/
theorem holds_move {sh : Shape} (h : Holds s sh) (isConnected : Bool) (n : UInt32) (point : Point) :
    Holds { s with wifiClientConnected := isConnected, capturesQueued := n, point := point } sh := by
  cases sh with
  | quiet streaming k free ready =>
    have h : Quiet s streaming k free ready := h
    exact ⟨h.streaming, h.waiting, h.discarding, h.bit, h.length, h.unqueued, h.nodup, h.ready⟩
  | awaiting streaming k free =>
    have h : Awaiting s streaming k free := h
    exact ⟨h.streaming, h.discarding, h.unqueued, h.nodup, h.selected.imp
      (fun w => ⟨w.waiting, w.bit, w.length, w.ready⟩)
      (fun w => ⟨w.waiting, w.bit, w.length, w.queued, w.other, w.ready⟩)⟩
  | draining buffer =>
    have h : Draining s buffer := h
    exact ⟨h.streaming, h.waiting, h.discarding, h.bit, h.length, h.unqueued, h.ready⟩
  | drained streaming ready =>
    have h : Drained s streaming ready := h
    exact ⟨h.streaming, h.waiting, h.discarding, h.bit, h.dma, h.ready⟩

/-- A step that changes none of the counters and keeps the queue and the captures. -/
theorem Inv.keep (h : Inv s) {t : State} (hdma : t.dma = s.dma)
    (hq : t.outstandingCaptures = s.outstandingCaptures)
    (hp : t.point.counted = s.point.counted) (hd : t.droppedFrames = s.droppedFrames)
    (hdropped : t.captures.dropped = s.captures.dropped) (hsound : t.captures.Sound)
    (hshape : Holds t t.shape) : Inv t where
  nodup := hdma ▸ h.nodup
  counted := by
    rw [Counted, hq, hdma, hp]
    exact h.counted
  dropped := by rw [hd, hdropped, h.dropped]
  sound := hsound
  shape := hshape

theorem Awaiting.wakes {streaming : Bool} {k : Nat} {free : List Buffer}
    (h : Awaiting s streaming k free) (hbit : s.captureDoneBit = true) : Selected s k free := by
  obtain hwaits | hselected := h.selected
  · exact absurd (hwaits.bit.symm.trans hbit) Bool.false_ne_true
  · exact hselected

/-- What a wait leaves behind. -/
theorem Awaiting.woken {streaming : Bool} {k : Nat} {free : List Buffer}
    (h : Awaiting s streaming (k + 1) free) (hbit : s.captureDoneBit = true) (point : Point) :
    Quiet { s with captureDoneBit := false, point := point } streaming k (free ++ [s.readyBuffer])
      (some s.readyBuffer) := by
  have hselected := h.wakes hbit
  refine ⟨h.streaming, hselected.waiting, h.discarding, rfl, Nat.succ.inj hselected.length, ?_, ?_,
    hselected.ready⟩
  · intro buffer hmem
    rcases List.mem_append.mp hmem with hmem | hmem
    · exact h.unqueued buffer hmem
    · exact List.mem_singleton.mp hmem ▸ hselected.queued
  · rw [← List.concat_eq_append]
    exact h.nodup.concat hselected.other

theorem mem_queueCapture {buffer : Buffer} (hne : buffer ≠ b) (h : buffer ∉ s.dma) :
    buffer ∉ s.dma ++ [b] := by
  intro hmem
  rcases List.mem_append.mp hmem with hmem | hmem
  · exact h hmem
  · exact hne (List.mem_singleton.mp hmem)

theorem Quiet.queueCapture {streaming : Bool} {k : Nat} {free : List Buffer}
    {ready : Option Buffer} (h : Quiet s streaming k (b :: free) ready) (point : Point) :
    Quiet ((s.queueCapture b now).goto point) streaming (k + 1) free ready := by
  obtain ⟨hb, hnodup⟩ := List.nodup_cons.mp h.nodup
  refine ⟨h.streaming, h.waiting, h.discarding, h.bit, ?_, ?_, hnodup, h.ready⟩
  · exact List.length_append.trans (congrArg (· + 1) h.length)
  · intro buffer hmem
    exact mem_queueCapture (fun heq => hb (heq ▸ hmem))
      (h.unqueued buffer (List.mem_cons_of_mem _ hmem))

theorem Awaiting.queueCapture {streaming : Bool} {k : Nat} {free : List Buffer}
    (h : Awaiting s streaming k (b :: free)) (point : Point) :
    Awaiting ((s.queueCapture b now).goto point) streaming (k + 1) free := by
  obtain ⟨hb, hnodup⟩ := List.nodup_cons.mp h.nodup
  refine ⟨h.streaming, h.discarding, ?_, hnodup, ?_⟩
  · intro buffer hmem
    exact mem_queueCapture (fun heq => hb (heq ▸ hmem))
      (h.unqueued buffer (List.mem_cons_of_mem _ hmem))
  · obtain hwaits | hselected := h.selected
    · exact .inl ⟨hwaits.waiting, hwaits.bit,
        List.length_append.trans (congrArg (· + 1) hwaits.length), hwaits.ready⟩
    · obtain ⟨hne, hother⟩ := List.ne_and_not_mem_of_not_mem_cons hselected.other
      exact .inr ⟨hselected.waiting, hselected.bit,
        (congrArg (· + 1) List.length_append).trans (congrArg (· + 1) hselected.length),
        mem_queueCapture hne hselected.queued, hother, hselected.ready⟩

/-- At each call of `schedule_capture` its buffer is the first of the free ones. -/
theorem holds_queueing (now : UInt32) {site : Site} (hpoint : s.point = .queueing site)
    (h : Holds s s.shape) :
    s.scheduled site ∉ s.dma ∧
      Holds ((s.queueCapture (s.scheduled site) now).goto site.next)
        ((s.queueCapture (s.scheduled site) now).goto site.next).shape := by
  rw [State.shape, hpoint] at h
  cases site with
  | first =>
    have h : Awaiting s false 0 [1, 2, 0] := h
    exact ⟨h.unqueued 1 List.mem_cons_self, h.queueCapture _⟩
  | second =>
    have h : Awaiting s false 1 [2, 0] := h
    exact ⟨h.unqueued 2 List.mem_cons_self, h.queueCapture _⟩
  | third =>
    have h : Quiet s false 1 [0, s.processingBuffer] (some s.processingBuffer) := h
    exact ⟨h.unqueued 0 List.mem_cons_self, h.queueCapture _⟩
  | refill =>
    have h : Quiet s true 1 [s.processingBuffer, s.readyBuffer] (some s.readyBuffer) := h
    exact ⟨h.unqueued _ List.mem_cons_self, h.queueCapture _⟩

theorem Inv.queueing (h : Inv s) {site : Site} (hpoint : s.point = .queueing site) :
    Inv ((s.queueCapture (s.scheduled site) now).goto site.next) := by
  obtain ⟨hfree, hshape⟩ := holds_queueing now hpoint h.shape
  refine ⟨?_, ?_, h.dropped, h.sound, hshape⟩
  · show (s.dma ++ [s.scheduled site]).Nodup
    rw [← List.concat_eq_append]
    exact h.nodup.concat hfree
  · have hnext : site.next.counted = 0 := by cases site <;> rfl
    have hcounted := h.counted
    rw [Counted, hpoint] at hcounted
    show s.outstandingCaptures = .ofNat ((s.dma ++ [s.scheduled site]).length + site.next.counted)
    rw [hcounted, List.length_append, hnext]
    rfl

theorem Inv.counting (h : Inv s) {site : Site} (hpoint : s.point = .counting site) :
    Inv { s with capturesQueued := s.capturesQueued + 1, point := .queueing site } := by
  have hcounted := h.counted
  rw [Counted, hpoint] at hcounted
  have hshape : s.shape = shapeAt s.cameraStreaming s.processingBuffer s.readyBuffer
      (.queueing site) := by
    rw [State.shape, hpoint]
    cases site <;> rfl
  refine ⟨h.nodup, counted_scheduled hcounted, h.dropped, h.sound, ?_⟩
  have hmove := holds_move h.shape s.wifiClientConnected (s.capturesQueued + 1) (.queueing site)
  rw [hshape] at hmove
  exact hmove

/-- A step that only goes to the next statement. -/
theorem Inv.goto (h : Inv s) {point : Point} (hcounted : s.point.counted = 0)
    (hnext : point.counted = 0)
    (hshape : shapeAt s.cameraStreaming s.processingBuffer s.readyBuffer point = s.shape) :
    Inv (s.goto point) := by
  have hmove := holds_move h.shape s.wifiClientConnected s.capturesQueued point
  rw [← hshape] at hmove
  exact h.keep rfl rfl (hnext.trans hcounted.symm) rfl rfl h.sound hmove

theorem Inv.client (h : Inv s) (isConnected : Bool) :
    Inv { s with wifiClientConnected := isConnected } :=
  h.keep rfl rfl rfl rfl rfl h.sound
    (holds_move h.shape isConnected s.capturesQueued s.point)

theorem waitForReadyFrame_some {t : State} {next : Point}
    (h : s.waitForReadyFrame next = some t) :
    s.captureDoneBit = true ∧ t = { s with captureDoneBit := false, point := next } := by
  unfold State.waitForReadyFrame at h
  split at h
  · exact ⟨‹_›, (Option.some.inj h).symm⟩
  · cases h

/-- What holds at the next statement. -/
theorem Inv.holds (h : Inv s) {point : Point} (hpoint : s.point = point) :
    Holds s (shapeAt s.cameraStreaming s.processingBuffer s.readyBuffer point) :=
  hpoint ▸ h.shape

/-! ### camera_task -/

theorem Inv.connected (h : Inv s) (hpoint : s.point = .connected) :
    Inv (s.goto (if s.wifiClientConnected then .beginning else .disconnecting)) := by
  refine h.goto (by rw [hpoint]; rfl) ?_ ?_
  · split <;> rfl
  · rw [State.shape, hpoint]
    split <;> rfl

theorem Inv.delaying (h : Inv s) (hpoint : s.point = .delaying) : Inv (s.goto .connected) := by
  have hquiet : Quiet s false 0 [] none := h.holds hpoint
  refine h.goto (by rw [hpoint]; rfl) rfl ?_
  rw [State.shape, hpoint, hquiet.streaming]
  rfl

theorem Inv.processing (h : Inv s) (hpoint : s.point = .processing) :
    Inv (s.goto .endWaiting) :=
  h.goto (by rw [hpoint]; rfl) rfl (by rw [State.shape, hpoint]; rfl)

/-! ### camera_pipeline_disconnect -/

theorem Inv.disconnecting (h : Inv s) (hpoint : s.point = .disconnecting) :
    Inv (s.goto (if s.cameraStreaming then .clearing else .delaying)) := by
  refine h.goto (by rw [hpoint]; rfl) ?_ ?_
  · split <;> rfl
  · rw [State.shape, hpoint]
    cases s.cameraStreaming <;> rfl

theorem Inv.clearing (h : Inv s) (hpoint : s.point = .clearing) :
    Inv { s with captureDoneBit := false, point := .discarding } := by
  have hquiet : Quiet s true 2 [s.processingBuffer] (some s.processingBuffer) := h.holds hpoint
  exact h.keep rfl rfl (by rw [hpoint]; rfl) rfl rfl h.sound
    (show Quiet _ true 2 [s.processingBuffer] (some s.processingBuffer) from
      ⟨hquiet.streaming, hquiet.waiting, hquiet.discarding, rfl, hquiet.length,
        hquiet.unqueued, hquiet.nodup, hquiet.ready⟩)

theorem Inv.discarding (h : Inv s) (hpoint : s.point = .discarding) :
    Inv { s with discardingCaptures := true, point := .draining } := by
  have hquiet : Quiet s true 2 [s.processingBuffer] (some s.processingBuffer) := h.holds hpoint
  have hbit : s.captureDoneBit = true ↔ s.dma = [] := by
    refine iff_of_false (by rw [hquiet.bit]; exact Bool.false_ne_true) ?_
    intro hnil
    exact absurd (hquiet.length.symm.trans (congrArg List.length hnil)) (by decide)
  exact h.keep rfl rfl (by rw [hpoint]; rfl) rfl rfl h.sound
    (show Draining _ s.processingBuffer from
      ⟨hquiet.streaming, hquiet.waiting, rfl, hbit, hquiet.length.le,
        hquiet.unqueued _ List.mem_cons_self, hquiet.ready⟩)

theorem Inv.draining (h : Inv s) (hpoint : s.point = .draining) (hbit : s.captureDoneBit = true) :
    Inv { s with captureDoneBit := false, point := .clearingAgain } := by
  have hdraining : Draining s s.processingBuffer := h.holds hpoint
  exact h.keep rfl rfl (by rw [hpoint]; rfl) rfl rfl h.sound
    (show Drained _ true (some s.processingBuffer) from
      ⟨hdraining.streaming, hdraining.waiting, hdraining.discarding, rfl,
        hdraining.bit.mp hbit, hdraining.ready⟩)

theorem Inv.clearingAgain (h : Inv s) (hpoint : s.point = .clearingAgain) :
    Inv { s with captureDoneBit := false, point := .stopping } := by
  have hdrained : Drained s true (some s.processingBuffer) := h.holds hpoint
  exact h.keep rfl rfl (by rw [hpoint]; rfl) rfl rfl h.sound
    (show Drained _ true (some s.processingBuffer) from
      ⟨hdrained.streaming, hdrained.waiting, hdrained.discarding, rfl, hdrained.dma,
        hdrained.ready⟩)

theorem Inv.stopping (h : Inv s) (hpoint : s.point = .stopping) :
    Inv { s with
      cameraStreaming := false, captures := s.captures.discard, point := .notWaiting } := by
  have hdrained : Drained s true (some s.processingBuffer) := h.holds hpoint
  have hready : s.captures.ReadyIn s.processingBuffer := hdrained.ready
  exact h.keep rfl rfl (by rw [hpoint]; rfl) rfl (Captures.dropped_discard hready)
    (h.sound.discard hready)
    (show Drained _ false none from
      ⟨rfl, hdrained.waiting, hdrained.discarding, hdrained.bit, hdrained.dma, rfl⟩)

theorem Inv.notWaiting (h : Inv s) (hpoint : s.point = .notWaiting) :
    Inv { s with consumerWaiting := false, point := .notDiscarding } := by
  have hdrained : Drained s false none := h.holds hpoint
  exact h.keep rfl rfl (by rw [hpoint]; rfl) rfl rfl h.sound
    (show Drained _ false none from
      ⟨hdrained.streaming, rfl, hdrained.discarding, hdrained.bit, hdrained.dma,
        hdrained.ready⟩)

theorem Inv.notDiscarding (h : Inv s) (hpoint : s.point = .notDiscarding) :
    Inv { s with discardingCaptures := false, point := .delaying } := by
  have hdrained : Drained s false none := h.holds hpoint
  exact h.keep rfl rfl (by rw [hpoint]; rfl) rfl rfl h.sound
    (show Quiet _ false 0 [] none from
      ⟨hdrained.streaming, hdrained.waiting, rfl, hdrained.bit,
        congrArg List.length hdrained.dma, fun _ hmem => absurd hmem List.not_mem_nil,
        List.nodup_nil, hdrained.ready⟩)

/-! ### camera_pipeline_begin_frame -/

theorem Inv.beginning (h : Inv s) (hpoint : s.point = .beginning) :
    Inv (s.goto (if s.cameraStreaming then .returning else .beginWaiting)) := by
  refine h.goto (by rw [hpoint]; rfl) ?_ ?_
  · split <;> rfl
  · rw [State.shape, hpoint]
    cases s.cameraStreaming <;> rfl

theorem Inv.beginWaiting (h : Inv s) (hpoint : s.point = .beginWaiting) :
    Inv { s with
      consumerWaiting := true, captures := s.captures.wait, point := .counting .first } := by
  have hquiet : Quiet s false 0 [] none := h.holds hpoint
  have hdma : s.dma = [] := List.eq_nil_of_length_eq_zero hquiet.length
  exact h.keep rfl rfl (by rw [hpoint]; rfl) rfl rfl (h.sound.wait hquiet.ready)
    (show Awaiting _ false 0 [1, 2, 0] from
      ⟨hquiet.streaming, hquiet.discarding, fun _ _ => hdma ▸ List.not_mem_nil, by decide,
        .inl ⟨rfl, hquiet.bit, hquiet.length, hquiet.ready⟩⟩)

theorem Inv.beginWait (h : Inv s) (hpoint : s.point = .beginWait)
    (hbit : s.captureDoneBit = true) :
    Inv { s with captureDoneBit := false, point := .beginProcessing } := by
  have hawaiting : Awaiting s false 2 [0] := h.holds hpoint
  exact h.keep rfl rfl (by rw [hpoint]; rfl) rfl rfl h.sound (hawaiting.woken hbit _)

theorem Inv.beginProcessing (h : Inv s) (hpoint : s.point = .beginProcessing) :
    Inv { s with processingBuffer := s.readyBuffer, point := .counting .third } := by
  have hquiet : Quiet s false 1 [0, s.readyBuffer] (some s.readyBuffer) := h.holds hpoint
  exact h.keep rfl rfl (by rw [hpoint]; rfl) rfl rfl h.sound
    (show Quiet _ false 1 [0, s.readyBuffer] (some s.readyBuffer) from
      ⟨hquiet.streaming, hquiet.waiting, hquiet.discarding, hquiet.bit, hquiet.length,
        hquiet.unqueued, hquiet.nodup, hquiet.ready⟩)

theorem Inv.beginStreaming (h : Inv s) (hpoint : s.point = .beginStreaming) :
    Inv { s with cameraStreaming := true, point := .returning } := by
  have hquiet : Quiet s false 2 [s.processingBuffer] (some s.processingBuffer) := h.holds hpoint
  exact h.keep rfl rfl (by rw [hpoint]; rfl) rfl rfl h.sound
    (show Quiet _ true 2 [s.processingBuffer] (some s.processingBuffer) from
      ⟨rfl, hquiet.waiting, hquiet.discarding, hquiet.bit, hquiet.length, hquiet.unqueued,
        hquiet.nodup, hquiet.ready⟩)

theorem Inv.returning (h : Inv s) (hpoint : s.point = .returning) :
    Inv { s with
      captures := s.captures.deliver s.processingBuffer, point := .processing } := by
  have hquiet : Quiet s true 2 [s.processingBuffer] (some s.processingBuffer) := h.holds hpoint
  have hready : s.captures.ReadyIn s.processingBuffer := hquiet.ready
  exact h.keep rfl rfl (by rw [hpoint]; rfl) rfl (Captures.dropped_deliver hready)
    (h.sound.deliver hready)
    (show Quiet _ true 2 [s.processingBuffer] none from
      ⟨hquiet.streaming, hquiet.waiting, hquiet.discarding, hquiet.bit, hquiet.length,
        hquiet.unqueued, hquiet.nodup, rfl⟩)

/-! ### camera_pipeline_end_frame -/

theorem Inv.endWaiting (h : Inv s) (hpoint : s.point = .endWaiting) :
    Inv { s with consumerWaiting := true, captures := s.captures.wait, point := .endWait } := by
  have hquiet : Quiet s true 2 [s.processingBuffer] none := h.holds hpoint
  exact h.keep rfl rfl (by rw [hpoint]; rfl) rfl rfl (h.sound.wait hquiet.ready)
    (show Awaiting _ true 2 [s.processingBuffer] from
      ⟨hquiet.streaming, hquiet.discarding, hquiet.unqueued, hquiet.nodup,
        .inl ⟨rfl, hquiet.bit, hquiet.length, hquiet.ready⟩⟩)

theorem Inv.endWait (h : Inv s) (hpoint : s.point = .endWait) (hbit : s.captureDoneBit = true) :
    Inv { s with captureDoneBit := false, point := .counting .refill } := by
  have hawaiting : Awaiting s true 2 [s.processingBuffer] := h.holds hpoint
  exact h.keep rfl rfl (by rw [hpoint]; rfl) rfl rfl h.sound (hawaiting.woken hbit _)

theorem Inv.endProcessing (h : Inv s) (hpoint : s.point = .endProcessing) :
    Inv { s with processingBuffer := s.readyBuffer, point := .connected } := by
  have hquiet : Quiet s true 2 [s.readyBuffer] (some s.readyBuffer) := h.holds hpoint
  refine h.keep rfl rfl (by rw [hpoint]; rfl) rfl rfl h.sound ?_
  show Holds _ (if s.cameraStreaming then _ else _)
  rw [hquiet.streaming, if_pos rfl]
  exact ⟨rfl, hquiet.waiting, hquiet.discarding, hquiet.bit, hquiet.length,
    hquiet.unqueued, hquiet.nodup, hquiet.ready⟩

/-! ### Steps -/

theorem Inv.taskStep (h : Inv s) {t : State} (hstep : s.taskStep now = some t) : Inv t := by
  unfold State.taskStep at hstep
  cases hpoint : s.point with
  | draining =>
    rw [hpoint] at hstep
    obtain ⟨hbit, rfl⟩ := waitForReadyFrame_some hstep
    exact h.draining hpoint hbit
  | beginWait =>
    rw [hpoint] at hstep
    obtain ⟨hbit, rfl⟩ := waitForReadyFrame_some hstep
    exact h.beginWait hpoint hbit
  | endWait =>
    rw [hpoint] at hstep
    obtain ⟨hbit, rfl⟩ := waitForReadyFrame_some hstep
    exact h.endWait hpoint hbit
  | connected => exact Option.some.inj (hpoint ▸ hstep) ▸ h.connected hpoint
  | delaying => exact Option.some.inj (hpoint ▸ hstep) ▸ h.delaying hpoint
  | processing => exact Option.some.inj (hpoint ▸ hstep) ▸ h.processing hpoint
  | disconnecting => exact Option.some.inj (hpoint ▸ hstep) ▸ h.disconnecting hpoint
  | clearing => exact Option.some.inj (hpoint ▸ hstep) ▸ h.clearing hpoint
  | discarding => exact Option.some.inj (hpoint ▸ hstep) ▸ h.discarding hpoint
  | clearingAgain => exact Option.some.inj (hpoint ▸ hstep) ▸ h.clearingAgain hpoint
  | stopping => exact Option.some.inj (hpoint ▸ hstep) ▸ h.stopping hpoint
  | notWaiting => exact Option.some.inj (hpoint ▸ hstep) ▸ h.notWaiting hpoint
  | notDiscarding => exact Option.some.inj (hpoint ▸ hstep) ▸ h.notDiscarding hpoint
  | beginning => exact Option.some.inj (hpoint ▸ hstep) ▸ h.beginning hpoint
  | beginWaiting => exact Option.some.inj (hpoint ▸ hstep) ▸ h.beginWaiting hpoint
  | beginProcessing => exact Option.some.inj (hpoint ▸ hstep) ▸ h.beginProcessing hpoint
  | beginStreaming => exact Option.some.inj (hpoint ▸ hstep) ▸ h.beginStreaming hpoint
  | returning => exact Option.some.inj (hpoint ▸ hstep) ▸ h.returning hpoint
  | endWaiting => exact Option.some.inj (hpoint ▸ hstep) ▸ h.endWaiting hpoint
  | endProcessing => exact Option.some.inj (hpoint ▸ hstep) ▸ h.endProcessing hpoint
  | counting site => exact Option.some.inj (hpoint ▸ hstep) ▸ h.counting hpoint
  | queueing site => exact Option.some.inj (hpoint ▸ hstep) ▸ h.queueing hpoint

theorem Inv.step (h : Inv s) {e : Event} {t : State} (hstep : step s e = some t) : Inv t := by
  cases e with
  | client isConnected => exact Option.some.inj hstep ▸ h.client isConnected
  | captureDone b now =>
    simp only [AiDeck.Wifi.step] at hstep
    split at hstep
    · exact Option.some.inj hstep ▸ h.captureDone ‹_›
    · cases hstep
  | task now => exact h.taskStep hstep

theorem inv_reachable (h : pipeline.Reachable s) : Inv s := by
  refine h.invariant (fun s hs => hs ▸ inv_start) ?_
  rintro s t hinv ⟨e, hstep⟩
  exact hinv.step hstep

end

end AiDeck.Wifi
