import AiDeck.Wifi.PipelineInvariant

/-! # Safety of the capture pipeline -/
namespace AiDeck.Wifi
open AiDeck.Lib

/-- The task is between `camera_pipeline_begin_frame` and the wait of
`camera_pipeline_end_frame`. -/
def Point.processes : Point → Bool
  | processing | endWaiting => true
  | _ => false

/-- From where a wait can be ended to where it ends. -/
def Point.waits : Point → Bool
  | counting .second | queueing .second | beginWait | endWait | draining => true
  | _ => false

/-- What is left of a selected frame: it is returned by `camera_pipeline_begin_frame` or given up
by `camera_pipeline_disconnect`. -/
def Point.selects : Point → Bool
  | notWaiting | notDiscarding | delaying | beginWaiting | processing | endWaiting
  | counting .first | queueing .first => false
  | _ => true

/-- A completed capture is selected, discarded, or counted in `dropped_frames` and queued again. -/
inductive Outcome (s t : State) (b : Buffer) : Prop
  | selected (h : t.captures.completions = s.captures.completions ++ [⟨b, .ready⟩])
      (hwaiting : s.consumerWaiting = true)
  | discarded (h : t.captures.completions = s.captures.completions ++ [⟨b, .discarded⟩])
      (hdiscarding : s.point = .draining)
  | dropped (h : t.captures.completions = s.captures.completions ++ [⟨b, .dropped⟩])
      (hcounted : t.droppedFrames = s.droppedFrames + 1) (hqueued : b ∈ t.dma)

/-- `unqueued` leaves out the statement of `camera_pipeline_end_frame` that follows
`schedule_capture(processing_buffer)`; `outstanding` has the capture that is counted and not yet
queued. -/
structure Safe (s : State) : Prop where
  queuedOnce : s.dma.Nodup
  unqueued : s.cameraStreaming = true → s.point ≠ .endProcessing → s.processingBuffer ∉ s.dma
  outstanding : s.outstandingCaptures = .ofNat (s.dma.length + s.point.counted)
  two : s.point.processes = true → s.dma.length = 2 ∧ s.outstandingCaptures = 2
  fresh : ∀ d ∈ s.captures.deliveries, s.captures.Fresh d
  outcome : ∀ b ∈ s.dma, ∀ now, Outcome s (s.captureDone b now) b
  dropped : s.droppedFrames = .ofNat s.captures.dropped
  settled : ∀ i c, s.captures.completions[i]? = some c → c.fate = .ready →
    s.captures.ready = some i ∧ s.point.selects = true
  delivered : ∀ i b, s.captures.completions[i]? = some ⟨b, .delivered⟩ →
    ∃ d ∈ s.captures.deliveries, d.capture = some i
  bit : s.captureDoneBit = true → s.point.waits = true
  disconnected : s.point = .delaying → s.dma = [] ∧ s.outstandingCaptures = 0
  free : s.point = .beginWaiting → s.dma = []

/-! ## What a shape says -/

/-- The event bit may be set. -/
def Shape.waits : Shape → Bool
  | quiet _ _ _ _ => false
  | awaiting _ k _ => k != 0
  | draining _ => true
  | drained _ _ => false

/-- A frame may be selected. -/
def Shape.selects : Shape → Bool
  | quiet _ _ _ ready => ready.isSome
  | awaiting _ k _ => k != 0
  | draining _ => true
  | drained _ ready => ready.isSome

def Shape.streaming : Shape → Bool
  | quiet streaming _ _ _ => streaming
  | awaiting streaming _ _ => streaming
  | draining _ => true
  | drained streaming _ => streaming

/-- The buffer is in no queued capture. -/
def Shape.keeps (buffer : Buffer) : Shape → Bool
  | quiet _ _ free _ => free.contains buffer
  | awaiting _ _ free => free.contains buffer
  | draining b => b == buffer
  | drained _ _ => true

section
variable {s : State} {sh : Shape} {st : Bool} {p r : Buffer} {point : Point}

theorem Holds.waits (h : Holds s sh) (hbit : s.captureDoneBit = true) : sh.waits = true := by
  cases sh with
  | quiet streaming k free ready =>
    have h : Quiet s streaming k free ready := h
    exact absurd (h.bit.symm.trans hbit) Bool.false_ne_true
  | awaiting streaming k free =>
    have h : Awaiting s streaming k free := h
    have hlength := (h.wakes hbit).length
    exact bne_iff_ne.mpr (by omega)
  | draining buffer => rfl
  | drained streaming ready =>
    have h : Drained s streaming ready := h
    exact absurd (h.bit.symm.trans hbit) Bool.false_ne_true

theorem ReadyFrame.isSome {ready : Option Buffer} {i : Nat} (h : ReadyFrame s ready)
    (hready : s.captures.ready = some i) : ready.isSome = true := by
  cases ready with
  | none => exact absurd ((show s.captures.ready = none from h).symm.trans hready) (by simp)
  | some buffer => rfl

theorem Holds.selects {i : Nat} (h : Holds s sh) (hready : s.captures.ready = some i) :
    sh.selects = true := by
  cases sh with
  | quiet streaming k free ready =>
    have h : Quiet s streaming k free ready := h
    exact h.ready.isSome hready
  | awaiting streaming k free =>
    have h : Awaiting s streaming k free := h
    obtain hwaits | hselected := h.selected
    · exact absurd (hwaits.ready.symm.trans hready) (by simp)
    · have hlength := hselected.length
      exact bne_iff_ne.mpr (by omega)
  | draining buffer => rfl
  | drained streaming ready =>
    have h : Drained s streaming ready := h
    exact h.ready.isSome hready

theorem Holds.streaming (h : Holds s sh) : s.cameraStreaming = sh.streaming := by
  cases sh with
  | quiet streaming k free ready => exact Quiet.streaming h
  | awaiting streaming k free => exact Awaiting.streaming h
  | draining buffer => exact Draining.streaming h
  | drained streaming ready => exact Drained.streaming h

theorem Holds.keeps {buffer : Buffer} (h : Holds s sh) (hkeeps : sh.keeps buffer = true) :
    buffer ∉ s.dma := by
  cases sh with
  | quiet streaming k free ready =>
    exact Quiet.unqueued h buffer (List.contains_iff_mem.mp hkeeps)
  | awaiting streaming k free =>
    exact Awaiting.unqueued h buffer (List.contains_iff_mem.mp hkeeps)
  | draining b => exact beq_iff_eq.mp hkeeps ▸ Draining.unqueued h
  | drained streaming ready =>
    rw [Drained.dma h]
    exact List.not_mem_nil

theorem shapeAt_waits (h : (shapeAt st p r point).waits = true) : point.waits = true := by
  cases point with
  | counting site | queueing site => cases site <;> first | rfl | cases h
  | connected | disconnecting | beginning => cases st <;> cases h
  | _ => first | rfl | cases h

theorem shapeAt_selects (h : (shapeAt st p r point).selects = true) :
    point.selects = true := by
  cases point with
  | counting site | queueing site => cases site <;> first | rfl | cases h
  | _ => first | rfl | cases h

/-- The buffer that is processed is free while the camera is streaming. -/
theorem shapeAt_keeps (hpoint : point ≠ .endProcessing)
    (h : (shapeAt st p r point).streaming = true) :
    (shapeAt st p r point).keeps p = true := by
  cases point with
  | counting site | queueing site =>
    cases site <;> simp_all [shapeAt, Shape.keeps, Shape.streaming]
  | connected | disconnecting | beginning =>
    cases st <;> simp_all [shapeAt, Shape.keeps, Shape.streaming]
  | _ => simp_all [shapeAt, Shape.keeps, Shape.streaming]

/-! ## Completions -/

theorem Inv.outcome {b : Buffer} {now : UInt32} (h : Inv s) (hb : b ∈ s.dma) :
    Outcome s (s.captureDone b now) b := by
  cases hd : s.discardingCaptures with
  | true =>
    have hshape := h.shape
    have hpoint : s.point = .draining := by
      cases hcase : s.shape with
      | quiet streaming k free ready =>
        rw [hcase] at hshape
        exact absurd ((Quiet.discarding hshape).symm.trans hd) Bool.false_ne_true
      | awaiting streaming k free =>
        rw [hcase] at hshape
        exact absurd ((Awaiting.discarding hshape).symm.trans hd) Bool.false_ne_true
      | draining buffer => exact shapeAt_draining hcase
      | drained streaming ready =>
        rw [hcase] at hshape
        exact absurd hb (by rw [Drained.dma hshape]; exact List.not_mem_nil)
    rw [captureDone_discarded hd, discardCapture_eq]
    exact .discarded rfl hpoint
  | false =>
    cases hw : s.consumerWaiting with
    | true =>
      rw [captureDone_selected hd hw]
      exact .selected rfl hw
    | false =>
      rw [captureDone_dropped hd hw]
      exact .dropped rfl rfl (List.mem_append_right _ (List.mem_singleton_self b))

/-! ## The result -/

theorem Inv.two (h : Inv s) (hpoint : s.point.processes = true) :
    s.dma.length = 2 ∧ s.outstandingCaptures = 2 := by
  have hshape := h.shape
  have hcounted := h.counted
  rw [State.shape] at hshape
  cases hcase : s.point with
  | processing | endWaiting =>
    rw [hcase] at hshape
    have hquiet : Quiet s true 2 [s.processingBuffer] none := hshape
    rw [Counted, hcase, hquiet.length] at hcounted
    exact ⟨hquiet.length, hcounted⟩
  | _ =>
    rw [hcase] at hpoint
    cases hpoint

/-- No capture is queued where the camera is not streaming and none has been counted. -/
theorem Inv.idle (h : Inv s) (hpoint : s.point = .delaying ∨ s.point = .beginWaiting) :
    s.dma = [] ∧ s.outstandingCaptures = 0 := by
  have hshape := h.shape
  have hcounted := h.counted
  have hquiet : Quiet s false 0 [] none := by
    rw [State.shape] at hshape
    rcases hpoint with hpoint | hpoint
    · rw [hpoint] at hshape
      exact hshape
    · rw [hpoint] at hshape
      exact hshape
  have hpoint' : s.point.counted = 0 := by
    rcases hpoint with hpoint | hpoint
    · rw [hpoint]; rfl
    · rw [hpoint]; rfl
  rw [Counted, hquiet.length, hpoint'] at hcounted
  exact ⟨List.eq_nil_of_length_eq_zero hquiet.length, hcounted⟩

/-- **Safety of the capture pipeline.** It holds in every state reached by the task, by captures
that complete at any point, and by clients that come and go. -/
theorem pipeline_safe (s : State) (h : pipeline.Reachable s) : Safe s := by
  have hinv := inv_reachable h
  exact {
    queuedOnce := hinv.nodup
    unqueued := fun hstreaming hpoint =>
      hinv.shape.keeps (shapeAt_keeps hpoint (hinv.shape.streaming.symm.trans hstreaming))
    outstanding := hinv.counted
    two := hinv.two
    fresh := hinv.sound.fresh
    outcome := fun b hb now => hinv.outcome hb
    dropped := hinv.dropped
    settled := by
      rintro i ⟨b, fate⟩ hi rfl
      have hready := (hinv.sound.ready_iff i).mpr ⟨b, hi⟩
      exact ⟨hready, shapeAt_selects (hinv.shape.selects hready)⟩
    delivered := hinv.sound.delivered
    bit := fun hbit => shapeAt_waits (hinv.shape.waits hbit)
    disconnected := fun hpoint => hinv.idle (.inl hpoint)
    free := fun hpoint => (hinv.idle (.inr hpoint)).1 }

end

/-- Runs given by their events. -/
theorem reachable_run (events : List Event) {s : State}
    (hrun : events.foldlM step .start = some s) : pipeline.Reachable s :=
  Transition.Reachable.run events (.init rfl) (fun _ e _ hstep => ⟨e, hstep⟩) hrun

/-- A client connects, and the task goes to where the first capture is counted. -/
def firstCounted : List Event :=
  [.client true, .task 0, .task 0, .task 0, .task 0]

/-- The first frame: its capture completes while the task waits, and the next one is dropped while
the frame is processed. -/
def firstFrame : List Event :=
  firstCounted ++ [.task 0, .task 0, .task 0, .captureDone 1 5, .task 5, .task 5, .task 5, .task 5,
    .task 5, .task 5, .captureDone 2 9]

theorem pipeline_safe_firstFrame :
    ∃ s, firstFrame.foldlM step .start = some s ∧ s.point = .processing ∧ s.droppedFrames = 1 ∧
      Safe s :=
  ⟨_, rfl, rfl, rfl, pipeline_safe _ (reachable_run firstFrame rfl)⟩

/-- Between the two statements of `schedule_capture` no capture is queued and one is counted. -/
theorem outstanding_ahead :
    ∃ s, pipeline.Reachable s ∧ s.point = .queueing .first ∧ s.dma = [] ∧
      s.outstandingCaptures = 1 ∧ s.outstandingCaptures ≠ .ofNat s.dma.length :=
  ⟨_, reachable_run firstCounted rfl, rfl, rfl, rfl, by decide⟩

end AiDeck.Wifi
