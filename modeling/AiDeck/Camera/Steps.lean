import AiDeck.Camera.TaskSteps

/-! # What the other steps do

The sensor, the contexts of the frames and the callbacks of the events leave `camera_task` where
it is; a callback lets it go on. -/
namespace AiDeck.Camera
open AiDeck.Lib AiDeck.Coroutine

variable {N : Nat} {E : Type} {s t : CameraSystem N E} {v w : CameraSchedule N E}
  {st : Fin N → FrameState} {i j : Fin N} {k : Nat} {stage : Stage}

theorem update_eq_iff {new x : FrameState} (hold : st i ≠ x) (hnew : new ≠ x) :
    Function.update st i new j = x ↔ st j = x := by
  by_cases hj : j = i
  · subst hj
    rw [Function.update_self]
    exact iff_of_false hnew hold
  · rw [Function.update_of_ne hj]

section
variable [NeZero N]

/-- A frame goes on within its stage. -/
theorem Turn.advance (h : Turn s st k stage) {new : FrameState} (hsame : SameIndices s t)
    (hstage : new.stage? = (st i).stage?)
    (hrounds : Rounds t.log s.captureIdx
      (if Function.update st i new (.ofNat N k) = .active .capture then k else s.captureIdx)
      s.cropIdx (if Function.update st i new (.ofNat N k) = .active .crop then k else s.cropIdx)
      k) :
    Turn t (Function.update st i new) k stage := by
  refine ⟨hsame.captureIdx.trans h.captureIdx, hsame.cropIdx.trans h.cropIdx,
    hsame.consumeIdx.trans h.consumeIdx, ?_, ?_⟩
  · intro j hj
    by_cases hi : j = i
    · subst hi
      have hother := h.others j hj
      rw [Function.update_self]
      unfold Resting at hother ⊢
      rw [hstage, hother]
    · rw [Function.update_of_ne hi]
      exact h.others j hj
  · rw [hsame.captureIdx, hsame.cropIdx]
    exact hrounds

/-- A frame that is neither captured nor cropped changes. -/
theorem Turn.rounds_update (h : Turn s st k stage) {new : FrameState}
    (hcapture : st i ≠ .active .capture) (hcapture' : new ≠ .active .capture)
    (hcrop : st i ≠ .active .crop) (hcrop' : new ≠ .active .crop) :
    Rounds s.log s.captureIdx
      (if Function.update st i new (.ofNat N k) = .active .capture then k else s.captureIdx)
      s.cropIdx (if Function.update st i new (.ofNat N k) = .active .crop then k else s.cropIdx)
      k := by
  simp only [update_eq_iff hcapture hcapture', update_eq_iff hcrop hcrop']
  exact h.rounds

/-- `camera_task` stays where it is. -/
theorem Suspended.advance (h : Suspended s v st k stage) {new : FrameState}
    (hsame : SameIndices s t) (hframe : t.frame = s.frame)
    (hstage : new.stage? = (st i).stage?)
    (hhome : w.home none =
      if w.eventDone (.inl s.frame) then .queued else .event (.inl s.frame))
    (hpoint : w.resumePoint none = v.resumePoint none)
    (hrounds : Rounds t.log s.captureIdx
      (if Function.update st i new (.ofNat N k) = .active .capture then k else s.captureIdx)
      s.cropIdx (if Function.update st i new (.ofNat N k) = .active .crop then k else s.cropIdx)
      k) :
    Suspended t w (Function.update st i new) k stage := by
  refine ⟨h.turn.advance hsame hstage hrounds, ?_, hframe.trans h.frame, ?_, hpoint.trans h.point⟩
  · by_cases hi : .ofNat N k = i
    · rw [← hi, Function.update_self, ← h.current, hi, hstage]
    · rw [Function.update_of_ne hi]
      exact h.current
  · rw [hframe]
    exact hhome

theorem Turn.not_consume (h : Turn s st k stage) {g : Stage} (hst : (st i).stage? = some g)
    (hg : g ≠ .consume) : i = .ofNat N k := by
  by_contra hne
  have hother := h.others i hne
  unfold Resting at hother
  rw [hst] at hother
  split at hother
  · cases hother
  · exact hg (Option.some.inj hother)

/-- The frame that is captured or cropped is the one `camera_task` waits for. -/
theorem Suspended.not_consume (h : Suspended s v st k stage) {g : Stage}
    (hst : (st i).stage? = some g) (hg : g ≠ .consume) : i = .ofNat N k ∧ g = stage := by
  have hi := h.turn.not_consume hst hg
  exact ⟨hi, Option.some.inj ((hi ▸ hst).symm.trans h.current)⟩

/-- `camera_task` never waits on an event of the consumer. -/
theorem Positioned.home_none_ne (h : Positioned s v st) {e : E} : v.home none ≠ .event (.inr e) := by
  rcases h with h | ⟨k, stage, h⟩
  · rw [h.home]
    simp
  · rw [h.home]
    split <;> simp

/-- Nothing concerns `camera_task` or the state of a frame. -/
theorem Positioned.same (h : Positioned s v st) (hsame : SameIndices s t)
    (hframe : t.frame = s.frame) (hlog : t.log = s.log) (hhome : w.home none = v.home none)
    (hpoint : w.resumePoint none = v.resumePoint none)
    (hdone : ∀ i, w.eventDone (.inl i) = v.eventDone (.inl i)) : Positioned t w st := by
  rcases h with h | ⟨k, stage, h⟩
  · exact .inl ⟨h.unused, hhome.trans h.home, hpoint.trans h.point, hlog.trans h.log⟩
  · right
    refine ⟨k, stage, h.turn.of_eq hsame.captureIdx hsame.cropIdx hsame.consumeIdx hlog, h.current,
      hframe.trans h.frame, ?_, hpoint.trans h.point⟩
    rw [hhome, hframe, hdone]
    exact h.home

end

section
variable [DecidableEq E] {consumer : CoFn}

theorem Held.active_of_capturing (h : Held consumer s v st) (hi : i ∈ s.capturing) :
    st i = .active .capture := by
  have hcaptures : s.capturing.count i = (st i).captures := (h.frames i).captures
  have hpos : 0 < s.capturing.count i := List.count_pos_iff.mpr hi
  rw [hcaptures] at hpos
  cases hst : st i with
  | active g =>
    rw [hst] at hpos
    cases g with
    | capture => rfl
    | crop | consume => cases hpos
  | _ =>
    rw [hst] at hpos
    cases hpos

theorem Held.signalled_of_callback (h : Held consumer s v st)
    (hi : .task (.event (.inl i)) ∈ v.queue) : ∃ g, st i = .signalled g := by
  have hcallbacks : v.queue.count (.task (.event (.inl i))) = (st i).callbacks :=
    (h.frames i).callbacks
  have hpos : 0 < v.queue.count (.task (.event (.inl i))) := List.count_pos_iff.mpr hi
  rw [hcallbacks] at hpos
  cases hst : st i with
  | signalled g => exact ⟨g, rfl⟩
  | _ =>
    rw [hst] at hpos
    cases hpos

theorem Held.active_of_home (h : Held consumer s v st) (hi : v.home (some i) ≠ .idle) :
    ∃ g, g ≠ .capture ∧ st i = .active g ∧ (st i).running = some g := by
  have hcontext := (h.frames i).context
  cases hst : st i with
  | active g =>
    rw [hst] at hcontext
    cases g with
    | capture => exact absurd hcontext hi
    | crop => exact ⟨.crop, by decide, rfl, rfl⟩
    | consume => exact ⟨.consume, by decide, rfl, rfl⟩
  | _ =>
    rw [hst] at hcontext
    exact absurd hcontext hi

/-! ## The sensor -/

variable [NeZero N]

theorem captured_invariant (h : CameraInvariant consumer s) (hi : i ∈ s.capturing) :
    CameraInvariant consumer (({ s with capturing := s.capturing.erase i }.withRt
      (piTaskPush s.rt (.event (.inl i)))).mark (.completed .capture i)) := by
  obtain ⟨v, st, hheld, hpos⟩ := h
  have hst := hheld.active_of_capturing hi
  have hframe := hst ▸ hheld.frames i
  refine ⟨v.push (.event (.inl i)), Function.update st i (.signalled .capture),
    hheld.update (hheld.models.push _) (hframe.captured ?_ ?_ rfl rfl ?_) ?_ rfl
      (hheld.inOrder.concat (m := .completed .capture i) trivial), ?_⟩
  · exact List.count_erase_self
  · show List.count (Pending.task (.event (.inl i))) (v.queue ++ [.task (.event (.inl i))]) = _
    rw [List.count_append, List.count_singleton_self]
    rfl
  · show recorded (s.log ++ [.completed .capture i]) i = _
    simp [CameraSystem.frameView, recorded, Mark.frame]
  · intro j hj
    have hj' : i ≠ j := fun heq => hj heq.symm
    simp [CameraSystem.frameView, CameraSystem.withRt, CameraSystem.mark, Schedule.push, hj, hj',
      recorded, Mark.frame, List.count_append]
  · rcases hpos with hfresh | ⟨k, stage, hpos⟩
    · have hunused := hst.symm.trans (hfresh.unused i)
      cases hunused
    · obtain ⟨rfl, rfl⟩ := hpos.not_consume (g := .capture) (by rw [hst]; rfl) (by decide)
      have hcapture : s.captureIdx = k + 1 := hpos.turn.captureIdx
      have hrounds := hpos.turn.rounds
      rw [hst, if_pos rfl, if_neg (by decide), hcapture] at hrounds
      refine .inr ⟨k, .capture, hpos.advance ⟨rfl, rfl, rfl⟩ rfl (by rw [hst]; rfl) hpos.home rfl ?_⟩
      rw [Function.update_self, if_neg (by decide), if_neg (by decide), hcapture]
      exact hrounds.completeCapture

/-! ## Events -/

theorem eventInit_invariant (h : CameraInvariant consumer s) {e : E}
    (he : s.rt.lists.first (.inr e) = none) :
    CameraInvariant consumer (s.withRt (coEventInit s.rt (.inr e))) := by
  obtain ⟨v, st, hheld, hpos⟩ := h
  have hwaiting : v.waiting (.inr e) = [] := hheld.models.inv.holds.first_eq_none_iff.mp he
  have hdone : ∀ i, (v.init (.inr e)).eventDone (.inl i) = v.eventDone (.inl i) := by
    intro i
    show Function.update v.eventDone (.inr e) false (.inl i) = v.eventDone (.inl i)
    rw [Function.update_of_ne (by simp)]
  refine ⟨v.init (.inr e), st, hheld.same (hheld.models.eventInit hwaiting) ?_ rfl rfl,
    hpos.same ⟨rfl, rfl, rfl⟩ rfl rfl rfl rfl hdone⟩
  intro j
  unfold CameraSystem.frameView
  rw [hdone j]
  rfl

theorem eventPush_invariant (h : CameraInvariant consumer s) (e : E) :
    CameraInvariant consumer (s.withRt (coEventPush s.rt (.inr e))) := by
  obtain ⟨v, st, hheld, hpos⟩ := h
  refine ⟨v.push (.event (.inr e)), st, hheld.same (hheld.models.push _) ?_ rfl rfl,
    hpos.same ⟨rfl, rfl, rfl⟩ rfl rfl rfl rfl fun _ => rfl⟩
  intro j
  simp [CameraSystem.frameView, CameraSystem.withRt, Schedule.push, List.count_append]

variable {q : List (Pending (Ctx N) (Event N E) Empty)}

omit [NeZero N] in
/-- A callback queues only contexts. -/
theorem callback_count (v : CameraSchedule N E) (e : Event N E)
    (q : List (Pending (Ctx N) (Event N E) Empty)) (x : PiTask (Event N E) Empty) :
    (v.callback e q).queue.count (.task x) = q.count (.task x) := by
  have hnone : Pending.task x ∉ (v.waiting e).map Pending.resume := by simp
  show List.count (Pending.task x) (q ++ (v.waiting e).map Pending.resume) = _
  rw [List.count_append, List.count_eq_zero_of_not_mem hnone, Nat.add_zero]

/-- The callback of an event of a frame. -/
theorem frameCallback_invariant (hheld : Held consumer s v st) (hpos : Positioned s v st)
    (hq : v.queue = .task (.event (.inl i)) :: q) :
    ∃ rt, coEventCallback (s.rt.dequeueEvent (.inl i) q) (.inl i) = .ok rt ∧
      CameraInvariant consumer (s.withRt rt) := by
  obtain ⟨rt, hok, hmodels⟩ := hheld.models.callback hq
  obtain ⟨g, hst⟩ := hheld.signalled_of_callback (hq ▸ List.mem_cons_self)
  have hframe := hst ▸ hheld.frames i
  have hhome : ∀ j, (v.callback (.inl i) q).home (some j) = v.home (some j) := by
    intro j
    show wake v.home (v.waiting (.inl i)) (some j) = v.home (some j)
    exact if_neg fun hmem => hheld.home_ne i j (hheld.models.mem_waiting.mp hmem)
  refine ⟨rt, hok, v.callback (.inl i) q, Function.update st i (.done g),
    hheld.update hmodels (hframe.callback rfl ?_ ?_ (hhome i) rfl) ?_ rfl hheld.inOrder, ?_⟩
  · show (v.callback (.inl i) q).queue.count _ + 1 = v.queue.count _
    rw [callback_count, hq, List.count_cons_self]
  · exact Function.update_self ..
  · intro j hj
    have hj' : i ≠ j := fun heq => hj heq.symm
    have hdone : (v.callback (.inl i) q).eventDone (.inl j) = v.eventDone (.inl j) :=
      Function.update_of_ne (by simpa using hj) ..
    have hcount' : (v.callback (.inl i) q).queue.count (.task (.event (.inl j))) =
        v.queue.count (.task (.event (.inl j))) := by
      rw [callback_count, hq, List.count_cons_of_ne (by simpa using hj')]
    unfold CameraSystem.frameView
    rw [hhome, hdone, hcount']
    rfl
  · rcases hpos with hfresh | ⟨k, stage, hpos⟩
    · have hunused := hst.symm.trans (hfresh.unused i)
      cases hunused
    · refine .inr ⟨k, stage, hpos.advance ⟨rfl, rfl, rfl⟩ rfl (by rw [hst]; rfl) ?_ rfl ?_⟩
      · show wake v.home (v.waiting (.inl i)) none = _
        by_cases hi : i = s.frame
        · -- `camera_task` waits on this event, which is not done.
          have hnone : v.home none = .event (.inl i) := by
            rw [hpos.home, ← hi, hheld.eventDone_of_signalled hst]
            rfl
          have hdone : (v.callback (.inl i) q).eventDone (.inl s.frame) = true :=
            hi ▸ Function.update_self ..
          rw [wake, if_pos (hheld.models.mem_waiting.mpr hnone), hdone]
          rfl
        · have hdone : (v.callback (.inl i) q).eventDone (.inl s.frame) =
              v.eventDone (.inl s.frame) :=
            Function.update_of_ne (by simpa using fun heq => hi heq.symm) ..
          have hnone : none ∉ v.waiting (.inl i) := by
            rw [hheld.models.mem_waiting, hpos.home]
            split
            · simp
            · simpa using fun heq => hi heq.symm
          rw [wake, if_neg hnone, hdone]
          exact hpos.home
      · refine hpos.turn.rounds_update ?_ FrameState.noConfusion ?_ FrameState.noConfusion
        · rw [hst]; exact FrameState.noConfusion
        · rw [hst]; exact FrameState.noConfusion

/-- The callback of an event of the consumer. -/
theorem consumerEventCallback_invariant {e : E} (hheld : Held consumer s v st)
    (hpos : Positioned s v st) (hq : v.queue = .task (.event (.inr e)) :: q) :
    ∃ rt, coEventCallback (s.rt.dequeueEvent (.inr e) q) (.inr e) = .ok rt ∧
      CameraInvariant consumer (s.withRt rt) := by
  obtain ⟨rt, hok, hmodels⟩ := hheld.models.callback hq
  have hdone : ∀ j, (v.callback (.inr e) q).eventDone (.inl j) = v.eventDone (.inl j) := by
    intro j
    show Function.update v.eventDone (.inr e) true (.inl j) = v.eventDone (.inl j)
    rw [Function.update_of_ne (by simp)]
  have hcount : ∀ j, (v.callback (.inr e) q).queue.count (.task (.event (.inl j))) =
      v.queue.count (.task (.event (.inl j))) := by
    intro j
    rw [callback_count, hq, List.count_cons_of_ne (by simp)]
  have hnone : (v.callback (.inr e) q).home none = v.home none := by
    have hwait : none ∉ v.waiting (.inr e) := by
      rw [hheld.models.mem_waiting]
      exact hpos.home_none_ne
    exact if_neg hwait
  refine ⟨rt, hok, v.callback (.inr e) q, st, ⟨hmodels, ?_, hheld.taskFn, hheld.inOrder⟩,
    hpos.same ⟨rfl, rfl, rfl⟩ rfl rfl hnone rfl hdone⟩
  intro j
  by_cases hj : some j ∈ v.waiting (.inr e)
  · have hhome := hheld.models.mem_waiting.mp hj
    obtain ⟨g, -, -, hrunning⟩ := hheld.active_of_home (i := j) (by rw [hhome]; simp)
    exact (hheld.frames j).suspend hrunning rfl (hcount j) (hdone j) (.inl (if_pos hj)) rfl rfl
      rfl rfl
  · have hview : (s.withRt rt).frameView (v.callback (.inr e) q) j = s.frameView v j := by
      have hhome : (v.callback (.inr e) q).home (some j) = v.home (some j) := if_neg hj
      unfold CameraSystem.frameView
      rw [hhome, hdone, hcount]
      rfl
    exact hview ▸ hheld.frames j

end

end AiDeck.Camera
