import AiDeck.Camera.Invariant

/-! # What `camera_task` does -/
namespace AiDeck.Camera
open AiDeck.Lib AiDeck.Coroutine

variable {N : Nat} [NeZero N] {E : Type} {consumer : CoFn}

/-! ## Rounds -/

omit [NeZero N] in
theorem increment_cases (idx : Nat) :
    increment idx = .error .overflow ∨ increment idx = .ok (idx + 1) := by
  unfold increment
  split
  · exact .inr rfl
  · exact .inl rfl

theorem Resting.succ {k : Nat} {i : Fin N} {st : FrameState} (h : Resting k i st)
    (hi : i ≠ .ofNat N k) : Resting (k + 1) i st := by
  have hne : i.val ≠ k := by
    intro heq
    refine hi (Fin.ext ?_)
    rw [Fin.val_ofNat, ← heq, Nat.mod_eq_of_lt i.isLt]
  unfold Resting at h ⊢
  rw [h]
  by_cases hle : k ≤ i.val
  · rw [if_pos hle, if_pos (by omega)]
  · rw [if_neg hle, if_neg (by omega)]

/-- The frame of a round rests once the consumer has it. -/
theorem resting_consume {k : Nat} {st : FrameState} (h : st.stage? = some .consume) :
    Resting (k + 1) (.ofNat N k) st := by
  have hlt : ¬ k + 1 ≤ (Fin.ofNat N k).val := by
    have := Nat.mod_le k N
    rw [Fin.val_ofNat]
    omega
  unfold Resting
  rw [if_neg hlt, h]

variable [DecidableEq E] {s t : CameraSystem N E} {v : CameraSchedule N E}
  {st : Fin N → FrameState} {k : Nat} {stage : Stage}

omit [DecidableEq E] in
theorem Turn.of_eq (h : Turn s st k stage) (hcapture : t.captureIdx = s.captureIdx)
    (hcrop : t.cropIdx = s.cropIdx) (hconsume : t.consumeIdx = s.consumeIdx)
    (hlog : t.log = s.log) : Turn t st k stage := by
  refine ⟨hcapture.trans h.captureIdx, hcrop.trans h.cropIdx, hconsume.trans h.consumeIdx,
    h.others, ?_⟩
  rw [hlog, hcapture, hcrop]
  exact h.rounds

/-! ## The calls of the task -/

structure SameIndices (s t : CameraSystem N E) : Prop where
  captureIdx : t.captureIdx = s.captureIdx
  cropIdx : t.cropIdx = s.cropIdx
  consumeIdx : t.consumeIdx = s.consumeIdx

omit [NeZero N] in
theorem frameView_wait (s : CameraSystem N E) (v : CameraSchedule N E) (rt : CameraRt N E)
    (n : Nat) (e : Event N E) (i : Fin N) :
    (s.withRt rt).frameView (v.wait none n e) i = s.frameView v i := by
  have hqueue : (v.wait none n e).queue.count (.task (.event (.inl i))) =
      v.queue.count (.task (.event (.inl i))) := by
    rw [Schedule.wait_queue, List.count_append]
    split <;> simp
  simp [CameraSystem.frameView, CameraSystem.withRt, Schedule.wait_home, hqueue]

namespace Held

theorem waitFrame (h : Held consumer s v st) (hrun : v.home none = .running)
    (hturn : Turn s st k stage) (hcurrent : (st (.ofNat N k)).stage? = some stage)
    (hframe : s.frame = .ofNat N k) :
    ∃ t, waitFrame s stage.line = .ok t ∧ CameraInvariant consumer t := by
  obtain ⟨rt, hok, hmodels⟩ :=
    h.models.wait (e := .inl s.frame) hrun (h.taskFn ▸ stage.line_mem)
  refine ⟨s.withRt rt, ?_, v.wait none stage.line (.inl s.frame), st, ?_, .inr ⟨k, stage, ?_⟩⟩
  · unfold Camera.waitFrame
    rw [hok]
    rfl
  · exact h.same hmodels (frameView_wait s v rt stage.line _) (by rw [Schedule.wait_fn]) rfl
  · refine ⟨hturn.of_eq rfl rfl rfl rfl, hcurrent, hframe, ?_, ?_⟩
    · rw [Schedule.wait_home, Schedule.wait_eventDone]
      exact Function.update_self ..
    · rw [Schedule.wait_resumePoint]
      exact Function.update_self ..

omit [NeZero N] in
/-- The capture is started into the frame. -/
theorem himaxCaptureAsync (h : Held consumer s v st) (hrun : v.home none = .running)
    (hst : st s.frame = .unused ∨ st s.frame = .done .consume)
    (hcaptures : starts .consume s.log = starts .capture s.log) :
    Held consumer (himaxCaptureAsync (initFrame s)) (v.init (.inl s.frame))
      (Function.update st s.frame (.active .capture)) := by
  have hsettled : Settled s.log s.frame :=
    (h.frames s.frame).settled rfl (hst.imp id fun hdone => ⟨.consume, hdone⟩)
  refine h.update (h.models.eventInit (h.waiting_nil hrun s.frame)) ?_ ?_ rfl ?_
  · refine (h.frames s.frame).startCapture hst ?_ rfl ?_ rfl ?_
    · show (s.capturing ++ [s.frame]).count s.frame = s.capturing.count s.frame + 1
      rw [List.count_append, List.count_singleton_self]
    · exact Function.update_self ..
    · show recorded (s.log ++ [.init s.frame] ++ [.started .capture s.frame]) s.frame = _
      rw [recorded_append, recorded_append, List.append_assoc]
      simp [CameraSystem.frameView, recorded, Mark.frame]
  · intro j hj
    have hj' : s.frame ≠ j := fun heq => hj heq.symm
    simp [CameraSystem.frameView, Camera.himaxCaptureAsync, initFrame, CameraSystem.withRt,
      CameraSystem.mark, Schedule.init, hj, hj', recorded, Mark.frame, List.filter_append]
  · have hinit : InOrder (s.log ++ [.init s.frame]) := h.inOrder.concat hsettled
    refine hinit.concat ⟨hsettled.init s.frame, ?_⟩
    simpa using hcaptures

omit [NeZero N] in
/-- The next stage is started in the context of the frame. -/
theorem startStage {g : Stage} (h : Held consumer s v st) (next : Stage) (function : CoFn)
    (hrun : v.home none = .running) (hst : st s.frame = .done g)
    (hnext : g = .capture ∧ next = .crop ∨ g = .crop ∧ next = .consume)
    (hfunction : function = next.coFn consumer)
    (hafter : Settled (s.log ++ [.init s.frame]) s.frame →
      (Mark.started next s.frame).After (s.log ++ [.init s.frame])) :
    ∃ t w, startStage (initFrame s) next function = .ok t ∧ SameIndices s t ∧
      t.log = s.log ++ [.init s.frame] ++ [.started next s.frame] ∧ w.home none = .running ∧
      Held consumer t w (Function.update st s.frame (.active next)) := by
  have hsettled : Settled s.log s.frame := (h.frames s.frame).settled rfl (.inr ⟨g, hst⟩)
  have hmodels := h.models.eventInit (h.waiting_nil hrun s.frame)
  have hidle : v.home (some s.frame) = .idle := by
    have hcontext := (h.frames s.frame).context
    rw [hst] at hcontext
    exact hcontext
  obtain ⟨rt, hok, hmodels'⟩ :=
    hmodels.pushStart (c := some s.frame) hidle function (some (.event (.inl s.frame)))
  refine ⟨({ initFrame s with
    function := Function.update s.function s.frame next }.withRt rt).mark (.started next s.frame),
    _, ?_, ⟨rfl, rfl, rfl⟩, rfl, ?_, h.update hmodels' ?_ ?_ ?_ ?_⟩
  · unfold Camera.startStage
    show (call (coFnPushStart (coEventInit s.rt (.inl s.frame)) (some s.frame) function
      (some (.event (.inl s.frame)))) >>= _) = _
    rw [hok]
    rfl
  · show Function.update v.home (some s.frame) .queued none = .running
    rw [Function.update_of_ne (by simp), hrun]
  · have hframe := hst ▸ h.frames s.frame
    refine hframe.startStage hnext rfl ?_ ?_ ⟨.inl ?_, ?_, ?_, ?_⟩ ?_
    · simp [CameraSystem.frameView, Schedule.start, Schedule.init, List.count_append]
    · exact Function.update_self ..
    · exact Function.update_self ..
    · exact Function.update_self ..
    · exact (Function.update_self ..).trans hfunction
    · exact Function.update_self ..
    · show recorded (s.log ++ [.init s.frame] ++ [.started next s.frame]) s.frame = _
      rw [recorded_append, recorded_append, List.append_assoc]
      simp [CameraSystem.frameView, recorded, Mark.frame]
  · intro j hj
    have hj' : s.frame ≠ j := fun heq => hj heq.symm
    simp [CameraSystem.frameView, initFrame, CameraSystem.withRt, CameraSystem.mark,
      Schedule.init, Schedule.start, hj, hj', recorded, Mark.frame, List.filter_append,
      List.count_append]
  · show Function.update v.fn (some s.frame) function none = v.fn none
    rw [Function.update_of_ne (by simp)]
  · have hinit : InOrder (s.log ++ [.init s.frame]) := h.inOrder.concat hsettled
    exact hinit.concat (hafter (hsettled.init s.frame))

/-! ## The parts of the loop -/

theorem captureFrame (h : Held consumer s v st) (hrun : v.home none = .running)
    (hturn : Turn s st k .consume) (hframe : s.frame = .ofNat N k)
    (hst : st (.ofNat N k) = .unused ∨ st (.ofNat N k) = .done .consume) :
    Outcome consumer (captureFrame s) := by
  have hcapture : s.captureIdx = k := hturn.captureIdx
  have hcrop : s.cropIdx = k := hturn.cropIdx
  have hrounds : Rounds s.log k k k k k := by
    have hrounds := hturn.rounds
    rwa [hcapture, hcrop, ite_self, ite_self] at hrounds
  have hheld := h.himaxCaptureAsync hrun (hframe ▸ hst)
    (hrounds.consumes.trans hrounds.captures.symm)
  rcases increment_cases s.captureIdx with hover | hinc
  · left
    unfold Camera.captureFrame
    show (increment s.captureIdx >>= _) = _
    rw [hover]
    rfl
  · right
    have hturn' : Turn ({ Camera.himaxCaptureAsync (initFrame s) with
        captureIdx := s.captureIdx + 1 }.select s.cropIdx)
        (Function.update st (.ofNat N k) (.active .capture)) k .capture := by
      refine ⟨congrArg (· + 1) hcapture, hcrop, hturn.consumeIdx, ?_, ?_⟩
      · intro i hi
        rw [Function.update_of_ne hi]
        exact hturn.others i hi
      · rw [Function.update_self, if_pos rfl, if_neg (by decide)]
        show Rounds (s.log ++ [.init s.frame] ++ [.started .capture s.frame]) (s.captureIdx + 1) k
          s.cropIdx s.cropIdx k
        rw [hcapture, hcrop, hframe]
        exact (hrounds.init _).startCapture
    have hheld' : Held consumer ({ Camera.himaxCaptureAsync (initFrame s) with
        captureIdx := s.captureIdx + 1 }.select s.cropIdx) (v.init (.inl s.frame))
        (Function.update st (.ofNat N k) (.active .capture)) :=
      hframe ▸ hheld.same hheld.models (fun _ => rfl) rfl rfl
    have hcurrent : (Function.update st (.ofNat N k) (.active .capture) (.ofNat N k)).stage? =
        some .capture := by
      rw [Function.update_self]
      rfl
    obtain ⟨t, hok, ht⟩ := hheld'.waitFrame hrun hturn' hcurrent (congrArg (Fin.ofNat N) hcrop)
    refine ⟨t, ?_, ht⟩
    unfold Camera.captureFrame
    show (increment s.captureIdx >>= _) = _
    rw [hinc]
    exact hok

/-- At the head of the loop every frame rests. -/
theorem nextFrame (h : Held consumer s v st) (hrun : v.home none = .running)
    (hturn : Turn s st k .consume) (hresting : ∀ i, Resting k i (st i)) :
    Outcome consumer (nextFrame s) := by
  have hcapture : s.captureIdx = k := hturn.captureIdx
  have hheld : Held consumer (s.select s.captureIdx) v st := h.same h.models (fun _ => rfl) rfl rfl
  have hturn' : Turn (s.select s.captureIdx) st k .consume := hturn.of_eq rfl rfl rfl rfl
  have hframe : (s.select s.captureIdx).frame = .ofNat N k := congrArg (Fin.ofNat N) hcapture
  have hcurrent := hresting (.ofNat N k)
  unfold Resting at hcurrent
  unfold Camera.nextFrame
  by_cases hk : k ≥ N
  · have hlt : ¬ k ≤ (Fin.ofNat N k).val := by
      have := (Fin.ofNat N k).isLt
      omega
    rw [if_neg hlt] at hcurrent
    obtain ⟨t, hok, ht⟩ := hheld.waitFrame hrun hturn' hcurrent hframe
    exact .inr ⟨t, (if_pos (hcapture ▸ hk)).trans hok, ht⟩
  · have hle : k ≤ (Fin.ofNat N k).val := by
      rw [Fin.val_ofNat, Nat.mod_eq_of_lt (Nat.lt_of_not_le hk)]
    rw [if_pos hle] at hcurrent
    have hunused : st (.ofNat N k) = .unused := by
      cases hst : st (.ofNat N k) with
      | unused => rfl
      | _ =>
        rw [hst] at hcurrent
        cases hcurrent
    show Outcome consumer (if s.captureIdx ≥ N then _ else _)
    rw [if_neg (hcapture ▸ hk)]
    exact hheld.captureFrame hrun hturn' hframe (.inl hunused)

theorem cropFrame (h : Held consumer s v st) (hrun : v.home none = .running)
    (hturn : Turn s st k .capture) (hframe : s.frame = .ofNat N k)
    (hst : st (.ofNat N k) = .done .capture) : Outcome consumer (cropFrame s) := by
  have hcapture : s.captureIdx = k + 1 := hturn.captureIdx
  have hcrop : s.cropIdx = k := hturn.cropIdx
  have hrounds : Rounds s.log (k + 1) (k + 1) k k k := by
    have hrounds := hturn.rounds
    rwa [hst, if_neg (by decide), if_neg (by decide), hcapture, hcrop] at hrounds
  have hinit := hrounds.init s.frame
  have hsnoc : ring N (k + 1) = ring N k ++ [s.frame] := hframe ▸ ring_succ k
  obtain ⟨t, w, hok, hsame, hlog, hrun', hheld⟩ := h.startStage .crop cameraCropTaskFn hrun
    (hframe ▸ hst) (.inl ⟨rfl, rfl⟩) rfl (fun hsettled => ⟨hsettled,
      by rw [hinit.captured, hinit.crops, hsnoc], by rw [hinit.captures, hinit.crops, hsnoc]⟩)
  rw [hframe] at hheld hlog
  unfold Camera.cropFrame
  rw [hok]
  rcases increment_cases t.cropIdx with hover | hinc
  · left
    show (increment t.cropIdx >>= _) = _
    rw [hover]
    rfl
  · right
    have hturn' : Turn ({ t with cropIdx := t.cropIdx + 1 }.select t.consumeIdx)
        (Function.update st (.ofNat N k) (.active .crop)) k .crop := by
      refine ⟨hsame.captureIdx.trans hcapture, congrArg (· + 1) (hsame.cropIdx.trans hcrop),
        hsame.consumeIdx.trans hturn.consumeIdx, ?_, ?_⟩
      · intro i hi
        rw [Function.update_of_ne hi]
        exact hturn.others i hi
      · rw [Function.update_self, if_neg (by decide), if_pos rfl]
        show Rounds t.log t.captureIdx t.captureIdx (t.cropIdx + 1) k k
        rw [hlog, hsame.captureIdx, hsame.cropIdx, hcapture, hcrop]
        exact (hrounds.init _).startCrop
    have hheld' : Held consumer ({ t with cropIdx := t.cropIdx + 1 }.select t.consumeIdx) w
        (Function.update st (.ofNat N k) (.active .crop)) :=
      hheld.same hheld.models (fun _ => rfl) rfl rfl
    have hcurrent : (Function.update st (.ofNat N k) (.active .crop) (.ofNat N k)).stage? =
        some .crop := by
      rw [Function.update_self]
      rfl
    obtain ⟨u, hok', hu⟩ := hheld'.waitFrame hrun' hturn' hcurrent
      (congrArg (Fin.ofNat N) (hsame.consumeIdx.trans hturn.consumeIdx))
    refine ⟨u, ?_, hu⟩
    show (increment t.cropIdx >>= _) = _
    rw [hinc]
    exact hok'

theorem consumeFrame (h : Held consumer s v st) (hrun : v.home none = .running)
    (hturn : Turn s st k .crop) (hframe : s.frame = .ofNat N k)
    (hst : st (.ofNat N k) = .done .crop) : Outcome consumer (consumeFrame consumer s) := by
  have hcapture : s.captureIdx = k + 1 := hturn.captureIdx
  have hcrop : s.cropIdx = k + 1 := hturn.cropIdx
  have hconsume : s.consumeIdx = k := hturn.consumeIdx
  have hrounds : Rounds s.log (k + 1) (k + 1) (k + 1) (k + 1) k := by
    have hrounds := hturn.rounds
    rwa [hst, if_neg (by decide), if_neg (by decide), hcapture, hcrop] at hrounds
  have hinit := hrounds.init s.frame
  have hsnoc : ring N (k + 1) = ring N k ++ [s.frame] := hframe ▸ ring_succ k
  obtain ⟨t, w, hok, hsame, hlog, hrun', hheld⟩ := h.startStage .consume consumer hrun
    (hframe ▸ hst) (.inr ⟨rfl, rfl⟩) rfl (fun hsettled => ⟨hsettled,
      by rw [hinit.cropped, hinit.consumes, hsnoc], by rw [hinit.captures, hinit.consumes, hsnoc]⟩)
  rw [hframe] at hheld hlog
  unfold Camera.consumeFrame
  rw [hok]
  rcases increment_cases t.consumeIdx with hover | hinc
  · left
    show (increment t.consumeIdx >>= _) = _
    rw [hover]
    rfl
  · have hresting : ∀ i, Resting (k + 1) i
        (Function.update st (.ofNat N k) (.active .consume) i) := by
      intro i
      by_cases hi : i = .ofNat N k
      · rw [hi, Function.update_self]
        exact resting_consume rfl
      · rw [Function.update_of_ne hi]
        exact (hturn.others i hi).succ hi
    have hturn' : Turn { t with consumeIdx := t.consumeIdx + 1 }
        (Function.update st (.ofNat N k) (.active .consume)) (k + 1) .consume := by
      refine ⟨hsame.captureIdx.trans hcapture, hsame.cropIdx.trans hcrop,
        congrArg (· + 1) (hsame.consumeIdx.trans hconsume), fun i _ => hresting i, ?_⟩
      show Rounds t.log t.captureIdx (if _ then k + 1 else t.captureIdx) t.cropIdx
        (if _ then k + 1 else t.cropIdx) (k + 1)
      rw [hlog, hsame.captureIdx, hsame.cropIdx, hcapture, hcrop, ite_self, ite_self]
      exact (hrounds.init _).startConsume
    have hheld' : Held consumer { t with consumeIdx := t.consumeIdx + 1 } w
        (Function.update st (.ofNat N k) (.active .consume)) :=
      hheld.same hheld.models (fun _ => rfl) rfl rfl
    show Outcome consumer (increment t.consumeIdx >>= _)
    rw [hinc]
    exact hheld'.nextFrame hrun' hturn' hresting

end Held

end AiDeck.Camera
