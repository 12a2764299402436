import AiDeck.Camera.History

/-! # What holds between the tasks of the scheduler

`camera_task` waits on the frame of the current round, which is in the stage it waits for. Every
other frame rests: it has not been used yet, or the consumer has it. -/
namespace AiDeck.Camera
open AiDeck.Lib AiDeck.Coroutine

variable {N : Nat} {E : Type}

abbrev CameraSchedule (N : Nat) (E : Type) : Type := Schedule (Ctx N) (Event N E) Empty Empty

/-- The stage a frame is in. -/
def FrameState.stage? : FrameState → Option Stage
  | unused => none
  | active stage => some stage
  | signalled stage => some stage
  | done stage => some stage

/-- Where `camera_task` waits for the end of a stage. -/
def Stage.line : Stage → Nat
  | capture => 155
  | crop => 177
  | consume => 142

theorem Stage.line_mem (stage : Stage) : stage.line ∈ cameraTaskFn.lines := by
  cases stage <;> decide

section
variable [DecidableEq E]

def CameraSystem.frameView (s : CameraSystem N E) (v : CameraSchedule N E) (i : Fin N) :
    FrameView N E :=
  { captures := s.capturing.count i
    callbacks := v.queue.count (.task (.event (.inl i)))
    done := v.eventDone (.inl i)
    home := v.home (some i)
    doneTask := v.doneTask (some i)
    coFn := v.fn (some i)
    function := s.function i
    log := recorded s.log i }

/-- What holds also while `camera_task` runs. -/
structure Held (consumer : CoFn) (s : CameraSystem N E) (v : CameraSchedule N E)
    (st : Fin N → FrameState) : Prop where
  models : Models v s.rt
  frames : ∀ i, FrameOk consumer i (s.frameView v i) (st i)
  taskFn : v.fn none = cameraTaskFn
  inOrder : InOrder s.log

namespace Held

variable {consumer : CoFn} {s t : CameraSystem N E} {v w : CameraSchedule N E}
  {st : Fin N → FrameState} {i : Fin N}

/-- One frame changes its state. -/
theorem update (h : Held consumer s v st) {new : FrameState} (hmodels : Models w t.rt)
    (hframe : FrameOk consumer i (t.frameView w i) new)
    (hothers : ∀ j, j ≠ i → t.frameView w j = s.frameView v j) (hfn : w.fn none = v.fn none)
    (horder : InOrder t.log) : Held consumer t w (Function.update st i new) := by
  refine ⟨hmodels, ?_, hfn.trans h.taskFn, horder⟩
  intro j
  by_cases hj : j = i
  · subst hj
    rwa [Function.update_self]
  · rw [Function.update_of_ne hj, hothers j hj]
    exact h.frames j

/-- No frame changes. -/
theorem same (h : Held consumer s v st) (hmodels : Models w t.rt)
    (hframes : ∀ j, t.frameView w j = s.frameView v j) (hfn : w.fn none = v.fn none)
    (hlog : t.log = s.log) : Held consumer t w st :=
  ⟨hmodels, fun j => hframes j ▸ h.frames j, hfn.trans h.taskFn, hlog ▸ h.inOrder⟩

/-- The context of a frame never waits on the event of a frame. -/
theorem home_ne (h : Held consumer s v st) (i j : Fin N) : v.home (some j) ≠ .event (.inl i) := by
  have hcontext := (h.frames j).context
  intro heq
  cases hrunning : (st j).running with
  | none =>
    rw [hrunning] at hcontext
    exact absurd (heq.symm.trans hcontext) (by simp)
  | some stage =>
    rw [hrunning] at hcontext
    rcases hcontext.home with hq | ⟨e, he⟩
    · exact absurd (heq.symm.trans hq) (by simp)
    · exact absurd (heq.symm.trans he) (by simp)

/-- While `camera_task` runs nobody waits on the event of a frame. -/
theorem waiting_nil (h : Held consumer s v st) (hrun : v.home none = .running) (i : Fin N) :
    v.waiting (.inl i) = [] := by
  refine List.eq_nil_iff_forall_not_mem.mpr ?_
  intro c hc
  have hhome := h.models.mem_waiting.mp hc
  cases c with
  | none => exact absurd (hhome.symm.trans hrun) (by simp)
  | some j => exact h.home_ne i j hhome

/-- A frame whose event is done is done with its stage. -/
theorem done_of_eventDone (h : Held consumer s v st) {stage : Stage}
    (hst : (st i).stage? = some stage) (hdone : v.eventDone (.inl i) = true) :
    st i = .done stage := by
  have hne : st i ≠ .unused := by
    intro hunused
    rw [hunused] at hst
    cases hst
  have hisDone : (st i).isDone = true := ((h.frames i).done hne).symm.trans hdone
  cases hst' : st i with
  | done g =>
    rw [hst'] at hst
    rw [Option.some.inj hst]
  | _ =>
    rw [hst'] at hisDone
    cases hisDone

/-- The event of a frame whose callback is pending is not done. -/
theorem eventDone_of_signalled (h : Held consumer s v st) {stage : Stage}
    (hst : st i = .signalled stage) : v.eventDone (.inl i) = false := by
  have hdone := (h.frames i).done (hst ▸ FrameState.noConfusion)
  rw [hst] at hdone
  exact hdone

end Held

end

variable [NeZero N]

/-- Frame `i` after `k` rounds, when no round is in progress on it. -/
def Resting (k : Nat) (i : Fin N) (st : FrameState) : Prop :=
  st.stage? = if k ≤ i.val then none else some .consume

/-- `camera_task` is in a round: at the stage of the round's frame or, at the head of the loop,
at `Stage.consume`. -/
structure Turn (s : CameraSystem N E) (st : Fin N → FrameState) (k : Nat) (stage : Stage) :
    Prop where
  captureIdx : s.captureIdx = if stage = .consume then k else k + 1
  cropIdx : s.cropIdx = if stage = .crop then k + 1 else k
  consumeIdx : s.consumeIdx = k
  others : ∀ i, i ≠ .ofNat N k → Resting k i (st i)
  rounds : Rounds s.log s.captureIdx
    (if st (.ofNat N k) = .active .capture then k else s.captureIdx) s.cropIdx
    (if st (.ofNat N k) = .active .crop then k else s.cropIdx) k

/-- `camera_task` waits for the end of a stage. -/
structure Suspended (s : CameraSystem N E) (v : CameraSchedule N E) (st : Fin N → FrameState)
    (k : Nat) (stage : Stage) : Prop where
  turn : Turn s st k stage
  current : (st (.ofNat N k)).stage? = some stage
  frame : s.frame = .ofNat N k
  home : v.home none = if v.eventDone (.inl s.frame) then .queued else .event (.inl s.frame)
  point : v.resumePoint none = .line stage.line

/-- `camera_task` has not run. -/
structure Fresh (s : CameraSystem N E) (v : CameraSchedule N E) (st : Fin N → FrameState) :
    Prop where
  unused : ∀ i, st i = .unused
  home : v.home none = .queued
  point : v.resumePoint none = .start
  log : s.log = []

def Positioned (s : CameraSystem N E) (v : CameraSchedule N E) (st : Fin N → FrameState) : Prop :=
  Fresh s v st ∨ ∃ k stage, Suspended s v st k stage

section
variable [DecidableEq E]

def CameraInvariant (consumer : CoFn) (s : CameraSystem N E) : Prop :=
  ∃ v st, Held consumer s v st ∧ Positioned s v st

/-- The tasks stop only where an index overflows. -/
def Outcome (consumer : CoFn) (x : Except CameraStop (CameraSystem N E)) : Prop :=
  x = .error .overflow ∨ ∃ t, x = .ok t ∧ CameraInvariant consumer t

end

end AiDeck.Camera
