import AiDeck.Camera.Task

/-! # The states of a frame

A frame goes round: captured, cropped, consumed. In each stage it is worked on, then its callback
is pending, then its event is done. What is recorded of it goes round likewise. -/
namespace AiDeck.Camera
open AiDeck.Lib AiDeck.Coroutine

inductive FrameState where
  | unused
  | active (stage : Stage)
  | signalled (stage : Stage)
  | done (stage : Stage)
  deriving DecidableEq

/-- What is recorded of a frame in one round. -/
def cycle {N : Nat} (i : Fin N) : List (Mark N) :=
  [.init i, .started .capture i, .completed .capture i, .init i, .started .crop i,
    .completed .crop i, .init i, .started .consume i, .completed .consume i]

def cycles {N : Nat} (i : Fin N) (k : Nat) : List (Mark N) := (List.replicate k (cycle i)).flatten

/-- How much of a round comes before a stage. -/
def Stage.before : Stage → Nat
  | capture => 0
  | crop => 3
  | consume => 6

def Stage.coFn (consumer : CoFn) : Stage → CoFn
  | consume => consumer
  | _ => cameraCropTaskFn

namespace FrameState

/-- The captures in progress. -/
def captures : FrameState → Nat
  | active .capture => 1
  | _ => 0

/-- The callbacks of its event that are pending. -/
def callbacks : FrameState → Nat
  | signalled _ => 1
  | _ => 0

def isDone : FrameState → Bool
  | done _ => true
  | _ => false

/-- The stage its context runs. -/
def running : FrameState → Option Stage
  | active .crop => some .crop
  | active .consume => some .consume
  | _ => none

/-- How much of the round is recorded. -/
def marks : FrameState → Nat
  | unused => 0
  | active stage => stage.before + 2
  | signalled stage => stage.before + 3
  | done stage => stage.before + 3

end FrameState

/-- What concerns one frame. -/
structure FrameView (N : Nat) (E : Type) where
  captures : Nat
  callbacks : Nat
  done : Bool
  home : Home (Event N E) Empty
  doneTask : Option (PiTask (Event N E) Empty)
  coFn : CoFn
  function : Stage
  log : List (Mark N)

variable {N : Nat} {E : Type}

def Mark.frame : Mark N → Fin N
  | init i => i
  | started _ i => i
  | completed _ i => i

/-- What is recorded of frame `i`. -/
def recorded (log : List (Mark N)) (i : Fin N) : List (Mark N) :=
  log.filter fun m => m.frame = i

/-- The context of a frame while it runs a stage. -/
structure Runs (consumer : CoFn) (i : Fin N) (x : FrameView N E) (stage : Stage) : Prop where
  home : x.home = .queued ∨ ∃ e, x.home = .event (.inr e)
  doneTask : x.doneTask = some (.event (.inl i))
  coFn : x.coFn = stage.coFn consumer
  function : x.function = stage

def ContextOk (consumer : CoFn) (i : Fin N) (x : FrameView N E) : Option Stage → Prop
  | none => x.home = .idle
  | some stage => Runs consumer i x stage

structure FrameOk (consumer : CoFn) (i : Fin N) (x : FrameView N E) (st : FrameState) : Prop where
  captures : x.captures = st.captures
  callbacks : x.callbacks = st.callbacks
  done : st ≠ .unused → x.done = st.isDone
  context : ContextOk consumer i x st.running
  log : ∃ k, x.log = cycles i k ++ (cycle i).take st.marks

namespace FrameOk

variable {consumer : CoFn} {i : Fin N} {x y : FrameView N E} {st : FrameState} {stage : Stage}

/-! ## What a frame does -/

/-- A capture is started into a frame that was not used or has been consumed. -/
theorem startCapture (h : FrameOk consumer i x st) (hst : st = .unused ∨ st = .done .consume)
    (hcaptures : y.captures = x.captures + 1) (hcallbacks : y.callbacks = x.callbacks)
    (hdone : y.done = false) (hhome : y.home = x.home)
    (hlog : y.log = x.log ++ [.init i, .started .capture i]) :
    FrameOk consumer i y (.active .capture) := by
  obtain ⟨k, hk⟩ := h.log
  rcases hst with rfl | rfl
  · refine ⟨hcaptures.trans (congrArg (· + 1) h.captures), hcallbacks.trans h.callbacks,
      fun _ => hdone, hhome.trans h.context, k, ?_⟩
    rw [hlog, hk, List.append_assoc]
    rfl
  · refine ⟨hcaptures.trans (congrArg (· + 1) h.captures), hcallbacks.trans h.callbacks,
      fun _ => hdone, hhome.trans h.context, k + 1, ?_⟩
    have hcycles : cycles i (k + 1) = cycles i k ++ cycle i := by
      rw [cycles, List.replicate_succ', List.flatten_append, List.flatten_singleton]
      rfl
    rw [hlog, hk, hcycles]
    rfl

/-- A capture completes. -/
theorem captured (h : FrameOk consumer i x (.active .capture))
    (hcaptures : y.captures = x.captures - 1) (hcallbacks : y.callbacks = x.callbacks + 1)
    (hdone : y.done = x.done) (hhome : y.home = x.home)
    (hlog : y.log = x.log ++ [.completed .capture i]) :
    FrameOk consumer i y (.signalled .capture) := by
  obtain ⟨k, hk⟩ := h.log
  refine ⟨hcaptures.trans (congrArg (· - 1) h.captures),
    hcallbacks.trans (congrArg (· + 1) h.callbacks),
    fun _ => hdone.trans (h.done (by simp)), hhome.trans h.context, k, ?_⟩
  rw [hlog, hk, List.append_assoc]
  rfl

/-- The callback of its event runs. -/
theorem callback (h : FrameOk consumer i x (.signalled stage)) (hcaptures : y.captures = x.captures)
    (hcallbacks : y.callbacks + 1 = x.callbacks) (hdone : y.done = true)
    (hhome : y.home = x.home) (hlog : y.log = x.log) :
    FrameOk consumer i y (.done stage) :=
  ⟨hcaptures.trans h.captures, Nat.succ.inj (hcallbacks.trans h.callbacks), fun _ => hdone,
    hhome.trans h.context, h.log.imp fun _ hk => hlog.trans hk⟩

/-- The next stage is started in its context. -/
theorem startStage {next : Stage} (h : FrameOk consumer i x (.done stage))
    (hnext : stage = .capture ∧ next = .crop ∨ stage = .crop ∧ next = .consume)
    (hcaptures : y.captures = x.captures) (hcallbacks : y.callbacks = x.callbacks)
    (hdone : y.done = false) (hruns : Runs consumer i y next)
    (hlog : y.log = x.log ++ [.init i, .started next i]) :
    FrameOk consumer i y (.active next) := by
  obtain ⟨k, hk⟩ := h.log
  rcases hnext with ⟨rfl, rfl⟩ | ⟨rfl, rfl⟩
  · refine ⟨hcaptures.trans h.captures, hcallbacks.trans h.callbacks, fun _ => hdone, hruns, k, ?_⟩
    rw [hlog, hk, List.append_assoc]
    rfl
  · refine ⟨hcaptures.trans h.captures, hcallbacks.trans h.callbacks, fun _ => hdone, hruns, k, ?_⟩
    rw [hlog, hk, List.append_assoc]
    rfl

theorem runs (h : FrameOk consumer i x st) (hrunning : st.running = some stage) :
    Runs consumer i x stage ∧ st = .active stage := by
  have hcontext := h.context
  rw [hrunning] at hcontext
  refine ⟨hcontext, ?_⟩
  cases st with
  | active g => cases g <;> first | exact congrArg _ (Option.some.inj hrunning) | cases hrunning
  | _ => cases hrunning

/-- Its context suspends. -/
theorem suspend (h : FrameOk consumer i x st) (hrunning : st.running = some stage)
    (hcaptures : y.captures = x.captures) (hcallbacks : y.callbacks = x.callbacks)
    (hdone : y.done = x.done) (hhome : y.home = .queued ∨ ∃ e, y.home = .event (.inr e))
    (hdoneTask : y.doneTask = x.doneTask) (hcoFn : y.coFn = x.coFn)
    (hfunction : y.function = x.function) (hlog : y.log = x.log) : FrameOk consumer i y st := by
  obtain ⟨hruns, -⟩ := h.runs hrunning
  refine ⟨hcaptures.trans h.captures, hcallbacks.trans h.callbacks,
    fun hst => hdone.trans (h.done hst), ?_, h.log.imp fun _ hk => hlog.trans hk⟩
  rw [hrunning]
  exact ⟨hhome, hdoneTask.trans hruns.doneTask, hcoFn.trans hruns.coFn,
    hfunction.trans hruns.function⟩

/-- Its context returns. -/
theorem completed (h : FrameOk consumer i x st) (hrunning : st.running = some stage)
    (hcaptures : y.captures = x.captures) (hcallbacks : y.callbacks = x.callbacks + 1)
    (hdone : y.done = x.done) (hhome : y.home = .idle)
    (hlog : y.log = x.log ++ [.completed stage i]) :
    FrameOk consumer i y (.signalled stage) := by
  obtain ⟨-, rfl⟩ := h.runs hrunning
  obtain ⟨k, hk⟩ := h.log
  cases stage with
  | capture => cases hrunning
  | crop | consume =>
    refine ⟨hcaptures.trans h.captures, hcallbacks.trans (congrArg (· + 1) h.callbacks),
      fun _ => hdone.trans (h.done (by simp)), hhome, k, ?_⟩
    rw [hlog, hk, List.append_assoc]
    rfl

end FrameOk

end AiDeck.Camera
