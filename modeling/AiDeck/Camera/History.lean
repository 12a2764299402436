import AiDeck.Camera.Frame

/-! # The order of the stages

The stages are started in the order of the ring, and each mark of the history says what has
happened before it. -/
namespace AiDeck.Camera
open AiDeck.Lib AiDeck.Coroutine

variable {N : Nat}

namespace Mark

def started? (stage : Stage) : Mark N → Option (Fin N)
  | started g i => if g = stage then some i else none
  | _ => none

def completed? (stage : Stage) : Mark N → Option (Fin N)
  | completed g i => if g = stage then some i else none
  | _ => none

end Mark

/-- The frames a stage was started on. -/
def starts (stage : Stage) (log : List (Mark N)) : List (Fin N) :=
  log.filterMap (Mark.started? stage)

def completions (stage : Stage) (log : List (Mark N)) : List (Fin N) :=
  log.filterMap (Mark.completed? stage)

@[simp] theorem starts_append (stage : Stage) (a b : List (Mark N)) :
    starts stage (a ++ b) = starts stage a ++ starts stage b := List.filterMap_append

@[simp] theorem completions_append (stage : Stage) (a b : List (Mark N)) :
    completions stage (a ++ b) = completions stage a ++ completions stage b :=
  List.filterMap_append

section
variable (stage g : Stage) (i : Fin N)

@[simp] theorem starts_init : starts stage [.init i] = [] := rfl

@[simp] theorem starts_started :
    starts stage [.started g i] = if g = stage then [i] else [] := by
  by_cases hg : g = stage <;> simp [starts, Mark.started?, hg]

@[simp] theorem starts_completed : starts stage [.completed g i] = [] := rfl

@[simp] theorem completions_init : completions stage [.init i] = [] := rfl

@[simp] theorem completions_started : completions stage [.started g i] = [] := rfl

@[simp] theorem completions_completed :
    completions stage [.completed g i] = if g = stage then [i] else [] := by
  by_cases hg : g = stage <;> simp [completions, Mark.completed?, hg]

end

/-- Every stage of the frame that was started has been completed. -/
def Settled (log : List (Mark N)) (i : Fin N) : Prop :=
  ∀ stage, log.count (.started stage i) = log.count (.completed stage i)

/-- What has happened before a mark: an event is initialised and a stage started only on a frame
that is settled; a frame is captured when the consumer was started on each captured one, cropped
when its capture completed, consumed when its crop completed. -/
def Mark.After (earlier : List (Mark N)) : Mark N → Prop
  | init i => Settled earlier i
  | started .capture i => Settled earlier i ∧ starts .consume earlier = starts .capture earlier
  | started .crop i => Settled earlier i ∧
      completions .capture earlier = starts .crop earlier ++ [i] ∧
      starts .capture earlier = starts .crop earlier ++ [i]
  | started .consume i => Settled earlier i ∧
      completions .crop earlier = starts .consume earlier ++ [i] ∧
      starts .capture earlier = starts .consume earlier ++ [i]
  | completed _ _ => True

def InOrder (log : List (Mark N)) : Prop :=
  ∀ earlier m later, log = earlier ++ m :: later → m.After earlier

theorem InOrder.concat {log : List (Mark N)} {m : Mark N} (h : InOrder log) (hm : m.After log) :
    InOrder (log ++ [m]) :=
  forall_split_concat.mpr ⟨h, hm⟩

theorem InOrder.nil : InOrder ([] : List (Mark N)) := by
  intro earlier m later h
  exact absurd h.symm (List.append_ne_nil_of_right_ne_nil _ (List.cons_ne_nil _ _))

theorem Settled.init {log : List (Mark N)} {i : Fin N} (h : Settled log i) (j : Fin N) :
    Settled (log ++ [.init j]) i := by
  intro stage
  simpa using h stage

/-! ## The ring -/

section
variable [NeZero N]

/-- The frames of the first `n` rounds. -/
def ring (N : Nat) [NeZero N] (n : Nat) : List (Fin N) := (List.range n).map (Fin.ofNat N)

theorem ring_succ (n : Nat) : ring N (n + 1) = ring N n ++ [.ofNat N n] := by
  rw [ring, List.range_succ, List.map_append]
  rfl

/-- How many rounds have started and completed their stages, each in the order of the ring. -/
structure Rounds (log : List (Mark N)) (capture captured crop cropped consume : Nat) : Prop where
  captures : starts .capture log = ring N capture
  captured : completions .capture log = ring N captured
  crops : starts .crop log = ring N crop
  cropped : completions .crop log = ring N cropped
  consumes : starts .consume log = ring N consume

namespace Rounds

variable {log : List (Mark N)} {a b c d e : Nat}

theorem nil : Rounds ([] : List (Mark N)) 0 0 0 0 0 := ⟨rfl, rfl, rfl, rfl, rfl⟩

/-- A mark that neither starts nor completes one of these stages. -/
theorem skip (h : Rounds log a b c d e) {m : Mark N} (hstarts : ∀ stage, starts stage [m] = [])
    (hcompletions : ∀ stage, stage ≠ .consume → completions stage [m] = []) :
    Rounds (log ++ [m]) a b c d e := by
  refine ⟨?_, ?_, ?_, ?_, ?_⟩
  · rw [starts_append, hstarts, List.append_nil, h.captures]
  · rw [completions_append, hcompletions _ (by decide), List.append_nil, h.captured]
  · rw [starts_append, hstarts, List.append_nil, h.crops]
  · rw [completions_append, hcompletions _ (by decide), List.append_nil, h.cropped]
  · rw [starts_append, hstarts, List.append_nil, h.consumes]

theorem init (h : Rounds log a b c d e) (i : Fin N) : Rounds (log ++ [.init i]) a b c d e :=
  h.skip (fun _ => rfl) fun _ _ => rfl

theorem consumed (h : Rounds log a b c d e) (i : Fin N) :
    Rounds (log ++ [.completed .consume i]) a b c d e := by
  refine h.skip (fun _ => rfl) fun stage hstage => ?_
  rw [completions_completed, if_neg hstage.symm]

theorem startCapture (h : Rounds log a b c d e) :
    Rounds (log ++ [.started .capture (.ofNat N a)]) (a + 1) b c d e := by
  refine ⟨?_, ?_, ?_, ?_, ?_⟩
  · rw [starts_append, starts_started, if_pos rfl, h.captures, ring_succ]
  · rw [completions_append, completions_started, List.append_nil, h.captured]
  · rw [starts_append, starts_started, if_neg (by decide), List.append_nil, h.crops]
  · rw [completions_append, completions_started, List.append_nil, h.cropped]
  · rw [starts_append, starts_started, if_neg (by decide), List.append_nil, h.consumes]

theorem completeCapture (h : Rounds log a b c d e) :
    Rounds (log ++ [.completed .capture (.ofNat N b)]) a (b + 1) c d e := by
  refine ⟨?_, ?_, ?_, ?_, ?_⟩
  · rw [starts_append, starts_completed, List.append_nil, h.captures]
  · rw [completions_append, completions_completed, if_pos rfl, h.captured, ring_succ]
  · rw [starts_append, starts_completed, List.append_nil, h.crops]
  · rw [completions_append, completions_completed, if_neg (by decide), List.append_nil, h.cropped]
  · rw [starts_append, starts_completed, List.append_nil, h.consumes]

theorem startCrop (h : Rounds log a b c d e) :
    Rounds (log ++ [.started .crop (.ofNat N c)]) a b (c + 1) d e := by
  refine ⟨?_, ?_, ?_, ?_, ?_⟩
  · rw [starts_append, starts_started, if_neg (by decide), List.append_nil, h.captures]
  · rw [completions_append, completions_started, List.append_nil, h.captured]
  · rw [starts_append, starts_started, if_pos rfl, h.crops, ring_succ]
  · rw [completions_append, completions_started, List.append_nil, h.cropped]
  · rw [starts_append, starts_started, if_neg (by decide), List.append_nil, h.consumes]

theorem completeCrop (h : Rounds log a b c d e) :
    Rounds (log ++ [.completed .crop (.ofNat N d)]) a b c (d + 1) e := by
  refine ⟨?_, ?_, ?_, ?_, ?_⟩
  · rw [starts_append, starts_completed, List.append_nil, h.captures]
  · rw [completions_append, completions_completed, if_neg (by decide), List.append_nil, h.captured]
  · rw [starts_append, starts_completed, List.append_nil, h.crops]
  · rw [completions_append, completions_completed, if_pos rfl, h.cropped, ring_succ]
  · rw [starts_append, starts_completed, List.append_nil, h.consumes]

theorem startConsume (h : Rounds log a b c d e) :
    Rounds (log ++ [.started .consume (.ofNat N e)]) a b c d (e + 1) := by
  refine ⟨?_, ?_, ?_, ?_, ?_⟩
  · rw [starts_append, starts_started, if_neg (by decide), List.append_nil, h.captures]
  · rw [completions_append, completions_started, List.append_nil, h.captured]
  · rw [starts_append, starts_started, if_neg (by decide), List.append_nil, h.crops]
  · rw [completions_append, completions_started, List.append_nil, h.cropped]
  · rw [starts_append, starts_started, if_pos rfl, h.consumes, ring_succ]

end Rounds

end

/-! ## What is recorded of a frame -/

@[simp] theorem recorded_append (a b : List (Mark N)) (i : Fin N) :
    recorded (a ++ b) i = recorded a i ++ recorded b i := List.filter_append ..

theorem count_recorded (log : List (Mark N)) {m : Mark N} {i : Fin N} (h : m.frame = i) :
    (recorded log i).count m = log.count m := List.count_filter (decide_eq_true h)

theorem count_cycles (i : Fin N) (k : Nat) (m : Mark N) :
    (cycles i k).count m = k * (cycle i).count m := by
  induction k with
  | zero => rw [cycles, List.replicate_zero, List.flatten_nil, List.count_nil, Nat.zero_mul]
  | succ k ih =>
    have hcycles : cycles i (k + 1) = cycle i ++ cycles i k := by
      rw [cycles, List.replicate_succ, List.flatten_cons]
      rfl
    rw [hcycles, List.count_append, ih, Nat.succ_mul, Nat.add_comm]

/-- A stage in progress is the one that was started and has not been completed. -/
theorem FrameOk.count_started {E : Type} {consumer : CoFn} {i : Fin N} {x : FrameView N E}
    {st : FrameState} {log : List (Mark N)} (h : FrameOk consumer i x st)
    (hlog : x.log = recorded log i) (stage : Stage) :
    log.count (.started stage i) =
      log.count (.completed stage i) + if st = .active stage then 1 else 0 := by
  obtain ⟨k, hk⟩ := h.log
  have hrecorded : recorded log i = cycles i k ++ (cycle i).take st.marks := hlog.symm.trans hk
  have hcycle : (cycle i).count (.started stage i) = 1 ∧
      (cycle i).count (.completed stage i) = 1 := by
    cases stage <;> simp [cycle]
  have hround : ((cycle i).take st.marks).count (.started stage i) =
      ((cycle i).take st.marks).count (.completed stage i) +
        if st = .active stage then 1 else 0 := by
    cases st with
    | unused => rfl
    | active g | signalled g | done g =>
      cases g <;> cases stage <;> simp [FrameState.marks, Stage.before, cycle]
  have hstarted := count_recorded (m := .started stage i) (i := i) log rfl
  have hcompleted := count_recorded (m := .completed stage i) (i := i) log rfl
  rw [← hstarted, ← hcompleted, hrecorded, List.count_append, List.count_append, count_cycles,
    count_cycles, hcycle.1, hcycle.2, hround, Nat.add_assoc]

/-- A frame that no stage works on is settled. -/
theorem FrameOk.settled {E : Type} {consumer : CoFn} {i : Fin N} {x : FrameView N E}
    {st : FrameState} {log : List (Mark N)} (h : FrameOk consumer i x st)
    (hlog : x.log = recorded log i) (hst : st = .unused ∨ ∃ stage, st = .done stage) :
    Settled log i := by
  intro stage
  have hne : st ≠ .active stage := by
    rcases hst with rfl | ⟨g, rfl⟩ <;> exact FrameState.noConfusion
  rw [h.count_started hlog stage, if_neg hne]
  rfl

end AiDeck.Camera
