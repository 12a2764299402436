import AiDeck.Camera.Contexts

/-! # Who owns a frame -/
namespace AiDeck.Camera
open AiDeck.Lib AiDeck.Coroutine

variable {N : Nat} {E : Type}

/-! ## The tasks of the scheduler -/

section
variable [NeZero N] [DecidableEq E] {consumer : CoFn} {s : CameraSystem N E}
  {v : CameraSchedule N E} {st : Fin N → FrameState} {i : Fin N}
  {q : List (Pending (Ctx N) (Event N E) Empty)}

theorem cameraTask_outcome (hheld : Held consumer s v st) (hpos : Positioned s v st)
    (hq : v.queue = .resume none :: q) :
    Outcome consumer (cameraTask consumer (s.withRt (s.rt.dequeue q))) := by
  have hqueued := hheld.models.head_queued hq
  obtain ⟨rt, hok, hmodels⟩ := hheld.models.begin_ok hq
  have hheld' : Held consumer (s.withRt rt) (v.run none q) st := by
    refine hheld.same hmodels ?_ rfl rfl
    intro j
    have hcount : (v.run none q).queue.count (.task (.event (.inl j))) =
        v.queue.count (.task (.event (.inl j))) := by
      rw [hq, List.count_cons_of_ne (by simp)]
      rfl
    unfold CameraSystem.frameView
    rw [hcount]
    rfl
  have hrun : (v.run none q).home none = .running := by simp
  unfold cameraTask
  show Outcome consumer (call (coFnBegin (s.rt.dequeue q) none) >>= _)
  rw [hok]
  rcases hpos with hfresh | ⟨k, stage, hpos⟩
  · have hresting : ∀ i, Resting 0 i (st i) := by
      intro i
      unfold Resting
      rw [hfresh.unused i, if_pos (Nat.zero_le _)]
      rfl
    have hturn : Turn { s.withRt rt with captureIdx := 0, cropIdx := 0, consumeIdx := 0 } st 0
        .consume := by
      refine ⟨rfl, rfl, rfl, fun i _ => hresting i, ?_⟩
      show Rounds s.log 0 (if _ then 0 else 0) 0 (if _ then 0 else 0) 0
      rw [ite_self, ite_self, hfresh.log]
      exact .nil
    have hstart : Held consumer
        { s.withRt rt with captureIdx := 0, cropIdx := 0, consumeIdx := 0 } (v.run none q) st :=
      hheld'.same hmodels (fun _ => rfl) rfl rfl
    rw [hfresh.point]
    exact hstart.nextFrame hrun hturn hresting
  · have hdone : v.eventDone (.inl s.frame) = true := by
      by_contra hnot
      have hhome := hpos.home
      rw [if_neg hnot, hqueued] at hhome
      cases hhome
    have hst := hheld.done_of_eventDone hpos.current (hpos.frame ▸ hdone)
    have hturn : Turn (s.withRt rt) st k stage := hpos.turn.of_eq rfl rfl rfl rfl
    rw [hpos.point]
    cases stage with
    | capture => exact hheld'.cropFrame hrun hturn hpos.frame hst
    | crop => exact hheld'.consumeFrame hrun hturn hpos.frame hst
    | consume => exact hheld'.captureFrame hrun hturn hpos.frame (.inr hst)

omit [NeZero N] in
theorem cameraCropTask_eq {p : ResumePoint} {rt : CameraRt N E}
    (hok : coFnBegin s.rt (some i) = .ok (p, rt)) (cropHeight : Nat) :
    ∃ row, cameraCropTask cropHeight s i =
      if row < cropHeight then .ok ({ s with row := row }.withRt (coYield rt (some i) 216))
      else .ok (endStage ({ s with row := row }.withRt rt) .crop i) := by
  refine ⟨if p = .line 216 then s.row + 1 else 0, ?_⟩
  unfold cameraCropTask
  rw [hok]
  rfl

theorem cameraCropTask_outcome (hheld : Held consumer s v st) (hpos : Positioned s v st)
    (hq : v.queue = .resume (some i) :: q) (hfunction : s.function i = .crop)
    (cropHeight : Nat) :
    Outcome consumer (cameraCropTask cropHeight (s.withRt (s.rt.dequeue q)) i) := by
  have hqueued := hheld.models.head_queued hq
  obtain ⟨rt, hok, hmodels⟩ := hheld.models.begin_ok hq
  obtain ⟨g, -, -, hrunning⟩ := hheld.active_of_home (i := i) (by rw [hqueued]; simp)
  obtain ⟨hruns, -⟩ := (hheld.frames i).runs hrunning
  obtain rfl : g = .crop := hruns.function.symm.trans hfunction
  have hcoFn : v.fn (some i) = cameraCropTaskFn := hruns.coFn
  obtain ⟨row, hrow⟩ := cameraCropTask_eq (s := s.withRt (s.rt.dequeue q)) hok cropHeight
  rw [hrow]
  right
  split
  · have hyield := hmodels.yield (c := some i) (n := 216) (by simp)
      (hcoFn ▸ List.mem_singleton_self 216)
    refine ⟨_, rfl, suspend_invariant hheld hpos hrunning hyield (.inl (by simp)) ?_ (by simp) rfl
      rfl rfl ?_ row⟩
    · intro c hc
      simp [hc]
    · intro j
      simp [hq, List.count_append]
  · exact ⟨_, rfl, return_invariant hheld hpos hrunning hq hmodels row⟩

/-- The consumer callback does anything its function may do. -/
theorem consumerCallback_outcome (hheld : Held consumer s v st) (hpos : Positioned s v st)
    (hq : v.queue = .resume (some i) :: q) (hfunction : s.function i ≠ .crop)
    {exit : ConsumerExit E} (hvalid : exit.Valid consumer) :
    Outcome consumer (consumerCallback exit (s.withRt (s.rt.dequeue q)) i) := by
  have hqueued := hheld.models.head_queued hq
  obtain ⟨rt, hok, hmodels⟩ := hheld.models.begin_ok hq
  obtain ⟨g, hg, -, hrunning⟩ := hheld.active_of_home (i := i) (by rw [hqueued]; simp)
  obtain ⟨hruns, -⟩ := (hheld.frames i).runs hrunning
  obtain rfl : g = .consume := by
    have hne : g ≠ .crop := fun heq => hfunction (hruns.function.trans heq)
    cases g <;> first | rfl | contradiction
  have hcoFn : v.fn (some i) = consumer := hruns.coFn
  right
  unfold consumerCallback
  show ∃ t, (call (coFnBegin (s.rt.dequeue q) (some i)) >>= _) = _ ∧ _
  rw [hok]
  cases exit with
  | yield n =>
    have hyield := hmodels.yield (c := some i) (n := n) (by simp) (hcoFn ▸ hvalid)
    refine ⟨_, rfl, suspend_invariant hheld hpos hrunning hyield (.inl (by simp)) ?_ (by simp) rfl
      rfl rfl ?_ s.row⟩
    · intro c hc
      simp [hc]
    · intro j
      simp [hq, List.count_append]
  | wait n e =>
    obtain ⟨rt', hok', hwait⟩ :=
      hmodels.wait (c := some i) (n := n) (e := .inr e) (by simp) (hcoFn ▸ hvalid)
    refine ⟨s.withRt rt', ?_, suspend_invariant hheld hpos hrunning hwait ?_ ?_ (by simp)
      (by simp; rfl) (by simp; rfl) (by simp) ?_ s.row⟩
    · show (call (coWait rt (some i) n (.inr e)) >>= _) = _
      rw [hok']
      rfl
    · rw [Schedule.wait_home, Function.update_self]
      split
      · exact .inl rfl
      · exact .inr ⟨e, rfl⟩
    · intro c hc
      rw [Schedule.wait_home, Function.update_of_ne hc]
      simp [hc]
    · intro j
      rw [Schedule.wait_queue, List.count_append, Schedule.run_queue, hq,
        List.count_cons_of_ne (by simp)]
      split <;> simp
  | ret => exact ⟨_, rfl, return_invariant hheld hpos hrunning hq hmodels s.row⟩

/-- The scheduler takes a task. -/
theorem schedule_outcome (h : CameraInvariant consumer s) (cropHeight : Nat)
    {exit : ConsumerExit E} (hvalid : exit.Valid consumer) :
    Outcome consumer (schedule consumer cropHeight exit s) := by
  obtain ⟨v, st, hheld, hpos⟩ := h
  have hqueue := hheld.models.queue
  unfold schedule
  cases hq : s.rt.queue with
  | nil => exact .inr ⟨s, rfl, v, st, hheld, hpos⟩
  | cons p q =>
    rw [hq] at hqueue
    cases p with
    | resume c =>
      cases c with
      | none => exact cameraTask_outcome hheld hpos hqueue.symm
      | some i =>
        show Outcome consumer (if s.function i = .crop then _ else _)
        split
        · next hfunction =>
          exact cameraCropTask_outcome hheld hpos hqueue.symm hfunction cropHeight
        · next hfunction =>
          exact consumerCallback_outcome hheld hpos hqueue.symm hfunction hvalid
    | task x =>
      cases x with
      | other x => exact x.elim
      | event e =>
        right
        show ∃ t, (call (coEventCallback (s.rt.dequeueEvent e q) e) >>= _) = _ ∧ _
        cases e with
        | inl i =>
          obtain ⟨rt, hok, hinv⟩ := frameCallback_invariant hheld hpos hqueue.symm
          rw [hok]
          exact ⟨_, rfl, hinv⟩
        | inr e =>
          obtain ⟨rt, hok, hinv⟩ := consumerEventCallback_invariant hheld hpos hqueue.symm
          rw [hok]
          exact ⟨_, rfl, hinv⟩

theorem CameraSystem.Started.invariant (h : s.Started) (consumer : CoFn) :
    CameraInvariant consumer s := by
  obtain ⟨rt, hinitial, hok, hcapturing, hlog⟩ := h
  obtain ⟨rt', hok', hmodels⟩ :=
    (Runtime.Initial.models hinitial).pushStart (c := none) rfl cameraTaskFn none
  obtain rfl : s.rt = rt' := Except.ok.inj (hok.symm.trans hok')
  refine ⟨_, fun _ => .unused, ⟨hmodels, ?_, by simp, hlog ▸ .nil⟩,
    .inl ⟨fun _ => rfl, by simp, by simp, hlog⟩⟩
  intro i
  refine ⟨?_, rfl, fun hne => absurd rfl hne, ?_, 0, ?_⟩
  · show s.capturing.count i = 0
    rw [hcapturing, List.count_nil]
  · show (Schedule.start _ none cameraTaskFn none).home (some i) = .idle
    simp
  · show recorded s.log i = _
    rw [hlog]
    rfl

theorem camera_invariant {cropHeight : Nat} (h : (camera consumer cropHeight).Reachable s) :
    CameraInvariant consumer s := by
  refine h.invariant (fun s hs => hs.invariant consumer) ?_
  rintro s t hinv ⟨a, ha, hok⟩
  cases a with
  | captured i => exact Except.ok.inj hok ▸ captured_invariant hinv ha
  | eventInit e => exact Except.ok.inj hok ▸ eventInit_invariant hinv ha
  | eventPush e => exact Except.ok.inj hok ▸ eventPush_invariant hinv e
  | schedule exit =>
    have hok : schedule consumer cropHeight exit s = .ok t := hok
    rcases schedule_outcome hinv cropHeight ha with hover | ⟨u, hok', hu⟩
    · cases hover.symm.trans hok
    · exact Except.ok.inj (hok'.symm.trans hok) ▸ hu

end

/-! ## Ownership -/

/-- The stage works on the frame: the sensor captures into it, or its context runs the stage. -/
def Owns (s : CameraSystem N E) (i : Fin N) : Stage → Prop
  | .capture => i ∈ s.capturing
  | .crop => Live s.rt (some i) ∧ s.function i = .crop
  | .consume => Live s.rt (some i) ∧ s.function i = .consume

theorem Held.owns_iff [DecidableEq E] {consumer : CoFn} {s : CameraSystem N E}
    {v : CameraSchedule N E} {st : Fin N → FrameState} (h : Held consumer s v st) (i : Fin N)
    (stage : Stage) : Owns s i stage ↔ st i = .active stage := by
  have hcontext : ∀ g, g ≠ .capture →
      ((Live s.rt (some i) ∧ s.function i = g) ↔ st i = .active g) := by
    intro g hg
    rw [h.models.live_iff]
    constructor
    · rintro ⟨hlive, hfunction⟩
      obtain ⟨g', -, hst, hrunning⟩ := h.active_of_home hlive
      obtain ⟨hruns, -⟩ := (h.frames i).runs hrunning
      rw [hst, ← hfunction]
      exact congrArg _ hruns.function.symm
    · intro hst
      have hrunning : (st i).running = some g := by
        rw [hst]
        cases g with
        | capture => exact absurd rfl hg
        | crop | consume => rfl
      obtain ⟨hruns, -⟩ := (h.frames i).runs hrunning
      refine ⟨?_, hruns.function⟩
      have hhome : v.home (some i) = .queued ∨ ∃ e, v.home (some i) = .event (.inr e) := hruns.home
      rcases hhome with hq | ⟨e, he⟩
      · rw [hq]
        simp
      · rw [he]
        simp
  cases stage with
  | capture =>
    constructor
    · exact h.active_of_capturing
    · intro hst
      have hcaptures : s.capturing.count i = (st i).captures := (h.frames i).captures
      rw [hst] at hcaptures
      exact List.count_pos_iff.mp (hcaptures ▸ Nat.zero_lt_one)
  | crop => exact hcontext .crop (by decide)
  | consume => exact hcontext .consume (by decide)

/-- A frame has one owner at most, one frame at most is captured and one cropped, and the history
is in order: `owned` says that a stage owns a frame from its start to its completion. -/
structure CameraSafe [NeZero N] (s : CameraSystem N E) : Prop where
  owner : ∀ i g g', Owns s i g → Owns s i g' → g = g'
  capturing : s.capturing.length ≤ 1
  cropping : ∀ i j, Owns s i .crop → Owns s j .crop → i = j
  owned : ∀ i g, Owns s i g ↔ s.log.count (.completed g i) < s.log.count (.started g i)
  inOrder : InOrder s.log
  rounds : ∃ capture captured crop cropped consume,
    Rounds s.log capture captured crop cropped consume ∧ consume ≤ cropped ∧ cropped ≤ crop ∧
      crop ≤ captured ∧ captured ≤ capture ∧ capture ≤ consume + 1

theorem Turn.safeRounds [NeZero N] {s : CameraSystem N E} {st : Fin N → FrameState} {k : Nat}
    {stage : Stage} (h : Turn s st k stage) (hcurrent : (st (.ofNat N k)).stage? = some stage) :
    ∃ capture captured crop cropped consume,
      Rounds s.log capture captured crop cropped consume ∧ consume ≤ cropped ∧ cropped ≤ crop ∧
        crop ≤ captured ∧ captured ≤ capture ∧ capture ≤ consume + 1 := by
  refine ⟨_, _, _, _, _, h.rounds, ?_⟩
  rw [h.captureIdx, h.cropIdx]
  cases stage with
  | capture =>
    have hne : st (.ofNat N k) ≠ .active .crop := by
      intro hst
      rw [hst] at hcurrent
      cases hcurrent
    simp only [reduceCtorEq, if_false]
    rw [if_neg hne]
    split <;> omega
  | crop =>
    have hne : st (.ofNat N k) ≠ .active .capture := by
      intro hst
      rw [hst] at hcurrent
      cases hcurrent
    simp only [reduceCtorEq, if_false, if_true]
    rw [if_neg hne]
    split <;> omega
  | consume =>
    simp only [reduceCtorEq, if_false, if_true, ite_self]
    omega

theorem Positioned.not_consume_unique [NeZero N] {s : CameraSystem N E} {v : CameraSchedule N E}
    {st : Fin N → FrameState} (h : Positioned s v st) {i j : Fin N} {g : Stage}
    (hg : g ≠ .consume) (hi : st i = .active g) (hj : st j = .active g) : i = j := by
  rcases h with h | ⟨k, stage, h⟩
  · cases hi.symm.trans (h.unused i)
  · have hi' := h.not_consume (g := g) (by rw [hi]; rfl) hg
    have hj' := h.not_consume (g := g) (by rw [hj]; rfl) hg
    exact hi'.1.trans hj'.1.symm

/-- **A frame has one owner, and the stages keep their order**, for every number of buffers, every
consumer callback and every order of completions. -/
theorem camera_safe [NeZero N] [DecidableEq E] (consumer : CoFn) (cropHeight : Nat)
    (s : CameraSystem N E) (h : (camera consumer cropHeight).Reachable s) : CameraSafe s := by
  obtain ⟨v, st, hheld, hpos⟩ := camera_invariant h
  have howns := hheld.owns_iff
  refine ⟨?_, ?_, ?_, ?_, hheld.inOrder, ?_⟩
  · intro i g g' hg hg'
    rw [howns] at hg hg'
    exact FrameState.active.inj (hg.symm.trans hg')
  · have hcount : ∀ i, s.capturing.count i ≤ 1 := by
      intro i
      have hcaptures : s.capturing.count i = (st i).captures := (hheld.frames i).captures
      rw [hcaptures]
      cases st i with
      | active g => cases g <;> decide
      | _ => exact Nat.zero_le 1
    rw [← List.toFinset_card_of_nodup (List.nodup_iff_count_le_one.mpr hcount)]
    refine Finset.card_le_one.mpr ?_
    intro i hi j hj
    exact hpos.not_consume_unique (g := .capture) (by decide)
      (hheld.active_of_capturing (List.mem_toFinset.mp hi))
      (hheld.active_of_capturing (List.mem_toFinset.mp hj))
  · intro i j hi hj
    exact hpos.not_consume_unique (by decide) ((howns i _).mp hi) ((howns j _).mp hj)
  · intro i g
    rw [howns, (hheld.frames i).count_started rfl g]
    split <;> simp [*]
  · rcases hpos with hfresh | ⟨k, stage, hpos⟩
    · refine ⟨0, 0, 0, 0, 0, ?_, by omega⟩
      rw [hfresh.log]
      exact .nil
    · exact hpos.turn.safeRounds hpos.current

/-! ## A run -/

section
variable [NeZero N] [DecidableEq E]

instance ConsumerExit.Valid.decidable (consumer : CoFn) (exit : ConsumerExit E) :
    Decidable (exit.Valid consumer) :=
  match exit with
  | .yield n => inferInstanceAs (Decidable (n ∈ consumer.lines))
  | .wait n _ => inferInstanceAs (Decidable (n ∈ consumer.lines))
  | .ret => inferInstanceAs (Decidable True)

instance CameraAction.Enabled.decidable (consumer : CoFn) (s : CameraSystem N E)
    (a : CameraAction N E) : Decidable (a.Enabled consumer s) :=
  match a with
  | .captured i => inferInstanceAs (Decidable (i ∈ s.capturing))
  | .eventInit e => inferInstanceAs (Decidable (s.rt.lists.first (.inr e) = none))
  | .eventPush _ => inferInstanceAs (Decidable True)
  | .schedule exit => inferInstanceAs (Decidable (exit.Valid consumer))

/-- After `camera_start` with zero-initialised memory. -/
def CameraSystem.fresh (N : Nat) (E : Type) [NeZero N] [DecidableEq E] : CameraSystem N E :=
  { rt := coFnPushResume (coFnInit .zero none cameraTaskFn none) none
    captureIdx := 0, cropIdx := 0, consumeIdx := 0, frame := .ofNat N 0, row := 0
    function := fun _ => .crop, capturing := [], log := [] }

theorem CameraSystem.fresh_started : (fresh N E).Started :=
  ⟨.zero, Runtime.zero_initial, rfl, rfl, rfl⟩

theorem camera_follow {consumer : CoFn} {cropHeight : Nat} {s : CameraSystem N E}
    {l : List (CameraAction N E)}
    (hf : Transition.follow (fun s a => CameraAction.Enabled consumer s a)
      (CameraAction.run consumer cropHeight) (.fresh N E) l = some s) :
    (camera consumer cropHeight).Reachable s :=
  Transition.Reachable.follow _ _ (.init CameraSystem.fresh_started)
    (fun _ a _ ha hok => ⟨a, ha, hok⟩) hf

end

/-- The consumer has the first frame while the second is captured. -/
theorem camera_safe_overlap : ∃ s : CameraSystem 2 Unit,
    starts .consume s.log = [0] ∧ s.capturing = [1] ∧ CameraSafe s := by
  have hrun : (Transition.follow (fun s a => CameraAction.Enabled ⟨[]⟩ s a)
      (CameraAction.run ⟨[]⟩ 1) (.fresh 2 Unit) [.schedule .ret, .captured 0, .schedule .ret,
        .schedule .ret, .schedule .ret, .schedule .ret, .schedule .ret, .schedule .ret]).map
      (fun s => (starts .consume s.log, s.capturing)) = some ([0], [1]) := by decide
  obtain ⟨s, hs, hvalues⟩ := Option.map_eq_some_iff.mp hrun
  obtain ⟨hstarts, hcapturing⟩ := Prod.mk.inj hvalues
  exact ⟨s, hstarts, hcapturing, camera_safe ⟨[]⟩ 1 s (camera_follow hs)⟩

end AiDeck.Camera
