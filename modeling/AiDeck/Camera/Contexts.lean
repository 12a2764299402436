import AiDeck.Camera.Steps

/-! # What the context of a frame does

It is resumed at most while the frame is cropped or consumed, and it suspends or returns. -/
namespace AiDeck.Camera
open AiDeck.Lib AiDeck.Coroutine

variable {N : Nat} [NeZero N] {E : Type} [DecidableEq E] {consumer : CoFn}
  {s : CameraSystem N E} {v w : CameraSchedule N E} {st : Fin N → FrameState} {i : Fin N}
  {g : Stage} {q : List (Pending (Ctx N) (Event N E) Empty)}

/-- The context of a frame suspends. -/
theorem suspend_invariant {rt : CameraRt N E} (hheld : Held consumer s v st)
    (hpos : Positioned s v st) (hrunning : (st i).running = some g) (hmodels : Models w rt)
    (hhome : w.home (some i) = .queued ∨ ∃ e, w.home (some i) = .event (.inr e))
    (hothers : ∀ c, c ≠ some i → w.home c = v.home c)
    (hpoint : w.resumePoint none = v.resumePoint none) (hfn : w.fn = v.fn)
    (hdoneTask : w.doneTask = v.doneTask) (hdone : w.eventDone = v.eventDone)
    (hcount : ∀ j, w.queue.count (.task (.event (.inl j))) =
      v.queue.count (.task (.event (.inl j)))) (row : Nat) :
    CameraInvariant consumer ({ s with row := row }.withRt rt) := by
  refine ⟨w, st, ⟨hmodels, ?_, (congrFun hfn none).trans hheld.taskFn, hheld.inOrder⟩,
    hpos.same ⟨rfl, rfl, rfl⟩ rfl rfl (hothers none (by simp)) hpoint fun _ => congrFun hdone _⟩
  intro j
  by_cases hj : j = i
  · subst hj
    exact (hheld.frames j).suspend hrunning rfl (hcount j) (congrFun hdone _) hhome
      (congrFun hdoneTask _) (congrFun hfn _) rfl rfl
  · have hview : ({ s with row := row }.withRt rt).frameView w j = s.frameView v j := by
      unfold CameraSystem.frameView
      rw [hothers (some j) (by simpa using hj), hcount, hfn, hdoneTask, hdone]
      rfl
    exact hview ▸ hheld.frames j

/-- The context of a frame returns: the stage is completed. -/
theorem return_invariant {rt : CameraRt N E} (hheld : Held consumer s v st)
    (hpos : Positioned s v st) (hrunning : (st i).running = some g)
    (hq : v.queue = .resume (some i) :: q) (hmodels : Models (v.run (some i) q) rt) (row : Nat) :
    CameraInvariant consumer (endStage ({ s with row := row }.withRt rt) g i) := by
  have hmodels' := hmodels.ret (c := some i) (Function.update_self ..)
  obtain ⟨hruns, hst⟩ := (hheld.frames i).runs hrunning
  have hqueue : ((v.run (some i) q).ret (some i)).queue = q ++ [.task (.event (.inl i))] :=
    congrArg (fun x => q ++ (Option.toList x).map Pending.task) hruns.doneTask
  have hothers : ∀ c, c ≠ some i → ((v.run (some i) q).ret (some i)).home c = v.home c := by
    intro c hc
    show Function.update (Function.update v.home (some i) .running) (some i) .idle c = v.home c
    rw [Function.update_of_ne hc, Function.update_of_ne hc]
  refine ⟨(v.run (some i) q).ret (some i), Function.update st i (.signalled g),
    hheld.update hmodels' ((hheld.frames i).completed hrunning rfl ?_ rfl ?_ ?_) ?_ rfl
      (hheld.inOrder.concat (m := .completed g i) trivial), ?_⟩
  · show List.count _ ((v.run (some i) q).ret (some i)).queue = List.count _ v.queue + 1
    rw [hqueue, hq, List.count_append, List.count_singleton_self, List.count_cons_of_ne (by simp)]
  · exact Function.update_self ..
  · show recorded (s.log ++ [.completed g i]) i = _
    simp [CameraSystem.frameView, recorded, Mark.frame]
  · intro j hj
    have hj' : i ≠ j := fun heq => hj heq.symm
    have hcount : ((v.run (some i) q).ret (some i)).queue.count (.task (.event (.inl j))) =
        v.queue.count (.task (.event (.inl j))) := by
      rw [hqueue, hq, List.count_append]
      simp [hj']
    have hrecorded : recorded (s.log ++ [.completed g i]) j = recorded s.log j := by
      simp [recorded, Mark.frame, hj']
    unfold CameraSystem.frameView
    rw [hothers (some j) (by simpa using hj), hcount]
    exact congrArg (FrameView.mk _ _ _ _ _ _ _) hrecorded
  · rcases hpos with hfresh | ⟨k, stage, hpos⟩
    · have hunused := hst.symm.trans (hfresh.unused i)
      cases hunused
    · have hhome : ((v.run (some i) q).ret (some i)).home none = v.home none :=
        hothers none (by simp)
      have hpoint : ((v.run (some i) q).ret (some i)).resumePoint none = v.resumePoint none := by
        show Function.update (Function.update v.resumePoint (some i) .running) (some i) .done none =
          v.resumePoint none
        rw [Function.update_of_ne (by simp), Function.update_of_ne (by simp)]
      refine .inr ⟨k, stage, hpos.advance ⟨rfl, rfl, rfl⟩ rfl (by rw [hst]; rfl)
        (hhome.trans hpos.home) hpoint ?_⟩
      cases g with
      | capture =>
        rw [hst] at hrunning
        cases hrunning
      | crop =>
        obtain ⟨rfl, rfl⟩ := hpos.not_consume (g := .crop) (by rw [hst]; rfl) (by decide)
        have hcrop : s.cropIdx = k + 1 := hpos.turn.cropIdx
        have hrounds := hpos.turn.rounds
        rw [hst, if_neg (by decide), if_pos rfl, hcrop] at hrounds
        rw [Function.update_self, if_neg (by decide), if_neg (by decide), hcrop]
        exact hrounds.completeCrop
      | consume =>
        have hrounds := hpos.turn.rounds_update 
          (show st i ≠ .active .capture by rw [hst]; decide)
          (show FrameState.signalled .consume ≠ .active .capture by decide)
          (by rw [hst]; decide) (by decide)
        exact hrounds.consumed i

end AiDeck.Camera
