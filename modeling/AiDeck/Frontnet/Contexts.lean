import AiDeck.Frontnet.State

/-! # What the calls of the runtime do to the positions -/
namespace AiDeck.Frontnet
open AiDeck.Lib AiDeck.Coroutine

variable {F : Type}

namespace FrontnetSystem

variable [DecidableEq F] {s : FrontnetSystem F} {d : Ctx F} {rt : FrontnetRt F}

theorem pushStart_eq {f : CoFn} {x : PiTask Event F}
    (hok : coFnPushStart s.rt d f (some x) = .ok rt) : s.pushStart d f x = .ok (s.withRt rt) := by
  unfold pushStart
  rw [hok]
  rfl

theorem wait_eq [Fintype F] {n : Nat} {e : Event} (hok : coWait s.rt d n e = .ok rt) :
    s.wait d n e = .ok (s.withRt rt) := by
  unfold wait
  rw [hok]
  rfl

end FrontnetSystem

namespace Position

/-- The position after the callback of an event. -/
def woken (e : Event) : Position → Position
  | waiting p e' => if e' = e then queued p else waiting p e'
  | p => p

/-- `p'` says no more than `p`. -/
inductive Within : Position → Position → Prop
  | refl (p : Position) : Within p p
  | queued (p : ResumePoint) (e : Event) : Within (queued p) (either p e)
  | waiting (p : ResumePoint) (e : Event) : Within (waiting p e) (either p e)

theorem Home.event {p : Position} {e : Event} (h : p.Home (.event e)) : p.event? = some e := by
  cases p with
  | idle | running | queued x => cases h
  | waiting x e' => exact congrArg some (Home.event.inj h).symm
  | either x e' =>
    rcases h with h | h
    · cases h
    · exact congrArg some (Home.event.inj h).symm

end Position

theorem ContextOk.within {v : FrontnetSchedule F} {d : Ctx F} {p p' : Position}
    (h : ContextOk v d p) (hp : p.Within p') : ContextOk v d p' := by
  cases hp with
  | refl => exact h
  | queued x e =>
    exact ⟨.inl h.home, h.point, fun _ => h.fn (by simp), fun _ => h.doneTask (by simp)⟩
  | waiting x e =>
    exact ⟨.inr h.home, h.point, fun _ => h.fn (by simp), fun _ => h.doneTask (by simp)⟩

/-- Nothing concerns the context. -/
theorem ContextOk.same {v w : FrontnetSchedule F} {d : Ctx F} {p : Position}
    (h : ContextOk v d p) (hhome : w.home d = v.home d)
    (hpoint : w.resumePoint d = v.resumePoint d) (hfn : w.fn d = v.fn d)
    (hdoneTask : w.doneTask d = v.doneTask d) : ContextOk w d p := by
  refine ⟨?_, fun x hx => hpoint.trans (h.point x hx), fun hp => hfn.trans (h.fn hp),
    fun hp => hdoneTask.trans (h.doneTask hp)⟩
  rw [hhome]
  exact h.home

/-- The runtime is as the view says, and each context is at its position. -/
structure Base (rt : FrontnetRt F) (v : FrontnetSchedule F) (pos : Ctx F → Position) : Prop where
  models : Models v rt
  contexts : ∀ d, ContextOk v d (pos d)

namespace Base

variable {rt : FrontnetRt F} {v w : FrontnetSchedule F} {pos pos' : Ctx F → Position}
  {d : Ctx F} {e : Event} {n : Nat} {q : List (Pending (Ctx F) Event F)}

theorem within (h : Base rt v pos) (hpos : ∀ d, (pos d).Within (pos' d)) : Base rt v pos' :=
  ⟨h.models, fun d => (h.contexts d).within (hpos d)⟩

/-- Nobody waits on an event that is done or that no position waits on. -/
theorem waiting_nil (h : Base rt v pos)
    (he : ∀ d, (pos d).event? = some e → v.eventDone e = true) : v.waiting e = [] := by
  refine List.eq_nil_iff_forall_not_mem.mpr ?_
  intro d hd
  have hhome := h.models.mem_waiting.mp hd
  have hposition := (h.contexts d).home
  rw [hhome] at hposition
  rw [h.models.woken (he d (Position.Home.event hposition))] at hd
  exact List.not_mem_nil hd

theorem init (h : Base rt v pos) (he : ∀ d, (pos d).event? = some e → v.eventDone e = true) :
    Base (coEventInit rt e) (v.init e) pos :=
  ⟨h.models.eventInit (h.waiting_nil he), fun d => (h.contexts d).same rfl rfl rfl rfl⟩

theorem push (h : Base rt v pos) (t : PiTask Event F) : Base (piTaskPush rt t) (v.push t) pos :=
  ⟨h.models.push t, fun d => (h.contexts d).same rfl rfl rfl rfl⟩

theorem other {f : F} (h : Base rt v pos) (hq : v.queue = .task (.other f) :: q) :
    Base (rt.dequeue q) (v.dequeue q) pos :=
  ⟨h.models.other hq, fun d => (h.contexts d).same rfl rfl rfl rfl⟩

section
variable [DecidableEq F]

theorem start (h : Base rt v pos) (hd : pos d = .idle) :
    ∃ rt', coFnPushStart rt d (coFn d) (some (doneTask d)) = .ok rt' ∧
      Base rt' (v.start d (coFn d) (some (doneTask d)))
        (Function.update pos d (.queued .start)) := by
  have hidle : v.home d = .idle := by
    have hhome := (h.contexts d).home
    rw [hd] at hhome
    exact hhome
  obtain ⟨rt', hok, hmodels⟩ := h.models.pushStart hidle (coFn d) (some (doneTask d))
  refine ⟨rt', hok, hmodels, ?_⟩
  intro d'
  by_cases hd' : d' = d
  · subst hd'
    rw [Function.update_self]
    refine ⟨?_, ?_, ?_, ?_⟩
    · exact Function.update_self ..
    · intro x hx
      exact (Function.update_self ..).trans (Option.some.inj hx)
    · exact fun _ => Function.update_self ..
    · exact fun _ => Function.update_self ..
  · rw [Function.update_of_ne hd']
    refine (h.contexts d').same ?_ ?_ ?_ ?_ <;> exact Function.update_of_ne hd' ..

theorem ret (h : Base rt v pos) (hd : pos d = .running) :
    Base (coReturn rt d) (v.ret d) (Function.update pos d .idle) := by
  have hhome : v.home d = .running := by
    have hhome := (h.contexts d).home
    rw [hd] at hhome
    exact hhome
  refine ⟨h.models.ret hhome, ?_⟩
  intro d'
  by_cases hd' : d' = d
  · subst hd'
    rw [Function.update_self]
    refine ⟨?_, fun x hx => (by cases hx), fun hne => absurd rfl hne, fun hne => absurd rfl hne⟩
    exact Function.update_self ..
  · rw [Function.update_of_ne hd']
    exact (h.contexts d').same (Function.update_of_ne hd' ..) (Function.update_of_ne hd' ..) rfl rfl

/-- The head of the queue is resumed where it was suspended. -/
theorem begin_ok (h : Base rt v pos) (hq : v.queue = .resume d :: q) :
    ∃ rt' x, coFnBegin (rt.dequeue q) d = .ok (x, rt') ∧ (pos d).point? = some x ∧
      (pos d = .queued x ∨ ∃ e, pos d = .either x e) ∧
      Base rt' (v.run d q) (Function.update pos d .running) := by
  have hhome := (h.contexts d).home
  rw [h.models.head_queued hq] at hhome
  obtain ⟨x, hx, hpoint⟩ : ∃ x, (pos d = .queued x ∨ ∃ e, pos d = .either x e) ∧
      (pos d).point? = some x := by
    cases hp : pos d with
    | idle | running =>
      rw [hp] at hhome
      cases hhome
    | waiting x e =>
      rw [hp] at hhome
      cases hhome
    | queued x => exact ⟨x, .inl rfl, rfl⟩
    | either x e => exact ⟨x, .inr ⟨e, rfl⟩, rfl⟩
  have hne : pos d ≠ .idle := by
    intro heq
    rw [heq] at hpoint
    cases hpoint
  obtain ⟨rt', hok, hmodels⟩ := h.models.begin_ok hq
  rw [(h.contexts d).point x hpoint] at hok
  refine ⟨rt', x, hok, hpoint, hx, hmodels, ?_⟩
  intro d'
  by_cases hd' : d' = d
  · subst hd'
    rw [Function.update_self]
    refine ⟨?_, fun x hx => (by cases hx), fun _ => (h.contexts d').fn hne,
      fun _ => (h.contexts d').doneTask hne⟩
    exact Function.update_self ..
  · rw [Function.update_of_ne hd']
    exact (h.contexts d').same (Function.update_of_ne hd' ..) (Function.update_of_ne hd' ..) rfl rfl

variable [Fintype F]

theorem wait (h : Base rt v pos) (hd : pos d = .running) (hn : n ∈ (coFn d).lines) (e : Event) :
    ∃ rt', coWait rt d n e = .ok rt' ∧ Base rt' (v.wait d n e)
      (Function.update pos d
        (if v.eventDone e then .queued (.line n) else .waiting (.line n) e)) := by
  have hcontext := h.contexts d
  rw [hd] at hcontext
  have hfn := hcontext.fn (by simp)
  obtain ⟨rt', hok, hmodels⟩ := h.models.wait (e := e) hcontext.home (hfn ▸ hn)
  refine ⟨rt', hok, hmodels, ?_⟩
  intro d'
  by_cases hd' : d' = d
  · subst hd'
    rw [Function.update_self]
    refine ⟨?_, ?_, ?_, ?_⟩
    · rw [Schedule.wait_home, Function.update_self]
      cases v.eventDone e <;> rfl
    · intro x hx
      rw [Schedule.wait_resumePoint, Function.update_self]
      cases hdone : v.eventDone e <;> rw [hdone] at hx <;> exact Option.some.inj hx
    · intro _
      rw [Schedule.wait_fn]
      exact hfn
    · intro _
      rw [Schedule.wait_doneTask]
      exact hcontext.doneTask (by simp)
  · rw [Function.update_of_ne hd']
    refine (h.contexts d').same ?_ ?_ (by rw [Schedule.wait_fn]) (by rw [Schedule.wait_doneTask])
    · rw [Schedule.wait_home, Function.update_of_ne hd']
    · rw [Schedule.wait_resumePoint, Function.update_of_ne hd']

theorem callback (h : Base rt v pos) (hq : v.queue = .task (.event e) :: q) :
    ∃ rt', coEventCallback (rt.dequeueEvent e q) e = .ok rt' ∧
      Base rt' (v.callback e q) fun d => (pos d).woken e := by
  obtain ⟨rt', hok, hmodels⟩ := h.models.callback hq
  refine ⟨rt', hok, hmodels, ?_⟩
  intro d
  have hcontext := h.contexts d
  have hhome := hcontext.home
  cases hp : pos d with
  | waiting x e' =>
    rw [hp] at hcontext hhome
    by_cases he : e' = e
    · subst he
      have hwoken : (Position.waiting x e').woken e' = .queued x := if_pos rfl
      rw [hwoken]
      exact ⟨h.models.callback_home hhome, hcontext.point, fun _ => hcontext.fn (by simp),
        fun _ => hcontext.doneTask (by simp)⟩
    · have hwoken : (Position.waiting x e').woken e = .waiting x e' := if_neg he
      rw [hwoken]
      refine hcontext.same (h.models.callback_home_of_ne ?_) rfl rfl rfl
      rw [hhome]
      simpa using he
  | either x e' =>
    rw [hp] at hcontext hhome
    show ContextOk _ d (.either x e')
    by_cases he : v.home d = .event e
    · exact ⟨.inl (h.models.callback_home he), hcontext.point, fun _ => hcontext.fn (by simp),
        fun _ => hcontext.doneTask (by simp)⟩
    · exact hcontext.same (h.models.callback_home_of_ne he) rfl rfl rfl
  | idle | running | queued x =>
    rw [hp] at hcontext hhome
    refine hcontext.same (h.models.callback_home_of_ne ?_) rfl rfl rfl
    rw [show v.home d = _ from hhome]
    simp

end

end Base

end AiDeck.Frontnet
