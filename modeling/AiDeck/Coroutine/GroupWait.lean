import AiDeck.Coroutine.Invariant

/-! # Interrupts during a wait on a group

`co_event_group_wait` (nanocockpit/lib/event_group.h) statement by statement: from `restore_irq`
on an interrupt handler can call `co_event_group_set` between any two of them. -/
namespace AiDeck.Coroutine
open AiDeck.Lib

/-- Where `co_event_group_wait` is, behind its critical section. -/
inductive WaitPoint where
  /-- before `if (wait_done)` -/
  | restored (waitDone : Bool)
  /-- before `event_group->wait_ctx = NULL` -/
  | taken
  /-- before `co_fn_push_resume(ctx)` -/
  | cleared
  | returned
  deriving DecidableEq, Repr

/-- `co_event_group_wait` has found its condition met and has not pushed the resume. -/
def WaitPoint.Owes : WaitPoint → Prop
  | restored waitDone => waitDone = true
  | taken => True
  | cleared => True
  | returned => False

/-- A set now would find the context that `co_event_group_wait` is about to resume. -/
def WaitPoint.Window : WaitPoint → Prop
  | restored waitDone => waitDone = true
  | taken => True
  | cleared => False
  | returned => False

variable {Ctx Event Group Task : Type}

/-- The runtime during a wait, and as history whether the condition has held since the wait was
registered. -/
structure GroupWait (Ctx Event Group Task : Type) where
  rt : Runtime Ctx Event Group Task
  point : WaitPoint
  held : Bool

/-- The next statement of `co_event_group_wait`, or an interrupt handler that sets bits. -/
inductive WaitAction where
  | next
  | set (mask : BitVec 32)
  deriving DecidableEq

section
variable [DecidableEq Group] (g : Group) (c : Ctx) (waitMask : BitVec 32) (waitMode : WaitMode)

/-- The critical section. -/
def groupWaitStart (rt : Runtime Ctx Event Group Task) :
    Except Stop (GroupWait Ctx Event Group Task) :=
  if (rt.group g).waitCtx.isSome then
    .error (.assertion "Multiple waits on a co_event_group_t, not implemented yet.\n")
  else
    let rt := rt.setGroup g ⟨(rt.group g).mask, some c, waitMask, waitMode⟩
    let waitDone := coEventGroupTest (rt.group g) waitMask waitMode
    .ok ⟨rt, .restored waitDone, waitDone⟩

/-- The statement at the point that is reached; nothing is left behind the last one. -/
def GroupWait.next (s : GroupWait Ctx Event Group Task) : GroupWait Ctx Event Group Task :=
  match s.point with
  | .restored waitDone => { s with point := if waitDone then .taken else .returned }
  | .taken => { s with rt := s.rt.setGroup g (s.rt.group g).released, point := .cleared }
  | .cleared => { s with rt := coFnPushResume s.rt c, point := .returned }
  | .returned => s

def GroupWait.set (s : GroupWait Ctx Event Group Task) (setMask : BitVec 32) :
    GroupWait Ctx Event Group Task :=
  let rt := coEventGroupSet s.rt g setMask
  { s with rt := rt, held := s.held || coEventGroupTest (rt.group g) waitMask waitMode }

def GroupWait.act (s : GroupWait Ctx Event Group Task) : WaitAction → GroupWait Ctx Event Group Task
  | .next => s.next g c
  | .set mask => s.set g waitMask waitMode mask

def GroupWait.run (s : GroupWait Ctx Event Group Task) (acts : List WaitAction) :
    GroupWait Ctx Event Group Task :=
  acts.foldl (GroupWait.act g c waitMask waitMode) s

/-- Before the condition holds nobody pushes the resume; once it has held the resume is pushed
once, by the waiter if it has found the condition met, and the group is left without a waiter. -/
structure WaitOnce (queue : List (Pending Ctx Event Task)) (s : GroupWait Ctx Event Group Task) :
    Prop where
  waits : s.held = false → s.rt.queue = queue
  owed : s.point.Owes → s.rt.queue = queue
  resumed : s.held = true → ¬ s.point.Owes →
    s.rt.queue = queue ++ [.resume c] ∧ (s.rt.group g).waitCtx = none

/-- No interrupt handler sets bits where `co_event_group_wait` has found its condition met and
has not yet stored `NULL` in `wait_ctx`. -/
def NoRace (s : GroupWait Ctx Event Group Task) (acts : List WaitAction) : Prop :=
  ∀ earlier a later, acts = earlier ++ a :: later → a ≠ .next →
    ¬ (s.run g c waitMask waitMode earlier).point.Window

end

/-! ## What the statements keep -/

section
variable [DecidableEq Group] {g : Group} {c : Ctx} {waitMask : BitVec 32} {waitMode : WaitMode}
  {queue : List (Pending Ctx Event Task)} {s : GroupWait Ctx Event Group Task}

/-- More bits meet every condition that fewer bits meet. -/
theorem coEventGroupTest_set {x : EventGroup Ctx} {w m : BitVec 32} {mode : WaitMode}
    (h : coEventGroupTest x w mode = true) :
    coEventGroupTest (x.withMask (x.mask ||| m)) w mode = true := by
  by_contra hmore
  have hless := coEventGroupTest_clear (m := x.mask) (Bool.eq_false_iff.mpr hmore)
  have hmask : (x.mask ||| m) &&& x.mask = x.mask := by
    ext i hi
    simp only [BitVec.getElem_and, BitVec.getElem_or]
    cases x.mask[i] <;> cases m[i] <;> rfl
  change coEventGroupTest (x.withMask ((x.mask ||| m) &&& x.mask)) w mode = false at hless
  rw [hmask] at hless
  exact Bool.false_ne_true (hless.symm.trans h)

variable (g c waitMask waitMode) in
/-- The group as `co_event_group_wait` has left it to `co_event_group_update`. -/
structure Registered (s : GroupWait Ctx Event Group Task) : Prop where
  ctx : (s.rt.group g).waitCtx = some c
  mask : (s.rt.group g).waitMask = waitMask
  mode : (s.rt.group g).waitMode = waitMode
  held : coEventGroupTest (s.rt.group g) waitMask waitMode = s.held

variable (g c waitMask waitMode queue) in
/-- Where a wait is: the condition has not held, the waiter has found it met, the waiter is
about to push, or somebody has pushed. -/
inductive WaitInv (s : GroupWait Ctx Event Group Task) : Prop
  | waiting (hpoint : ¬ s.point.Owes) (hreg : Registered g c waitMask waitMode s)
      (hheld : s.held = false) (hqueue : s.rt.queue = queue)
  | met (hpoint : s.point.Window) (hreg : Registered g c waitMask waitMode s)
      (hheld : s.held = true) (hqueue : s.rt.queue = queue)
  | clear (hpoint : s.point = .cleared) (hctx : (s.rt.group g).waitCtx = none)
      (hheld : s.held = true) (hqueue : s.rt.queue = queue)
  | resumed (hpoint : ¬ s.point.Owes) (hctx : (s.rt.group g).waitCtx = none)
      (hheld : s.held = true) (hqueue : s.rt.queue = queue ++ [.resume c])

theorem WaitPoint.Window.owes {p : WaitPoint} (h : p.Window) : p.Owes := by
  cases p with
  | restored waitDone => exact h
  | taken => trivial
  | cleared => exact h.elim
  | returned => exact h

omit [DecidableEq Group] in
theorem WaitInv.once (h : WaitInv g c waitMask waitMode queue s) : WaitOnce g c queue s := by
  cases h with
  | waiting hpoint _ hheld hqueue =>
    refine ⟨fun _ => hqueue, fun howes => absurd howes hpoint, fun hmet _ => ?_⟩
    rw [hheld] at hmet
    cases hmet
  | met hpoint _ _ hqueue =>
    exact ⟨fun _ => hqueue, fun _ => hqueue, fun _ hnot => absurd hpoint.owes hnot⟩
  | clear hpoint _ _ hqueue =>
    refine ⟨fun _ => hqueue, fun _ => hqueue, fun _ hnot => ?_⟩
    rw [hpoint] at hnot
    exact absurd trivial hnot
  | resumed hpoint hctx hheld hqueue =>
    refine ⟨fun hopen => ?_, fun howes => absurd howes hpoint, fun _ _ => ⟨hqueue, hctx⟩⟩
    rw [hheld] at hopen
    cases hopen

theorem groupWaitStart_inv {rt : Runtime Ctx Event Group Task}
    (h : groupWaitStart g c waitMask waitMode rt = .ok s) :
    WaitInv g c waitMask waitMode rt.queue s := by
  rw [groupWaitStart] at h
  split at h
  · cases h
  · obtain rfl := Except.ok.inj h
    have hgroup := rt.setGroup_group g ⟨(rt.group g).mask, some c, waitMask, waitMode⟩
    generalize hs : (GroupWait.mk _ _ _ : GroupWait Ctx Event Group Task) = s
    have hreg : Registered g c waitMask waitMode s := by
      rw [← hs]
      refine ⟨?_, ?_, ?_, rfl⟩
      · exact congrArg EventGroup.waitCtx hgroup
      · exact congrArg EventGroup.waitMask hgroup
      · exact congrArg EventGroup.waitMode hgroup
    have hpoint : s.point = .restored s.held := by rw [← hs]
    have hqueue : s.rt.queue = rt.queue := by
      rw [← hs]
      rfl
    cases hheld : s.held with
    | false =>
      refine .waiting ?_ hreg hheld hqueue
      rw [hpoint, hheld]
      exact Bool.false_ne_true
    | true =>
      refine .met ?_ hreg hheld hqueue
      rw [hpoint, hheld]
      exact rfl

omit [DecidableEq Group] in
theorem Registered.congr {t : GroupWait Ctx Event Group Task}
    (h : Registered g c waitMask waitMode s) (hrt : t.rt = s.rt) (hheld : t.held = s.held) :
    Registered g c waitMask waitMode t := by
  obtain ⟨hctx, hmask, hmode, hmet⟩ := h
  rw [← hrt] at hctx hmask hmode hmet
  exact ⟨hctx, hmask, hmode, hmet.trans hheld.symm⟩

/-- A waiter that owes nothing returns. -/
theorem next_returns (h : ¬ s.point.Owes) : s.next g c = { s with point := .returned } := by
  rw [GroupWait.next]
  cases hp : s.point with
  | restored waitDone =>
    have hfalse : waitDone = false := by
      rw [hp] at h
      exact Bool.eq_false_iff.mpr h
    rw [hfalse]
    rfl
  | taken =>
    rw [hp] at h
    exact absurd trivial h
  | cleared =>
    rw [hp] at h
    exact absurd trivial h
  | returned =>
    change s = { s with point := .returned }
    rw [← hp]

theorem WaitInv.next (h : WaitInv g c waitMask waitMode queue s) :
    WaitInv g c waitMask waitMode queue (s.next g c) := by
  cases h with
  | waiting hpoint hreg hheld hqueue =>
    rw [next_returns hpoint]
    exact .waiting id (hreg.congr rfl rfl) hheld hqueue
  | met hpoint hreg hheld hqueue =>
    rw [GroupWait.next]
    cases hp : s.point with
    | restored waitDone =>
      have htrue : waitDone = true := by
        rw [hp] at hpoint
        exact hpoint
      rw [htrue]
      exact .met trivial (hreg.congr rfl rfl) hheld hqueue
    | taken =>
      refine .clear rfl ?_ hheld hqueue
      exact congrArg EventGroup.waitCtx (s.rt.setGroup_group g (s.rt.group g).released)
    | cleared =>
      rw [hp] at hpoint
      exact hpoint.elim
    | returned =>
      rw [hp] at hpoint
      exact hpoint.elim
  | clear hpoint hctx hheld hqueue =>
    rw [GroupWait.next, hpoint]
    exact .resumed id hctx hheld (congrArg (· ++ [Pending.resume c]) hqueue)
  | resumed hpoint hctx hheld hqueue =>
    rw [next_returns hpoint]
    exact .resumed id hctx hheld hqueue

/-- Setting bits where nobody waits. -/
theorem set_alone (hctx : (s.rt.group g).waitCtx = none) (hheld : s.held = true) (m : BitVec 32) :
    (s.set g waitMask waitMode m).rt.queue = s.rt.queue ∧
      ((s.set g waitMask waitMode m).rt.group g).waitCtx = none ∧
      (s.set g waitMask waitMode m).held = true := by
  have hgroup := s.rt.setGroup_group g ((s.rt.group g).withMask ((s.rt.group g).mask ||| m))
  simp only [GroupWait.set, coEventGroupSet_alone hctx, hheld, Bool.true_or, and_true]
  exact ⟨rfl, (congrArg EventGroup.waitCtx hgroup).trans hctx⟩

/-- Setting bits that meet the condition of the waiter. -/
theorem Registered.wakes (h : Registered g c waitMask waitMode s) {m : BitVec 32}
    (htest : coEventGroupTest ((s.rt.group g).withMask ((s.rt.group g).mask ||| m)) waitMask
      waitMode = true) :
    (s.set g waitMask waitMode m).rt.queue = s.rt.queue ++ [.resume c] ∧
      ((s.set g waitMask waitMode m).rt.group g).waitCtx = none ∧
      (s.set g waitMask waitMode m).held = true := by
  have hgroup := (coFnPushResume s.rt c).setGroup_group g
    ((s.rt.group g).withMask ((s.rt.group g).mask ||| m)).released
  have hset := coEventGroupSet_wakes h.ctx (h.mask.symm ▸ h.mode.symm ▸ htest)
  simp only [GroupWait.set, hset]
  refine ⟨rfl, congrArg EventGroup.waitCtx hgroup, ?_⟩
  rw [hgroup, Bool.or_eq_true]
  exact .inr htest

theorem WaitInv.set (h : WaitInv g c waitMask waitMode queue s) (hwindow : ¬ s.point.Window)
    (m : BitVec 32) : WaitInv g c waitMask waitMode queue (s.set g waitMask waitMode m) := by
  cases h with
  | waiting hpoint hreg hheld hqueue =>
    cases htest : coEventGroupTest ((s.rt.group g).withMask ((s.rt.group g).mask ||| m)) waitMask
        waitMode with
    | true =>
      obtain ⟨hpushed, hctx, hmet⟩ := hreg.wakes htest
      exact .resumed hpoint hctx hmet (hpushed.trans (congrArg (· ++ [Pending.resume c]) hqueue))
    | false =>
      have hset := coEventGroupSet_waits (s := s.rt) (hreg.mask.symm ▸ hreg.mode.symm ▸ htest)
      have hgroup := s.rt.setGroup_group g ((s.rt.group g).withMask ((s.rt.group g).mask ||| m))
      have hnot : (s.set g waitMask waitMode m).held = false := by
        simp only [GroupWait.set, hset, hgroup, hheld, Bool.false_or]
        exact htest
      refine .waiting hpoint ⟨?_, ?_, ?_, ?_⟩ hnot ?_
      · simp only [GroupWait.set, hset, hgroup]
        exact hreg.ctx
      · simp only [GroupWait.set, hset, hgroup]
        exact hreg.mask
      · simp only [GroupWait.set, hset, hgroup]
        exact hreg.mode
      · rw [hnot]
        simp only [GroupWait.set, hset, hgroup]
        exact htest
      · simp only [GroupWait.set, hset]
        exact hqueue
  | met hpoint _ _ _ => exact absurd hpoint hwindow
  | clear hpoint hctx hheld hqueue =>
    obtain ⟨hsame, hctx', hheld'⟩ := set_alone hctx hheld m
    exact .clear hpoint hctx' hheld' (hsame.trans hqueue)
  | resumed hpoint hctx hheld hqueue =>
    obtain ⟨hsame, hctx', hheld'⟩ := set_alone hctx hheld m
    exact .resumed hpoint hctx' hheld' (hsame.trans hqueue)

/-- A set in the window pushes what the waiter will push too. -/
theorem WaitInv.race (h : WaitInv g c waitMask waitMode queue s) (hwindow : s.point.Window)
    (m : BitVec 32) : ¬ WaitOnce g c queue (s.set g waitMask waitMode m) := by
  intro honce
  cases h with
  | waiting hpoint _ _ _ => exact hpoint hwindow.owes
  | met _ hreg hheld hqueue =>
    obtain ⟨hpushed, -, -⟩ := hreg.wakes (m := m) (coEventGroupTest_set (hreg.held.trans hheld))
    have hsame := honce.owed hwindow.owes
    rw [hpushed, hqueue] at hsame
    exact List.cons_ne_nil _ _ (List.append_right_eq_self.mp hsame)
  | clear hpoint _ _ _ =>
    rw [hpoint] at hwindow
    exact hwindow
  | resumed hpoint _ _ _ => exact hpoint hwindow.owes

/-! ## Runs -/

theorem run_concat (s : GroupWait Ctx Event Group Task) (acts : List WaitAction) (a : WaitAction) :
    s.run g c waitMask waitMode (acts ++ [a]) =
      (s.run g c waitMask waitMode acts).act g c waitMask waitMode a := by
  rw [GroupWait.run, List.foldl_append]
  rfl

theorem noRace_concat (s : GroupWait Ctx Event Group Task) (acts : List WaitAction)
    (a : WaitAction) :
    NoRace g c waitMask waitMode s (acts ++ [a]) ↔ NoRace g c waitMask waitMode s acts ∧
      (a ≠ .next → ¬ (s.run g c waitMask waitMode acts).point.Window) :=
  forall_split_concat (P := fun earlier a => a ≠ WaitAction.next →
    ¬ (s.run g c waitMask waitMode earlier).point.Window)

theorem WaitInv.run (h : WaitInv g c waitMask waitMode queue s) {acts : List WaitAction}
    (hrace : NoRace g c waitMask waitMode s acts) :
    WaitInv g c waitMask waitMode queue (s.run g c waitMask waitMode acts) := by
  induction acts using List.reverseRecOn with
  | nil => exact h
  | append_singleton acts a ih =>
    obtain ⟨hearlier, hlast⟩ := (noRace_concat s acts a).mp hrace
    rw [run_concat]
    cases a with
    | next => exact (ih hearlier).next
    | set m => exact (ih hearlier).set (hlast (by simp)) m

/-- **When exactly one resume is pushed.** Whatever the condition and the bits set before, a wait
keeps its promise at every point of a run if and only if no interrupt handler sets bits while
`co_event_group_wait` has found the condition met and `wait_ctx` still holds the context. -/
theorem groupWait_once_iff {rt : Runtime Ctx Event Group Task}
    (h : groupWaitStart g c waitMask waitMode rt = .ok s) (acts : List WaitAction) :
    (∀ done, done <+: acts → WaitOnce g c rt.queue (s.run g c waitMask waitMode done)) ↔
      NoRace g c waitMask waitMode s acts := by
  have hstart := groupWaitStart_inv h
  constructor
  · intro honce
    induction acts using List.reverseRecOn with
    | nil =>
      intro earlier a later heq
      exact absurd heq.symm (List.append_ne_nil_of_right_ne_nil earlier (List.cons_ne_nil a later))
    | append_singleton acts a ih =>
      have hearlier := ih fun done hdone => honce done (hdone.trans (List.prefix_append acts [a]))
      refine (noRace_concat s acts a).mpr ⟨hearlier, fun hset hwindow => ?_⟩
      have hlast := honce (acts ++ [a]) (List.prefix_refl _)
      rw [run_concat] at hlast
      cases a with
      | next => exact hset rfl
      | set m => exact (hstart.run hearlier).race hwindow m hlast
  · rintro hrace done ⟨later, rfl⟩
    have hdone : NoRace g c waitMask waitMode s done := by
      rintro earlier a rest rfl hset
      exact hrace earlier a (rest ++ later) (by rw [List.append_assoc, List.cons_append]) hset
    exact (hstart.run hdone).once

/-- Without interrupts the statements are those of `coEventGroupWait`. -/
theorem coEventGroupWait_eq {rt : Runtime Ctx Event Group Task}
    (h : groupWaitStart g c waitMask waitMode rt = .ok s) :
    coEventGroupWait rt g c waitMask waitMode =
      .ok (s.run g c waitMask waitMode [.next, .next, .next]).rt := by
  rw [groupWaitStart] at h
  split at h
  · cases h
  · rename_i hctx
    obtain rfl := Except.ok.inj h
    have hgroup := rt.setGroup_group g ⟨(rt.group g).mask, some c, waitMask, waitMode⟩
    have htest : coEventGroupTest ((rt.setGroup g ⟨(rt.group g).mask, some c, waitMask,
        waitMode⟩).group g) waitMask waitMode =
          coEventGroupTest (rt.group g) waitMask waitMode := by
      rw [hgroup]
      cases waitMode <;> rfl
    rw [coEventGroupWait, if_neg hctx, htest]
    cases coEventGroupTest (rt.group g) waitMask waitMode with
    | true =>
      refine congrArg Except.ok ?_
      simp only [GroupWait.run, GroupWait.act, GroupWait.next, List.foldl_cons, List.foldl_nil,
        if_true, hgroup]
      simp only [Runtime.setGroup, EventGroup.released, Function.update_idem]
    | false => rfl

end

/-- A wait for bit 0, which an interrupt handler sets between `restore_irq` and the test. -/
theorem groupWait_once_interrupted : ∃ s : GroupWait Unit Unit Unit Unit,
    groupWaitStart () () 1 .any Runtime.zero = .ok s ∧
      WaitOnce () () [] (s.run () () 1 .any [.set 1, .next]) := by
  have hstart : groupWaitStart () () 1 .any (Runtime.zero : Runtime Unit Unit Unit Unit) =
    .ok _ := rfl
  refine ⟨_, hstart, (groupWait_once_iff hstart [.set 1, .next]).mpr ?_ _ (List.prefix_refl _)⟩
  intro earlier a later heq hset
  rcases earlier with - | ⟨b, - | ⟨d, l⟩⟩
  · exact Bool.false_ne_true
  · obtain rfl : a = .next := (List.cons.inj (List.cons.inj heq).2).1.symm
    exact absurd rfl hset
  · simp at heq

/-- Bit 0 is set already, and a handler sets bit 1 between `restore_irq` and the test: the waiter
is resumed twice. -/
theorem groupWait_twice : ∃ s : GroupWait Unit Unit Unit Unit,
    groupWaitStart () () 1 .any (coEventGroupSet Runtime.zero () 1) = .ok s ∧
      (s.run () () 1 .any [.set 2, .next, .next, .next]).rt.queue = [.resume (), .resume ()] ∧
      ¬ WaitOnce () () [] (s.run () () 1 .any [.set 2, .next, .next, .next]) := by
  refine ⟨_, rfl, rfl, fun h => ?_⟩
  have htwice := (h.resumed rfl id).1
  cases htwice

end AiDeck.Coroutine
