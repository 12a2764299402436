import AiDeck.Coroutine.Invariant
import AiDeck.Cpx.LinkTask

/-! # Where the link task is

The task is at one place of its loop. The place says where the context is, whether a
transfer is at the driver, which event bits are known to be set, and how the state is
one of the abstract link, whose events the log records. -/
namespace AiDeck.Cpx
open AiDeck.Coroutine AiDeck.Lib

/-! ## Event bits -/

theorem twoPow_ne_zero {i : Nat} (hi : i < 32) : BitVec.twoPow 32 i ≠ 0 := by
  intro hzero
  have hbit := congrArg (fun x => x.getLsbD i) hzero
  simp [hi] at hbit

theorem and_bit {x m : BitVec 32} {i : Nat} (hm : m = BitVec.twoPow 32 i) (hi : i < 32) :
    x &&& m ≠ 0 ↔ x.getLsbD i = true := by
  rw [hm, BitVec.and_twoPow]
  cases x.getLsbD i with
  | true => exact ⟨fun _ => rfl, fun _ => twoPow_ne_zero hi⟩
  | false => exact ⟨fun h => absurd rfl h, by simp⟩

theorem and_bit_eq {x m : BitVec 32} {i : Nat} (hm : m = BitVec.twoPow 32 i) (hi : i < 32) :
    x &&& m = m ↔ x.getLsbD i = true := by
  rw [hm, BitVec.and_twoPow]
  cases x.getLsbD i with
  | true => exact ⟨fun _ => rfl, fun _ => rfl⟩
  | false => exact ⟨fun h => absurd h.symm (twoPow_ne_zero hi), by simp⟩

theorem and_or_ne_zero {x m m' : BitVec 32} :
    x &&& (m ||| m') ≠ 0 ↔ x &&& m ≠ 0 ∨ x &&& m' ≠ 0 := by
  rw [BitVec.and_or_distrib_left]
  exact (not_congr BitVec.or_eq_zero_iff).trans not_and_or

section
variable {S R Task : Type}

/-- Bit `i` of the group: 0 is `CPX_SPI_EVENT_NINA_RTT`, 1 `SEND` and 2 `RECEIVE`. -/
def LinkSystem.bit (s : LinkSystem S R Task) (i : Nat) : Bool :=
  (s.rt.group spiEvents).mask.getLsbD i

/-- The condition of a wait on the group. -/
def GroupWait.Met (s : LinkSystem S R Task) : GroupWait → Prop
  | .anyone => s.bit 0 = true ∨ s.bit 1 = true
  | .receiver => s.bit 2 = true
  | .nina => s.bit 0 = true

theorem test_iff (s : LinkSystem S R Task) (w : GroupWait) :
    coEventGroupTest (s.rt.group spiEvents) w.mask w.mode = true ↔ w.Met s := by
  cases w with
  | anyone =>
    rw [GroupWait.mask, GroupWait.mode, coEventGroupTest_any, and_or_ne_zero]
    exact or_congr (and_bit rfl (by decide)) (and_bit rfl (by decide))
  | receiver => exact coEventGroupTest_all.trans (and_bit_eq rfl (by decide))
  | nina => exact coEventGroupTest_all.trans (and_bit_eq rfl (by decide))

theorem bit_set (s : LinkSystem S R Task) (m : BitVec 32) (i : Nat) :
    (s.withRt (coEventGroupSet s.rt spiEvents m)).bit i = (s.bit i || m.getLsbD i) := by
  obtain ⟨x, l, hx, -, -, heq⟩ := coEventGroupSet_cases s.rt spiEvents m
  rw [heq]
  change (((s.rt.resumeAll s.rt.lists l).setGroup spiEvents x).group spiEvents).mask.getLsbD i = _
  rw [Runtime.setGroup_group, hx]
  exact BitVec.getLsbD_or

theorem bit_clear (s : LinkSystem S R Task) (m : BitVec 32) {i : Nat} (hi : i < 32) :
    (s.withRt (coEventGroupClear s.rt spiEvents m)).bit i = (s.bit i && !m.getLsbD i) := by
  change ((s.rt.setGroup spiEvents _).group spiEvents).mask.getLsbD i = _
  rw [Runtime.setGroup_group]
  change ((s.rt.group spiEvents).mask &&& ~~~((s.rt.group spiEvents).mask &&& m)).getLsbD i = _
  rw [BitVec.getLsbD_and, BitVec.getLsbD_not, BitVec.getLsbD_and]
  change (s.bit i && (decide (i < 32) && !(s.bit i && m.getLsbD i))) = _
  cases s.bit i <;> simp [hi]

/-- Setting or clearing bits makes the bits of the mask so and keeps the others. -/
theorem set_bit (s : LinkSystem S R Task) {m : BitVec 32} {i : Nat} (hm : m.getLsbD i = true) :
    (s.withRt (coEventGroupSet s.rt spiEvents m)).bit i = true := by
  rw [bit_set, hm, Bool.or_true]

theorem set_other (s : LinkSystem S R Task) {m : BitVec 32} {i : Nat} (hm : m.getLsbD i = false) :
    (s.withRt (coEventGroupSet s.rt spiEvents m)).bit i = s.bit i := by
  rw [bit_set, hm, Bool.or_false]

theorem clear_bit (s : LinkSystem S R Task) {m : BitVec 32} {i : Nat} (hm : m.getLsbD i = true) :
    (s.withRt (coEventGroupClear s.rt spiEvents m)).bit i = false := by
  rw [bit_clear s m (BitVec.lt_of_getLsbD hm), hm]
  exact Bool.and_false _

theorem clear_other (s : LinkSystem S R Task) {m : BitVec 32} {i : Nat} (hi : i < 32)
    (hm : m.getLsbD i = false) :
    (s.withRt (coEventGroupClear s.rt spiEvents m)).bit i = s.bit i := by
  rw [bit_clear s m hi, hm]
  exact Bool.and_true _

/-- What `co_event_group_get` gives of the bits it is asked for. -/
theorem bit_get (s : LinkSystem S R Task) (m : BitVec 32) (i : Nat) :
    (coEventGroupGet s.rt spiEvents m).getLsbD i = (s.bit i && m.getLsbD i) :=
  BitVec.getLsbD_and

theorem get_iff (s : LinkSystem S R Task) {m e : BitVec 32} {i : Nat}
    (he : e = BitVec.twoPow 32 i) (hi : i < 32) (hm : m.getLsbD i = true) :
    coEventGroupGet s.rt spiEvents m &&& e ≠ 0 ↔ s.bit i = true := by
  rw [and_bit he hi, bit_get, hm, Bool.and_true]

/-! ## Places -/

/-- Suspended at the start, in a wait on the group or behind a phase, which is over or
not; or about to take a step. -/
inductive Place where
  | start
  | group (w : GroupWait)
  | phase (p : Phase) (past : Bool)
  | step (n : LinkStep)

/-- The phases after one. -/
def Phase.after : Phase → List Phase
  | header => [head, tail]
  | head => [tail]
  | tail => []

/-- The phases left of the transfer under way. -/
def LinkStep.left : LinkStep → Option (List Phase)
  | step1 => none
  | step2 => none
  | step3 => none
  | step4 => none
  | step5 => none
  | step6 => none
  | step7 => some Phase.header.after
  | step8 => some Phase.header.after
  | step9 => some Phase.header.after
  | step10 => some Phase.head.after
  | step11 => some Phase.tail.after
  | step12 => some Phase.tail.after

def Place.left : Place → Option (List Phase)
  | start => none
  | group _ => none
  | phase p past => some (if past then p.after else p :: p.after)
  | step n => n.left

/-- The step behind a wait on the group. -/
def GroupWait.next : GroupWait → LinkStep
  | anyone => .step2
  | receiver => .step3
  | nina => .step5

/-- The step behind the wait of a phase. -/
def Phase.next : Phase → LinkStep
  | header => .step7
  | head => .step10
  | tail => .step11

/-- The step the task takes when it is resumed. -/
def Place.next : Place → LinkStep
  | start => .step1
  | group w => w.next
  | phase p _ => p.next
  | step n => n

theorem Place.next_ne (place : Place) (h : ∀ n, place ≠ .step n) : place.next ≠ .step6 := by
  cases place with
  | start => simp [next]
  | group w => cases w <;> simp [next, GroupWait.next]
  | phase p past => cases p <;> simp [next, Phase.next]
  | step n => exact absurd rfl (h n)

/-- The send request the task has for its transfer; behind step 11 it is done with it. -/
def Place.carries (place : Place) (sendReq : Option S) : Option S :=
  match place with
  | .step .step12 => none
  | _ => sendReq

/-- Nothing is at the driver and no callback is pending. -/
structure Quiet (s : LinkSystem S R Task) : Prop where
  inFlight : s.inFlight = none
  callbacks : callbacks s.rt = 0

/-- Where the context is. -/
def Control (home : Home Unit Unit) (s : LinkSystem S R Task) : Place → Prop
  | .start => s.step = none ∧ s.rt.resumePoint cpxSpiCtx = .start ∧ Quiet s ∧ home = .queued
  | .group w => s.step = none ∧ s.rt.resumePoint cpxSpiCtx = .line w.line ∧ Quiet s ∧
      (home = .queued ∨ home = .group spiEvents ∧
        (s.rt.group spiEvents).waitMask = w.mask ∧ (s.rt.group spiEvents).waitMode = w.mode)
  | .phase p false => s.step = none ∧ s.rt.resumePoint cpxSpiCtx = .line p.line ∧
      (∃ t, s.inFlight = some (p, t)) ∧ callbacks s.rt = 0 ∧ home = .event spiDone ∧
      s.rt.eventDone spiDone = false
  | .phase p true => s.step = none ∧ s.rt.resumePoint cpxSpiCtx = .line p.line ∧
      s.inFlight = none ∧ (home = .queued ∧ callbacks s.rt = 0 ∨
        home = .event spiDone ∧ callbacks s.rt = 1 ∧ s.rt.eventDone spiDone = false)
  | .step n => s.step = some n ∧ home = .running ∧ Quiet s

/-- NINA is ready, or is told that there is something to send. -/
def Told (s : LinkSystem S R Task) : Prop :=
  s.bit 0 = true ∨ s.bit 1 = true ∧ s.gap8Rtt = true

/-- The bits known to be set. -/
def Ready (home : Home Unit Unit) (s : LinkSystem S R Task) : Place → Prop
  | .group .anyone => home = .queued → GroupWait.anyone.Met s
  | .group .receiver => GroupWait.anyone.Met s ∧ (home = .queued → s.bit 2 = true)
  | .group .nina => s.bit 2 = true ∧ Told s ∧ (home = .queued → s.bit 0 = true)
  | .phase .header _ => s.bit 0 = true
  | .step .step2 => GroupWait.anyone.Met s
  | .step .step3 => GroupWait.anyone.Met s ∧ s.bit 2 = true
  | .step .step4 => s.bit 2 = true ∧ Told s
  | .step .step5 => s.bit 2 = true ∧ s.bit 0 = true
  | .step .step6 => s.bit 0 = true
  | .step .step7 => s.bit 0 = true
  | .step .step8 => s.bit 0 = true
  | _ => True

/-- The bits of the requests say whether there is one. -/
structure Bits (s : LinkSystem S R Task) : Prop where
  send : s.bit 1 = s.cpxSpi.sendReq.isSome
  receive : s.bit 2 = s.cpxSpi.receiveReq.isSome

/-- Transfers start with NINA and a receive request. -/
def StartsReady (log : List (LinkEvent S R Task)) : Prop :=
  ∀ events send receive, .start events send receive ∈ log →
    events.getLsbD 0 = true ∧ events.getLsbD 2 = true ∧ receive ≠ none

/-- The state is the abstract one. At step 6 the task has fetched the requests there are;
from then on the transfer is for its own. -/
structure Agrees (place : Place) (l : Link S R Task) (s : LinkSystem S R Task) :
    Prop where
  send : s.cpxSpi.sendReq = l.send.map Prod.fst
  sendDone : ∀ x, l.send = some x → s.cpxSpi.sendDone = some x.2
  receive : s.cpxSpi.receiveReq = l.receive.map Prod.fst
  receiveDone : ∀ x, l.receive = some x → s.cpxSpi.receiveDone = some x.2
  idle : place.left = none → l.transfer = none
  transfer : ∀ left, place.left = some left → ∃ t, l.transfer = some t ∧ t.left = left ∧
    s.receiveReq = some t.receive.1 ∧
    t.send.map Prod.fst = place.carries s.sendReq
  fetched : place = .step .step6 → s.sendReq = s.cpxSpi.sendReq ∧
    s.receiveReq = s.cpxSpi.receiveReq ∧ s.cpxSpi.receiveReq ≠ none ∧
    s.events.getLsbD 0 = true ∧ s.events.getLsbD 2 = true

structure LinkInv (home : Home Unit Unit) (W : Unit → List Unit) (place : Place)
    (l : Link S R Task) (s : LinkSystem S R Task) : Prop where
  rt : Inv (fun _ => home) W s.rt
  fn : s.rt.fn cpxSpiCtx = cpxSpiTaskFn
  control : Control home s place
  ready : Ready home s place
  bits : Bits s
  agrees : Agrees place l s
  runs : (link S R Task).Runs s.log l
  starts : StartsReady s.log

/-! ## States that differ little -/

variable {s t : LinkSystem S R Task} {home : Home Unit Unit} {W : Unit → List Unit}
  {place place' : Place} {l : Link S R Task}

theorem StartsReady.concat {log : List (LinkEvent S R Task)} {e : LinkEvent S R Task}
    (h : StartsReady log) (he : ∀ events send receive, e = .start events send receive →
      events.getLsbD 0 = true ∧ events.getLsbD 2 = true ∧ receive ≠ none) :
    StartsReady (log ++ [e]) := by
  intro events send receive hm
  rcases List.mem_append.mp hm with hm | hm
  · exact h events send receive hm
  · exact he events send receive (List.mem_singleton.mp hm).symm

/-- The abstract link is the same at a place with the same phases left. -/
theorem Agrees.moved (h : Agrees place l s) (hcpx : t.cpxSpi = s.cpxSpi)
    (hreceive : t.receiveReq = s.receiveReq) (hleft : place'.left = place.left)
    (hcarries : place'.carries t.sendReq = place.carries s.sendReq)
    (hne : place' ≠ .step .step6) : Agrees place' l t := by
  refine ⟨hcpx ▸ h.send, hcpx ▸ h.sendDone, hcpx ▸ h.receive, hcpx ▸ h.receiveDone,
    fun hnone => h.idle (hleft ▸ hnone), fun left hsome => ?_, fun heq => absurd heq hne⟩
  rw [hreceive, hcarries]
  exact h.transfer left (hleft ▸ hsome)

/-- No transfer is under way, here and there. -/
theorem Agrees.waiting (h : Agrees place l s) (hcpx : t.cpxSpi = s.cpxSpi)
    (hbefore : place.left = none) (hleft : place'.left = none) (hne : place' ≠ .step .step6) :
    Agrees place' l t := by
  refine ⟨hcpx ▸ h.send, hcpx ▸ h.sendDone, hcpx ▸ h.receive, hcpx ▸ h.receiveDone,
    fun _ => h.idle hbefore, fun left hsome => ?_, fun heq => absurd heq hne⟩
  rw [hleft] at hsome
  cases hsome

/-- A transfer is under way. -/
theorem Agrees.under {x : Transfer S R Task} (hsend : s.cpxSpi.sendReq = l.send.map Prod.fst)
    (hsendDone : ∀ y, l.send = some y → s.cpxSpi.sendDone = some y.2)
    (hreceive : s.cpxSpi.receiveReq = l.receive.map Prod.fst)
    (hreceiveDone : ∀ y, l.receive = some y → s.cpxSpi.receiveDone = some y.2)
    (hx : l.transfer = some x) (hleft : place.left = some x.left)
    (hreq : s.receiveReq = some x.receive.1)
    (hcarries : x.send.map Prod.fst = place.carries s.sendReq) (hne : place ≠ .step .step6) :
    Agrees place l s := by
  refine ⟨hsend, hsendDone, hreceive, hreceiveDone, fun hnone => ?_, fun left hsome => ?_,
    fun heq => absurd heq hne⟩
  · rw [hleft] at hnone
    cases hnone
  · rw [hleft] at hsome
    exact ⟨x, hx, Option.some.inj hsome, hreq, hcarries⟩

theorem Control.congr (h : Control home s place) (hstep : t.step = s.step)
    (hpoint : t.rt.resumePoint = s.rt.resumePoint) (hflight : t.inFlight = s.inFlight)
    (hcalls : callbacks t.rt = callbacks s.rt) (hdone : t.rt.eventDone = s.rt.eventDone)
    (hmask : (t.rt.group spiEvents).waitMask = (s.rt.group spiEvents).waitMask)
    (hmode : (t.rt.group spiEvents).waitMode = (s.rt.group spiEvents).waitMode) :
    Control home t place := by
  have hquiet : Quiet s → Quiet t := fun hq =>
    ⟨hflight.trans hq.inFlight, hcalls.trans hq.callbacks⟩
  cases place with
  | start =>
    obtain ⟨h1, h2, h3, h4⟩ := h
    exact ⟨hstep.trans h1, hpoint ▸ h2, hquiet h3, h4⟩
  | group w =>
    obtain ⟨h1, h2, h3, h4⟩ := h
    refine ⟨hstep.trans h1, hpoint ▸ h2, hquiet h3, h4.imp_right ?_⟩
    rintro ⟨hg, hm, hmo⟩
    exact ⟨hg, hmask.trans hm, hmode.trans hmo⟩
  | phase p past => cases past with
    | false =>
      obtain ⟨h1, h2, ⟨x, h3⟩, h4, h5, h6⟩ := h
      exact ⟨hstep.trans h1, hpoint ▸ h2, ⟨x, hflight.trans h3⟩, hcalls.trans h4, h5, hdone ▸ h6⟩
    | true =>
      obtain ⟨h1, h2, h3, h4⟩ := h
      refine ⟨hstep.trans h1, hpoint ▸ h2, hflight.trans h3, ?_⟩
      rw [hcalls, hdone]
      exact h4
  | step n =>
    obtain ⟨h1, h2, h3⟩ := h
    exact ⟨hstep.trans h1, h2, hquiet h3⟩

theorem GroupWait.Met.mono {w : GroupWait} (h : w.Met s)
    (hbits : ∀ i, s.bit i = true → t.bit i = true) : w.Met t := by
  cases w with
  | anyone => exact h.imp (hbits 0) (hbits 1)
  | receiver => exact hbits 2 h
  | nina => exact hbits 0 h

theorem Told.mono (h : Told s) (hbits : ∀ i, s.bit i = true → t.bit i = true)
    (hgap : t.gap8Rtt = s.gap8Rtt) : Told t :=
  h.imp (hbits 0) (And.imp (hbits 1) hgap.trans)

theorem Ready.mono (h : Ready home s place) (hbits : ∀ i, s.bit i = true → t.bit i = true)
    (hgap : t.gap8Rtt = s.gap8Rtt) : Ready home t place := by
  cases place with
  | start => trivial
  | group w => cases w with
    | anyone => exact fun hq => (h hq).mono hbits
    | receiver => exact ⟨h.1.mono hbits, fun hq => hbits 2 (h.2 hq)⟩
    | nina => exact ⟨hbits 2 h.1, h.2.1.mono hbits hgap, fun hq => hbits 0 (h.2.2 hq)⟩
  | phase p past => cases p with
    | header => exact hbits 0 h
    | head => trivial
    | tail => trivial
  | step n => cases n with
    | step2 => exact GroupWait.Met.mono (w := .anyone) h hbits
    | step3 => exact ⟨h.1.mono hbits, hbits 2 h.2⟩
    | step4 => exact ⟨hbits 2 h.1, h.2.mono hbits hgap⟩
    | step5 => exact ⟨hbits 2 h.1, hbits 0 h.2⟩
    | step6 => exact hbits 0 h
    | step7 => exact hbits 0 h
    | step8 => exact hbits 0 h
    | step1 => trivial
    | step9 => trivial
    | step10 => trivial
    | step11 => trivial
    | step12 => trivial

/-- A wait that is over is one whose bits are set. -/
theorem Ready.woken {w : GroupWait} (h : Ready home s (.group w)) (hmet : w.Met s) :
    Ready .queued s (.group w) := by
  cases w with
  | anyone => exact fun _ => hmet
  | receiver => exact ⟨h.1, fun _ => hmet⟩
  | nina => exact ⟨h.1, h.2.1, fun _ => hmet⟩

theorem Control.waiting (hrt : Inv (fun _ => home) W s.rt) (h : Control home s place)
    (hctx : (s.rt.group spiEvents).waitCtx ≠ none) :
    ∃ w, place = .group w ∧ home = .group spiEvents ∧
      (s.rt.group spiEvents).waitMask = w.mask ∧ (s.rt.group spiEvents).waitMode = w.mode := by
  obtain ⟨c, hc⟩ := Option.ne_none_iff_exists'.mp hctx
  have hhome : home = .group spiEvents := (hrt.waitCtx spiEvents c).mp hc
  cases place with
  | start => rw [h.2.2.2] at hhome; cases hhome
  | group w =>
    obtain ⟨-, -, -, hq | hg⟩ := h
    · rw [hq] at hhome; cases hhome
    · exact ⟨w, rfl, hg⟩
  | phase p past => cases past with
    | false => rw [h.2.2.2.2.1] at hhome; cases hhome
    | true =>
      obtain ⟨-, -, -, ⟨he, -⟩ | ⟨he, -⟩⟩ := h
      · rw [he] at hhome; cases hhome
      · rw [he] at hhome; cases hhome
  | step n => rw [h.2.1] at hhome; cases hhome

theorem home_unit (x y : Home Unit Unit) (c : Unit) :
    Function.update (fun _ => x) c y = fun _ : Unit => y := by
  funext d
  exact Function.update_self ..

/-- Setting bits keeps the place; a wait on the group may be over then. -/
theorem Control.set (hrt : Inv (fun _ => home) W s.rt) (hc : Control home s place)
    (hr : Ready home s place) (m : BitVec 32) :
    ∃ home', Inv (fun _ => home') W (coEventGroupSet s.rt spiEvents m) ∧
      Control home' (s.withRt (coEventGroupSet s.rt spiEvents m)) place ∧
      Ready home' (s.withRt (coEventGroupSet s.rt spiEvents m)) place ∧
      (home' = home ∧ (coEventGroupSet s.rt spiEvents m).queue = s.rt.queue ∨
        home' = .queued ∧ home = .group spiEvents ∧
          (coEventGroupSet s.rt spiEvents m).queue = s.rt.queue ++ [.resume cpxSpiCtx]) := by
  have hbits : ∀ i, s.bit i = true →
      (s.withRt (coEventGroupSet s.rt spiEvents m)).bit i = true := by
    intro i hi
    rw [bit_set, hi]
    rfl
  have hready := hr.mono (t := s.withRt (coEventGroupSet s.rt spiEvents m)) hbits rfl
  cases hctx : (s.rt.group spiEvents).waitCtx with
  | none =>
    rw [coEventGroupSet_alone hctx] at hready ⊢
    refine ⟨home, hrt.setGroup rfl fun hne => absurd hctx hne, ?_, hready, Or.inl ⟨rfl, rfl⟩⟩
    refine hc.congr rfl rfl rfl rfl rfl ?_ ?_
    · simp [LinkSystem.withRt, EventGroup.withMask]
    · simp [LinkSystem.withRt, EventGroup.withMask]
  | some c =>
    obtain ⟨w, rfl, rfl, hmask, hmode⟩ := hc.waiting hrt (by simp [hctx])
    obtain ⟨hstep, hpoint, hquiet, -⟩ := hc
    cases htest : coEventGroupTest ((s.rt.group spiEvents).withMask
        ((s.rt.group spiEvents).mask ||| m)) (s.rt.group spiEvents).waitMask
        (s.rt.group spiEvents).waitMode with
    | true =>
      have hwake := hrt.groupWake (x := ((s.rt.group spiEvents).withMask
        ((s.rt.group spiEvents).mask ||| m)).released) (c := c) rfl rfl
      rw [home_unit] at hwake
      rw [coEventGroupSet_wakes hctx htest] at hready ⊢
      refine ⟨.queued, hwake, ⟨hstep, hpoint, ?_, Or.inl rfl⟩, hready.woken ?_,
        Or.inr ⟨rfl, rfl, rfl⟩⟩
      · exact ⟨hquiet.inFlight, callbacks_pushResume.trans hquiet.callbacks⟩
      · rw [← test_iff]
        change coEventGroupTest (Function.update s.rt.group spiEvents _ spiEvents) _ _ = true
        rw [Function.update_self, ← hmask, ← hmode]
        exact htest
    | false =>
      rw [coEventGroupSet_waits htest] at hready ⊢
      refine ⟨_, hrt.setGroup rfl fun _ => htest, ⟨hstep, hpoint, ⟨hquiet.inFlight, hquiet.callbacks⟩,
        Or.inr ⟨rfl, ?_, ?_⟩⟩, hready, Or.inl ⟨rfl, rfl⟩⟩
      · simpa [LinkSystem.withRt, EventGroup.withMask] using hmask
      · simpa [LinkSystem.withRt, EventGroup.withMask] using hmode

end

end AiDeck.Cpx
