import AiDeck.Cpx.LinkRest

/-! # Every request once

The log of a reachable state is a run of the abstract link, whose accounts say that no
request is lost and none is done twice; a request that rests waits for its partner or
for NINA, who has been told. -/
namespace AiDeck.Cpx
open AiDeck.Coroutine AiDeck.Lib LinkEvent

section
variable {S R Task : Type} {s t : LinkSystem S R Task} {home : Home Unit Unit}
  {W : Unit → List Unit} {place : Place} {l : Link S R Task}

/-- A request in progress with its task. -/
def inProgress {X D : Type} : Option X → Option D → List (X × D)
  | some req, some done => [(req, done)]
  | _, _ => []

def CpxSpi.send {D : Type} (s : CpxSpi S R D) : List (S × D) := inProgress s.sendReq s.sendDone

def CpxSpi.receive {D : Type} (s : CpxSpi S R D) : List (R × D) :=
  inProgress s.receiveReq s.receiveDone

theorem inProgress_eq {X D : Type} {req : Option X} {done : Option D} {x : Option (X × D)}
    (hreq : req = x.map Prod.fst) (hdone : ∀ y, x = some y → done = some y.2) :
    inProgress req done = x.toList := by
  cases x with
  | none =>
    rw [hreq]
    rfl
  | some y =>
    rw [hreq, hdone y rfl]
    rfl

namespace LinkInv

theorem send_eq (h : LinkInv home W place l s) : s.cpxSpi.send = l.send.toList :=
  inProgress_eq h.agrees.send h.agrees.sendDone

theorem receive_eq (h : LinkInv home W place l s) : s.cpxSpi.receive = l.receive.toList :=
  inProgress_eq h.agrees.receive h.agrees.receiveDone

/-- The transfer under way carries the send request in progress or none. -/
theorem carried_isPrefix (h : LinkInv home W place l s) : l.carried.toList <+: s.cpxSpi.send := by
  rw [h.send_eq]
  cases hc : l.carried with
  | none => exact List.nil_prefix
  | some x =>
    obtain ⟨t, ht, hx⟩ := Option.bind_eq_some_iff.mp hc
    rw [((link_accounts h.runs).transfer t ht).2 x hx]

theorem served_isPrefix (h : LinkInv home W place l s) : l.served.toList <+: s.cpxSpi.receive := by
  rw [h.receive_eq]
  cases hc : l.served with
  | none => exact List.nil_prefix
  | some x =>
    obtain ⟨t, ht, rfl⟩ := Option.map_eq_some_iff.mp hc
    rw [((link_accounts h.runs).transfer t ht).1]

theorem sendBit_iff (h : LinkInv home W place l s) :
    coEventGroupGet s.rt spiEvents eventSend ≠ 0 ↔ s.cpxSpi.sendReq ≠ none := by
  rw [← Option.isSome_iff_ne_none, ← h.bits.send]
  exact and_bit rfl (by decide)

theorem receiveBit_iff (h : LinkInv home W place l s) :
    coEventGroupGet s.rt spiEvents eventReceive ≠ 0 ↔ s.cpxSpi.receiveReq ≠ none := by
  rw [← Option.isSome_iff_ne_none, ← h.bits.receive]
  exact and_bit rfl (by decide)

theorem ninaBit_eq (h : s.bit 0 ≠ true) : coEventGroupGet s.rt spiEvents eventNinaRtt = 0 := by
  by_contra hne
  exact h ((and_bit rfl (by decide)).mp hne)

/-- What is missing at rest. -/
theorem missing (h : LinkInv home W place l s) (hrest : s.AtRest) :
    s.cpxSpi.receiveReq = none ∨ coEventGroupGet s.rt spiEvents eventNinaRtt = 0 ∧
      (s.cpxSpi.sendReq ≠ none → s.gap8Rtt = true) := by
  obtain ⟨w, rfl, hmet⟩ := h.waits hrest
  cases w with
  | anyone =>
    obtain ⟨hnina, hsend⟩ := not_or.mp hmet
    refine Or.inr ⟨ninaBit_eq hnina, fun hreq => absurd ?_ hsend⟩
    rw [h.bits.send]
    exact Option.isSome_iff_ne_none.mpr hreq
  | receiver =>
    refine Or.inl (Decidable.not_not.mp fun hreq => hmet ?_)
    exact h.bits.receive.trans (Option.isSome_iff_ne_none.mpr hreq)
  | nina =>
    obtain ⟨-, htold, -⟩ := h.ready
    obtain ⟨-, hgap⟩ := htold.resolve_left hmet
    exact Or.inr ⟨ninaBit_eq hmet, fun _ => hgap⟩

end LinkInv

variable [DecidableEq S] [DecidableEq R]

/-- A step in which neither a user nor NINA takes part. -/
def Proceeds (config : LinkConfig) (s t : LinkSystem S R Task) : Prop :=
  ∃ a : LinkAction S R Task, a.Own ∧ a.Enabled s ∧ a.run config s = .ok t

/-- What the link guarantees in a state. -/
structure ExactlyOnce (config : LinkConfig) (s : LinkSystem S R Task) : Prop where
  /-- No call and no step fails. -/
  goesOn : ∀ a : LinkAction S R Task, a.Enabled s → ∃ t, a.run config s = .ok t
  /-- A transfer starts when NINA and a receive request are there. -/
  starts : ∀ events send receive, .start events send receive ∈ s.log →
    events &&& eventNinaRtt ≠ 0 ∧ events &&& eventReceive ≠ 0 ∧ receive ≠ none
  /-- The send requests made are those done, once each, and the one in progress. -/
  sends : s.log.filterMap sent? = s.log.filterMap sendDone? ++ s.cpxSpi.send
  /-- Each is carried by one transfer, the one in progress by none or by the last. -/
  carried : ∃ last, last <+: s.cpxSpi.send ∧
    s.log.filterMap carried? = (s.log.filterMap sendDone? ++ last).map Prod.fst
  sendAfterTail : ∀ before req done after, s.log = before ++ .sendDone req done :: after →
    EndsWith before (some req) [.header, .head, .tail]
  /-- Likewise for receive requests. -/
  receives : s.log.filterMap received? = s.log.filterMap receiveDone? ++ s.cpxSpi.receive
  served : ∃ last, last <+: s.cpxSpi.receive ∧
    s.log.filterMap served? = (s.log.filterMap receiveDone? ++ last).map Prod.fst
  receiveAfterTail : ∀ before req done after, s.log = before ++ .receiveDone req done :: after →
    ∃ send, EndsWith before send [.header, .head, .tail]
  /-- The bits tell of the requests, with the task suspended or not. -/
  bits : (coEventGroupGet s.rt spiEvents eventSend ≠ 0 ↔ s.cpxSpi.sendReq ≠ none) ∧
    (coEventGroupGet s.rt spiEvents eventReceive ≠ 0 ↔ s.cpxSpi.receiveReq ≠ none)
  /-- At rest a transfer lacks a receive request, or NINA, who is told of a send request. -/
  rest : s.AtRest → s.cpxSpi.receiveReq = none ∨
    coEventGroupGet s.rt spiEvents eventNinaRtt = 0 ∧
      (s.cpxSpi.sendReq ≠ none → s.gap8Rtt = true)
  /-- Without users and NINA every run comes to rest. -/
  ends : Acc (fun t s => Proceeds config s t) s

variable {config : LinkConfig}

theorem LinkInv.acc (h : LinkInv home W place l s) : Acc (fun t s => Proceeds config s t) s := by
  refine acc_of_decreasing
    (P := fun (d : Home Unit Unit × (Unit → List Unit) × Place × Link S R Task) s =>
      LinkInv d.1 d.2.1 d.2.2.1 d.2.2.2 s)
    (fun d s => ahead d.1 d.2.2.1 s) ?_ (d := (home, W, place, l)) h
  rintro ⟨home, W, place, l⟩ s t hs ⟨a, hown, ha, hrun⟩
  obtain ⟨t', home', W', place', l', hok, hinv, hlt⟩ := hs.run config ha
  obtain rfl := Except.ok.inj (hok.symm.trans hrun)
  exact ⟨(home', W', place', l'), hinv, hlt hown⟩

theorem LinkInv.exactlyOnce (h : LinkInv home W place l s) : ExactlyOnce config s := by
  have haccounts := link_accounts h.runs
  constructor
  case goesOn =>
    intro a ha
    obtain ⟨t, _, _, _, _, hok, -, -⟩ := h.run config ha
    exact ⟨t, hok⟩
  case starts =>
    intro events send receive hm
    obtain ⟨hnina, hreceive, hsome⟩ := h.starts events send receive hm
    exact ⟨(and_bit rfl (by decide)).mpr hnina, (and_bit rfl (by decide)).mpr hreceive, hsome⟩
  case sends => rw [haccounts.sent, h.send_eq]
  case carried => exact ⟨l.carried.toList, h.carried_isPrefix, haccounts.carried⟩
  case sendAfterTail =>
    intro before req done after hlog
    exact link_sendDone (hlog ▸ h.runs)
  case receives => rw [haccounts.received, h.receive_eq]
  case served => exact ⟨l.served.toList, h.served_isPrefix, haccounts.served⟩
  case receiveAfterTail =>
    intro before req done after hlog
    exact link_receiveDone (hlog ▸ h.runs)
  case bits => exact ⟨h.sendBit_iff, h.receiveBit_iff⟩
  case rest => exact h.missing
  case ends => exact h.acc

/-- **Every request once.** In every reachable state of the link nothing can fail, the send
requests made are those that were carried by a transfer and done after its tail, in
order and once each, but for one in progress, and so are the receive requests; at rest
a request in progress waits for its partner or for NINA. -/
theorem reachable_exactlyOnce (h : (linkSystem S R Task config).Reachable s) :
    ExactlyOnce config s := by
  obtain ⟨home, W, place, l, hs⟩ := reachable_linkInv h
  exact hs.exactlyOnce

/-- A send and a receive request are done by one transfer. -/
theorem reachable_exactlyOnce_done : ∃ (config : LinkConfig) (s : LinkSystem Unit Unit Unit),
    (linkSystem Unit Unit Unit config).Reachable s ∧
      s.log.filterMap sendDone? = [((), ())] ∧ s.log.filterMap receiveDone? = [((), ())] ∧
      ExactlyOnce config s := by
  let config : LinkConfig := ⟨true, ⟨12, rfl, by decide⟩⟩
  let header : CpxSpiHeader := ⟨0, ⟨0, 0, 0, 0, 0, 0⟩⟩
  let sendReq : CpxSpiSendReq := .zero 4 rfl (by decide)
  let receiveReq : CpxSpiReceiveReq := ⟨8, header, 16, 4088, rfl, by decide, rfl, by decide⟩
  have hrun : ((LinkSystem.fresh (fun _ => sendReq) (fun _ => receiveReq) false).follow config
      [.schedule, .step, .send () sendReq (), .schedule, .step, .receive () receiveReq (),
        .schedule, .step, .step, .edge, .schedule, .schedule, .step, .step,
        .complete header, .schedule, .schedule, .step, .step, .step,
        .complete header, .schedule, .schedule, .step, .schedule, .schedule, .step, .step]).map
          (fun s => (s.log.filterMap sendDone?, s.log.filterMap receiveDone?)) =
        some ([((), ())], [((), ())]) := by decide
  obtain ⟨s, hs, hlog⟩ := Option.map_eq_some_iff.mp hrun
  have hreach := LinkSystem.follow_reachable (.init (LinkSystem.fresh_started _ _ false)) hs
  obtain ⟨hsend, hreceive⟩ := Prod.mk.inj hlog
  exact ⟨config, s, hreach, hsend, hreceive, reachable_exactlyOnce hreach⟩

end

end AiDeck.Cpx
