import AiDeck.Lib.Transition

/-! # What the SPI link is for

A link has at most one send and one receive request. A transfer is made for a receive
request and carries the send request there is when it starts; when its three phases
are over its requests are done. This is the link as its users see it, without the
event bits and the coroutine of `cpx_spi_task`. -/
namespace AiDeck.Cpx
open AiDeck.Lib

/-- Steps 6, 9 and 10 of `cpx_spi_task`. -/
inductive Phase where
  | header
  | head
  | tail
  deriving DecidableEq, Repr

/-- What happens at a link whose requests `S` and `R` are done with tasks `D`; the event
bits at the start of a transfer are recorded. -/
inductive LinkEvent (S R D : Type) where
  | send (req : S) (done : D)
  | receive (req : R) (done : D)
  | start (events : BitVec 32) (send : Option S) (receive : Option R)
  | ended (p : Phase)
  | sendDone (req : S) (done : D)
  | receiveDone (req : R) (done : D)

/-- A transfer under way: the requests it has yet to finish and the phases left. -/
structure Transfer (S R D : Type) where
  send : Option (S × D)
  receive : R × D
  left : List Phase

structure Link (S R D : Type) where
  send : Option (S × D)
  receive : Option (R × D)
  transfer : Option (Transfer S R D)

section
variable {S R D : Type}

namespace Link

inductive Step : Link S R D → LinkEvent S R D → Link S R D → Prop
  | send {l : Link S R D} (req : S) (done : D) (h : l.send = none) :
    Step l (.send req done) ⟨some (req, done), l.receive, l.transfer⟩
  | receive {l : Link S R D} (req : R) (done : D) (h : l.receive = none) :
    Step l (.receive req done) ⟨l.send, some (req, done), l.transfer⟩
  | start {l : Link S R D} (events : BitVec 32) {r : R × D} (h : l.receive = some r)
    (hidle : l.transfer = none) :
    Step l (.start events (l.send.map Prod.fst) (some r.1))
      ⟨l.send, l.receive, some ⟨l.send, r, [.header, .head, .tail]⟩⟩
  | ended {l : Link S R D} {t : Transfer S R D} {p : Phase} {left : List Phase}
    (h : l.transfer = some t) (hp : t.left = p :: left) :
    Step l (.ended p) ⟨l.send, l.receive, some ⟨t.send, t.receive, left⟩⟩
  | sendDone {l : Link S R D} {t : Transfer S R D} {x : S × D} (h : l.transfer = some t)
    (hsend : t.send = some x) (hleft : t.left = []) :
    Step l (.sendDone x.1 x.2) ⟨none, l.receive, some ⟨none, t.receive, []⟩⟩
  | receiveDone {l : Link S R D} {t : Transfer S R D} (h : l.transfer = some t)
    (hsend : t.send = none) (hleft : t.left = []) :
    Step l (.receiveDone t.receive.1 t.receive.2) ⟨l.send, none, none⟩

/-- The send request of the transfer under way. -/
def carried (l : Link S R D) : Option (S × D) := l.transfer.bind Transfer.send

/-- The receive request of the transfer under way. -/
def served (l : Link S R D) : Option (R × D) := l.transfer.map Transfer.receive

end Link

def link (S R D : Type) : Labelled (Link S R D) (LinkEvent S R D) :=
  ⟨⟨none, none, none⟩, Link.Step⟩

/-! ## Reading a log -/

namespace LinkEvent

def sent? : LinkEvent S R D → Option (S × D)
  | .send req done => some (req, done)
  | _ => none

def sendDone? : LinkEvent S R D → Option (S × D)
  | .sendDone req done => some (req, done)
  | _ => none

def carried? : LinkEvent S R D → Option S
  | .start _ s _ => s
  | _ => none

def received? : LinkEvent S R D → Option (R × D)
  | .receive req done => some (req, done)
  | _ => none

def receiveDone? : LinkEvent S R D → Option (R × D)
  | .receiveDone req done => some (req, done)
  | _ => none

def served? : LinkEvent S R D → Option R
  | .start _ _ r => r
  | _ => none

def ended? : LinkEvent S R D → Option Phase
  | .ended p => some p
  | _ => none

/-- The events of a transfer after its start. -/
def inTransfer : LinkEvent S R D → Prop
  | .start _ _ _ => False
  | _ => True

end LinkEvent

open LinkEvent

/-- The log ends with a transfer that carries `send` and has come through `phases`. -/
def EndsWith (log : List (LinkEvent S R D)) (send : Option S) (phases : List Phase) : Prop :=
  ∃ before events receive after, log = before ++ .start events send receive :: after ∧
    (∀ e ∈ after, e.inTransfer) ∧ after.filterMap ended? = phases

/-- How the log of a link and its state belong together. -/
structure Link.Accounts (log : List (LinkEvent S R D)) (l : Link S R D) : Prop where
  sent : log.filterMap sent? = log.filterMap sendDone? ++ l.send.toList
  carried : log.filterMap carried? =
    (log.filterMap sendDone? ++ l.carried.toList).map Prod.fst
  received : log.filterMap received? = log.filterMap receiveDone? ++ l.receive.toList
  served : log.filterMap served? =
    (log.filterMap receiveDone? ++ l.served.toList).map Prod.fst
  transfer : ∀ t, l.transfer = some t → l.receive = some t.receive ∧
    ∀ x, t.send = some x → l.send = some x
  phases : ∀ t, l.transfer = some t → ∃ send past, EndsWith log send past ∧
    past ++ t.left = [.header, .head, .tail] ∧ ∀ x, t.send = some x → send = some x.1

theorem filterMap_concat {ε α : Type} (f : ε → Option α) (log : List ε) (e : ε) :
    (log ++ [e]).filterMap f = log.filterMap f ++ (f e).toList := by
  rw [List.filterMap_append]
  cases h : f e with
  | none => simp [h]
  | some x => simp [h]

theorem EndsWith.concat {log : List (LinkEvent S R D)} {send : Option S} {phases : List Phase}
    (h : EndsWith log send phases) {e : LinkEvent S R D} (he : e.inTransfer) :
    EndsWith (log ++ [e]) send (phases ++ e.ended?.toList) := by
  obtain ⟨before, events, receive, after, rfl, hafter, hphases⟩ := h
  refine ⟨before, events, receive, after ++ [e], by simp, ?_, ?_⟩
  · intro x hx
    rcases List.mem_append.mp hx with hx | hx
    · exact hafter x hx
    · exact List.mem_singleton.mp hx ▸ he
  · rw [filterMap_concat, hphases]

/-- One more event and the state behind it. -/
theorem Link.Accounts.concat {log : List (LinkEvent S R D)} {l : Link S R D}
    {e : LinkEvent S R D}
    (hsent : log.filterMap sent? ++ e.sent?.toList =
      log.filterMap sendDone? ++ e.sendDone?.toList ++ l.send.toList)
    (hcarried : log.filterMap carried? ++ e.carried?.toList =
      (log.filterMap sendDone? ++ e.sendDone?.toList ++ l.carried.toList).map Prod.fst)
    (hreceived : log.filterMap received? ++ e.received?.toList =
      log.filterMap receiveDone? ++ e.receiveDone?.toList ++ l.receive.toList)
    (hserved : log.filterMap served? ++ e.served?.toList =
      (log.filterMap receiveDone? ++ e.receiveDone?.toList ++ l.served.toList).map Prod.fst)
    (htransfer : ∀ t, l.transfer = some t → l.receive = some t.receive ∧
      ∀ x, t.send = some x → l.send = some x)
    (hphases : ∀ t, l.transfer = some t → ∃ send past, EndsWith (log ++ [e]) send past ∧
      past ++ t.left = [.header, .head, .tail] ∧ ∀ x, t.send = some x → send = some x.1) :
    l.Accounts (log ++ [e]) :=
  ⟨by rw [filterMap_concat, filterMap_concat, hsent],
    by rw [filterMap_concat, filterMap_concat, hcarried],
    by rw [filterMap_concat, filterMap_concat, hreceived],
    by rw [filterMap_concat, filterMap_concat, hserved], htransfer, hphases⟩

theorem Link.Accounts.step {log : List (LinkEvent S R D)} {l l' : Link S R D}
    {e : LinkEvent S R D} (h : l.Accounts log) (hstep : l.Step e l') :
    l'.Accounts (log ++ [e]) := by
  obtain ⟨hsent, hcarried, hreceived, hserved, htransfer, hphases⟩ := h
  -- a transfer under way goes on when an event other than a start is added
  have hon : e.inTransfer → ∀ t, l.transfer = some t → ∃ send past,
      EndsWith (log ++ [e]) send (past ++ e.ended?.toList) ∧
        past ++ t.left = [.header, .head, .tail] ∧ ∀ x, t.send = some x → send = some x.1 := by
    intro he t ht
    obtain ⟨send, past, hends, hpast, hsend⟩ := hphases t ht
    exact ⟨send, past, hends.concat he, hpast, hsend⟩
  cases hstep with
  | send req done hnone =>
    refine .concat ?_ ?_ ?_ ?_ ?_ ?_
    · simpa [hnone, sent?, sendDone?] using hsent
    · simpa [carried?, sendDone?, Link.carried] using hcarried
    · simpa [received?, receiveDone?] using hreceived
    · simpa [served?, receiveDone?, Link.served] using hserved
    · intro t ht
      obtain ⟨hr, hs⟩ := htransfer t ht
      refine ⟨hr, fun x hx => ?_⟩
      rw [hnone] at hs
      cases hs x hx
    · intro t ht
      simpa [ended?] using hon trivial t ht
  | receive req done hnone =>
    refine .concat ?_ ?_ ?_ ?_ ?_ ?_
    · simpa [sent?, sendDone?] using hsent
    · simpa [carried?, sendDone?, Link.carried] using hcarried
    · simpa [hnone, received?, receiveDone?] using hreceived
    · simpa [served?, receiveDone?, Link.served] using hserved
    · intro t ht
      have hr := (htransfer t ht).1
      rw [hnone] at hr
      cases hr
    · intro t ht
      simpa [ended?] using hon trivial t ht
  | @start events r hr hidle =>
    refine .concat ?_ ?_ ?_ ?_ ?_ ?_
    · simpa [sent?, sendDone?] using hsent
    · simp [carried?, sendDone?, Link.carried, hcarried, hidle]
      cases l.send <;> rfl
    · simpa [received?, receiveDone?] using hreceived
    · simp [served?, receiveDone?, Link.served, hserved, hidle]
    · rintro t ⟨⟩
      exact ⟨hr, fun x hx => hx⟩
    · rintro t ⟨⟩
      refine ⟨l.send.map Prod.fst, [], ⟨log, events, some r.1, [], rfl, by simp, rfl⟩, rfl, ?_⟩
      intro x hx
      change l.send = some x at hx
      rw [hx]
      rfl
  | @ended t p left ht hp =>
    refine .concat ?_ ?_ ?_ ?_ ?_ ?_
    · simpa [sent?, sendDone?] using hsent
    · simpa [carried?, sendDone?, Link.carried, ht] using hcarried
    · simpa [received?, receiveDone?] using hreceived
    · simpa [served?, receiveDone?, Link.served, ht] using hserved
    · rintro _ ⟨⟩
      exact htransfer t ht
    · rintro _ ⟨⟩
      obtain ⟨send, past, hends, hpast, hsend⟩ := hon trivial t ht
      exact ⟨send, past ++ [p], hends, by simpa [hp] using hpast, hsend⟩
  | @sendDone t x ht hsend hleft =>
    have hlsend := (htransfer t ht).2 x hsend
    refine .concat ?_ ?_ ?_ ?_ ?_ ?_
    · simpa [sent?, sendDone?, hlsend] using hsent
    · simpa [carried?, sendDone?, Link.carried, ht, hsend] using hcarried
    · simpa [received?, receiveDone?] using hreceived
    · simpa [served?, receiveDone?, Link.served, ht] using hserved
    · rintro _ ⟨⟩
      exact ⟨(htransfer t ht).1, by simp⟩
    · rintro _ ⟨⟩
      obtain ⟨send, past, hends, hpast, -⟩ := hon trivial t ht
      exact ⟨send, past, by simpa [ended?] using hends, by simpa [hleft] using hpast, by simp⟩
  | @receiveDone t ht hsend hleft =>
    have hlreceive := (htransfer t ht).1
    refine .concat ?_ ?_ ?_ ?_ (by simp) (by simp)
    · simpa [sent?, sendDone?] using hsent
    · simpa [carried?, sendDone?, Link.carried, ht, hsend] using hcarried
    · simpa [received?, receiveDone?, hlreceive] using hreceived
    · simpa [served?, receiveDone?, Link.served, ht] using hserved

theorem link_accounts {log : List (LinkEvent S R D)} {l : Link S R D}
    (h : (link S R D).Runs log l) : l.Accounts log := by
  refine h.invariant (P := fun log l => l.Accounts log) ⟨rfl, rfl, rfl, rfl, by simp [link],
    by simp [link]⟩ ?_
  intro log l e l' hl hstep
  exact hl.step hstep

/-- A send request is done at the end of the three phases of a transfer that carries it. -/
theorem link_sendDone {before after : List (LinkEvent S R D)} {l : Link S R D} {req : S} {done : D}
    (h : (link S R D).Runs (before ++ .sendDone req done :: after) l) :
    EndsWith before (some req) [.header, .head, .tail] := by
  obtain ⟨l', l'', hruns, hstep⟩ := h.split
  cases hstep with
  | @sendDone t x ht hsend hleft =>
    obtain ⟨send, past, hends, hpast, hx⟩ := (link_accounts hruns).phases t ht
    rw [hleft, List.append_nil] at hpast
    exact hx x hsend ▸ hpast ▸ hends

/-- A receive request is done at the end of the three phases of a transfer. -/
theorem link_receiveDone {before after : List (LinkEvent S R D)} {l : Link S R D} {req : R}
    {done : D} (h : (link S R D).Runs (before ++ .receiveDone req done :: after) l) :
    ∃ send, EndsWith before send [.header, .head, .tail] := by
  obtain ⟨l', l'', hruns, hstep⟩ := h.split
  cases hstep with
  | @receiveDone t ht hsend hleft =>
    obtain ⟨send, past, hends, hpast, -⟩ := (link_accounts hruns).phases t ht
    rw [hleft, List.append_nil] at hpast
    exact ⟨send, hpast ▸ hends⟩

end

end AiDeck.Cpx
