import AiDeck.Lib.Precedes
import AiDeck.Frontnet.Contexts

/-! # What holds between the tasks of the scheduler

The states of the tasks say where the contexts are and what is pending; `Protocol` says how the
consumers of two frames share the tasks, `History` what each of them waits for. -/
namespace AiDeck.Frontnet
open AiDeck.Lib AiDeck.Coroutine

variable {F : Type}

/-! ## What is pending -/

section
variable [DecidableEq F]

/-- The callbacks of an event in the queue. -/
def queuedCallbacks (v : FrontnetSchedule F) (e : Event) : Nat :=
  v.queue.count (.task (.event e))

section
variable (v : FrontnetSchedule F) (d : Ctx F) (e e' : Event)
  (q : List (Pending (Ctx F) Event F))

theorem queuedCallbacks_push :
    queuedCallbacks (v.push (.event e')) e = queuedCallbacks v e + if e = e' then 1 else 0 := by
  show List.count (Pending.task (.event e)) (v.queue ++ [.task (.event e')]) = _
  by_cases he : e = e'
  · subst he
    rw [if_pos rfl, List.count_append, List.count_singleton_self]
    rfl
  · have he' : e' ≠ e := fun heq => he heq.symm
    rw [if_neg he, List.count_append]
    simp [queuedCallbacks, he']

theorem queuedCallbacks_start (f : CoFn) (t : Option (PiTask Event F)) :
    queuedCallbacks (v.start d f t) e = queuedCallbacks v e := by
  show List.count (Pending.task (.event e)) (v.queue ++ [.resume d]) = _
  simp [queuedCallbacks, List.count_append]

theorem queuedCallbacks_wait (n : Nat) :
    queuedCallbacks (v.wait d n e') e = queuedCallbacks v e := by
  unfold queuedCallbacks
  rw [Schedule.wait_queue, List.count_append]
  split <;> simp

theorem queuedCallbacks_run (hq : v.queue = .resume d :: q) :
    queuedCallbacks (v.run d q) e = queuedCallbacks v e := by
  show q.count (Pending.task (.event e)) = v.queue.count _
  rw [hq, List.count_cons_of_ne (by simp)]

theorem queuedCallbacks_other {f : F} (hq : v.queue = .task (.other f) :: q) :
    queuedCallbacks (v.dequeue q) e = queuedCallbacks v e := by
  show q.count (Pending.task (.event e)) = v.queue.count _
  rw [hq, List.count_cons_of_ne (by simp)]

theorem queuedCallbacks_callback (hq : v.queue = .task (.event e') :: q) :
    queuedCallbacks v e =
      queuedCallbacks (v.callback e' q) e + if e = e' then 1 else 0 := by
  have hnone : (Pending.task (.event e) : Pending (Ctx F) Event F) ∉
      (v.waiting e').map Pending.resume := by simp
  show List.count (Pending.task (.event e)) v.queue =
    List.count (Pending.task (.event e)) (q ++ (v.waiting e').map Pending.resume) + _
  rw [hq, List.count_append, List.count_eq_zero_of_not_mem hnone]
  by_cases he : e = e'
  · subst he
    rw [if_pos rfl, List.count_cons_self]
  · have he' : e' ≠ e := fun heq => he heq.symm
    rw [if_neg he, List.count_cons_of_ne (by simpa using he')]
    rfl

theorem queuedCallbacks_ret {t : PiTask Event F} (ht : v.doneTask d = some t) :
    queuedCallbacks (v.ret d) e = queuedCallbacks v e + if t = .event e then 1 else 0 := by
  unfold queuedCallbacks
  rw [Schedule.ret_queue, ht, List.count_append]
  simp [List.count_singleton]

end

/-- What is in flight and pending, and which events are done. -/
structure Data (s : FrontnetSystem F) (v : FrontnetSchedule F) (r : InferenceState)
    (w : SendState F) : Prop where
  callbacks : ∀ e, queuedCallbacks v e = pending r w e
  done : ∀ e b, done? r w e = some b → v.eventDone e = b
  network : s.network = r.network s.inferenceFrame
  uart : s.uart = r.uart
  cpx : s.cpx = w.cpx

theorem Data.inference_done {s : FrontnetSystem F} {v : FrontnetSchedule F} {r : InferenceState}
    {w : SendState F} (h : Data s v r w) (hnone : r ≠ .none)
    (hdone : v.eventDone .inferenceDone = true) : r = .done := by
  have hflag := h.done .inferenceDone
  cases r with
  | none => exact absurd rfl hnone
  | done => rfl
  | _ =>
    have hfalse := hflag false rfl
    rw [hdone] at hfalse
    cases hfalse

theorem Data.send_done {s : FrontnetSystem F} {v : FrontnetSchedule F} {r : InferenceState}
    {w : SendState F} (h : Data s v r w) (hnone : w ≠ .none)
    (hdone : v.eventDone .streamerTxDone = true) : w = .done := by
  have hflag := h.done .streamerTxDone
  cases w with
  | none => exact absurd rfl hnone
  | done => rfl
  | _ =>
    have hfalse := hflag false rfl
    rw [hdone] at hfalse
    cases hfalse

/-- The send whose end is awaited is that of a consumer. -/
theorem Data.send_busy {s : FrontnetSystem F} {v : FrontnetSchedule F} {r : InferenceState}
    {w : SendState F} (h : Data s v r w) (hnone : w ≠ .none)
    (hdone : v.eventDone .streamerTxDone = false) : ∃ g, w.busy? = some g := by
  cases w with
  | none => exact absurd rfl hnone
  | done =>
    have htrue := h.done .streamerTxDone true rfl
    rw [hdone] at htrue
    cases htrue
  | starting g | sending g | signalled g | continuing g | returned g => exact ⟨g, rfl⟩

end

/-! ## How the frames share the tasks -/

/-- `alone` and `first`: a consumer that waits for the previous send is the next to start its
tasks. `sending` and `reading`: the consumer of a frame waits for its tasks. `inOrder`: the
network is done with its input before it is done. -/
structure Protocol (s : FrontnetSystem F) (v : FrontnetSchedule F) (r : InferenceState)
    (w : SendState F) (c : F → ConsumerState) : Prop where
  started : s.cameraStarted = true → r ≠ .none ∧ w ≠ .none
  fresh : s.cameraStarted = false → r = .none ∧ w = .none ∧ ∀ f, c f = .idle ∨ c f = .starting
  two : ∀ f g h, c f ≠ .idle → c g ≠ .idle → c h ≠ .idle → f = g ∨ f = h ∨ g = h
  alone : ∀ f, c f = .streamer → r = .done ∧ ∀ g, g ≠ f → c g ≠ .inference ∧ c g ≠ .streamer
  first : ∀ f g, c f = .streamer → c g = .starting →
    Precedes v.queue (.resume (.consumer f)) (.resume (.consumer g))
  sending : ∀ f, w.busy? = some f →
    c f = .sending ∧ v.home (.consumer f) = .event .streamerTxDone
  reading : r.unread = true → c s.inferenceFrame = .sending ∨
    c s.inferenceFrame = .reading ∧ v.home (.consumer s.inferenceFrame) = .event .frameDone
  inOrder : r = .networkDone true →
    Precedes v.queue (.task (.event .frameDone)) (.task (.event .networkDone))

/-! ## What a consumer waits for -/

namespace Mark

def isSend : Mark F → Bool
  | send _ => true
  | _ => false

def isSent : Mark F → Bool
  | sent _ => true
  | _ => false

end Mark

section
variable [DecidableEq F]

/-- What has happened before a mark: a task is started when the one before it has returned, and
the consumer of a frame finishes when each send of the frame has finished and the network has
read it each time. -/
def Mark.After (earlier : List (Mark F)) : Mark F → Prop
  | inference => earlier.count .inference = earlier.count .inferred
  | send _ => earlier.countP isSend = earlier.countP isSent
  | finished f => earlier.count (.sent f) = earlier.count (.called f) ∧
      earlier.count (.read f) = earlier.count (.called f)
  | _ => True

/-- The consumer was started and the frame has not been sent. -/
def owesSend (w : SendState F) (c : F → ConsumerState) (f : F) : Nat :=
  if (c f).early = true ∨ w.frame? = some f then 1 else 0

/-- The consumer was started and the network has not read the frame. -/
def owesRead (r : InferenceState) (frame : F) (c : F → ConsumerState) (f : F) : Nat :=
  if (c f).early = true ∨ r.unread = true ∧ frame = f then 1 else 0

structure History (log : List (Mark F)) (r : InferenceState) (w : SendState F)
    (c : F → ConsumerState) (frame : F) : Prop where
  sent : ∀ f, log.count (.sent f) + owesSend w c f = log.count (.called f)
  read : ∀ f, log.count (.read f) + owesRead r frame c f = log.count (.called f)
  inferences : log.count .inference = log.count .inferred + r.live
  sends : log.countP Mark.isSend = log.countP Mark.isSent + w.frame?.toList.length
  inOrder : ∀ earlier m later, log = earlier ++ m :: later → m.After earlier

def FrontnetInvariant (s : FrontnetSystem F) : Prop :=
  ∃ v r w c, Base s.rt v (position r w c) ∧ Data s v r w ∧ Protocol s v r w c ∧
    History s.log r w c s.inferenceFrame

end

/-! ## Changes of one task -/

variable {s t : FrontnetSystem F} {v v' : FrontnetSchedule F} {r r' : InferenceState}
  {w w' : SendState F} {c c' : F → ConsumerState}

/-- The inference goes on. -/
theorem Protocol.inference (h : Protocol s v r w c) (hnone : r ≠ .none) (hdone : r ≠ .done)
    (hnone' : r' ≠ .none) (hunread : r'.unread = true → r.unread = true)
    (hstarted : t.cameraStarted = s.cameraStarted) (hframe : t.inferenceFrame = s.inferenceFrame)
    (hsending : ∀ f, v.home (.consumer f) = .event .streamerTxDone →
      v'.home (.consumer f) = .event .streamerTxDone)
    (hreading : r'.unread = true → ∀ f, v.home (.consumer f) = .event .frameDone →
      v'.home (.consumer f) = .event .frameDone)
    (horder : r' = .networkDone true →
      Precedes v'.queue (.task (.event .frameDone)) (.task (.event .networkDone))) :
    Protocol t v' r' w c := by
  have hstreamer : ∀ f, c f ≠ .streamer := fun f hf => hdone (h.alone f hf).1
  refine ⟨?_, ?_, h.two, fun f hf => absurd hf (hstreamer f), fun f _ hf => absurd hf (hstreamer f),
    ?_, ?_, horder⟩
  · intro hs
    exact ⟨hnone', (h.started (hstarted ▸ hs)).2⟩
  · intro hs
    exact absurd (h.fresh (hstarted ▸ hs)).1 hnone
  · intro f hf
    obtain ⟨hc, hhome⟩ := h.sending f hf
    exact ⟨hc, hsending f hhome⟩
  · intro hr
    rw [hframe]
    rcases h.reading (hunread hr) with hc | ⟨hc, hhome⟩
    · exact .inl hc
    · exact .inr ⟨hc, hreading hr _ hhome⟩

/-- The send goes on. -/
theorem Protocol.send (h : Protocol s v r w c) (hnone : w ≠ .none) (hnone' : w' ≠ .none)
    (hbusy : ∀ f, w'.busy? = some f → w.busy? = some f)
    (hstarted : t.cameraStarted = s.cameraStarted) (hframe : t.inferenceFrame = s.inferenceFrame)
    (hsending : ∀ f, w'.busy? = some f → v'.home (.consumer f) = v.home (.consumer f))
    (hreading : ∀ f, v.home (.consumer f) = .event .frameDone →
      v'.home (.consumer f) = .event .frameDone)
    (hfirst : ∀ f g, c g = .starting →
      Precedes v.queue (.resume (.consumer f)) (.resume (.consumer g)) →
      Precedes v'.queue (.resume (.consumer f)) (.resume (.consumer g)))
    (horder : Precedes v.queue (.task (.event .frameDone)) (.task (.event .networkDone)) →
      Precedes v'.queue (.task (.event .frameDone)) (.task (.event .networkDone))) :
    Protocol t v' r w' c := by
  refine ⟨?_, ?_, h.two, h.alone, fun f g hf hg => hfirst f g hg (h.first f g hf hg), ?_, ?_,
    fun hr => horder (h.inOrder hr)⟩
  · intro hs
    exact ⟨(h.started (hstarted ▸ hs)).1, hnone'⟩
  · intro hs
    exact absurd (h.fresh (hstarted ▸ hs)).2.1 hnone
  · intro f hf
    obtain ⟨hc, hhome⟩ := h.sending f (hbusy f hf)
    exact ⟨hc, (hsending f hf).trans hhome⟩
  · intro hr
    rw [hframe]
    rcases h.reading hr with hc | ⟨hc, hhome⟩
    · exact .inl hc
    · exact .inr ⟨hc, hreading _ hhome⟩

/-- Nothing is recorded and nothing more is owed. -/
theorem History.of_eq [DecidableEq F] {log : List (Mark F)} {frame : F}
    (h : History log r w c frame) (hearly : ∀ f, (c' f).early = (c f).early)
    (hframe : w'.frame? = w.frame?) (hunread : r'.unread = r.unread) (hlive : r'.live = r.live) :
    History log r' w' c' frame := by
  refine ⟨?_, ?_, hlive ▸ h.inferences, hframe ▸ h.sends, h.inOrder⟩
  · intro f
    have hsent := h.sent f
    unfold owesSend at hsent ⊢
    rwa [hearly, hframe]
  · intro f
    have hread := h.read f
    unfold owesRead at hread ⊢
    rwa [hearly, hunread]

theorem count_concat [DecidableEq F] (log : List (Mark F)) (m x : Mark F) :
    (log ++ [m]).count x = log.count x + if m = x then 1 else 0 := by
  rw [List.count_append]
  by_cases hm : m = x
  · rw [if_pos hm, hm, List.count_singleton_self]
  · have hne : x ∉ [m] := fun hmem => hm (List.mem_singleton.mp hmem).symm
    rw [if_neg hm, List.count_eq_zero_of_not_mem hne]

/-- A mark is recorded, with what is owed after it. -/
theorem History.concat [DecidableEq F] {log : List (Mark F)} {m : Mark F} {frame frame' : F}
    (h : History log r w c frame) (hafter : m.After log)
    (hsent : ∀ f, owesSend w' c' f + (if m = .sent f then 1 else 0) =
      owesSend w c f + if m = .called f then 1 else 0)
    (hread : ∀ f, owesRead r' frame' c' f + (if m = .read f then 1 else 0) =
      owesRead r frame c f + if m = .called f then 1 else 0)
    (hinferences : r'.live + (if m = .inferred then 1 else 0) =
      r.live + if m = .inference then 1 else 0)
    (hsends : w'.frame?.toList.length + (if m.isSent then 1 else 0) =
      w.frame?.toList.length + if m.isSend then 1 else 0) :
    History (log ++ [m]) r' w' c' frame' := by
  refine ⟨?_, ?_, ?_, ?_, forall_split_concat.mpr ⟨h.inOrder, hafter⟩⟩
  · intro f
    have := h.sent f
    have := hsent f
    rw [count_concat, count_concat]
    omega
  · intro f
    have := h.read f
    have := hread f
    rw [count_concat, count_concat]
    omega
  · have := h.inferences
    rw [count_concat, count_concat]
    omega
  · have := h.sends
    rw [List.countP_append, List.countP_append, List.countP_singleton, List.countP_singleton]
    omega

end AiDeck.Frontnet
