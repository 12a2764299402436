import AiDeck.Frontnet.Tasks

/-! # camera_callback -/
namespace AiDeck.Frontnet
open AiDeck.Lib AiDeck.Coroutine

variable {F : Type} [DecidableEq F] [Fintype F] {s t : FrontnetSystem F} {v v' : FrontnetSchedule F}
  {r : InferenceState} {w : SendState F} {c : F → ConsumerState} {rt : FrontnetRt F} {f : F}
  {q l : List (Pending (Ctx F) Event F)}

/-! ## The consumer of one frame -/

theorem ConsumerState.position_eq_idle {x : ConsumerState} (h : x.position = .idle) : x = .idle := by
  cases x <;> first | rfl | cases h

omit [DecidableEq F] [Fintype F] in
theorem Base.home_idle {pos : Ctx F → Position} {d : Ctx F} (h : Base rt v pos)
    (hd : v.home d = .idle) : pos d = .idle := by
  have hhome := (h.contexts d).home
  rw [hd] at hhome
  cases hp : pos d with
  | idle => rfl
  | either x e =>
    rw [hp] at hhome
    rcases hhome with hhome | hhome <;> cases hhome
  | _ =>
    rw [hp] at hhome
    cases hhome

omit [Fintype F] in
theorem Base.consumer_live_iff (h : Base rt v (position r w c)) (g : F) :
    Live rt (.consumer g) ↔ c g ≠ .idle := by
  rw [h.models.live_iff]
  constructor
  · intro hhome hc
    have hidle := (h.contexts (.consumer g)).home
    rw [show position r w c (.consumer g) = (c g).position from rfl, hc] at hidle
    exact hhome hidle
  · intro hc hhome
    exact hc (ConsumerState.position_eq_idle (h.home_idle hhome))

omit [Fintype F] in
/-- Where the contexts are when that of a consumer has moved. -/
theorem position_consumer (x : ConsumerState) (d : Ctx F) :
    Function.update (position r w c) (.consumer f) x.position d =
      position r w (Function.update c f x) d := by
  cases d with
  | consumer g =>
    by_cases hg : g = f
    · subst hg
      rw [Function.update_self]
      show _ = (Function.update c g x g).position
      rw [Function.update_self]
    · rw [Function.update_of_ne (by simpa using hg)]
      show (c g).position = (Function.update c f x g).position
      rw [Function.update_of_ne hg]
  | inference | send g => rfl

omit [DecidableEq F] [Fintype F] in
/-- Only a frame whose consumer waits for its send is sent. -/
theorem Protocol.not_sent (h : Protocol s v r w c) (hc : c f ≠ .sending) : w.frame? ≠ some f := by
  intro hframe
  have hbusy : w.busy? = some f := by cases w <;> first | exact hframe | cases hframe
  exact hc (h.sending f hbusy).1

omit [DecidableEq F] [Fintype F] in
/-- Only a frame whose consumer waits for its send or for the network is still to be read. -/
theorem Protocol.not_unread (h : Protocol s v r w c) (hc : c f ≠ .sending)
    (hhome : v.home (.consumer f) ≠ .event .frameDone) :
    ¬ (r.unread = true ∧ s.inferenceFrame = f) := by
  rintro ⟨hr, rfl⟩
  rcases h.reading hr with hsending | ⟨-, hevent⟩
  · exact hc hsending
  · exact hhome hevent

omit [DecidableEq F] [Fintype F] in
theorem Protocol.camera_started (h : Protocol s v r w c) (f : F) (hidle : c f ≠ .idle)
    (hstarting : c f ≠ .starting) : s.cameraStarted = true := by
  by_contra hnot
  rcases (h.fresh (Bool.eq_false_iff.mpr hnot)).2.2 f with hc | hc
  · exact hidle hc
  · exact hstarting hc

omit [Fintype F] in
/-- What is recorded when a consumer that owes nothing returns. -/
theorem History.finish {log : List (Mark F)} {frame : F} (h : History log r w c frame)
    (hearly : (c f).early = false) (hsent : w.frame? ≠ some f)
    (hread : ¬ (r.unread = true ∧ frame = f)) :
    History (log ++ [.finished f]) r w (Function.update c f .idle) frame := by
  have hearly' : ∀ g, (Function.update c f .idle g).early = (c g).early := by
    intro g
    by_cases hg : g = f
    · rw [hg, Function.update_self, hearly]
      rfl
    · rw [Function.update_of_ne hg]
  have hsends := h.sent f
  have hreads := h.read f
  unfold owesSend at hsends
  unfold owesRead at hreads
  rw [if_neg (by simp [hearly, hsent])] at hsends
  rw [if_neg (by simpa [hearly] using hread)] at hreads
  refine h.concat ⟨hsends, hreads⟩ ?_ ?_ rfl (by simp [Mark.isSend, Mark.isSent])
  · intro g
    simp [owesSend, hearly']
  · intro g
    simp [owesRead, hearly']

omit [Fintype F] in
/-- The consumer of one frame goes on. -/
theorem Protocol.consumer (h : Protocol s v r w c) (x : ConsumerState)
    (hq : v.queue = .resume (.consumer f) :: q) (hq' : v'.queue = q ++ l)
    (hl : ∀ p ∈ l, p = .resume (.consumer f) ∨ p = .task (.other f))
    (hhome : v.home (.consumer f) = .queued)
    (hothers : ∀ g, g ≠ f → v'.home (.consumer g) = v.home (.consumer g))
    (hstarted : t.cameraStarted = s.cameraStarted) (hframe : t.inferenceFrame = s.inferenceFrame)
    (hlive : c f ≠ .idle) (hnew : x ≠ .starting) (hcamera : s.cameraStarted = true)
    (halone : x = .streamer → r = .done ∧ ∀ g, g ≠ f →
      c g ≠ .inference ∧ c g ≠ .streamer ∧ c g ≠ .starting)
    (hinference : x = .inference → ∀ g, g ≠ f → c g ≠ .streamer)
    (hreading : r.unread = true → s.inferenceFrame = f → c f = .sending →
      x = .reading ∧ v'.home (.consumer f) = .event .frameDone) :
    Protocol t v' r w (Function.update c f x) := by
  have hidle : ∀ g, Function.update c f x g ≠ .idle → c g ≠ .idle := by
    intro g hg
    by_cases hgf : g = f
    · rwa [hgf]
    · rwa [Function.update_of_ne hgf] at hg
  have hqueue : ∀ p y : Pending (Ctx F) Event F, p ≠ .resume (.consumer f) →
      Precedes v.queue p y → y ≠ .resume (.consumer f) → y ≠ .task (.other f) →
      Precedes v'.queue p y := by
    intro p y hp hprecedes hy hy'
    rw [hq']
    refine ((hq ▸ hprecedes).tail hp).append ?_
    intro hmem
    rcases hl y hmem with heq | heq
    · exact hy heq
    · exact hy' heq
  refine ⟨fun hs => h.started (hstarted ▸ hs), ?_, ?_, ?_, ?_, ?_, ?_, ?_⟩
  · intro hs
    rw [hstarted, hcamera] at hs
    cases hs
  · intro g g' g'' hg hg' hg''
    exact h.two g g' g'' (hidle g hg) (hidle g' hg') (hidle g'' hg'')
  · intro g hg
    by_cases hgf : g = f
    · subst hgf
      rw [Function.update_self] at hg
      obtain ⟨hr, hother⟩ := halone hg
      refine ⟨hr, fun g' hg' => ?_⟩
      rw [Function.update_of_ne hg']
      exact ⟨(hother g' hg').1, (hother g' hg').2.1⟩
    · rw [Function.update_of_ne hgf] at hg
      obtain ⟨hr, hother⟩ := h.alone g hg
      refine ⟨hr, fun g' hg' => ?_⟩
      by_cases hgf' : g' = f
      · subst hgf'
        rw [Function.update_self]
        refine ⟨fun hx => hinference hx g hgf hg, fun hx => ?_⟩
        exact ((halone hx).2 g hgf).2.1 hg
      · rw [Function.update_of_ne hgf']
        exact hother g' hg'
  · intro g g' hg hg'
    have hgf' : g' ≠ f := by
      rintro rfl
      rw [Function.update_self] at hg'
      exact hnew hg'
    rw [Function.update_of_ne hgf'] at hg'
    by_cases hgf : g = f
    · subst hgf
      rw [Function.update_self] at hg
      exact absurd hg' ((halone hg).2 g' hgf').2.2
    · rw [Function.update_of_ne hgf] at hg
      exact hqueue _ _ (by simpa using hgf) (h.first g g' hg hg') (by simpa using hgf') (by simp)
  · intro g hg
    obtain ⟨hc, hevent⟩ := h.sending g hg
    have hgf : g ≠ f := by
      rintro rfl
      rw [hhome] at hevent
      cases hevent
    rw [Function.update_of_ne hgf, hothers g hgf]
    exact ⟨hc, hevent⟩
  · intro hr
    rw [hframe]
    by_cases hf : s.inferenceFrame = f
    · rw [hf, Function.update_self]
      right
      rcases h.reading hr with hc | ⟨-, hevent⟩
      · exact hreading hr hf (hf ▸ hc)
      · rw [hf, hhome] at hevent
        cases hevent
    · rw [Function.update_of_ne hf, hothers _ hf]
      exact h.reading hr
  · intro hr
    exact hqueue _ _ (by simp) (h.inOrder hr) (by simp) (by simp)

/-- The consumer waits. -/
theorem Base.waitConsumer (h : Base rt v (Function.update (position r w c) (.consumer f) .running))
    {n : Nat} {e : Event} {x : ConsumerState} (hn : n ∈ cameraCallbackFn.lines)
    (hx : x.position = .either (.line n) e) :
    ∃ rt', coWait rt (.consumer f) n e = .ok rt' ∧
      Base rt' (v.wait (.consumer f) n e) (position r w (Function.update c f x)) := by
  obtain ⟨rt', hok, hbase⟩ := h.wait (d := .consumer f) (Function.update_self ..) hn e
  refine ⟨rt', hok, hbase.within ?_⟩
  intro d
  rw [← position_consumer x d, hx]
  by_cases hd : d = .consumer f
  · subst hd
    rw [Function.update_self, Function.update_self]
    split
    · exact .queued _ _
    · exact .waiting _ _
  · rw [Function.update_of_ne hd, Function.update_of_ne hd, Function.update_of_ne hd]
    exact .refl _

/-- The consumer of a frame runs up to a wait. -/
theorem consumerWait_invariant (hbase : Base s.rt v (position r w c)) (hdata : Data s v r w)
    (hprotocol : Protocol s v r w c) (hhistory : History s.log r w c s.inferenceFrame)
    (hq : v.queue = .resume (.consumer f) :: q)
    (hrun : Base rt (v.run (.consumer f) q)
      (Function.update (position r w c) (.consumer f) .running))
    {n : Nat} {e : Event} (x : ConsumerState) (hn : n ∈ cameraCallbackFn.lines)
    (hx : x.position = .either (.line n) e) (hlive : c f ≠ .idle) (hnew : x ≠ .starting)
    (hearly : x.early = (c f).early) (hcamera : s.cameraStarted = true)
    (halone : x = .streamer → r = .done ∧ ∀ g, g ≠ f →
      c g ≠ .inference ∧ c g ≠ .streamer ∧ c g ≠ .starting)
    (hinference : x = .inference → ∀ g, g ≠ f → c g ≠ .streamer)
    (hreading : c f = .sending → x = .reading) :
    ∃ t, (s.withRt rt).wait (.consumer f) n e = .ok t ∧ FrontnetInvariant t := by
  obtain ⟨rt', hok, hbase'⟩ := hrun.waitConsumer hn hx
  have hqueue : ((v.run (.consumer f) q).wait (.consumer f) n e).queue =
      q ++ if v.eventDone e then [.resume (.consumer f)] else [] := Schedule.wait_queue ..
  have hearly' : ∀ g, (Function.update c f x g).early = (c g).early := by
    intro g
    by_cases hg : g = f
    · rw [hg, Function.update_self, hearly]
    · rw [Function.update_of_ne hg]
  refine ⟨s.withRt rt', FrontnetSystem.wait_eq hok, _, r, w, Function.update c f x, hbase',
    hdata.same ?_ (fun _ => rfl) ?_ hdata.network hdata.uart hdata.cpx,
    hprotocol.consumer x hq hqueue ?_ (hbase.models.head_queued hq) ?_ rfl rfl hlive hnew hcamera
      halone hinference ?_, hhistory.of_eq hearly' rfl rfl rfl⟩
  · intro e'
    rw [queuedCallbacks_wait]
    exact queuedCallbacks_run v (.consumer f) e' q hq
  · intro e' b hb
    rw [Schedule.wait_eventDone]
    exact hdata.done e' b hb
  · intro p hp
    split at hp
    · exact .inl (List.mem_singleton.mp hp)
    · cases hp
  · intro g hg
    simp [Schedule.wait_home, hg]
  · intro hr _ hc
    obtain rfl := hreading hc
    obtain ⟨-, rfl⟩ := Position.either.inj hx
    have hopen : v.eventDone .frameDone = false := by
      refine hdata.done .frameDone false ?_
      cases r <;> first | rfl | cases hr
    refine ⟨rfl, ?_⟩
    rw [Schedule.wait_home, Function.update_self, Schedule.run_eventDone, hopen]
    rfl

omit [Fintype F] in
/-- The consumer of a frame that has been sent and read returns. -/
theorem consumerReturn_invariant (hbase : Base s.rt v (position r w c)) (hdata : Data s v r w)
    (hprotocol : Protocol s v r w c) (hhistory : History s.log r w c s.inferenceFrame)
    (hq : v.queue = .resume (.consumer f) :: q)
    (hrun : Base rt (v.run (.consumer f) q)
      (Function.update (position r w c) (.consumer f) .running))
    (hc : c f = .reading) :
    FrontnetInvariant (((s.withRt rt).ret (.consumer f)).mark (.finished f)) := by
  have hqueued := hbase.models.head_queued hq
  have hret := hrun.ret (d := .consumer f) (Function.update_self ..)
  rw [Function.update_idem] at hret
  have hdoneTask : (v.run (.consumer f) q).doneTask (.consumer f) = some (.other f) := by
    refine (hbase.contexts (.consumer f)).doneTask ?_
    show (c f).position ≠ .idle
    rw [hc]
    simp [ConsumerState.position]
  have hqueue : ((v.run (.consumer f) q).ret (.consumer f)).queue = q ++ [.task (.other f)] := by
    rw [Schedule.ret_queue, hdoneTask]
    rfl
  have hsending : c f ≠ .sending := by simp [hc]
  have hcamera : s.cameraStarted = true :=
    hprotocol.camera_started f (by simp [hc]) (by simp [hc])
  have hhistory' : History (s.log ++ [.finished f]) r w (Function.update c f .idle)
      s.inferenceFrame :=
    hhistory.finish (by rw [hc]; rfl) (hprotocol.not_sent hsending)
      (hprotocol.not_unread hsending (by simp [hqueued]))
  refine ⟨_, r, w, Function.update c f .idle, hret.of_eq (position_consumer .idle),
    hdata.same ?_ (fun _ => rfl) hdata.done hdata.network hdata.uart hdata.cpx,
    hprotocol.consumer .idle hq hqueue ?_ hqueued ?_ rfl rfl (by simp [hc]) (by simp) hcamera
      (fun hx => by cases hx) (fun hx => by cases hx) (fun _ _ heq => absurd heq hsending), hhistory'⟩
  · intro e
    rw [queuedCallbacks_ret _ _ _ hdoneTask, queuedCallbacks_run v (.consumer f) e q hq,
      if_neg (by simp)]
    rfl
  · intro p hp
    exact .inr (List.mem_singleton.mp hp)
  · intro g hg
    simp [hg]

/-! ## The tasks of a frame -/

/-- Neither task runs. -/
structure Free (v : FrontnetSchedule F) (r : InferenceState) (w : SendState F)
    (c : F → ConsumerState) : Prop where
  inference : r = .none ∨ r = .done
  send : w = .none ∨ w = .done
  events : ∀ g e, (c g).position.event? = some e → v.eventDone e = true

omit [Fintype F] in
/-- The events that are not done have no waiters. -/
theorem Free.event (h : Free v r w c) {d : Ctx F} {e : Event}
    (hd : (Function.update (position r w c) (.consumer f) .running d).event? = some e) :
    v.eventDone e = true := by
  by_cases hf : d = .consumer f
  · rw [hf, Function.update_self] at hd
    cases hd
  · rw [Function.update_of_ne hf] at hd
    cases d with
    | consumer g => exact h.events g e hd
    | inference =>
      change r.position.event? = _ at hd
      rcases h.inference with rfl | rfl <;> cases hd
    | send g =>
      change (w.position g).event? = _ at hd
      rcases h.send with rfl | rfl <;> cases hd

/-- The inference and the send of a frame are started. -/
theorem Base.startTasks (h : Base rt v (Function.update (position r w c) (.consumer f) .running))
    (hfree : Free v r w c) :
    ∃ rt₁ rt₂ rt₃,
      coFnPushStart (coEventInit (coEventInit rt .frameDone) .inferenceDone) .inference
        inferenceTaskFn (some (.event .inferenceDone)) = .ok rt₁ ∧
      coFnPushStart (coEventInit rt₁ .streamerTxDone) (.send f) streamerSendTaskFn
        (some (.event .streamerTxDone)) = .ok rt₂ ∧
      coWait rt₂ (.consumer f) 127 .streamerTxDone = .ok rt₃ ∧
      Base rt₃ ((((((v.init .frameDone).init .inferenceDone).start .inference inferenceTaskFn
        (some (.event .inferenceDone))).init .streamerTxDone).start (.send f) streamerSendTaskFn
        (some (.event .streamerTxDone))).wait (.consumer f) 127 .streamerTxDone)
        (position .starting (.starting f) (Function.update c f .sending)) := by
  have hinit := (h.init (e := .frameDone) fun d hd => hfree.event hd).init (e := .inferenceDone)
    (by
      intro d hd
      simpa using hfree.event hd)
  have hinference : Function.update (position r w c) (.consumer f) .running .inference = .idle := by
    rw [Function.update_of_ne (by simp)]
    rcases hfree.inference with hr | hr <;> rw [hr] <;> rfl
  obtain ⟨rt₁, hok₁, hstart⟩ := hinit.start hinference
  have hinit' := hstart.init (e := .streamerTxDone) (by
    intro d hd
    by_cases hi : d = .inference
    · rw [hi, Function.update_self] at hd
      cases hd
    · rw [Function.update_of_ne hi] at hd
      have hdone := hfree.event hd
      simpa [Schedule.start] using hdone)
  have hsend : Function.update (Function.update (position r w c) (.consumer f) .running) .inference
      (.queued .start) (.send f) = .idle := by
    rw [Function.update_of_ne (by simp), Function.update_of_ne (by simp)]
    rcases hfree.send with hw | hw <;> rw [hw] <;> rfl
  obtain ⟨rt₂, hok₂, hstart'⟩ := hinit'.start hsend
  obtain ⟨rt₃, hok₃, hwait⟩ := hstart'.wait (d := .consumer f) (n := 127)
    (by simp) (by simp [coFn, cameraCallbackFn]) .streamerTxDone
  refine ⟨rt₁, rt₂, rt₃, hok₁, hok₂, hok₃, hwait.within ?_⟩
  intro d
  cases d with
  | consumer g =>
    by_cases hg : g = f
    · subst hg
      rw [Function.update_self]
      show Position.Within _ (Function.update c g .sending g).position
      rw [Function.update_self]
      split
      · exact .queued _ _
      · exact .waiting _ _
    · rw [Function.update_of_ne (by simpa using hg), Function.update_of_ne (by simp),
        Function.update_of_ne (by simp), Function.update_of_ne (by simpa using hg)]
      show Position.Within (c g).position (Function.update c f .sending g).position
      rw [Function.update_of_ne hg]
      exact .refl _
  | inference =>
    rw [Function.update_of_ne (by simp), Function.update_of_ne (by simp), Function.update_self]
    exact .refl _
  | send g =>
    rw [Function.update_of_ne (by simp)]
    by_cases hg : g = f
    · subst hg
      rw [Function.update_self]
      show Position.Within _ (if some g = some g then _ else _)
      rw [if_pos rfl]
      exact .refl _
    · rw [Function.update_of_ne (by simpa using hg), Function.update_of_ne (by simp),
        Function.update_of_ne (by simp)]
      show Position.Within (w.position g) (if some f = some g then _ else _)
      rw [if_neg (by simpa using fun heq => hg heq.symm)]
      rcases hfree.send with hw | hw <;> rw [hw] <;> exact .refl _

omit [Fintype F] in
/-- What is recorded when the tasks are started. -/
theorem History.startTasks {log : List (Mark F)} {frame : F} (h : History log r w c frame)
    (hfree : Free v r w c) (hearly : (c f).early = true) :
    History (log ++ [.inference] ++ [.send f]) .starting (.starting f)
      (Function.update c f .sending) f := by
  have hlive : r.live = 0 := by rcases hfree.inference with hr | hr <;> rw [hr] <;> rfl
  have hunread : r.unread = false := by rcases hfree.inference with hr | hr <;> rw [hr] <;> rfl
  have hframe : w.frame? = none := by rcases hfree.send with hw | hw <;> rw [hw] <;> rfl
  have hinferred : log.count .inference = log.count .inferred := by
    have hinferences := h.inferences
    rwa [hlive] at hinferences
  have hstart : History (log ++ [.inference]) .starting w c f := by
    refine h.concat hinferred (fun g => by simp) ?_ (by rw [hlive]; rfl)
      (by simp [Mark.isSend, Mark.isSent])
    intro g
    by_cases hg : f = g
    · subst hg
      simp [owesRead, hearly]
    · simp [owesRead, hg, hunread]
  have hsent : (log ++ [Mark.inference]).countP Mark.isSend =
      (log ++ [Mark.inference]).countP Mark.isSent := by
    have hsends := hstart.sends
    rwa [hframe] at hsends
  have hstarting : (SendState.starting f).frame? = some f := rfl
  refine hstart.concat hsent ?_ ?_ rfl (by simp [hframe, hstarting, Mark.isSend, Mark.isSent])
  · intro g
    by_cases hg : g = f
    · subst hg
      simp [owesSend, hearly, hstarting]
    · have hg' : f ≠ g := fun heq => hg heq.symm
      simp [owesSend, hg, hg', hframe, hstarting]
  · intro g
    by_cases hg : g = f
    · subst hg
      simp [owesRead, hearly, InferenceState.unread]
    · have hg' : f ≠ g := fun heq => hg heq.symm
      simp [owesRead, hg, hg']

/-- The tasks of a frame are started when neither runs. -/
theorem processFrame_invariant (hdata : Data s v r w)
    (hprotocol : Protocol s v r w c) (hhistory : History s.log r w c s.inferenceFrame)
    (hq : v.queue = .resume (.consumer f) :: q)
    (hrun : Base rt (v.run (.consumer f) q)
      (Function.update (position r w c) (.consumer f) .running))
    (hearly : (c f).early = true) (hfree : Free v r w c) (hstreamer : ∀ g, g ≠ f → c g ≠ .streamer) :
    ∃ t, processFrame (s.withRt rt) f = .ok t ∧ FrontnetInvariant t := by
  have hfree' : Free (v.run (.consumer f) q) r w c := ⟨hfree.inference, hfree.send, hfree.events⟩
  obtain ⟨rt₁, rt₂, rt₃, hok₁, hok₂, hok₃, hbase'⟩ := hrun.startTasks hfree'
  have hpending : ∀ e, pending .starting (.starting f) e = pending r w e := by
    intro e
    rcases hfree.inference with hr | hr <;> rcases hfree.send with hw | hw <;> rw [hr, hw] <;>
      cases e <;> rfl
  have hnetwork : s.network = none := by
    rw [hdata.network]
    rcases hfree.inference with hr | hr <;> rw [hr] <;> rfl
  have huart : s.uart = false := by
    rw [hdata.uart]
    rcases hfree.inference with hr | hr <;> rw [hr] <;> rfl
  have hcpx : s.cpx = false := by
    rw [hdata.cpx]
    rcases hfree.send with hw | hw <;> rw [hw] <;> rfl
  have hhistory' : History (s.log ++ [.inference] ++ [.send f]) .starting (.starting f)
      (Function.update c f .sending) f := hhistory.startTasks hfree hearly
  have hlive : ∀ g, Function.update c f .sending g ≠ .idle → c g ≠ .idle := by
    intro g hg
    by_cases hgf : g = f
    · intro hidle
      rw [← hgf, hidle] at hearly
      cases hearly
    · rwa [Function.update_of_ne hgf] at hg
  have hother : ∀ g, Function.update c f .sending g ≠ .streamer := by
    intro g hg
    by_cases hgf : g = f
    · rw [hgf, Function.update_self] at hg
      cases hg
    · rw [Function.update_of_ne hgf] at hg
      exact hstreamer g hgf hg
  refine ⟨{ s with
      cameraStarted := true
      inferenceFrame := f
      log := s.log ++ [Mark.inference] ++ [Mark.send f] }.withRt rt₃,
    ?_, _, .starting, .starting f, _, hbase',
    hdata.same ?_ hpending ?_ hnetwork huart hcpx,
    ⟨?_, ?_, ?_, fun g hg => absurd hg (hother g), fun g _ hg => absurd hg (hother g), ?_, ?_, ?_⟩,
    hhistory'⟩
  · unfold processFrame
    show (FrontnetSystem.pushStart _ .inference inferenceTaskFn (.event .inferenceDone) >>= _) = _
    rw [FrontnetSystem.pushStart_eq hok₁]
    show (streamerSendFrameAsync _ f (.event .streamerTxDone) >>= _) = _
    unfold streamerSendFrameAsync
    rw [FrontnetSystem.pushStart_eq hok₂]
    exact FrontnetSystem.wait_eq hok₃
  · intro e
    rw [queuedCallbacks_wait, queuedCallbacks_start]
    show queuedCallbacks (((v.run (.consumer f) q).init .frameDone).init .inferenceDone |>.start
      .inference inferenceTaskFn (some (.event .inferenceDone))) e = _
    rw [queuedCallbacks_start]
    exact queuedCallbacks_run v (.consumer f) e q hq
  · intro e b hb
    rw [Schedule.wait_eventDone]
    cases e with
    | networkDone | cpxDone => cases hb
    | frameDone | inferenceDone | streamerTxDone =>
      obtain rfl := Option.some.inj hb
      simp [Schedule.start, Schedule.init]
  · intro _
    exact ⟨by simp, by simp⟩
  · intro hs
    cases hs
  · intro g g' g'' hg hg' hg''
    exact hprotocol.two g g' g'' (hlive g hg) (hlive g' hg') (hlive g'' hg'')
  · intro g hg
    obtain rfl := Option.some.inj hg
    refine ⟨Function.update_self .., ?_⟩
    rw [Schedule.wait_home, Function.update_self]
    simp [Schedule.start, Schedule.init]
  · intro _
    exact .inl (Function.update_self ..)
  · intro hr
    cases hr

/-! ## The waits for the previous tasks -/

omit [DecidableEq F] [Fintype F] in
/-- A consumer that waits for the previous send would be resumed before this one. -/
theorem Protocol.not_streamer (h : Protocol s v r w c)
    (hq : v.queue = .resume (.consumer f) :: q) (hearly : (c f).early = true) :
    ∀ g, g ≠ f → c g ≠ .streamer := by
  intro g hg hc
  cases hf : c f with
  | starting => exact (hq ▸ h.first g f hc hf).not_head
  | inference => exact ((h.alone g hc).2 f hg.symm).1 hf
  | streamer => exact ((h.alone g hc).2 f hg.symm).2 hf
  | _ =>
    rw [hf] at hearly
    cases hearly

omit [Fintype F] in
/-- Both tasks being done, nobody waits on what is not. -/
theorem Data.free (h : Data s v .done .done) : Free v .done .done c := by
  refine ⟨.inr rfl, .inr rfl, ?_⟩
  intro g e he
  cases hc : c g with
  | idle | starting =>
    rw [hc] at he
    cases he
  | _ =>
    rw [hc] at he
    obtain rfl := Option.some.inj he
    exact h.done _ true rfl

theorem waitStreamer_invariant (hbase : Base s.rt v (position r w c)) (hdata : Data s v r w)
    (hprotocol : Protocol s v r w c) (hhistory : History s.log r w c s.inferenceFrame)
    (hq : v.queue = .resume (.consumer f) :: q)
    (hrun : Base rt (v.run (.consumer f) q)
      (Function.update (position r w c) (.consumer f) .running))
    (hearly : (c f).early = true) (hcamera : s.cameraStarted = true) (hr : r = .done) :
    ∃ t, waitStreamer (s.withRt rt) f = .ok t ∧ FrontnetInvariant t := by
  have hnone := (hprotocol.started hcamera).2
  have hdone : coEventIsDone rt .streamerTxDone = v.eventDone .streamerTxDone :=
    congrFun hrun.models.eventDone .streamerTxDone
  have hlive : c f ≠ .idle := by
    intro hidle
    rw [hidle] at hearly
    cases hearly
  unfold waitStreamer
  show ∃ t, (if coEventIsDone rt .streamerTxDone = true then _ else _) = Except.ok t ∧ _
  rw [hdone]
  cases hflag : v.eventDone .streamerTxDone with
  | true =>
    obtain rfl := hr
    obtain rfl := hdata.send_done hnone hflag
    exact processFrame_invariant hdata hprotocol hhistory hq hrun hearly hdata.free
      (hprotocol.not_streamer hq hearly)
  | false =>
    obtain ⟨g, hbusy⟩ := hdata.send_busy hnone hflag
    obtain ⟨hsending, -⟩ := hprotocol.sending g hbusy
    have hgf : g ≠ f := by
      rintro rfl
      rw [hsending] at hearly
      cases hearly
    -- Only two frames are with the consumer: this one and the one that is sent.
    have hothers : ∀ g', g' ≠ f → c g' = .idle ∨ c g' = .sending := by
      intro g' hg'
      by_cases hidle : c g' = .idle
      · exact .inl hidle
      · right
        rcases hprotocol.two f g g' hlive (by rw [hsending]; simp) hidle with heq | heq | heq
        · exact absurd heq.symm hgf
        · exact absurd heq.symm hg'
        · exact heq ▸ hsending
    refine consumerWait_invariant hbase hdata hprotocol hhistory hq hrun .streamer (by decide) rfl
      hlive (by simp) (by rw [hearly]; rfl) hcamera (fun _ => ⟨hr, ?_⟩) (fun hx => by cases hx) ?_
    · intro g' hg'
      rcases hothers g' hg' with hc | hc <;> rw [hc] <;> simp
    · intro hc
      rw [hc] at hearly
      cases hearly

theorem waitInference_invariant (hbase : Base s.rt v (position r w c)) (hdata : Data s v r w)
    (hprotocol : Protocol s v r w c) (hhistory : History s.log r w c s.inferenceFrame)
    (hq : v.queue = .resume (.consumer f) :: q)
    (hrun : Base rt (v.run (.consumer f) q)
      (Function.update (position r w c) (.consumer f) .running))
    (hearly : (c f).early = true) (hcamera : s.cameraStarted = true) :
    ∃ t, waitInference (s.withRt rt) f = .ok t ∧ FrontnetInvariant t := by
  have hnone := (hprotocol.started hcamera).1
  have hdone : coEventIsDone rt .inferenceDone = v.eventDone .inferenceDone :=
    congrFun hrun.models.eventDone .inferenceDone
  unfold waitInference
  show ∃ t, (if coEventIsDone rt .inferenceDone = true then _ else _) = Except.ok t ∧ _
  rw [hdone]
  cases hflag : v.eventDone .inferenceDone with
  | true =>
    exact waitStreamer_invariant hbase hdata hprotocol hhistory hq hrun hearly hcamera
      (hdata.inference_done hnone hflag)
  | false =>
    refine consumerWait_invariant hbase hdata hprotocol hhistory hq hrun .inference (by decide) rfl
      ?_ (by simp) (by rw [hearly]; rfl) hcamera (fun hx => by cases hx) (fun _ g _ hc => ?_) ?_
    · intro hc
      rw [hc] at hearly
      cases hearly
    · obtain rfl := (hprotocol.alone g hc).1
      have htrue := hdata.done .inferenceDone true rfl
      rw [hflag] at htrue
      cases htrue
    · intro hc
      rw [hc] at hearly
      cases hearly

theorem cameraCallback_invariant (h : FrontnetInvariant s)
    (hq : s.rt.queue = .resume (.consumer f) :: q) :
    ∃ t, cameraCallback (s.withRt (s.rt.dequeue q)) f = .ok t ∧ FrontnetInvariant t := by
  obtain ⟨v, r, w, c, hbase, hdata, hprotocol, hhistory⟩ := h
  replace hq : v.queue = .resume (.consumer f) :: q := hbase.models.queue ▸ hq
  obtain ⟨rt, x, hok, hpoint, -, hrun⟩ := hbase.begin_ok hq
  have hpoint : (c f).position.point? = some x := hpoint
  unfold cameraCallback
  show ∃ t, (coFnBegin (s.rt.dequeue q) (.consumer f) >>= _) = Except.ok t ∧ _
  rw [hok]
  cases hc : c f with
  | idle =>
    rw [hc] at hpoint
    cases hpoint
  | starting =>
    rw [hc] at hpoint
    obtain rfl := Option.some.inj hpoint
    show ∃ t, (if s.cameraStarted = true then _ else _) = Except.ok t ∧ _
    cases hstarted : s.cameraStarted with
    | true =>
      show ∃ t, waitInference (s.withRt rt) f = .ok t ∧ _
      exact waitInference_invariant hbase hdata hprotocol hhistory hq hrun (by rw [hc]; rfl) hstarted
    | false =>
      obtain ⟨rfl, rfl, hfresh⟩ := hprotocol.fresh hstarted
      show ∃ t, processFrame (s.withRt rt) f = .ok t ∧ _
      refine processFrame_invariant hdata hprotocol hhistory hq hrun (by rw [hc]; rfl)
        ⟨.inl rfl, .inl rfl, ?_⟩ (hprotocol.not_streamer hq (by rw [hc]; rfl))
      intro g e he
      rcases hfresh g with hg | hg <;> rw [hg] at he <;> cases he
  | inference =>
    rw [hc] at hpoint
    obtain rfl := Option.some.inj hpoint
    show ∃ t, waitInference (s.withRt rt) f = .ok t ∧ _
    exact waitInference_invariant hbase hdata hprotocol hhistory hq hrun (by rw [hc]; rfl)
      (hprotocol.camera_started f (by simp [hc]) (by simp [hc]))
  | streamer =>
    rw [hc] at hpoint
    obtain rfl := Option.some.inj hpoint
    show ∃ t, waitStreamer (s.withRt rt) f = .ok t ∧ _
    exact waitStreamer_invariant hbase hdata hprotocol hhistory hq hrun (by rw [hc]; rfl)
      (hprotocol.camera_started f (by simp [hc]) (by simp [hc])) (hprotocol.alone f hc).1
  | sending =>
    rw [hc] at hpoint
    obtain rfl := Option.some.inj hpoint
    show ∃ t, (s.withRt rt).wait (.consumer f) 130 .frameDone = .ok t ∧ _
    exact consumerWait_invariant hbase hdata hprotocol hhistory hq hrun .reading (by decide) rfl
      (by simp [hc]) (by simp) (by rw [hc]; rfl)
      (hprotocol.camera_started f (by simp [hc]) (by simp [hc])) (fun hx => by cases hx) (fun hx => by cases hx) fun _ => rfl
  | reading =>
    rw [hc] at hpoint
    obtain rfl := Option.some.inj hpoint
    exact ⟨((s.withRt rt).ret (.consumer f)).mark (.finished f), rfl,
      consumerReturn_invariant hbase hdata hprotocol hhistory hq hrun hc⟩

end AiDeck.Frontnet
