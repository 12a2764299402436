import AiDeck.Frontnet.Callback

/-! # A frame is not given back while in use -/
namespace AiDeck.Frontnet
open AiDeck.Lib AiDeck.Coroutine

variable {F : Type} [DecidableEq F] [Fintype F] {s t : FrontnetSystem F} {f : F}

/-! ## The camera -/

section
variable {v v' : FrontnetSchedule F} {r : InferenceState} {w : SendState F} {c : F → ConsumerState}

omit [Fintype F] in
/-- A consumer that waits for the previous send has been woken, where one frame at most is with
the consumer. -/
theorem Protocol.streamer_queued (h : Protocol s v r w c) (hbase : Base s.rt v (position r w c))
    (hdata : Data s v r w) (hone : ∀ g g', c g ≠ .idle → c g' ≠ .idle → g = g') {g : F}
    (hg : c g = .streamer) : v.home (.consumer g) = .queued := by
  have hposition : (c g).position.Home (v.home (.consumer g)) :=
    (hbase.contexts (.consumer g)).home
  rw [hg] at hposition
  rcases hposition with hq | hevent
  · exact hq
  · have hstarted := h.camera_started g (by simp [hg]) (by simp [hg])
    have hopen : v.eventDone .streamerTxDone = false := by
      rw [Bool.eq_false_iff]
      intro hdone
      have hmem := hbase.models.mem_waiting.mpr hevent
      rw [hbase.models.woken hdone] at hmem
      cases hmem
    obtain ⟨g', hbusy⟩ := hdata.send_busy (h.started hstarted).2 hopen
    obtain ⟨hc, -⟩ := h.sending g' hbusy
    obtain rfl := hone g g' (by simp [hg]) (by simp [hc])
    rw [hg] at hc
    cases hc

omit [Fintype F] in
/-- The consumer of a further frame is started. -/
theorem Protocol.consume (h : Protocol s v r w c) (hidle : c f = .idle)
    (hone : ∀ g g', c g ≠ .idle → c g' ≠ .idle → g = g')
    (hhome : ∀ g, g ≠ f → v'.home (.consumer g) = v.home (.consumer g))
    (hqueue : v'.queue = v.queue ++ [.resume (.consumer f)])
    (hunread : ¬ (r.unread = true ∧ s.inferenceFrame = f))
    (hfirst : ∀ g, c g = .streamer →
      Precedes v'.queue (.resume (.consumer g)) (.resume (.consumer f)))
    (hstarted : t.cameraStarted = s.cameraStarted) (hframe : t.inferenceFrame = s.inferenceFrame) :
    Protocol t v' r w (Function.update c f .starting) := by
  have hne : ∀ g, c g ≠ .idle → g ≠ f := by
    rintro g hg rfl
    exact hg hidle
  have hold : ∀ g, Function.update c f .starting g = .streamer → c g = .streamer := by
    intro g hg
    by_cases hgf : g = f
    · rw [hgf, Function.update_self] at hg
      cases hg
    · rwa [Function.update_of_ne hgf] at hg
  have hlive : ∀ g, Function.update c f .starting g ≠ .idle → g = f ∨ c g ≠ .idle := by
    intro g hg
    by_cases hgf : g = f
    · exact .inl hgf
    · rw [Function.update_of_ne hgf] at hg
      exact .inr hg
  refine ⟨fun hs => h.started (hstarted ▸ hs), ?_, ?_, ?_, ?_, ?_, ?_, ?_⟩
  · intro hs
    obtain ⟨hr, hw, hfresh⟩ := h.fresh (hstarted ▸ hs)
    refine ⟨hr, hw, fun g => ?_⟩
    by_cases hg : g = f
    · rw [hg, Function.update_self]
      exact .inr rfl
    · rw [Function.update_of_ne hg]
      exact hfresh g
  · intro g g' g'' hg hg' hg''
    rcases hlive g hg with heq | hg
    · rcases hlive g' hg' with heq' | hg'
      · exact .inl (heq.trans heq'.symm)
      · rcases hlive g'' hg'' with heq'' | hg''
        · exact .inr (.inl (heq.trans heq''.symm))
        · exact .inr (.inr (hone g' g'' hg' hg''))
    · rcases hlive g' hg' with heq' | hg'
      · rcases hlive g'' hg'' with heq'' | hg''
        · exact .inr (.inr (heq'.trans heq''.symm))
        · exact .inr (.inl (hone g g'' hg hg''))
      · exact .inl (hone g g' hg hg')
  · intro g hg
    obtain ⟨hr, hother⟩ := h.alone g (hold g hg)
    refine ⟨hr, fun g' hg' => ?_⟩
    by_cases hgf' : g' = f
    · rw [hgf', Function.update_self]
      simp
    · rw [Function.update_of_ne hgf']
      exact hother g' hg'
  · intro g g' hg hg'
    by_cases hgf' : g' = f
    · exact hgf' ▸ hfirst g (hold g hg)
    · rw [Function.update_of_ne hgf'] at hg'
      rw [hqueue]
      exact (h.first g g' (hold g hg) hg').append (by simpa using hgf')
  · intro g hg
    obtain ⟨hc, hevent⟩ := h.sending g hg
    have hgf := hne g (by simp [hc])
    rw [Function.update_of_ne hgf]
    exact ⟨hc, (hhome g hgf).trans hevent⟩
  · intro hr
    have hgf : s.inferenceFrame ≠ f := fun heq => hunread ⟨hr, heq⟩
    rw [hframe, Function.update_of_ne hgf, hhome _ hgf]
    exact h.reading hr
  · intro hr
    rw [hqueue]
    exact (h.inOrder hr).append (by simp)

omit [Fintype F] in
theorem History.call {log : List (Mark F)} {frame : F} (h : History log r w c frame)
    (hidle : c f = .idle) (hsent : w.frame? ≠ some f) (hread : ¬ (r.unread = true ∧ frame = f)) :
    History (log ++ [.called f]) r w (Function.update c f .starting) frame := by
  refine h.concat trivial ?_ ?_ rfl (by simp [Mark.isSend, Mark.isSent])
  · intro g
    by_cases hg : g = f
    · subst hg
      simp [owesSend, hidle, hsent, ConsumerState.early]
    · have hg' : f ≠ g := fun heq => hg heq.symm
      simp [owesSend, hg, hg']
  · intro g
    by_cases hg : g = f
    · subst hg
      simp only [owesRead, hidle, Function.update_self, ConsumerState.early]
      simp [hread]
    · have hg' : f ≠ g := fun heq => hg heq.symm
      simp [owesRead, hg, hg']

omit [Fintype F] in
/-- The camera starts the consumer of a frame. -/
theorem consume_invariant (h : FrontnetInvariant s) (hlive : ¬ Live s.rt (.consumer f))
    (htwo : ∀ g g', Live s.rt (.consumer g) → Live s.rt (.consumer g') → g = g')
    (hok : s.pushStart (.consumer f) cameraCallbackFn (.other f) = .ok t) :
    FrontnetInvariant (t.mark (.called f)) := by
  obtain ⟨v, r, w, c, hbase, hdata, hprotocol, hhistory⟩ := h
  rw [hbase.consumer_live_iff, not_not] at hlive
  have hone : ∀ g g', c g ≠ .idle → c g' ≠ .idle → g = g' := by
    intro g g' hg hg'
    exact htwo g g' ((hbase.consumer_live_iff g).mpr hg) ((hbase.consumer_live_iff g').mpr hg')
  have hidle : position r w c (.consumer f) = .idle := congrArg ConsumerState.position hlive
  have hhome : v.home (.consumer f) = .idle := by
    have hhome := (hbase.contexts (.consumer f)).home
    rw [hidle] at hhome
    exact hhome
  obtain ⟨rt, hok', hstart⟩ := hbase.start hidle
  obtain rfl : t = s.withRt rt :=
    Except.ok.inj (hok.symm.trans (FrontnetSystem.pushStart_eq hok'))
  have hsending : c f ≠ .sending := by simp [hlive]
  have hunread := hprotocol.not_unread hsending (by simp [hhome])
  have hnew : (Pending.resume (.consumer f) : Pending (Ctx F) Event F) ∉ v.queue := by
    rw [hbase.models.mem_queue, hhome]
    simp
  refine ⟨_, r, w, Function.update c f .starting, hstart.of_eq (position_consumer .starting),
    hdata.same (fun e => queuedCallbacks_start ..) (fun _ => rfl) hdata.done hdata.network hdata.uart
      hdata.cpx,
    hprotocol.consume hlive hone ?_ rfl hunread ?_ rfl rfl,
    hhistory.call hlive (hprotocol.not_sent hsending) hunread⟩
  · intro g hg
    simp [hg]
  · intro g hg
    have hqueued := hprotocol.streamer_queued hbase hdata hone hg
    exact .of_mem (hbase.models.mem_queue.mpr hqueued) hnew

end

/-! ## Steps -/

theorem schedule_invariant (h : FrontnetInvariant s) (frameSize : Nat) (maxTailLength : Int → Nat) :
    ∃ t, schedule frameSize maxTailLength s = .ok t ∧ FrontnetInvariant t := by
  unfold schedule
  cases hq : s.rt.queue with
  | nil => exact ⟨s, rfl, h⟩
  | cons p q =>
    cases p with
    | resume d =>
      cases d with
      | consumer f => exact cameraCallback_invariant h hq
      | inference => exact inferenceTask_invariant h hq
      | send f => exact streamerSendTask_invariant h hq frameSize maxTailLength
    | task x =>
      cases x with
      | event e =>
        obtain ⟨rt, hok, hinv⟩ := callback_invariant h hq
        show ∃ t, (coEventCallback (s.rt.dequeueEvent e q) e >>= _) = Except.ok t ∧ _
        rw [hok]
        exact ⟨s.withRt rt, rfl, hinv⟩
      | other f => exact ⟨s.withRt (s.rt.dequeue q), rfl, other_invariant h hq⟩

/-- No assertion fails. -/
theorem action_invariant (h : FrontnetInvariant s) {a : FrontnetAction F} (ha : a.Enabled s)
    (frameSize : Nat) (maxTailLength : Int → Nat) :
    ∃ t, a.run frameSize maxTailLength s = .ok t ∧ FrontnetInvariant t := by
  cases a with
  | consume f =>
    obtain ⟨hlive, htwo⟩ := ha
    obtain ⟨v, r, w, c, hbase, hdata, hprotocol, hhistory⟩ := h
    have hidle : position r w c (.consumer f) = .idle := by
      rw [hbase.consumer_live_iff, not_not] at hlive
      exact congrArg ConsumerState.position hlive
    obtain ⟨rt, hok, -⟩ := hbase.start hidle
    have hpush : s.pushStart (.consumer f) cameraCallbackFn (.other f) = .ok (s.withRt rt) :=
      FrontnetSystem.pushStart_eq hok
    refine ⟨(s.withRt rt).mark (.called f), ?_,
      consume_invariant ⟨v, r, w, c, hbase, hdata, hprotocol, hhistory⟩ hlive htwo hpush⟩
    show (s.pushStart (.consumer f) cameraCallbackFn (.other f) >>= _) = _
    rw [hpush]
    rfl
  | inputRead =>
    obtain ⟨f, hnetwork⟩ := ha
    exact ⟨_, rfl, inputRead_invariant h hnetwork⟩
  | networkDone =>
    obtain ⟨f, hnetwork⟩ := ha
    exact ⟨_, rfl, networkDone_invariant h hnetwork⟩
  | uartDone => exact ⟨_, rfl, uartDone_invariant h ha⟩
  | cpxDone => exact ⟨_, rfl, cpxDone_invariant h ha⟩
  | schedule => exact schedule_invariant h frameSize maxTailLength

omit [Fintype F] in
theorem FrontnetSystem.Initial.invariant (h : s.Initial) : FrontnetInvariant s := by
  refine ⟨_, .none, .none, fun _ => .idle, ⟨h.rt.models, ?_⟩, ⟨?_, ?_, h.network, h.uart, h.cpx⟩,
    ⟨?_, ?_, ?_, ?_, ?_, ?_, ?_, ?_⟩, ?_⟩
  · intro d
    have hidle : position .none (.none : SendState F) (fun _ => .idle) d = .idle := by
      cases d <;> rfl
    rw [hidle]
    exact ⟨rfl, fun x hx => (by cases hx), fun hne => absurd rfl hne, fun hne => absurd rfl hne⟩
  · intro e
    cases e <;> rfl
  · intro e b hb
    cases e <;> cases hb
  · intro hs
    rw [h.cameraStarted] at hs
    cases hs
  · exact fun _ => ⟨rfl, rfl, fun _ => .inl rfl⟩
  · exact fun _ _ _ hg => absurd rfl hg
  · exact fun _ hf => by cases hf
  · exact fun _ _ hf => by cases hf
  · exact fun _ hf => by cases hf
  · exact fun hr => by cases hr
  · exact fun hr => by cases hr
  · rw [h.log]
    refine ⟨fun _ => rfl, fun _ => rfl, rfl, rfl, ?_⟩
    intro earlier m later heq
    exact absurd heq.symm (List.append_ne_nil_of_right_ne_nil _ (List.cons_ne_nil _ _))

variable {frameSize : Nat} {maxTailLength : Int → Nat}

theorem frontnet_invariant (h : (frontnet frameSize maxTailLength).Reachable s) :
    FrontnetInvariant s := by
  refine h.invariant (fun _ hs => hs.invariant) ?_
  rintro s t hinv ⟨a, ha, hok⟩
  obtain ⟨t', hok', ht'⟩ := action_invariant hinv ha frameSize maxTailLength
  exact Except.ok.inj (hok'.symm.trans hok) ▸ ht'

/-! ## Frames in use -/

/-- `finished`: the consumer of a frame finishes when each of its sends has finished and the
network has read it each time. `inference` and `send` say when the tasks run, `quiet` that no
consumer is suspended with nothing to come, and `goesOn` that nothing stops. -/
structure FrontnetSafe (frameSize : Nat) (maxTailLength : Int → Nat) (s : FrontnetSystem F) :
    Prop where
  finished : ∀ earlier f later, s.log = earlier ++ .finished f :: later →
    earlier.count (.sent f) = earlier.count (.called f) ∧
      earlier.count (.read f) = earlier.count (.called f)
  inUse : ∀ f, Live s.rt (.send f) ∨ s.network = some ⟨f, false⟩ → Live s.rt (.consumer f)
  inference : Live s.rt .inference ↔ s.log.count .inferred < s.log.count .inference
  send : (∃ f, Live s.rt (.send f)) ↔ s.log.countP Mark.isSent < s.log.countP Mark.isSend
  oneInference : s.log.count .inference ≤ s.log.count .inferred + 1
  oneSend : s.log.countP Mark.isSend ≤ s.log.countP Mark.isSent + 1
  quiet : s.rt.queue = [] → s.network = none → s.uart = false → s.cpx = false →
    ∀ f, ¬ Live s.rt (.consumer f)
  goesOn : ∀ a : FrontnetAction F, a.Enabled s → ∃ t, a.run frameSize maxTailLength s = .ok t

section
variable {v : FrontnetSchedule F} {r : InferenceState} {w : SendState F} {c : F → ConsumerState}

omit [Fintype F] in
theorem Base.inference_live_iff (h : Base s.rt v (position r w c)) :
    Live s.rt .inference ↔ r.live = 1 := by
  have hhome : r.position.Home (v.home .inference) := (h.contexts .inference).home
  rw [h.models.live_iff]
  cases r <;> rw [show v.home .inference = _ from hhome] <;> simp [InferenceState.live]

omit [Fintype F] in
theorem Base.send_live_iff (h : Base s.rt v (position r w c)) (f : F) :
    Live s.rt (.send f) ↔ w.frame? = some f := by
  have hhome : (w.position f).Home (v.home (.send f)) := (h.contexts (.send f)).home
  rw [h.models.live_iff]
  unfold SendState.position at hhome
  by_cases hframe : w.frame? = some f
  · rw [if_pos hframe] at hhome
    refine iff_of_true ?_ hframe
    intro hidle
    rw [hidle] at hhome
    cases w with
    | none | returned g | done => cases hframe
    | starting g | sending g | signalled g | continuing g => cases hhome
  · rw [if_neg hframe] at hhome
    exact iff_of_false (fun hne => hne hhome) hframe

omit [DecidableEq F] [Fintype F] in
theorem SendState.busy_of_frame {w : SendState F} (h : w.frame? = some f) : w.busy? = some f := by
  cases w <;> first | exact h | cases h

omit [DecidableEq F] [Fintype F] in
/-- Nothing is queued while the queue is empty. -/
theorem Base.not_queued {rt : FrontnetRt F} {pos : Ctx F → Position} (h : Base rt v pos)
    (hq : v.queue = []) (d : Ctx F) : v.home d ≠ .queued := by
  intro hhome
  have hmem := h.models.mem_queue.mpr hhome
  rw [hq] at hmem
  cases hmem

omit [Fintype F] in
/-- With nothing to come both tasks are done. -/
theorem Data.quiet (h : Data s v r w) (hbase : Base s.rt v (position r w c)) (hq : v.queue = [])
    (hnetwork : s.network = none) (huart : s.uart = false) (hcpx : s.cpx = false) :
    (r = .none ∨ r = .done) ∧ (w = .none ∨ w = .done) := by
  have hcallbacks : ∀ e, pending r w e = 0 := by
    intro e
    rw [← h.callbacks, queuedCallbacks, hq, List.count_nil]
  have hinference : r.position.Home (v.home .inference) := (hbase.contexts .inference).home
  have hnetwork' := h.network.symm.trans hnetwork
  have huart' := h.uart.symm.trans huart
  have hcpx' := h.cpx.symm.trans hcpx
  constructor
  · cases r with
    | none => exact .inl rfl
    | done => exact .inr rfl
    | starting | dequantizing | finishing => exact absurd hinference (hbase.not_queued hq .inference)
    | reading | running p => cases hnetwork'
    | networkDone p | sent =>
      have hnone := hcallbacks .networkDone
      cases hnone
    | sending => cases huart'
    | returned =>
      have hnone := hcallbacks .inferenceDone
      cases hnone
  · cases w with
    | none => exact .inl rfl
    | done => exact .inr rfl
    | starting f | continuing f =>
      have hsend : (SendState.position _ f).Home (v.home (.send f)) :=
        (hbase.contexts (.send f)).home
      have hqueued : v.home (.send f) = .queued := by
        simpa [SendState.position, SendState.frame?, SendState.place, Position.Home] using hsend
      exact absurd hqueued (hbase.not_queued hq (.send f))
    | sending f => cases hcpx'
    | signalled f =>
      have hnone := hcallbacks .cpxDone
      cases hnone
    | returned f =>
      have hnone := hcallbacks .streamerTxDone
      cases hnone

omit [Fintype F] in
/-- With nothing to come no consumer waits. -/
theorem Protocol.quiet (h : Protocol s v r w c) (hbase : Base s.rt v (position r w c))
    (hdata : Data s v r w) (hq : v.queue = []) (hr : r = .none ∨ r = .done)
    (hw : w = .none ∨ w = .done) (f : F) : c f = .idle := by
  have hhome : (c f).position.Home (v.home (.consumer f)) := (hbase.contexts (.consumer f)).home
  have hnot := hbase.not_queued hq (.consumer f)
  cases hstarted : s.cameraStarted with
  | false =>
    rcases (h.fresh hstarted).2.2 f with hc | hc
    · exact hc
    · rw [hc] at hhome
      exact absurd hhome hnot
  | true =>
    obtain ⟨hr', hw'⟩ := h.started hstarted
    obtain rfl := hr.resolve_left hr'
    obtain rfl := hw.resolve_left hw'
    have hfree : Free v .done .done c := hdata.free
    by_contra hidle
    -- A consumer that waits is on the list of an event that is not done.
    have hevent : ∃ e, (c f).position.event? = some e ∧ v.home (.consumer f) = .event e := by
      cases hc : c f with
      | idle => exact absurd hc hidle
      | starting =>
        rw [hc] at hhome
        exact absurd hhome hnot
      | _ =>
        rw [hc] at hhome
        exact ⟨_, rfl, hhome.resolve_left hnot⟩
    obtain ⟨e, he, hhome'⟩ := hevent
    have hmem := hbase.models.mem_waiting.mpr hhome'
    rw [hbase.models.woken (hfree.events f e he)] at hmem
    cases hmem

end

/-- **A frame is not given back while in use**, for every order of completions. -/
theorem frontnet_safe (frameSize : Nat) (maxTailLength : Int → Nat) (s : FrontnetSystem F)
    (h : (frontnet frameSize maxTailLength).Reachable s) :
    FrontnetSafe frameSize maxTailLength s := by
  have hinv := frontnet_invariant h
  obtain ⟨v, r, w, c, hbase, hdata, hprotocol, hhistory⟩ := hinv
  have hinferences := hhistory.inferences
  have hsends := hhistory.sends
  have hlive : r.live ≤ 1 := by
    cases r <;> first | exact Nat.le_refl 1 | exact Nat.zero_le 1
  have hframe : w.frame?.toList.length ≤ 1 := by
    cases w.frame? <;> simp
  refine ⟨fun earlier f later hlog => hhistory.inOrder earlier (.finished f) later hlog, ?_, ?_, ?_,
    by omega, by omega, ?_, ?_⟩
  · intro f huse
    rw [hbase.consumer_live_iff]
    rcases huse with hsend | hnetwork
    · rw [hbase.send_live_iff] at hsend
      rw [(hprotocol.sending f (SendState.busy_of_frame hsend)).1]
      simp
    · obtain ⟨rfl, rfl⟩ := hdata.reading hnetwork
      rcases hprotocol.reading rfl with hc | ⟨hc, -⟩ <;> rw [hc] <;> simp
  · rw [hbase.inference_live_iff]
    omega
  · simp only [hbase.send_live_iff]
    cases hframe? : w.frame? with
    | none =>
      rw [hframe?] at hsends
      simp at hsends ⊢
      omega
    | some f =>
      rw [hframe?] at hsends
      simp at hsends ⊢
      omega
  · intro hq hnetwork huart hcpx f
    rw [hbase.consumer_live_iff, not_not]
    have hq' : v.queue = [] := hbase.models.queue ▸ hq
    obtain ⟨hr, hw⟩ := hdata.quiet hbase hq' hnetwork huart hcpx
    exact hprotocol.quiet hbase hdata hq' hr hw f
  · intro a ha
    obtain ⟨t, hok, -⟩ := action_invariant ⟨v, r, w, c, hbase, hdata, hprotocol, hhistory⟩ ha
      frameSize maxTailLength
    exact ⟨t, hok⟩

/-! ## A run -/

instance FrontnetAction.Enabled.decidable (s : FrontnetSystem F) (a : FrontnetAction F) :
    Decidable (a.Enabled s) :=
  match a with
  | .consume f => inferInstanceAs (Decidable
      (¬ (s.rt.returns (.consumer f)).length < (s.rt.starts (.consumer f)).length ∧
        ∀ g h, (s.rt.returns (.consumer g)).length < (s.rt.starts (.consumer g)).length →
          (s.rt.returns (.consumer h)).length < (s.rt.starts (.consumer h)).length → g = h))
  | .inputRead => inferInstanceAs (Decidable (∃ f, s.network = some ⟨f, false⟩))
  | .networkDone => inferInstanceAs (Decidable (∃ f, s.network = some ⟨f, true⟩))
  | .uartDone => inferInstanceAs (Decidable (s.uart = true))
  | .cpxDone => inferInstanceAs (Decidable (s.cpx = true))
  | .schedule => inferInstanceAs (Decidable True)

/-- Zero-initialised memory. -/
def FrontnetSystem.fresh (f : F) : FrontnetSystem F :=
  { rt := .zero, cameraStarted := false, inferenceFrame := f, remainingLength := 0
    packetLength := 0, network := none, uart := false, cpx := false, log := [] }

omit [DecidableEq F] [Fintype F] in
theorem FrontnetSystem.fresh_initial (f : F) : (fresh f).Initial :=
  ⟨Runtime.zero_initial, rfl, rfl, rfl, rfl, rfl⟩

theorem frontnet_follow {frameSize : Nat} {maxTailLength : Int → Nat} {l : List (FrontnetAction F)}
    (hf : Transition.follow (fun s a => FrontnetAction.Enabled s a)
      (FrontnetAction.run frameSize maxTailLength) (.fresh f) l = some s) :
    (frontnet frameSize maxTailLength).Reachable s :=
  Transition.Reachable.follow _ _ (.init (FrontnetSystem.fresh_initial f))
    (fun _ a _ ha hok => ⟨a, ha, hok⟩) hf

/-- The consumer of the first frame has finished, and that of the second waits for the inference. -/
theorem frontnet_safe_overlap : ∃ s : FrontnetSystem (Fin 2),
    s.log.count (.finished 0) = 1 ∧ s.rt.waitsOn (.consumer 1) = some .inferenceDone ∧
      FrontnetSafe 4 (fun _ => 4) s := by
  have hrun : (Transition.follow (fun s a => FrontnetAction.Enabled s a)
      (FrontnetAction.run 4 (fun _ => 4)) (.fresh (0 : Fin 2)) [.consume 0, .schedule, .schedule,
        .schedule, .consume 1, .schedule, .inputRead, .cpxDone, .schedule, .schedule, .schedule,
        .schedule, .schedule, .schedule]).map
      (fun s => (s.log.count (.finished 0), s.rt.waitsOn (.consumer 1))) =
        some (1, some .inferenceDone) := by decide
  obtain ⟨s, hs, hvalues⟩ := Option.map_eq_some_iff.mp hrun
  obtain ⟨hfinished, hwaits⟩ := Prod.mk.inj hvalues
  exact ⟨s, hfinished, hwaits, frontnet_safe 4 (fun _ => 4) s (frontnet_follow hs)⟩

end AiDeck.Frontnet
