import AiDeck.Frontnet.Invariant

/-! # Completions

What is in flight completes, and the callbacks of the events run. -/
namespace AiDeck.Frontnet
open AiDeck.Lib AiDeck.Coroutine

variable {F : Type} [DecidableEq F] {s t : FrontnetSystem F} {v : FrontnetSchedule F}
  {r r' : InferenceState} {w w' : SendState F} {c : F → ConsumerState}
  {e : Event} {q : List (Pending (Ctx F) Event F)}

theorem Data.push (h : Data s v r w)
    (hpending : ∀ e', pending r' w' e' = pending r w e' + if e' = e then 1 else 0)
    (hdone : ∀ e' b, done? r' w' e' = some b → done? r w e' = some b)
    (hnetwork : t.network = r'.network t.inferenceFrame) (huart : t.uart = r'.uart)
    (hcpx : t.cpx = w'.cpx) : Data t (v.push (.event e)) r' w' := by
  refine ⟨?_, fun e' b hb => h.done e' b (hdone e' b hb), hnetwork, huart, hcpx⟩
  intro e'
  rw [queuedCallbacks_push, h.callbacks, hpending]

theorem Data.callback (h : Data s v r w) (hq : v.queue = .task (.event e) :: q)
    (hpending : ∀ e', pending r w e' = pending r' w' e' + if e' = e then 1 else 0)
    (hdone : ∀ e' b, e' ≠ e → done? r' w' e' = some b → done? r w e' = some b)
    (hself : ∀ b, done? r' w' e = some b → b = true)
    (hnetwork : t.network = r'.network t.inferenceFrame) (huart : t.uart = r'.uart)
    (hcpx : t.cpx = w'.cpx) : Data t (v.callback e q) r' w' := by
  refine ⟨?_, ?_, hnetwork, huart, hcpx⟩
  · intro e'
    have hcallbacks := h.callbacks e'
    rw [queuedCallbacks_callback v e' e q hq, hpending] at hcallbacks
    exact Nat.add_right_cancel hcallbacks
  · intro e' b hb
    show Function.update v.eventDone e true e' = b
    by_cases he : e' = e
    · subst he
      rw [Function.update_self, hself b hb]
    · rw [Function.update_of_ne he]
      exact h.done e' b (hdone e' b he hb)

omit [DecidableEq F] in
theorem Base.of_eq {rt : FrontnetRt F} {pos pos' : Ctx F → Position} (h : Base rt v pos)
    (hpos : ∀ d, pos d = pos' d) : Base rt v pos' :=
  funext hpos ▸ h

/-- The callback that is pending. -/
theorem Data.pending_pos (h : Data s v r w) (hq : v.queue = .task (.event e) :: q) :
    0 < pending r w e := by
  rw [← h.callbacks, queuedCallbacks, hq, List.count_cons_self]
  exact Nat.succ_pos _

/-! ## Positions and events -/

theorem ConsumerState.position_woken (x : ConsumerState) (e : Event) :
    x.position.woken e = x.position := by
  cases x <;> rfl

theorem InferenceState.position_woken (r : InferenceState) (he : e ≠ .networkDone) :
    r.position.woken e = r.position := by
  have he' : .networkDone ≠ e := fun heq => he heq.symm
  cases r <;> simp [InferenceState.position, Position.woken, he']

theorem SendState.position_woken (w : SendState F) (f : F) (he : e ≠ .cpxDone) :
    (w.position f).woken e = w.position f := by
  have he' : .cpxDone ≠ e := fun heq => he heq.symm
  unfold SendState.position
  split
  · cases w <;> simp [SendState.place, Position.woken, he']
  · rfl

/-! ## What is in flight -/

theorem Data.reading (h : Data s v r w) {f : F} (hnetwork : s.network = some ⟨f, false⟩) :
    r = .reading ∧ f = s.inferenceFrame := by
  rw [h.network] at hnetwork
  cases r <;> simp [InferenceState.network] at hnetwork
  exact ⟨rfl, hnetwork.symm⟩

theorem Data.running (h : Data s v r w) {f : F} (hnetwork : s.network = some ⟨f, true⟩) :
    ∃ pending, r = .running pending := by
  rw [h.network] at hnetwork
  cases r <;> simp [InferenceState.network] at hnetwork
  exact ⟨_, rfl⟩

/-- The network has read its input. -/
theorem inputRead_invariant (h : FrontnetInvariant s) {f : F}
    (hnetwork : s.network = some ⟨f, false⟩) : FrontnetInvariant (readInput s) := by
  obtain ⟨v, r, w, c, hbase, hdata, hprotocol, hhistory⟩ := h
  obtain ⟨rfl, rfl⟩ := hdata.reading hnetwork
  have hearly : (c s.inferenceFrame).early = false := by
    rcases hprotocol.reading rfl with hc | ⟨hc, -⟩ <;> rw [hc] <;> rfl
  unfold readInput
  rw [hnetwork]
  refine ⟨v.push (.event .frameDone), .running true, w, c, (hbase.push _).of_eq ?_,
    hdata.push ?_ ?_ rfl hdata.uart hdata.cpx,
    hprotocol.inference (by decide) (by decide) (by decide) (by decide) rfl rfl
      (fun _ => id) (fun hr => by cases hr) (fun hr => by cases hr), ?_⟩
  · intro d
    cases d <;> rfl
  · intro e
    cases e <;> rfl
  · intro e b hb
    cases e <;> exact hb
  · refine hhistory.concat (m := .read s.inferenceFrame) trivial (fun f => by simp) ?_ rfl
      (by simp [Mark.isSend, Mark.isSent])
    intro f
    unfold owesRead
    by_cases hf : s.inferenceFrame = f
    · subst hf
      simp [hearly, InferenceState.unread]
    · simp [hf, InferenceState.unread]

/-- The network completes. -/
theorem networkDone_invariant (h : FrontnetInvariant s) {f : F}
    (hnetwork : s.network = some ⟨f, true⟩) :
    FrontnetInvariant ({ s with network := none }.push .networkDone) := by
  obtain ⟨v, r, w, c, hbase, hdata, hprotocol, hhistory⟩ := h
  obtain ⟨p, rfl⟩ := hdata.running hnetwork
  refine ⟨v.push (.event .networkDone), .networkDone p, w, c, (hbase.push _).of_eq ?_,
    hdata.push ?_ ?_ rfl hdata.uart hdata.cpx,
    hprotocol.inference (by simp) (by simp) (by simp) (fun hr => by cases hr) rfl rfl
      (fun _ => id) (fun hr => by cases hr) ?_,
    hhistory.of_eq (fun _ => rfl) rfl rfl rfl⟩
  · intro d
    cases d <;> rfl
  · intro e
    cases e <;> cases p <;> rfl
  · intro e b hb
    cases e <;> exact hb
  · intro hp
    obtain rfl := InferenceState.networkDone.inj hp
    have hframe : v.queue.count (.task (.event .frameDone)) = 1 := hdata.callbacks .frameDone
    have hnone : v.queue.count (.task (.event .networkDone)) = 0 := hdata.callbacks .networkDone
    exact .of_mem (List.count_pos_iff.mp (hframe ▸ Nat.one_pos)) (List.count_eq_zero.mp hnone)

/-- The UART completes. -/
theorem uartDone_invariant (h : FrontnetInvariant s) (huart : s.uart = true) :
    FrontnetInvariant ({ s with uart := false }.push .networkDone) := by
  obtain ⟨v, r, w, c, hbase, hdata, hprotocol, hhistory⟩ := h
  obtain rfl : r = .sending := by
    have hr := hdata.uart.symm.trans huart
    cases r <;> first | rfl | cases hr
  refine ⟨v.push (.event .networkDone), .sent, w, c, (hbase.push _).of_eq ?_,
    hdata.push ?_ ?_ hdata.network rfl hdata.cpx,
    hprotocol.inference (by simp) (by simp) (by simp) (fun hr => by cases hr) rfl rfl
      (fun _ => id) (fun hr => by cases hr) (fun hr => by cases hr),
    hhistory.of_eq (fun _ => rfl) rfl rfl rfl⟩
  · intro d
    cases d <;> rfl
  · intro e
    cases e <;> rfl
  · intro e b hb
    cases e <;> exact hb

/-- CPX completes. -/
theorem cpxDone_invariant (h : FrontnetInvariant s) (hcpx : s.cpx = true) :
    FrontnetInvariant ({ s with cpx := false }.push .cpxDone) := by
  obtain ⟨v, r, w, c, hbase, hdata, hprotocol, hhistory⟩ := h
  obtain ⟨f, rfl⟩ : ∃ f, w = .sending f := by
    have hw := hdata.cpx.symm.trans hcpx
    cases w with
    | sending f => exact ⟨f, rfl⟩
    | _ => cases hw
  refine ⟨v.push (.event .cpxDone), r, .signalled f, c, (hbase.push _).of_eq ?_,
    hdata.push ?_ ?_ hdata.network hdata.uart rfl,
    hprotocol.send (by simp) (by simp) (fun _ => id) rfl rfl (fun _ _ => rfl) (fun _ => id)
      (fun f g _ hprecedes => hprecedes.append (by simp)) (fun horder => horder.append (by simp)),
    hhistory.of_eq (fun _ => rfl) rfl rfl rfl⟩
  · intro d
    cases d <;> rfl
  · intro e
    cases e <;> rfl
  · intro e b hb
    cases e <;> exact hb

/-! ## The callbacks -/

omit [DecidableEq F] in
theorem Base.queued_not_woken {rt : FrontnetRt F} {pos : Ctx F → Position} (h : Base rt v pos)
    {d : Ctx F} (hd : v.home d = .queued) :
    (Pending.resume d : Pending (Ctx F) Event F) ∉ (v.waiting e).map .resume := by
  intro hmem
  obtain ⟨d', hd', heq⟩ := List.mem_map.mp hmem
  obtain rfl := Pending.resume.inj heq
  have hhome := h.models.mem_waiting.mp hd'
  rw [hd] at hhome
  cases hhome

theorem precedes_callback (hq : v.queue = .task (.event e) :: q) {x y : Pending (Ctx F) Event F}
    (h : Precedes v.queue x y) (hx : x ≠ .task (.event e))
    (hy : y ∉ (v.waiting e).map Pending.resume) : Precedes (v.callback e q).queue x y := by
  rw [hq] at h
  exact (h.tail hx).append hy

/-- What the callback of an event does to the inference. -/
inductive InferenceState.Fires : Event → InferenceState → InferenceState → Prop
  | frameDone : Fires .frameDone (.running true) (.running false)
  | lateFrameDone : Fires .frameDone (.networkDone true) (.networkDone false)
  | networkDone : Fires .networkDone (.networkDone false) .dequantizing
  | uartDone : Fires .networkDone .sent .finishing
  | inferenceDone : Fires .inferenceDone .returned .done

/-- What the callback of an event does to the send. -/
inductive SendState.Fires : Event → SendState F → SendState F → Prop
  | cpxDone (f : F) : Fires .cpxDone (.signalled f) (.continuing f)
  | streamerTxDone (f : F) : Fires .streamerTxDone (.returned f) .done

theorem fires_inference (h : InferenceState.Fires e r r') (d : Ctx F) :
    (position r w c d).woken e = position r' w c d := by
  cases d with
  | consumer f => exact ConsumerState.position_woken _ _
  | inference => cases h <;> rfl
  | send f => exact SendState.position_woken w f (by cases h <;> decide)

theorem fires_send (h : SendState.Fires e w w') (d : Ctx F) :
    (position r w c d).woken e = position r w' c d := by
  cases d with
  | consumer f => exact ConsumerState.position_woken _ _
  | inference => exact InferenceState.position_woken r (by cases h <;> decide)
  | send f =>
    show (w.position f).woken e = w'.position f
    unfold SendState.position
    cases h with
    | cpxDone g =>
      show Position.woken .cpxDone (if some g = some f then _ else _) =
        if some g = some f then _ else _
      split <;> rfl
    | streamerTxDone g => rfl

theorem Data.inferenceCallback (h : Data s v r w) (hfires : InferenceState.Fires e r r')
    (hq : v.queue = .task (.event e) :: q) (rt : FrontnetRt F) :
    Data (s.withRt rt) (v.callback e q) r' w := by
  refine h.callback hq ?_ ?_ ?_ ?_ ?_ h.cpx
  · intro e'
    cases hfires <;> cases e' <;> rfl
  · intro e' b he hb
    cases hfires <;> cases e' <;> first | exact hb | exact absurd rfl he
  · intro b hb
    cases hfires <;> first | exact (Option.some.inj hb).symm | cases hb
  · exact h.network.trans (by cases hfires <;> rfl)
  · exact h.uart.trans (by cases hfires <;> rfl)

theorem Data.sendCallback (h : Data s v r w) (hfires : SendState.Fires e w w')
    (hq : v.queue = .task (.event e) :: q) (rt : FrontnetRt F) :
    Data (s.withRt rt) (v.callback e q) r w' := by
  refine h.callback hq ?_ ?_ ?_ h.network h.uart ?_
  · intro e'
    cases hfires <;> cases e' <;> rfl
  · intro e' b he hb
    cases hfires <;> cases e' <;> first | exact hb | exact absurd rfl he
  · intro b hb
    cases hfires <;> first | exact (Option.some.inj hb).symm | cases hb
  · exact h.cpx.trans (by cases hfires <;> rfl)

variable {rt : FrontnetRt F}

/-- A callback after which the inference goes on. -/
theorem inferenceCallback_invariant (hfires : InferenceState.Fires e r r')
    (hbase : Base s.rt v (position r w c)) (hdata : Data s v r w)
    (hprotocol : Protocol s v r w c) (hhistory : History s.log r w c s.inferenceFrame)
    (hq : v.queue = .task (.event e) :: q)
    (hbase' : Base rt (v.callback e q) fun d => (position r w c d).woken e) :
    FrontnetInvariant (s.withRt rt) := by
  have hsending : .streamerTxDone ≠ e := by cases hfires <;> decide
  have hread : r'.unread = false := by cases hfires <;> rfl
  have hunread : r'.unread = r.unread := by cases hfires <;> rfl
  refine ⟨v.callback e q, r', w, c, hbase'.of_eq (fires_inference hfires),
    hdata.inferenceCallback hfires hq rt,
    hprotocol.inference ?_ ?_ ?_ (fun hr => hunread ▸ hr) rfl rfl ?_ ?_ ?_,
    hhistory.of_eq (fun _ => rfl) rfl hunread (by cases hfires <;> rfl)⟩
  · cases hfires <;> decide
  · cases hfires <;> decide
  · cases hfires <;> decide
  · intro f hhome
    rw [hbase.models.callback_home_of_ne (by rw [hhome]; simpa using hsending), hhome]
  · intro hr
    rw [hread] at hr
    cases hr
  · rintro rfl
    cases hfires

/-- A callback after which the send goes on. -/
theorem sendCallback_invariant (hfires : SendState.Fires e w w')
    (hbase : Base s.rt v (position r w c)) (hdata : Data s v r w)
    (hprotocol : Protocol s v r w c) (hhistory : History s.log r w c s.inferenceFrame)
    (hq : v.queue = .task (.event e) :: q)
    (hbase' : Base rt (v.callback e q) fun d => (position r w c d).woken e) :
    FrontnetInvariant (s.withRt rt) := by
  have hreading : .frameDone ≠ e := by cases hfires <;> decide
  have hbusy : ∀ f, w'.busy? = some f → w.busy? = some f ∧ .streamerTxDone ≠ e := by
    intro f hf
    cases hfires with
    | cpxDone g => exact ⟨hf, by decide⟩
    | streamerTxDone g => cases hf
  refine ⟨v.callback e q, r, w', c, hbase'.of_eq (fires_send hfires), hdata.sendCallback hfires hq rt,
    hprotocol.send ?_ ?_ (fun f hf => (hbusy f hf).1) rfl rfl ?_ ?_ ?_ ?_,
    hhistory.of_eq (fun _ => rfl) (by cases hfires <;> rfl) rfl rfl⟩
  · cases hfires <;> simp
  · cases hfires <;> simp
  · intro f hf
    obtain ⟨hold, hne⟩ := hbusy f hf
    refine hbase.models.callback_home_of_ne ?_
    rw [(hprotocol.sending f hold).2]
    simpa using hne
  · intro f hhome
    rw [hbase.models.callback_home_of_ne (by rw [hhome]; simpa using hreading), hhome]
  · intro f g hg hprecedes
    have hhome : v.home (.consumer g) = .queued := by
      have hhome := (hbase.contexts (.consumer g)).home
      rw [show position r w c (.consumer g) = (c g).position from rfl, hg] at hhome
      exact hhome
    exact precedes_callback hq hprecedes (by simp) (hbase.queued_not_woken hhome)
  · intro horder
    exact precedes_callback hq horder (by simpa using hreading) (by simp)

/-- The callback of the `done_event` of a frame, which is another program's. -/
theorem other_invariant (h : FrontnetInvariant s) {f : F}
    (hq : s.rt.queue = .task (.other f) :: q) : FrontnetInvariant (s.withRt (s.rt.dequeue q)) := by
  obtain ⟨v, r, w, c, hbase, hdata, hprotocol, hhistory⟩ := h
  replace hq : v.queue = .task (.other f) :: q := hbase.models.queue ▸ hq
  refine ⟨v.dequeue q, r, w, c, hbase.other hq, ⟨?_, hdata.done, hdata.network, hdata.uart,
    hdata.cpx⟩, ⟨hprotocol.started, hprotocol.fresh, hprotocol.two, hprotocol.alone, ?_,
    hprotocol.sending, hprotocol.reading, ?_⟩, hhistory⟩
  · intro e
    rw [queuedCallbacks_other v e q hq]
    exact hdata.callbacks e
  · intro f' g hf hg
    exact (hq ▸ hprotocol.first f' g hf hg).tail (by simp)
  · intro hr
    exact (hq ▸ hprotocol.inOrder hr).tail (by simp)

variable [Fintype F]

/-- The callback of an event runs. -/
theorem callback_invariant (h : FrontnetInvariant s) (hq : s.rt.queue = .task (.event e) :: q) :
    ∃ rt, coEventCallback (s.rt.dequeueEvent e q) e = .ok rt ∧
      FrontnetInvariant (s.withRt rt) := by
  obtain ⟨v, r, w, c, hbase, hdata, hprotocol, hhistory⟩ := h
  replace hq : v.queue = .task (.event e) :: q := hbase.models.queue ▸ hq
  have hpos := hdata.pending_pos hq
  obtain ⟨rt, hok, hbase'⟩ := hbase.callback hq
  refine ⟨rt, hok, ?_⟩
  cases e with
  | frameDone =>
    have hfires : ∃ r', InferenceState.Fires .frameDone r r' := by
      cases r with
      | running p =>
        cases p with
        | false => cases hpos
        | true => exact ⟨_, .frameDone⟩
      | networkDone p =>
        cases p with
        | false => cases hpos
        | true => exact ⟨_, .lateFrameDone⟩
      | _ => cases hpos
    obtain ⟨r', hr'⟩ := hfires
    exact inferenceCallback_invariant hr' hbase hdata hprotocol hhistory hq hbase'
  | inferenceDone =>
    cases r with
    | returned =>
      exact inferenceCallback_invariant .inferenceDone hbase hdata hprotocol hhistory hq hbase'
    | _ => cases hpos
  | networkDone =>
    have hfires : ∃ r', InferenceState.Fires .networkDone r r' := by
      cases r with
      | networkDone p =>
        cases p with
        | false => exact ⟨_, .networkDone⟩
        | true =>
          -- The callback of `frame_done` would have to be queued before the head.
          exact (hq ▸ hprotocol.inOrder rfl).not_head.elim
      | sent => exact ⟨_, .uartDone⟩
      | _ => cases hpos
    obtain ⟨r', hr'⟩ := hfires
    exact inferenceCallback_invariant hr' hbase hdata hprotocol hhistory hq hbase'
  | streamerTxDone =>
    cases w with
    | returned f =>
      exact sendCallback_invariant (.streamerTxDone f) hbase hdata hprotocol hhistory hq hbase'
    | _ => cases hpos
  | cpxDone =>
    cases w with
    | signalled f =>
      exact sendCallback_invariant (.cpxDone f) hbase hdata hprotocol hhistory hq hbase'
    | _ => cases hpos

end AiDeck.Frontnet
