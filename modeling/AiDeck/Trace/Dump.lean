import AiDeck.Trace.Buffer
import AiDeck.Lib.Transition

/-! # What a dump prints

For each core, the events recorded since its last dump are tracked beside its buffer: the
abstract buffer is that list, of which the ring holds the end. -/
namespace AiDeck.Trace
open AiDeck.Lib

/-- The output of a dump that finds `events`. -/
def printed (coreId : Core) (events : List TraceEvt) : List Print :=
  .counts coreId events.length ::
    (events.map (fun event => Print.event event.data) ++ [.newline, .newline])

/-- The buffer after a dump. -/
def TraceBuffer.emptied (t : TraceBuffer) : TraceBuffer := { t with eventCount := 0 }

theorem TraceBuffer.read_eq {t : TraceBuffer} {i : Nat} {event : TraceEvt}
    (h : t.buffer[i]? = some event) : t.read i = .ok event := by
  obtain ⟨hi, hget⟩ := Vector.getElem?_eq_some_iff.mp h
  rw [TraceBuffer.read, dif_pos ⟨Int.natCast_nonneg i, hi⟩]
  exact congrArg Except.ok hget

theorem dumpLoop_spec {events : List TraceEvt} {t : TraceBuffer} {start n : Nat}
    (hkeeps : Keeps traceEventsBuffer (fun i => t.buffer[i]?) start (events.map some))
    (hcount : t.eventCount = events.length) (hn : events.length < n) :
    dumpLoop n t ((start % traceEventsBuffer : Nat) : Int) =
      .ok (events.map fun event => Print.event event.data, t.emptied) := by
  induction events generalizing t start n with
  | nil =>
    obtain ⟨n, rfl⟩ := Nat.exists_eq_succ_of_ne_zero (Nat.ne_of_gt hn)
    have hzero : t.eventCount = 0 := hcount
    have hsame : t.emptied = t := by rw [TraceBuffer.emptied, ← hzero]
    rw [dumpLoop, if_neg (by omega), hsame]
    rfl
  | cons event events ih =>
    obtain ⟨n, rfl⟩ := Nat.exists_eq_succ_of_ne_zero (Nat.ne_of_gt (Nat.zero_lt_of_lt hn))
    rw [List.length_cons] at hcount hn
    rw [List.map_cons] at hkeeps
    have hread := TraceBuffer.read_eq hkeeps.head
    have hrest : dumpLoop n { t with eventCount := t.eventCount - 1 }
        ((start + 1) % traceEventsBuffer : Nat) =
          .ok (events.map fun event => Print.event event.data, t.emptied) :=
      ih (t := { t with eventCount := t.eventCount - 1 }) hkeeps.tail
        (by change t.eventCount - 1 = _; omega) (by omega)
    rw [dumpLoop, if_pos (by omega), hread, index_succ]
    show (dumpLoop n _ _ >>= _) = _
    rw [hrest]
    rfl

/-- **A dump prints the last events and empties the buffer.** -/
theorem TraceBuffer.Holds.dump {t : TraceBuffer} {l : List TraceEvt} {start : Nat}
    (h : t.Holds l start) (coreId : Core) :
    t.dump coreId = .ok (printed coreId (latest l), t.emptied) ∧
      t.emptied.Holds [] (start + (latest l).length) := by
  have hlength := latest_length l
  have hfirst : (t.nextEvent - t.eventCount + (traceEventsBuffer : Int)).tmod traceEventsBuffer =
      (start % traceEventsBuffer : Nat) := by
    rw [h.nextEvent, h.eventCount]
    generalize (latest l).length = n at hlength
    simp only [traceEventsBuffer] at hlength ⊢
    rw [Int.tmod_eq_emod_of_nonneg (by omega)]
    omega
  have hloop : dumpLoop (t.eventCount.toNat + 1) t (start % traceEventsBuffer : Nat) =
      .ok ((latest l).map fun event => Print.event event.data, t.emptied) := by
    refine dumpLoop_spec (rtake_map_some l _ ▸ h.keeps) h.eventCount ?_
    rw [h.eventCount, Int.toNat_natCast]
    exact Nat.lt_succ_self _
  refine ⟨?_, keeps_nil, ?_, ?_⟩
  · rw [TraceBuffer.dump, hfirst, hloop, h.eventCount]
    rfl
  · rw [latest_nil, List.length_nil, Nat.add_zero]
    exact h.nextEvent
  · rw [latest_nil]
    rfl

/-! ## Calls -/

inductive Call where
  | init (coreId : Core) (cluster allocated : Bool)
  | start (coreId : Core) (clocks : Clocks)
  | push (coreId : Core) (event : TraceEvt)
  | dump (coreId : Core)

/-- A call, with what it prints. -/
def Call.run (piFcCoreId : Core) (s : TraceBuffers) : Call → Except Stop (List Print × TraceBuffers)
  | init coreId cluster allocated =>
    (traceBufferInit piFcCoreId coreId cluster allocated s).map fun s => ([], s)
  | start coreId clocks => (traceBufferStart coreId clocks s).map fun s => ([], s)
  | push coreId event => (tracePushEvent coreId event s).map fun s => ([], s)
  | dump coreId => traceBufferDumpCore coreId s

/-- The calls of all cores, from the state in which no buffer is allocated. -/
def traces (piFcCoreId : Core) : Labelled TraceBuffers (Call × List Print) where
  init := fun _ => none
  step s e s' := e.1.run piFcCoreId s = .ok (e.2, s')

def Call.coreId : Call → Core
  | init coreId _ _ => coreId
  | start coreId _ => coreId
  | push coreId _ => coreId
  | dump coreId => coreId

/-- The events a call records. -/
def Call.events : Call → List TraceEvt
  | start _ clocks => clocks.events
  | push _ event => [event]
  | _ => []

/-- What a call makes of the events that wait for a dump. -/
def Call.queue (l : List TraceEvt) : Call → List TraceEvt
  | dump _ => []
  | c => l ++ c.events

/-- The events of a core. -/
def pushed (coreId : Core) (calls : List Call) : List TraceEvt :=
  (calls.filter fun c => c.coreId = coreId).flatMap Call.events

/-- The events of a core since its last dump. -/
def pending (coreId : Core) (calls : List Call) : List TraceEvt :=
  (calls.filter fun c => c.coreId = coreId).foldl Call.queue []

def Print.event? : Print → Option TraceEvt
  | event data => some ⟨data⟩
  | _ => none

/-- The events of a core that were printed. -/
def dumped (coreId : Core) (log : List (Call × List Print)) : List TraceEvt :=
  (log.filter fun e => e.1.coreId = coreId).flatMap fun e => e.2.filterMap Print.event?

theorem pending_concat (coreId : Core) (calls : List Call) (c : Call) :
    pending coreId (calls ++ [c]) =
      if c.coreId = coreId then c.queue (pending coreId calls) else pending coreId calls := by
  by_cases h : c.coreId = coreId <;> simp [pending, h]

theorem pushed_concat (coreId : Core) (calls : List Call) (c : Call) :
    pushed coreId (calls ++ [c]) =
      if c.coreId = coreId then pushed coreId calls ++ c.events else pushed coreId calls := by
  by_cases h : c.coreId = coreId <;> simp [pushed, h]

theorem dumped_concat (coreId : Core) (log : List (Call × List Print)) (e : Call × List Print) :
    dumped coreId (log ++ [e]) =
      if e.1.coreId = coreId then dumped coreId log ++ e.2.filterMap Print.event?
      else dumped coreId log := by
  by_cases h : e.1.coreId = coreId <;> simp [dumped, h]

theorem event?_printed (coreId : Core) (events : List TraceEvt) :
    (printed coreId events).filterMap Print.event? = events := by
  have hevents : (events.map fun event => Print.event event.data).filterMap Print.event? =
      events := by
    rw [List.filterMap_map]
    exact List.filterMap_some
  rw [printed, List.filterMap_cons_none (by rfl), List.filterMap_append, hevents]
  exact List.append_nil events

/-! ## The events that wait are in the buffers -/

theorem tracePushEvent_holds {s : TraceBuffers} {coreId : Core} {t : TraceBuffer}
    {l : List TraceEvt} {start : Nat} (hs : s coreId = some t) (hstarted : t.started = true)
    (h : t.Holds l start) (event : TraceEvt) :
    ∃ t' start', tracePushEvent coreId event s = .ok (Function.update s coreId (some t')) ∧
      t'.started = true ∧ t'.Holds (l ++ [event]) start' := by
  obtain ⟨t', start', hpush, hkept, hholds⟩ := h.push event
  refine ⟨t', start', ?_, hkept.trans hstarted, hholds⟩
  simp only [tracePushEvent, hs, hstarted, hpush]
  rfl

theorem update_update (s : TraceBuffers) (coreId : Core) (o o' : Option TraceBuffer) :
    Function.update (Function.update s coreId o) coreId o' = Function.update s coreId o' :=
  @Function.update_idem Core _ (fun _ => Option TraceBuffer) coreId o o' s

theorem tracePushEvents_holds {s : TraceBuffers} {coreId : Core} {t : TraceBuffer}
    {l : List TraceEvt} {start : Nat} (hs : s coreId = some t) (hstarted : t.started = true)
    (h : t.Holds l start) (events : List TraceEvt) :
    ∃ t' start', tracePushEvents coreId events s = .ok (Function.update s coreId (some t')) ∧
      t'.started = true ∧ t'.Holds (l ++ events) start' := by
  induction events generalizing s t l start with
  | nil =>
    refine ⟨t, start, ?_, hstarted, (List.append_nil l).symm ▸ h⟩
    rw [← hs, Function.update_eq_self]
    rfl
  | cons event events ih =>
    obtain ⟨t₁, start₁, hpush, hstarted₁, hholds₁⟩ := tracePushEvent_holds hs hstarted h event
    obtain ⟨t', start', hrest, hstarted', hholds'⟩ :=
      ih (Function.update_self coreId (some t₁) s) hstarted₁ hholds₁
    rw [update_update] at hrest
    refine ⟨t', start', ?_, hstarted', ?_⟩
    · rw [tracePushEvents, List.foldlM_cons, hpush]
      exact hrest
    · rwa [List.append_assoc] at hholds'

theorem traceBufferStart_holds {s : TraceBuffers} {coreId : Core} {t : TraceBuffer}
    {l : List TraceEvt} {start : Nat} (hs : s coreId = some t) (h : t.Holds l start)
    (c : Clocks) :
    ∃ t' start', traceBufferStart coreId c s = .ok (Function.update s coreId (some t')) ∧
      t'.Holds (l ++ c.events) start' := by
  cases hstarted : t.started with
  | true =>
    obtain ⟨t', start', hsync, -, hholds⟩ := tracePushEvents_holds hs hstarted h c.events
    refine ⟨t', start', ?_, hholds⟩
    simp only [traceBufferStart, hs, hstarted]
    exact hsync
  | false =>
    obtain ⟨t', start', hsync, -, hholds⟩ := tracePushEvents_holds
      (Function.update_self coreId (some { t with started := true }) s) rfl (h.started true) c.events
    rw [update_update] at hsync
    refine ⟨t', start', ?_, hholds⟩
    simp only [traceBufferStart, hs, hstarted]
    exact hsync

/-- Every buffer holds the end of the events that wait. -/
structure Traced (calls : List Call) (s : TraceBuffers) : Prop where
  absent : ∀ coreId, s coreId = none → pending coreId calls = []
  holds : ∀ coreId t, s coreId = some t → ∃ start, t.Holds (pending coreId calls) start

namespace Traced

variable {calls : List Call} {s : TraceBuffers}

theorem update (h : Traced calls s) (c : Call) {t : TraceBuffer} {n : Nat}
    (ht : t.Holds (c.queue (pending c.coreId calls)) n) :
    Traced (calls ++ [c]) (Function.update s c.coreId (some t)) := by
  constructor
  · intro coreId hnone
    by_cases hcore : c.coreId = coreId
    · subst hcore
      rw [Function.update_self] at hnone
      cases hnone
    · rw [Function.update_of_ne (Ne.symm hcore)] at hnone
      rw [pending_concat, if_neg hcore]
      exact h.absent coreId hnone
  · intro coreId t' hsome
    by_cases hcore : c.coreId = coreId
    · subst hcore
      rw [Function.update_self] at hsome
      obtain rfl := Option.some.inj hsome
      rw [pending_concat, if_pos rfl]
      exact ⟨n, ht⟩
    · rw [Function.update_of_ne (Ne.symm hcore)] at hsome
      rw [pending_concat, if_neg hcore]
      exact h.holds coreId t' hsome

/-- A call ends in an assertion, or it succeeds; the events it prints waited before. -/
def Outcome (calls : List Call) (s : TraceBuffers) (piFcCoreId : Core) (c : Call) : Prop :=
  (∃ message, c.run piFcCoreId s = .error (.assertion message c.coreId)) ∨
    ∃ prints s', c.run piFcCoreId s = .ok (prints, s') ∧ Traced (calls ++ [c]) s' ∧
      (prints.filterMap Print.event? ++ c.queue (pending c.coreId calls)).Sublist
        (pending c.coreId calls ++ c.events)

theorem init (h : Traced calls s) (piFcCoreId coreId : Core) (cluster allocated : Bool) :
    Outcome calls s piFcCoreId (.init coreId cluster allocated) := by
  by_cases hnone : s coreId = none
  · have hempty := h.absent coreId hnone
    simp only [Outcome, Call.run, traceBufferInit, hnone, Option.isSome_none]
    split
    · rename_i hfalse
      cases hfalse
    · split
      · exact .inl ⟨_, rfl⟩
      · split
        · exact .inl ⟨_, rfl⟩
        · refine .inr ⟨[], _, rfl, h.update (.init coreId cluster allocated) (n := 0) ?_,
            List.Sublist.refl _⟩
          change TraceBuffer.fresh.Holds (pending coreId calls ++ []) 0
          rw [hempty]
          exact .fresh
  · refine .inl ⟨"Trace buffer for core %d already initialized\n", ?_⟩
    rw [Call.run, traceBufferInit, if_pos (Option.isSome_iff_ne_none.mpr hnone)]
    rfl

theorem start (h : Traced calls s) (piFcCoreId coreId : Core) (clocks : Clocks) :
    Outcome calls s piFcCoreId (.start coreId clocks) := by
  cases hs : s coreId with
  | none =>
    refine .inl ⟨"Trace buffer for core %d not initialized\n", ?_⟩
    simp only [Call.run, traceBufferStart, hs]
    rfl
  | some t =>
    obtain ⟨start, hholds⟩ := h.holds coreId t hs
    obtain ⟨t', start', hok, hholds'⟩ := traceBufferStart_holds hs hholds clocks
    refine .inr ⟨[], _, ?_, h.update (.start coreId clocks) hholds', List.Sublist.refl _⟩
    rw [Call.run, hok]
    rfl

theorem push (h : Traced calls s) (piFcCoreId coreId : Core) (event : TraceEvt) :
    Outcome calls s piFcCoreId (.push coreId event) := by
  cases hs : s coreId with
  | none =>
    refine .inl ⟨"Trace buffer for core %d not initialized\n", ?_⟩
    simp only [Call.run, tracePushEvent, hs]
    rfl
  | some t =>
    cases hstarted : t.started with
    | false =>
      refine .inl ⟨"Trace buffer for core %d not started\n", ?_⟩
      simp only [Call.run, tracePushEvent, hs, hstarted]
      rfl
    | true =>
      obtain ⟨start, hholds⟩ := h.holds coreId t hs
      obtain ⟨t', start', hok, -, hholds'⟩ := tracePushEvent_holds hs hstarted hholds event
      refine .inr ⟨[], _, ?_, h.update (.push coreId event) hholds', List.Sublist.refl _⟩
      rw [Call.run, hok]
      rfl

theorem dump (h : Traced calls s) (piFcCoreId coreId : Core) :
    Outcome calls s piFcCoreId (.dump coreId) := by
  cases hs : s coreId with
  | none =>
    refine .inr ⟨[], s, ?_, ⟨?_, ?_⟩, List.nil_sublist _⟩
    · simp only [Call.run, traceBufferDumpCore, hs]
    · intro coreId' hnone
      rw [pending_concat]
      split
      · rfl
      · exact h.absent coreId' hnone
    · intro coreId' t hsome
      rw [pending_concat, if_neg]
      · exact h.holds coreId' t hsome
      · rintro rfl
        rw [Call.coreId, hs] at hsome
        cases hsome
  | some t =>
    obtain ⟨start, hholds⟩ := h.holds coreId t hs
    obtain ⟨hdump, hempty⟩ := hholds.dump coreId
    refine .inr ⟨printed coreId (latest (pending coreId calls)), _, ?_,
      h.update (.dump coreId) hempty, ?_⟩
    · simp only [Call.run, traceBufferDumpCore, hs, hdump]
      rfl
    · rw [event?_printed]
      change (latest (pending coreId calls) ++ []).Sublist (pending coreId calls ++ [])
      rw [List.append_nil, List.append_nil]
      exact List.drop_sublist _ _

theorem run (h : Traced calls s) (piFcCoreId : Core) (c : Call) :
    Outcome calls s piFcCoreId c := by
  cases c with
  | init coreId cluster allocated => exact h.init piFcCoreId coreId cluster allocated
  | start coreId clocks => exact h.start piFcCoreId coreId clocks
  | push coreId event => exact h.push piFcCoreId coreId event
  | dump coreId => exact h.dump piFcCoreId coreId

end Traced

/-! ## Runs -/

section
variable {piFcCoreId : Core} {log : List (Call × List Print)} {s : TraceBuffers}

theorem runs_call (h : (traces piFcCoreId).Runs log s) (c : Call) {prints : List Print}
    {s' : TraceBuffers} (hcall : c.run piFcCoreId s = .ok (prints, s')) :
    (traces piFcCoreId).Runs (log ++ [(c, prints)]) s' :=
  h.step (e := (c, prints)) hcall

theorem traced (h : (traces piFcCoreId).Runs log s) : Traced (log.map Prod.fst) s := by
  refine h.invariant (P := fun log s => Traced (log.map Prod.fst) s)
    ⟨fun _ _ => rfl, fun _ _ hsome => absurd hsome (Option.some_ne_none _).symm⟩ ?_
  intro log s e s' ih hstep
  rw [List.map_append, List.map_singleton]
  rcases ih.run piFcCoreId e.1 with ⟨message, hfail⟩ | ⟨prints, s'', hok, htraced, -⟩
  · cases hstep.symm.trans hfail
  · obtain ⟨-, rfl⟩ := Prod.mk.inj (Except.ok.inj (hok.symm.trans hstep))
    exact htraced

/-- Every event is printed at most once, in the order of recording. -/
theorem dumped_sublist (h : (traces piFcCoreId).Runs log s) (coreId : Core) :
    (dumped coreId log ++ pending coreId (log.map Prod.fst)).Sublist
      (pushed coreId (log.map Prod.fst)) := by
  induction h with
  | init => exact List.Sublist.refl _
  | @step log s s' e hruns hstep ih =>
    rw [List.map_append, List.map_singleton, dumped_concat, pending_concat, pushed_concat]
    split
    · rename_i hcore
      rcases (traced hruns).run piFcCoreId e.1 with ⟨message, hfail⟩ | ⟨prints, s'', hok, -, hsub⟩
      · cases hstep.symm.trans hfail
      · obtain ⟨hprints, -⟩ := Prod.mk.inj (Except.ok.inj (hok.symm.trans hstep))
        rw [hcore, hprints] at hsub
        rw [List.append_assoc]
        refine (hsub.append_left (dumped coreId log)).trans ?_
        rw [← List.append_assoc]
        exact ih.append_right _
    · exact ih

theorem pending_append (coreId : Core) (earlier : List Call) {recent : List Call}
    (hrecent : .dump coreId ∉ recent) :
    pending coreId (earlier ++ recent) = pending coreId earlier ++ pushed coreId recent := by
  induction recent using List.reverseRecOn with
  | nil => rw [List.append_nil, pushed, List.filter_nil, List.flatMap_nil, List.append_nil]
  | append_singleton recent c ih =>
    rw [List.mem_append, not_or, List.mem_singleton] at hrecent
    rw [← List.append_assoc, pending_concat, pushed_concat, ih hrecent.1]
    split
    · rename_i hcore
      rw [← List.append_assoc]
      cases c with
      | dump coreId' => exact absurd (congrArg Call.dump hcore.symm) hrecent.2
      | init _ _ _ => rfl
      | start _ _ => rfl
      | push _ _ => rfl
    · rfl

/-- The events that wait are those recorded after the last dump. -/
theorem pending_since (coreId : Core) {calls recent : List Call} (hrecent : .dump coreId ∉ recent)
    (h : calls = recent ∨ ∃ earlier, calls = earlier ++ .dump coreId :: recent) :
    pending coreId calls = pushed coreId recent := by
  rcases h with rfl | ⟨earlier, rfl⟩
  · exact pending_append coreId [] hrecent
  · have hempty : pending coreId (earlier ++ [.dump coreId]) = [] := by
      rw [pending_concat]
      exact if_pos rfl
    have happend := pending_append coreId (earlier ++ [.dump coreId]) hrecent
    rw [hempty, List.append_assoc] at happend
    exact happend

/-- **The trace buffers.** After any calls, no call leaves a buffer or loops, a core that
is started records events, and a dump prints the last events recorded since the one
before, in order, and leaves the buffer empty; no event is printed twice. -/
theorem dump_prints_latest (h : (traces piFcCoreId).Runs log s) (coreId : Core) :
    (∀ c, Call.run piFcCoreId s c ≠ .error .outside ∧ Call.run piFcCoreId s c ≠ .error .diverged) ∧
      (∀ t, s coreId = some t → t.started = true →
        ∀ event, ∃ s', tracePushEvent coreId event s = .ok s') ∧
      (∀ t, s coreId = some t → ∃ t',
        traceBufferDumpCore coreId s = .ok
          (printed coreId (latest (pending coreId (log.map Prod.fst))),
            Function.update s coreId (some t')) ∧ t'.eventCount = 0) ∧
      (∀ recent, .dump coreId ∉ recent → (log.map Prod.fst = recent ∨
          ∃ earlier, log.map Prod.fst = earlier ++ .dump coreId :: recent) →
        pending coreId (log.map Prod.fst) = pushed coreId recent) ∧
      (dumped coreId log ++ pending coreId (log.map Prod.fst)).Sublist
        (pushed coreId (log.map Prod.fst)) := by
  have htraced := traced h
  refine ⟨?_, ?_, ?_, ?_, dumped_sublist h coreId⟩
  · intro c
    rcases htraced.run piFcCoreId c with ⟨message, hfail⟩ | ⟨prints, s', hok, -, -⟩
    · rw [hfail]
      constructor <;> intro heq <;> cases heq
    · rw [hok]
      constructor <;> intro heq <;> cases heq
  · intro t hs hstarted event
    obtain ⟨start, hholds⟩ := htraced.holds coreId t hs
    obtain ⟨t', start', hok, -, -⟩ := tracePushEvent_holds hs hstarted hholds event
    exact ⟨_, hok⟩
  · intro t hs
    obtain ⟨start, hholds⟩ := htraced.holds coreId t hs
    obtain ⟨hdump, -⟩ := hholds.dump coreId
    refine ⟨t.emptied, ?_, rfl⟩
    simp only [traceBufferDumpCore, hs, hdump]
    rfl
  · intro recent hrecent hsplit
    exact pending_since coreId hrecent hsplit

end

/-- A core is started, records an event and is dumped. -/
theorem dump_prints_latest_start :
    ∃ log s, (traces 0).Runs log s ∧ (dumped 0 log).length = 3 ∧
      (dumped 0 log ++ pending 0 (log.map Prod.fst)).Sublist (pushed 0 (log.map Prod.fst)) := by
  have hinit : (traces 0).Runs [] fun _ => none := .init
  have hallocated := runs_call hinit (.init 0 false true) rfl
  have hstarted := runs_call hallocated (.start 0 ⟨70000, 5, 0⟩) rfl
  have hpushed := runs_call hstarted (.push 0 ⟨7⟩) rfl
  have hdumped := runs_call hpushed (.dump 0) rfl
  exact ⟨_, _, hdumped, rfl, (dump_prints_latest hdumped 0).2.2.2.2⟩

end AiDeck.Trace
