import AiDeck.Lib.Ring

/-! # The trace buffers of the cores

`trace_buffer.h` and `trace_buffer.c` of NanoCockpit: every core records its events in a
ring of its own, which is printed and emptied on request. -/
namespace AiDeck.Trace
open AiDeck.Lib

abbrev traceNumCores : Nat := 10
abbrev traceEventsBuffer : Nat := 768

instance traceNumCores_neZero : NeZero traceNumCores := ⟨by decide⟩

/-- The cores that have an entry in `trace_buffers`. -/
abbrev Core : Type := Fin traceNumCores

/-- `trace_evt_e`. -/
inductive TraceEvtId where
  | traceEvtSync
  deriving DecidableEq, Repr

/-- `trace_state_e`. -/
inductive TraceState where
  | traceMarker
  | traceBegin
  | traceEnd
  deriving DecidableEq, Repr

def TraceEvtId.toNat : TraceEvtId → Nat
  | traceEvtSync => 0

def TraceState.toNat : TraceState → Nat
  | traceMarker => 0
  | traceBegin => 1
  | traceEnd => 2

/-- `trace_evt_t`, the member of the union that is printed. -/
structure TraceEvt where
  data : UInt64
  deriving DecidableEq, Repr

/-- The other member of the union, little-endian and packed. -/
def TraceEvt.ofFields (event : TraceEvtId) (state : TraceState) (context : UInt16)
    (perfCounter : UInt32) : TraceEvt :=
  ⟨.ofNat (event.toNat + 2 ^ 8 * state.toNat + 2 ^ 16 * context.toNat +
    2 ^ 32 * perfCounter.toNat)⟩

/-- `trace_buffer_t`. -/
structure TraceBuffer where
  started : Bool
  nextEvent : Int
  eventCount : Int
  buffer : Vector TraceEvt traceEventsBuffer
  deriving DecidableEq

/-- How a call ends that does not return: an assertion with the core it names, an access
outside of `buffer`, or a loop without end. -/
inductive Stop where
  | assertion (message : String) (coreId : Core)
  | outside
  | diverged
  deriving DecidableEq, Repr

/-- `trace_buffers`; `NULL` is `none`. -/
abbrev TraceBuffers : Type := Core → Option TraceBuffer

def TraceBuffer.read (t : TraceBuffer) (i : Int) : Except Stop TraceEvt :=
  if h : 0 ≤ i ∧ i.toNat < traceEventsBuffer then .ok (t.buffer.get ⟨i.toNat, h.2⟩)
  else .error .outside

def TraceBuffer.store (t : TraceBuffer) (i : Int) (event : TraceEvt) : Except Stop TraceBuffer :=
  if h : 0 ≤ i ∧ i.toNat < traceEventsBuffer then
    .ok { t with buffer := t.buffer.set i.toNat event h.2 }
  else .error .outside

/-- `memset(buffer, 0xaa, …)` and the fields that are set after it. -/
def TraceBuffer.fresh : TraceBuffer :=
  { started := false
    nextEvent := 0
    eventCount := 0
    buffer := .replicate traceEventsBuffer ⟨0xaaaaaaaaaaaaaaaa⟩ }

/-- `trace_buffer_init`, with what the calls outside answer: whether `cluster` is given and
whether the memory was allocated. -/
def traceBufferInit (piFcCoreId coreId : Core) (cluster allocated : Bool) (s : TraceBuffers) :
    Except Stop TraceBuffers :=
  if (s coreId).isSome then
    .error (.assertion "Trace buffer for core %d already initialized\n" coreId)
  else if coreId ≠ piFcCoreId ∧ !cluster then
    .error (.assertion "Cluster device required to allocate buffer for core %d\n" coreId)
  else if !allocated then
    .error (.assertion "Failed to allocate memory for trace buffer for core %d\n" coreId)
  else .ok (Function.update s coreId (some .fresh))

/-- The assignments of `trace_push_event`. -/
def TraceBuffer.push (t : TraceBuffer) (event : TraceEvt) : Except Stop TraceBuffer := do
  let t ← t.store t.nextEvent event
  return { t with
    nextEvent := (t.nextEvent + 1).tmod traceEventsBuffer
    eventCount := min (t.eventCount + 1) traceEventsBuffer }

def tracePushEvent (coreId : Core) (event : TraceEvt) (s : TraceBuffers) :
    Except Stop TraceBuffers :=
  match s coreId with
  | none => .error (.assertion "Trace buffer for core %d not initialized\n" coreId)
  | some t =>
    if !t.started then .error (.assertion "Trace buffer for core %d not started\n" coreId)
    else do
      let t ← t.push event
      return Function.update s coreId (some t)

/-- What `trace_sync` reads: the time, and the performance counter before and after it is
reset. -/
structure Clocks where
  time : UInt32
  perfBegin : UInt32
  perfEnd : UInt32

/-- The two events of `trace_sync`. -/
def Clocks.events (c : Clocks) : List TraceEvt :=
  [.ofFields .traceEvtSync .traceBegin (c.time >>> 0 &&& 0xffff).toUInt16 c.perfBegin,
    .ofFields .traceEvtSync .traceEnd (c.time >>> 16 &&& 0xffff).toUInt16 c.perfEnd]

/-- `trace_push_event` for each event. -/
def tracePushEvents (coreId : Core) (events : List TraceEvt) (s : TraceBuffers) :
    Except Stop TraceBuffers :=
  events.foldlM (fun s event => tracePushEvent coreId event s) s

def traceSync (coreId : Core) (c : Clocks) (s : TraceBuffers) : Except Stop TraceBuffers :=
  tracePushEvents coreId c.events s

def traceBufferStart (coreId : Core) (c : Clocks) (s : TraceBuffers) :
    Except Stop TraceBuffers :=
  match s coreId with
  | none => .error (.assertion "Trace buffer for core %d not initialized\n" coreId)
  | some t =>
    let s := if !t.started then Function.update s coreId (some { t with started := true }) else s
    traceSync coreId c s

/-- The calls of `DEBUG_PRINT` in a dump. -/
inductive Print where
  | counts (coreId : Core) (nEvents : Int)
  | event (data : UInt64)
  | newline
  deriving DecidableEq, Repr

/-- The loop of `trace_buffer_dump_core`, with a bound on its rounds. -/
def dumpLoop : Nat → TraceBuffer → Int → Except Stop (List Print × TraceBuffer)
  | 0, _, _ => .error .diverged
  | n + 1, t, firstEvent =>
    if t.eventCount > 0 then do
      let event ← t.read firstEvent
      let (prints, t) ← dumpLoop n { t with eventCount := t.eventCount - 1 }
        ((firstEvent + 1).tmod traceEventsBuffer)
      return (.event event.data :: prints, t)
    else return ([], t)

/-- `trace_buffer_dump_core` on a buffer. -/
def TraceBuffer.dump (coreId : Core) (t : TraceBuffer) : Except Stop (List Print × TraceBuffer) := do
  let firstEvent := (t.nextEvent - t.eventCount + traceEventsBuffer).tmod traceEventsBuffer
  let (prints, t') ← dumpLoop (t.eventCount.toNat + 1) t firstEvent
  return (.counts coreId t.eventCount :: (prints ++ [.newline, .newline]), t')

def traceBufferDumpCore (coreId : Core) (s : TraceBuffers) :
    Except Stop (List Print × TraceBuffers) :=
  match s coreId with
  | none => .ok ([], s)
  | some t => do
    let (prints, t) ← t.dump coreId
    return (prints, Function.update s coreId (some t))

/-! ## What a buffer holds -/

/-- The last events of `l`, as many as there is room for. -/
def latest (l : List TraceEvt) : List TraceEvt := l.rtake traceEventsBuffer

@[simp] theorem latest_length (l : List TraceEvt) :
    (latest l).length = min l.length traceEventsBuffer := by
  rw [latest, List.rtake, List.length_drop]
  omega

@[simp] theorem latest_nil : latest [] = [] := List.rtake_nil traceEventsBuffer

/-- `t` holds the last events of `l`: those before `next_event`, `event_count` of them. -/
structure TraceBuffer.Holds (t : TraceBuffer) (l : List TraceEvt) (start : Nat) : Prop where
  keeps : Keeps traceEventsBuffer (fun i => t.buffer[i]?) start ((l.map some).rtake traceEventsBuffer)
  nextEvent : t.nextEvent = ((start + (latest l).length) % traceEventsBuffer : Nat)
  eventCount : t.eventCount = (latest l).length

theorem rtake_map_some (l : List TraceEvt) (n : Nat) :
    (l.map some).rtake n = (l.rtake n).map some := by
  rw [List.rtake, List.rtake, List.length_map, List.map_drop]

/-- The index after that of a position. -/
theorem index_succ (position : Nat) :
    (((position % traceEventsBuffer : Nat) : Int) + 1).tmod traceEventsBuffer =
      ((position + 1) % traceEventsBuffer : Nat) := by
  rw [Int.tmod_eq_emod_of_nonneg (by omega), ← Int.natCast_succ, ← Int.natCast_emod,
    Nat.succ_eq_add_one, Nat.mod_add_mod]

namespace TraceBuffer.Holds

variable {t : TraceBuffer} {l : List TraceEvt} {start : Nat}

theorem fresh : TraceBuffer.fresh.Holds [] 0 := ⟨rfl, rfl, rfl⟩

theorem started (h : t.Holds l start) (b : Bool) : { t with started := b }.Holds l start :=
  ⟨h.keeps, h.nextEvent, h.eventCount⟩

/-- The next index is inside. -/
theorem nextEvent_lt (h : t.Holds l start) :
    0 ≤ t.nextEvent ∧ t.nextEvent.toNat < traceEventsBuffer := by
  rw [h.nextEvent]
  exact ⟨Int.natCast_nonneg _, Nat.mod_lt _ (by decide)⟩

theorem push (h : t.Holds l start) (event : TraceEvt) :
    ∃ t' start', t.push event = .ok t' ∧ t'.started = t.started ∧ t'.Holds (l ++ [event]) start' := by
  have hlt := h.nextEvent_lt
  have hindex : t.nextEvent.toNat = (start + (latest l).length) % traceEventsBuffer := by
    rw [h.nextEvent, Int.toNat_natCast]
  have hlatest : ((l.map some).rtake traceEventsBuffer).length = (latest l).length := by
    rw [rtake_map_some, List.length_map, latest]
  obtain ⟨start', hkeeps, hend⟩ := h.keeps.overwrite (by decide)
    (s := fun i => (t.buffer.set t.nextEvent.toNat event hlt.2)[i]?) (a := some event)
    (by rw [hlatest, ← hindex, Vector.getElem?_set_self]) (by
      intro i hi
      rw [hlatest, ← hindex] at hi
      exact Vector.getElem?_set_ne hlt.2 hi.symm)
  rw [← List.map_singleton, ← List.map_append] at hkeeps hend
  rw [rtake_map_some, rtake_map_some, List.length_map, List.length_map] at hend
  refine ⟨{ t with
    nextEvent := (t.nextEvent + 1).tmod traceEventsBuffer
    eventCount := min (t.eventCount + 1) traceEventsBuffer
    buffer := t.buffer.set t.nextEvent.toNat event hlt.2 }, start', ?_, rfl, hkeeps, ?_, ?_⟩
  · rw [TraceBuffer.push, TraceBuffer.store, dif_pos hlt]
    rfl
  · change (t.nextEvent + 1).tmod traceEventsBuffer = _
    rw [latest, hend, ← latest, h.nextEvent, index_succ]
  · change min (t.eventCount + 1) (traceEventsBuffer : Int) = _
    rw [h.eventCount, latest_length, latest_length, List.length_append, List.length_singleton]
    simp only [traceEventsBuffer]
    omega

end TraceBuffer.Holds

end AiDeck.Trace
