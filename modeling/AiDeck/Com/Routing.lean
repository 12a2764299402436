import AiDeck.Lib.Transition
import AiDeck.Com.Transfer

/-! # Routing received packets

The table of queues in lib/cpx/src/cpx.c: what `cpxInit` and `cpxEnableFunction` store in it and
where `cpx_rx_task` puts a packet. -/
namespace AiDeck.Com
open AiDeck.Lib AiDeck.Lib.Bytes AiDeck.Cpx

/-- `xQueueHandle`: a pointer. -/
abbrev QueueHandle : Type := UInt32
/-- `sizeof(xQueueHandle)` -/
abbrev sizeofQueueHandle : Nat := 4

/-- `memset` at the start of `m`. -/
def memset (m : Nat → UInt8) (c n : Nat) : Nat → UInt8 := overwrite m 0 (List.replicate n (.ofNat c))

/-- `queues[function]` read, in a table of `CPX_F_LAST` entries. -/
def queueOf (queues : Nat → UInt8) (function : Nat) : Except Fault QueueHandle :=
  if function < cpxFLast then .ok (ofLE32 (segment queues (sizeofQueueHandle * function) 4))
  else .error .outside

/-- `queues[function] = handle` -/
def setQueue (queues : Nat → UInt8) (function : Nat) (handle : QueueHandle) :
    Except Fault (Nat → UInt8) :=
  if function < cpxFLast then .ok (overwrite queues (sizeofQueueHandle * function) (toLE32 handle))
  else .error .outside

/-- The memory of `queues` and, as history, the queue last created for each function. -/
structure Router where
  queues : Nat → UInt8
  created : Nat → Option QueueHandle

/-- The `memset` of `cpxInit`, on memory that is zero at the start. -/
def cpxInit : Router := ⟨memset (fun _ => 0) cpxFLast sizeofQueueHandle, fun _ => none⟩

/-- The handle stored in the entry of its function. -/
def Router.enabled (r : Router) (function : Nat) (handle : QueueHandle) : Router :=
  ⟨overwrite r.queues (sizeofQueueHandle * function) (toLE32 handle),
    Function.update r.created function (some handle)⟩

@[simp] theorem Router.enabled_created_self (r : Router) (function : Nat) (handle : QueueHandle) :
    (r.enabled function handle).created function = some handle := Function.update_self ..

theorem Router.enabled_created_of_ne (r : Router) {function other : Nat} (handle : QueueHandle)
    (h : other ≠ function) : (r.enabled function handle).created other = r.created other :=
  Function.update_of_ne h ..

/-- `handle` is what `xQueueCreate` returns. -/
def cpxEnableFunction (r : Router) (function : Nat) (handle : QueueHandle) :
    Except Fault Router := do
  let queues ← setQueue r.queues function handle
  if handle = 0 then .error .assertion
  else return ⟨queues, Function.update r.created function (some handle)⟩

/-- `cpx_rx_task` from the copy of the data on: the queue it sends `rxp` to, if any. -/
def cpxDispatch (queues : Nat → UInt8) (rxp : CpxPacket) :
    Except Fault (Option (QueueHandle × CpxPacket)) := do
  let queue ← queueOf queues rxp.route.function.toNat
  if queue ≠ 0 then return some (queue, rxp) else return none

/-- One turn of `cpx_rx_task`. -/
def cpxRxTask (queues : Nat → UInt8) (rxpPacked : Packet) :
    Except Fault (Option (QueueHandle × CpxPacket)) := do
  let rxp ← cpxUnpack rxpPacked
  cpxDispatch queues rxp

/-- `cpxInit` and then any calls of `cpxEnableFunction`. -/
def router : Transition Router where
  init r := r = cpxInit
  step r t := ∃ function handle, cpxEnableFunction r function handle = .ok t

/-! ## The table -/

/-- What the `memset` leaves in an entry: it reaches the first one only. -/
def initialHandle (function : Nat) : QueueHandle := if function = 0 then 0x10101010 else 0

/-- Each entry holds the queue created for its function, or what `cpxInit` left there. -/
structure TableInv (r : Router) : Prop where
  entry : ∀ function < cpxFLast,
    queueOf r.queues function = .ok ((r.created function).getD (initialHandle function))
  nonzero : ∀ function handle, r.created function = some handle → handle ≠ 0

section
variable {r t : Router} {function : Nat} {handle : QueueHandle}

theorem cpxInit_inv : TableInv cpxInit where
  entry := by
    intro function hfunction
    rw [queueOf, if_pos hfunction]
    refine congrArg Except.ok ?_
    by_cases hzero : function = 0
    · subst hzero
      rfl
    · have hcells : ∀ i < 4, cpxInit.queues (sizeofQueueHandle * function + i) = 0 := by
        intro i _
        refine overwrite_after (p := 0) (fun _ => 0) (List.replicate sizeofQueueHandle _) ?_
        rw [List.length_replicate]
        change 0 + 4 ≤ 4 * function + i
        omega
      have hzeros : segment cpxInit.queues (sizeofQueueHandle * function) 4 =
          segment (fun _ => 0) 0 4 := by
        refine segment_congr fun i hi => ?_
        rw [hcells i hi]
      rw [hzeros, initialHandle, if_neg hzero]
      rfl
  nonzero := by
    intro function handle h
    cases h

/-- A successful call stores a handle in its own entry. -/
theorem cpxEnableFunction_ok (h : cpxEnableFunction r function handle = .ok t) :
    function < cpxFLast ∧ handle ≠ 0 ∧ t = r.enabled function handle := by
  by_cases hfunction : function < cpxFLast
  · by_cases hzero : handle = 0
    · simp only [cpxEnableFunction, setQueue, if_pos hfunction, if_pos hzero] at h
      cases h
    · simp only [cpxEnableFunction, setQueue, if_pos hfunction, if_neg hzero] at h
      exact ⟨hfunction, hzero, (Except.ok.inj h).symm⟩
  · simp only [cpxEnableFunction, setQueue, if_neg hfunction] at h
    cases h

theorem TableInv.enable (h : TableInv r) (hok : cpxEnableFunction r function handle = .ok t) :
    TableInv t := by
  obtain ⟨hfunction, hne, rfl⟩ := cpxEnableFunction_ok hok
  refine ⟨?_, ?_⟩
  · intro other hother
    rw [queueOf, if_pos hother]
    by_cases hsame : other = function
    · subst hsame
      have hstored := segment_overwrite r.queues (sizeofQueueHandle * other) (toLE32 handle)
      rw [toLE32_length] at hstored
      rw [Router.enabled, hstored, ofLE32_toLE32]
      exact congrArg Except.ok (congrArg (Option.getD · _) (r.enabled_created_self other handle)).symm
    · have hapart := segment_overwrite_disjoint r.queues (p := sizeofQueueHandle * function)
        (q := sizeofQueueHandle * other) (n := 4) (toLE32 handle) (by
          rw [toLE32_length]
          change 4 * other + 4 ≤ 4 * function ∨ 4 * function + 4 ≤ 4 * other
          omega)
      have hentry := h.entry other hother
      rw [queueOf, if_pos hother] at hentry
      rw [r.enabled_created_of_ne handle hsame, ← hentry, Router.enabled, hapart]
  · intro other handle' hcreated
    by_cases hsame : other = function
    · subst hsame
      rw [r.enabled_created_self] at hcreated
      exact Option.some.inj hcreated ▸ hne
    · rw [r.enabled_created_of_ne handle hsame] at hcreated
      exact h.nonzero other handle' hcreated

theorem reachable_table (h : router.Reachable r) : TableInv r := by
  refine h.invariant ?_ ?_
  · rintro s rfl
    exact cpxInit_inv
  · rintro s t hs ⟨function, handle, hok⟩
    exact hs.enable hok

/-- Where a packet goes in terms of the queues created. -/
theorem TableInv.dispatch_iff (h : TableInv r) (rxp : CpxPacket) :
    cpxDispatch r.queues rxp =
        .ok ((r.created rxp.route.function.toNat).map fun queue => (queue, rxp)) ↔
      rxp.route.function.toNat < cpxFLast ∧
        (rxp.route.function = 0 → (r.created 0).isSome) := by
  by_cases hfunction : rxp.route.function.toNat < cpxFLast
  · have hdispatch : cpxDispatch r.queues rxp =
        .ok (if (r.created rxp.route.function.toNat).getD
            (initialHandle rxp.route.function.toNat) ≠ 0 then
          some ((r.created rxp.route.function.toNat).getD
            (initialHandle rxp.route.function.toNat), rxp) else none) := by
      rw [cpxDispatch, h.entry _ hfunction]
      change (if _ then _ else _) = _
      split
      · rfl
      · rfl
    have hzero : rxp.route.function = 0 ↔ rxp.route.function.toNat = 0 := by
      rw [← BitVec.toNat_inj]
      rfl
    rw [hdispatch, hzero]
    cases hcreated : r.created rxp.route.function.toNat with
    | some handle =>
      refine iff_of_true ?_ ⟨hfunction, fun hf => ?_⟩
      · exact congrArg Except.ok (if_pos (h.nonzero _ handle hcreated))
      · rw [← hf, hcreated]
        rfl
    | none =>
      by_cases hf : rxp.route.function.toNat = 0
      · rw [hf] at hcreated ⊢
        simp [initialHandle, hcreated]
      · simp [initialHandle, hf, hfunction]
  · refine iff_of_false ?_ fun hand => hfunction hand.1
    simp [cpxDispatch, queueOf, hfunction, bind, Except.bind]

/-- **When routing is safe.** After `cpxInit` and any calls of `cpxEnableFunction`, a packet that
`cpx_rx_task` has unpacked is put into the queue created for its function, or dropped where none
was, if and only if its function is below `CPX_F_LAST` and, where it is 0, was enabled. -/
theorem cpxRxTask_routed_iff (h : router.Reachable r) {p : Packet} {rxp : CpxPacket}
    (hunpack : cpxUnpack p = .ok rxp) :
    cpxRxTask r.queues p =
        .ok ((r.created rxp.route.function.toNat).map fun queue => (queue, rxp)) ↔
      rxp.route.function.toNat < cpxFLast ∧
        (rxp.route.function = 0 → (r.created 0).isSome) := by
  have htask : cpxRxTask r.queues p = cpxDispatch r.queues rxp := by
    rw [cpxRxTask, hunpack]
    rfl
  rw [htask]
  exact (reachable_table h).dispatch_iff rxp

end

/-- A packet without data from the host for `function`. -/
def emptyPacket (function : BitVec 6) : Packet :=
  Packet.zero.store 0 (toLE16 2 ++ CpxHeader.toBytes ⟨4, 3, 1, 0, function, 0⟩) <| by
    change 0 + 4 ≤ sizeofPacket
    decide

/-- A router with a queue for `CPX_F_APP`. -/
theorem cpxRxTask_routed_app : ∃ r, router.Reachable r ∧
    cpxRxTask r.queues (emptyPacket 5) = .ok (some (0x1C001000, ⟨⟨4, 3, 1, 5, 0⟩, 0, []⟩)) := by
  have happ : router.Reachable (cpxInit.enabled 5 0x1C001000) :=
    .step (.init rfl) ⟨5, 0x1C001000, rfl⟩
  exact ⟨_, happ, (cpxRxTask_routed_iff happ (p := emptyPacket 5) rfl).mpr ⟨by decide, by decide⟩⟩

/-- Function 0 is routed to what the `memset` left, and function 16 is read past the table. -/
theorem function_unroutable : router.Reachable cpxInit ∧ cpxInit.created 0 = none ∧
    cpxRxTask cpxInit.queues (emptyPacket 0) = .ok (some (0x10101010, ⟨⟨4, 3, 1, 0, 0⟩, 0, []⟩)) ∧
    cpxRxTask cpxInit.queues (emptyPacket 16) = .error .outside :=
  ⟨.init rfl, rfl, rfl, rfl⟩

end AiDeck.Com
