import AiDeck.Com.TaskInvariant

/-! # Packets over the link -/
namespace AiDeck.Com
open AiDeck.Lib AiDeck.Lib.Bytes

/-- Packets with a length, in both directions, are carried once, entire and in order: `carried`
and `put` name the packet that `com_task` holds. `edges` says where the edges of the NINA are, and
`awake` that the first wait is not missed by a packet. -/
structure LinkSafe (s : ComState) : Prop where
  carried : nonEmpty s.written =
    nonEmpty (s.transfers.map ComTransfer.tx) ++ toSend s.txBuff s.point ++ nonEmpty s.txq
  put : nonEmpty (s.transfers.map ComTransfer.rx) = s.put ++ toPut s.rxBuff s.point
  read : s.put = s.read ++ s.rxq
  complete : ∀ t ∈ s.transfers, t.Complete
  inside : s.point ≠ .outside
  edge : s.transfers.length ≤ s.started ∧ s.started ≤ s.edges
  edges : s.edges = s.started + s.evGroup.nina.toNat + held s.evBits s.txBuff s.point + s.missed
  awake : s.point = .firstWait → s.txq ≠ [] → s.evGroup.txQueue = true ∨ 0 < s.writers

/-- **The link delivers every packet once, complete and in order**, in every state reached by the
tasks that write and read, the edges of the NINA and `com_task`. -/
theorem comTask_safe (s : ComState) (h : comLink.Reachable s) : LinkSafe s := by
  have hinv := comInv_reachable h
  have hedges := hinv.edges
  have hstarted := hinv.started
  exact {
    carried := hinv.sent
    put := hinv.put
    read := hinv.read
    complete := hinv.complete
    inside := fun hpoint => by
      have hready := hinv.ready
      rw [hpoint] at hready
      exact hready
    edge := ⟨by omega, by omega⟩
    edges := hedges
    awake := fun hpoint => by
      have hready := hinv.ready
      rw [hpoint] at hready
      exact hready }

theorem comReachable_run (events : List ComEvent) {s : ComState}
    (hrun : events.foldlM comStep .start = some s) : comLink.Reachable s :=
  Transition.Reachable.run events (.init rfl) (fun _ e _ hstep => ⟨e, hstep⟩) hrun

/-- A packet with the length of its routing. -/
def routingOnly : Packet := Packet.zero.store 0 [2, 0] (by decide)

/-- A packet is written, and the NINA answers with one. -/
def exchange : List ComEvent :=
  [.setupNinaRttPin, .write routingOnly, .wrote, .task, .task, .task, .task, .task, .task, .rise,
    .task, .task, .transfer (headerOnly 10 ⟨4, 3, 1, 0, 5, 0⟩), .task]

theorem comTask_safe_exchange :
    ∃ s, exchange.foldlM comStep .start = some s ∧ s.point = .checking ∧ s.put.length = 1 ∧
      LinkSafe s :=
  ⟨_, rfl, rfl, rfl, comTask_safe _ (comReachable_run exchange rfl)⟩

/-- A packet without a length is taken from the queue and not carried. -/
theorem emptyPacket_dropped :
    ∃ s, comLink.Reachable s ∧ s.point = .checking ∧ s.transfers = [] ∧ s.txq = [] ∧
      Packet.zero ∈ s.written ∧ Packet.zero.len.toNat ≤ mtu :=
  ⟨_, comReachable_run [.write .zero, .wrote, .task, .task, .task, .task, .task, .task, .task] rfl,
    rfl, rfl, rfl, List.mem_singleton_self _, by decide⟩

end AiDeck.Com
