import AiDeck.Com.Task

/-! # The invariant of the link task

Packets are where they were put, every edge of the NINA is a bit, in `evBits`, used or missed, and
a packet that the task does not see comes with a bit. -/
namespace AiDeck.Com
open AiDeck.Lib AiDeck.Lib.Bytes

/-- The packets with a length. -/
def nonEmpty (l : List Packet) : List Packet := l.filter fun p => p.len > 0

theorem nonEmpty_append (l l' : List Packet) :
    nonEmpty (l ++ l') = nonEmpty l ++ nonEmpty l' := List.filter_append ..

theorem nonEmpty_of_pos {p : Packet} (h : p.len > 0) : nonEmpty [p] = [p] := by
  rw [nonEmpty, List.filter_singleton, decide_eq_true h]
  rfl

theorem nonEmpty_of_not_pos {p : Packet} (h : ¬ p.len > 0) : nonEmpty [p] = [] := by
  rw [nonEmpty, List.filter_singleton, decide_eq_false h]
  rfl

/-- Edges in the bits of a wait, until the transfer is started. -/
def held (evBits : EventBits) (txBuff : Packet) : ComPoint → Nat
  | .taking | .receiving | .asking => evBits.nina.toNat
  | .initiating => (evBits.nina || txBuff.len > 0).toNat
  | _ => 0

/-- The packet in `tx_buff`, until it is carried. -/
def toSend (txBuff : Packet) : ComPoint → List Packet
  | .asking | .secondWait | .initiating | .transferring => nonEmpty [txBuff]
  | _ => []

/-- The packet in `rx_buff`, until it is put into `rxq`. -/
def toPut (rxBuff : Packet) : ComPoint → List Packet
  | .queueing => nonEmpty [rxBuff]
  | _ => []

/-- Transfers that are started and not made. -/
def underWay : ComPoint → Nat
  | .transferring => 1
  | _ => 0

/-- A transfer that clocks both packets entirely. -/
structure ComTransfer.Complete (t : ComTransfer) : Prop where
  pos : 0 < t.sizeLeft
  words : t.sizeLeft % 4 = 0
  lengths : (2 + max t.tx.len.toNat (espLen t.esp).toNat : Int) ≤ initialTransferSize + t.sizeLeft
  inside : initialTransferSize + t.sizeLeft ≤ (sizeofPacket : Int)
  length : t.rx.len = espLen t.esp
  received : t.rx.message = segment t.esp 0 (2 + (espLen t.esp).toNat)

section
variable (s : ComState)

/-- What a statement relies on. -/
def Ready : ComPoint → Prop
  | .reading => s.started = 0
  | .starting => s.started = 0 ∧ (s.startupEspRttValue = true → 0 < s.edges)
  | .firstWait => s.txq ≠ [] → s.evGroup.txQueue = true ∨ 0 < s.writers
  | .receiving => s.txq ≠ []
  | .secondWait => s.evBits.nina = false ∧ s.txBuff.len > 0
  | .outside => False
  | _ => True

structure ComInv : Prop where
  sent : nonEmpty s.written =
    nonEmpty (s.transfers.map ComTransfer.tx) ++ toSend s.txBuff s.point ++ nonEmpty s.txq
  put : nonEmpty (s.transfers.map ComTransfer.rx) = s.put ++ toPut s.rxBuff s.point
  read : s.put = s.read ++ s.rxq
  edges : s.edges = s.started + s.evGroup.nina.toNat + held s.evBits s.txBuff s.point + s.missed
  bound : s.edges ≤ s.transfers.length + 1
  started : s.started = s.transfers.length + underWay s.point
  pin : s.ninaRtt = true → 0 < s.edges
  short : s.txBuff.len.toNat ≤ mtu ∧ ∀ p ∈ s.txq, p.len.toNat ≤ mtu
  complete : ∀ t ∈ s.transfers, t.Complete
  ready : Ready s s.point

end

theorem comInv_start : ComInv .start where
  sent := rfl
  put := rfl
  read := rfl
  edges := rfl
  bound := Nat.zero_le _
  started := rfl
  pin h := by cases h
  short := ⟨by decide, fun p hp => absurd hp List.not_mem_nil⟩
  complete t ht := absurd ht List.not_mem_nil
  ready := rfl

/-! ## The other tasks and the NINA -/

section
variable {s t : ComState}

theorem ComInv.write (h : ComInv s) {p : Packet} (hp : p.len.toNat ≤ mtu) :
    ComInv { s with txq := s.txq ++ [p], written := s.written ++ [p], writers := s.writers + 1 } where
  sent := by
    show nonEmpty (s.written ++ [p]) = _
    rw [nonEmpty_append, h.sent, List.append_assoc, ← nonEmpty_append]
  put := h.put
  read := h.read
  edges := h.edges
  bound := h.bound
  started := h.started
  pin := h.pin
  short := ⟨h.short.1, by
    intro q hq
    rcases List.mem_append.mp hq with hq | hq
    · exact h.short.2 q hq
    · exact List.mem_singleton.mp hq ▸ hp⟩
  complete := h.complete
  ready := by
    have hready := h.ready
    show Ready _ s.point
    cases hpoint : s.point with
    | firstWait => exact fun _ => .inr (Nat.succ_pos _)
    | receiving => exact List.append_ne_nil_of_right_ne_nil _ (List.cons_ne_nil p [])
    | _ =>
      rw [hpoint] at hready
      exact hready

theorem ComInv.wrote (h : ComInv s) :
    ComInv { s with
      evGroup := { s.evGroup with txQueue := true }, writers := s.writers - 1 } where
  sent := h.sent
  put := h.put
  read := h.read
  edges := h.edges
  bound := h.bound
  started := h.started
  pin := h.pin
  short := h.short
  complete := h.complete
  ready := by
    have hready := h.ready
    show Ready _ s.point
    cases hpoint : s.point with
    | firstWait => exact fun _ => .inl rfl
    | _ =>
      rw [hpoint] at hready
      exact hready

theorem ComInv.taken (h : ComInv s) {p : Packet} {rxq : List Packet} (hrxq : s.rxq = p :: rxq) :
    ComInv { s with rxq := rxq, read := s.read ++ [p] } where
  sent := h.sent
  put := h.put
  read := by
    show s.put = s.read ++ [p] ++ rxq
    rw [h.read, hrxq, List.append_assoc]
    rfl
  edges := h.edges
  bound := h.bound
  started := h.started
  pin := h.pin
  short := h.short
  complete := h.complete
  ready := h.ready

theorem ComInv.fall (h : ComInv s) : ComInv { s with ninaRtt := false } :=
  { h with pin := fun hpin => absurd hpin Bool.false_ne_true }

/-- No edge is left when the NINA raises its pin. -/
theorem ComInv.no_edge (h : ComInv s) (hedges : s.edges ≤ s.transfers.length) :
    s.evGroup.nina = false ∧ held s.evBits s.txBuff s.point = 0 ∧ s.missed = 0 ∧
      s.edges = s.started := by
  have hsum := h.edges
  have hstarted := h.started
  have hbit : s.evGroup.nina.toNat = 0 := by omega
  refine ⟨?_, by omega, by omega, by omega⟩
  cases hnina : s.evGroup.nina with
  | false => rfl
  | true =>
    rw [hnina] at hbit
    cases hbit

theorem ComInv.rise (h : ComInv s) (hedges : s.edges ≤ s.transfers.length) :
    ComInv s.riseNinaRtt := by
  obtain ⟨hnina, hheld, hmissed, hused⟩ := h.no_edge hedges
  have hready : Ready { s with ninaRtt := true, edges := s.edges + 1 } s.point := by
    have hready := h.ready
    cases hpoint : s.point with
    | starting =>
      rw [hpoint] at hready
      exact ⟨hready.1, fun _ => Nat.succ_pos _⟩
    | _ =>
      rw [hpoint] at hready
      exact hready
  unfold ComState.riseNinaRtt
  cases hnotif : s.ninaRttNotif with
  | true =>
    simp only [if_true]
    refine ⟨h.sent, h.put, h.read, ?_, Nat.succ_le_succ hedges, h.started, fun _ => Nat.succ_pos _,
      h.short, h.complete, hready⟩
    show s.edges + 1 = s.started + 1 + held s.evBits s.txBuff s.point + s.missed
    omega
  | false =>
    simp only [Bool.false_eq_true, if_false]
    refine ⟨h.sent, h.put, h.read, ?_, Nat.succ_le_succ hedges, h.started, fun _ => Nat.succ_pos _,
      h.short, h.complete, hready⟩
    show s.edges + 1 = s.started + s.evGroup.nina.toNat + held s.evBits s.txBuff s.point +
      (s.missed + 1)
    rw [hnina]
    simp only [Bool.toNat_false]
    omega

/-! ## Transfers -/

theorem ComInv.transfer (h : ComInv s) (hpoint : s.point = .transferring) {esp : Nat → UInt8}
    (hesp : (espLen esp).toNat ≤ mtu) : ComInv (s.transfer esp) := by
  have hfits := (sizeLeft_fits_iff s.txBuff.len.toNat (espLen esp).toNat).mpr ⟨h.short.1, hesp⟩
  obtain ⟨p, l, hok, hbytes⟩ := comTransfer_ok s.rxBuff hfits
  obtain ⟨hpos, hwords, hlo, -⟩ := sizeLeft_spec s.txBuff.len.toNat (espLen esp).toNat
  have hlen := (header_received hbytes).1
  have hcomplete : ComTransfer.Complete
      ⟨s.txBuff, esp, sizeLeft s.txBuff.len.toNat (espLen esp).toNat, p⟩ := by
    refine ⟨hpos, hwords, ?_, hfits, hlen, ?_⟩
    · change (2 + max s.txBuff.len.toNat (espLen esp).toNat : Int) ≤
        4 + sizeLeft s.txBuff.len.toNat (espLen esp).toNat
      omega
    · have hle : 2 + (espLen esp).toNat ≤ initialTransferSize +
          (sizeLeft s.txBuff.len.toNat (espLen esp).toNat).toNat := by
        change _ ≤ 4 + _
        omega
      show p.message = _
      rw [Packet.message, hlen, hbytes, List.take_append_of_le_length
        (by rw [segment_length]; exact hle), segment_take _ _ hle]
  obtain ⟨hsent, hput, hread, hedges, hbound, hstarted, hpin, hshort, hall, -⟩ := h
  rw [hpoint] at hsent hput hedges hstarted
  generalize hleft : sizeLeft s.txBuff.len.toNat (espLen esp).toNat = left at hok hcomplete
  have hmade : s.transfer esp =
      { s with
        gap8Rtt := false
        rxBuff := p
        transfers := s.transfers ++ [⟨s.txBuff, esp, left, p⟩]
        point := .queueing } := by
    unfold ComState.transfer
    rw [hok]
  rw [hmade]
  refine ⟨?_, ?_, hread, hedges, ?_, ?_, hpin, hshort, ?_, trivial⟩
  · show nonEmpty s.written = nonEmpty ((s.transfers ++ [_]).map ComTransfer.tx) ++ [] ++ _
    rw [List.map_append, List.map_singleton, nonEmpty_append, List.append_nil]
    exact hsent
  · show nonEmpty ((s.transfers ++ [_]).map ComTransfer.rx) = s.put ++ nonEmpty [p]
    rw [List.map_append, List.map_singleton, nonEmpty_append, hput]
    exact congrArg (· ++ _) (List.append_nil _)
  · show s.edges ≤ (s.transfers ++ [_]).length + 1
    rw [List.length_append]
    exact hbound.trans (Nat.succ_le_succ (Nat.le_add_right _ _))
  · show s.started = (s.transfers ++ [_]).length + 0
    rw [List.length_append]
    exact hstarted
  · intro t ht
    rcases List.mem_append.mp ht with ht | ht
    · exact hall t ht
    · exact List.mem_singleton.mp ht ▸ hcomplete

/-! ## The task -/

theorem ComInv.starting (h : ComInv s) (hpoint : s.point = .starting) :
    ComInv ((if s.startupEspRttValue then { s.setNinaBit with missed := 0 } else s).goto
      .checking) := by
  obtain ⟨hsent, hput, hread, hedges, hbound, hstarted, hpin, hshort, hall, hready⟩ := h
  rw [hpoint] at hsent hput hedges hstarted hready
  obtain ⟨hnone, hedge⟩ := hready
  cases hvalue : s.startupEspRttValue with
  | true =>
    have hpos := hedge hvalue
    refine ⟨hsent, hput, hread, ?_, hbound, hstarted, hpin, hshort, hall, trivial⟩
    show s.edges = s.started + 1 + 0 + 0
    change s.started = s.transfers.length + 0 at hstarted
    omega
  | false => exact ⟨hsent, hput, hread, hedges, hbound, hstarted, hpin, hshort, hall, trivial⟩

theorem ComInv.reading (h : ComInv s) (hpoint : s.point = .reading) :
    ComInv { s with startupEspRttValue := s.ninaRtt, point := .starting } := by
  obtain ⟨hsent, hput, hread, hedges, hbound, hstarted, hpin, hshort, hall, hready⟩ := h
  rw [hpoint] at hsent hput hedges hstarted hready
  exact ⟨hsent, hput, hread, hedges, hbound, hstarted, hpin, hshort, hall, hready, hpin⟩

theorem ComInv.checkingEmpty (h : ComInv s) (hpoint : s.point = .checking)
    (hempty : s.txq.length = 0) : ComInv (s.goto .firstWait) := by
  obtain ⟨hsent, hput, hread, hedges, hbound, hstarted, hpin, hshort, hall, -⟩ := h
  rw [hpoint] at hsent hput hedges hstarted
  refine ⟨hsent, hput, hread, hedges, hbound, hstarted, hpin, hshort, hall, ?_⟩
  exact fun hne => absurd (List.eq_nil_of_length_eq_zero hempty) hne

theorem ComInv.checkingMore (h : ComInv s) (hpoint : s.point = .checking) :
    ComInv { s with evBits := .none, point := .taking } := by
  obtain ⟨hsent, hput, hread, hedges, hbound, hstarted, hpin, hshort, hall, -⟩ := h
  rw [hpoint] at hsent hput hedges hstarted
  exact ⟨hsent, hput, hread, hedges, hbound, hstarted, hpin, hshort, hall, trivial⟩

/-- The wait moves the edge from the bit to `evBits`. -/
theorem ComInv.firstWait (h : ComInv s) (hpoint : s.point = .firstWait) :
    ComInv { s with evBits := s.evGroup, evGroup := .none, point := .taking } := by
  obtain ⟨hsent, hput, hread, hedges, hbound, hstarted, hpin, hshort, hall, -⟩ := h
  rw [hpoint] at hsent hput hedges hstarted
  refine ⟨hsent, hput, hread, ?_, hbound, hstarted, hpin, hshort, hall, trivial⟩
  show s.edges = s.started + 0 + s.evGroup.nina.toNat + s.missed
  exact hedges

theorem ComInv.takingMore (h : ComInv s) (hpoint : s.point = .taking)
    (hmore : s.txq.length > 0) : ComInv (s.goto .receiving) := by
  obtain ⟨hsent, hput, hread, hedges, hbound, hstarted, hpin, hshort, hall, -⟩ := h
  rw [hpoint] at hsent hput hedges hstarted
  exact ⟨hsent, hput, hread, hedges, hbound, hstarted, hpin, hshort, hall,
    List.ne_nil_of_length_pos hmore⟩

theorem ComInv.takingNone (h : ComInv s) (hpoint : s.point = .taking) :
    ComInv { s with txBuff := .zero, point := .asking } := by
  obtain ⟨hsent, hput, hread, hedges, hbound, hstarted, hpin, hshort, hall, -⟩ := h
  rw [hpoint] at hsent hput hedges hstarted
  have hzero : Packet.zero.len.toNat ≤ mtu := by decide
  refine ⟨?_, hput, hread, hedges, hbound, hstarted, hpin, ⟨hzero, hshort.2⟩, hall, trivial⟩
  show _ = _ ++ nonEmpty [Packet.zero] ++ _
  rw [nonEmpty_of_not_pos (by decide)]
  exact hsent

theorem ComInv.receiving (h : ComInv s) (hpoint : s.point = .receiving) {p : Packet}
    {txq : List Packet} (htxq : s.txq = p :: txq) :
    ComInv { s with txBuff := p, txq := txq, point := .asking } := by
  obtain ⟨hsent, hput, hread, hedges, hbound, hstarted, hpin, hshort, hall, -⟩ := h
  rw [hpoint] at hsent hput hedges hstarted
  rw [htxq] at hsent hshort
  obtain ⟨hp, hrest⟩ := List.forall_mem_cons.mp hshort.2
  refine ⟨?_, hput, hread, hedges, hbound, hstarted, hpin, ⟨hp, hrest⟩, hall, trivial⟩
  show nonEmpty s.written = _ ++ nonEmpty [p] ++ nonEmpty txq
  rw [hsent, List.append_assoc, List.append_assoc, ← nonEmpty_append]
  rfl

theorem ComInv.askingSend (h : ComInv s) (hpoint : s.point = .asking) (hlen : s.txBuff.len > 0) :
    ComInv { s with
      gap8Rtt := true, point := if s.evBits.nina then .initiating else .secondWait } := by
  obtain ⟨hsent, hput, hread, hedges, hbound, hstarted, hpin, hshort, hall, -⟩ := h
  rw [hpoint] at hsent hput hedges hstarted
  cases hnina : s.evBits.nina with
  | true =>
    refine ⟨hsent, hput, hread, ?_, hbound, hstarted, hpin, hshort, hall, trivial⟩
    show s.edges = s.started + _ + (s.evBits.nina || _).toNat + s.missed
    rw [hedges, held, hnina]
    rfl
  | false =>
    refine ⟨hsent, hput, hread, ?_, hbound, hstarted, hpin, hshort, hall, ⟨hnina, hlen⟩⟩
    show s.edges = s.started + s.evGroup.nina.toNat + 0 + s.missed
    rw [hedges, held, hnina]
    rfl

theorem ComInv.askingNothing (h : ComInv s) (hpoint : s.point = .asking)
    (hlen : ¬ s.txBuff.len > 0) : ComInv (s.goto .initiating) := by
  obtain ⟨hsent, hput, hread, hedges, hbound, hstarted, hpin, hshort, hall, -⟩ := h
  rw [hpoint] at hsent hput hedges hstarted
  refine ⟨hsent, hput, hread, ?_, hbound, hstarted, hpin, hshort, hall, trivial⟩
  show s.edges = s.started + _ + (s.evBits.nina || decide (s.txBuff.len > 0)).toNat + s.missed
  rw [hedges, held, decide_eq_false hlen, Bool.or_false]
  rfl

/-- The wait uses the edge of the bit for the packet in `tx_buff`. -/
theorem ComInv.secondWait (h : ComInv s) (hpoint : s.point = .secondWait)
    (hbit : s.evGroup.nina = true) :
    ComInv { s with evGroup := { s.evGroup with nina := false }, point := .initiating } := by
  obtain ⟨hsent, hput, hread, hedges, hbound, hstarted, hpin, hshort, hall, hready⟩ := h
  rw [hpoint] at hsent hput hedges hstarted hready
  obtain ⟨hnina, hlen⟩ := hready
  refine ⟨hsent, hput, hread, ?_, hbound, hstarted, hpin, hshort, hall, trivial⟩
  show s.edges = s.started + 0 + (s.evBits.nina || decide (s.txBuff.len > 0)).toNat + s.missed
  rw [hedges, hbit, hnina, decide_eq_true hlen]
  rfl

theorem ComInv.initiating (h : ComInv s) (hpoint : s.point = .initiating)
    (hgo : (s.evBits.nina || decide (s.txBuff.len > 0)) = true) :
    ComInv { s with started := s.started + 1, point := .transferring } := by
  obtain ⟨hsent, hput, hread, hedges, hbound, hstarted, hpin, hshort, hall, -⟩ := h
  rw [hpoint] at hsent hput hedges hstarted
  refine ⟨hsent, hput, hread, ?_, hbound, congrArg (· + 1) hstarted, hpin, hshort, hall, trivial⟩
  show s.edges = s.started + 1 + s.evGroup.nina.toNat + 0 + s.missed
  rw [hedges, held, hgo]
  simp only [Bool.toNat_true]
  omega

/-- A spurious wake-up uses no edge and leaves no packet. -/
theorem ComInv.spurious (h : ComInv s) (hpoint : s.point = .initiating)
    (hspurious : (s.evBits.nina || decide (s.txBuff.len > 0)) = false) :
    ComInv (s.goto .checking) := by
  obtain ⟨hsent, hput, hread, hedges, hbound, hstarted, hpin, hshort, hall, -⟩ := h
  rw [hpoint] at hsent hput hedges hstarted
  obtain ⟨-, hempty⟩ := Bool.or_eq_false_iff.mp hspurious
  refine ⟨?_, hput, hread, ?_, hbound, hstarted, hpin, hshort, hall, trivial⟩
  · rw [toSend, nonEmpty_of_not_pos (of_decide_eq_false hempty)] at hsent
    exact hsent
  · rw [held, hspurious] at hedges
    exact hedges

theorem ComInv.queueing (h : ComInv s) (hpoint : s.point = .queueing) (hlen : s.rxBuff.len > 0) :
    ComInv { s with
      rxq := s.rxq ++ [s.rxBuff], put := s.put ++ [s.rxBuff], point := .checking } := by
  obtain ⟨hsent, hput, hread, hedges, hbound, hstarted, hpin, hshort, hall, -⟩ := h
  rw [hpoint] at hsent hput hedges hstarted
  refine ⟨hsent, ?_, ?_, hedges, hbound, hstarted, hpin, hshort, hall, trivial⟩
  · rw [toPut, nonEmpty_of_pos hlen] at hput
    exact hput.trans (List.append_nil _).symm
  · show s.put ++ [s.rxBuff] = s.read ++ (s.rxq ++ [s.rxBuff])
    rw [hread, List.append_assoc]

theorem ComInv.queueingNothing (h : ComInv s) (hpoint : s.point = .queueing)
    (hlen : ¬ s.rxBuff.len > 0) : ComInv (s.goto .checking) := by
  obtain ⟨hsent, hput, hread, hedges, hbound, hstarted, hpin, hshort, hall, -⟩ := h
  rw [hpoint] at hsent hput hedges hstarted
  refine ⟨hsent, ?_, hread, hedges, hbound, hstarted, hpin, hshort, hall, trivial⟩
  rw [toPut, nonEmpty_of_not_pos hlen] at hput
  exact hput

theorem ComInv.taskStep (h : ComInv s) (hstep : s.taskStep = some t) : ComInv t := by
  have hready := h.ready
  unfold ComState.taskStep at hstep
  cases hpoint : s.point with
  | reading => exact Option.some.inj (hpoint ▸ hstep) ▸ h.reading hpoint
  | starting => exact Option.some.inj (hpoint ▸ hstep) ▸ h.starting hpoint
  | checking =>
    simp only [hpoint] at hstep
    split at hstep
    · exact Option.some.inj hstep ▸ h.checkingEmpty hpoint ‹_›
    · exact Option.some.inj hstep ▸ h.checkingMore hpoint
  | firstWait =>
    simp only [hpoint] at hstep
    split at hstep
    · exact Option.some.inj hstep ▸ h.firstWait hpoint
    · cases hstep
  | taking =>
    simp only [hpoint] at hstep
    split at hstep
    · exact Option.some.inj hstep ▸ h.takingMore hpoint ‹_›
    · exact Option.some.inj hstep ▸ h.takingNone hpoint
  | receiving =>
    rw [hpoint] at hready
    simp only [hpoint] at hstep
    cases htxq : s.txq with
    | nil => exact absurd htxq hready
    | cons p txq =>
      simp only [htxq] at hstep
      exact Option.some.inj hstep ▸ h.receiving hpoint htxq
  | asking =>
    simp only [hpoint] at hstep
    split at hstep
    · exact Option.some.inj hstep ▸ h.askingSend hpoint ‹_›
    · exact Option.some.inj hstep ▸ h.askingNothing hpoint ‹_›
  | secondWait =>
    simp only [hpoint] at hstep
    split at hstep
    · exact Option.some.inj hstep ▸ h.secondWait hpoint ‹_›
    · cases hstep
  | initiating =>
    simp only [hpoint] at hstep
    split at hstep
    · exact Option.some.inj hstep ▸ h.initiating hpoint ‹_›
    · exact Option.some.inj hstep ▸ h.spurious hpoint (Bool.eq_false_iff.mpr ‹_›)
  | transferring => cases hpoint ▸ hstep
  | queueing =>
    simp only [hpoint] at hstep
    split at hstep
    · split at hstep
      · exact Option.some.inj hstep ▸ h.queueing hpoint ‹_›
      · cases hstep
    · exact Option.some.inj hstep ▸ h.queueingNothing hpoint ‹_›
  | outside =>
    rw [hpoint] at hready
    exact hready.elim

theorem ComInv.step (h : ComInv s) {e : ComEvent} (hstep : comStep s e = some t) : ComInv t := by
  cases e with
  | write p =>
    simp only [comStep] at hstep
    split at hstep
    · rename_i hguard
      exact Option.some.inj hstep ▸ h.write hguard.2
    · cases hstep
  | wrote =>
    simp only [comStep] at hstep
    split at hstep
    · exact Option.some.inj hstep ▸ h.wrote
    · cases hstep
  | read =>
    simp only [comStep] at hstep
    cases hrxq : s.rxq with
    | nil =>
      simp only [hrxq] at hstep
      cases hstep
    | cons p rxq =>
      simp only [hrxq] at hstep
      exact Option.some.inj hstep ▸ h.taken hrxq
  | rise =>
    simp only [comStep] at hstep
    split at hstep
    · rename_i hguard
      exact Option.some.inj hstep ▸ h.rise hguard.2
    · cases hstep
  | fall => exact Option.some.inj hstep ▸ h.fall
  | setupNinaRttPin => exact Option.some.inj hstep ▸ { h with }
  | task => exact h.taskStep hstep
  | transfer esp =>
    simp only [comStep] at hstep
    split at hstep
    · rename_i hguard
      exact Option.some.inj hstep ▸ h.transfer hguard.1 hguard.2
    · cases hstep

theorem comInv_reachable (h : comLink.Reachable s) : ComInv s := by
  refine h.invariant (fun s hs => hs ▸ comInv_start) ?_
  rintro s t hinv ⟨e, hstep⟩
  exact hinv.step hstep

end

end AiDeck.Com
