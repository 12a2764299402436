import AiDeck.Cpx.Spi
import AiDeck.Lib.Duplex

/-! # The payload on the SPI bus

The header, head and tail phases of a transfer (nanocockpit/lib/cpx/cpx_spi.c), seen from
the bus: what is clocked out and in, when the chip select is released, and the tasks
that are pushed. -/
namespace AiDeck.Cpx
open AiDeck.Lib

/-- The bytes a transfer clocks out and in. -/
def SpiTransfer.beats (t : SpiTransfer) : List Beat := Lib.beats (t.length / 8) t.txData t.rxData

/-- What the SPI driver does on the bus, and the pushes of `done_task`. -/
inductive BusEvent where
  | beat (b : Beat)
  | release
  | done
  deriving DecidableEq, Repr

namespace PhaseOp

def transfers : PhaseOp → List SpiTransfer
  | spi t => [t]
  | push => []

def beats : PhaseOp → List Beat
  | spi t => t.beats
  | push => []

/-- The driver clocks the bytes, releases the chip select if asked to and pushes
`done_task`. -/
def events : PhaseOp → List BusEvent
  | spi t => t.beats.map .beat ++ (if t.flags = .auto then [.release] else []) ++ [.done]
  | push => [.done]

/-- A call is over with one push. -/
theorem events_done (op : PhaseOp) : op.events.count .done = 1 := by
  cases op with
  | push => rfl
  | spi t =>
    have hbeats : (t.beats.map BusEvent.beat).count .done = 0 :=
      List.count_eq_zero.mpr (by simp)
    rw [events, List.count_append, List.count_append, hbeats]
    split <;> rfl

end PhaseOp

namespace PhaseCalls

def transfers (calls : PhaseCalls) : List SpiTransfer := calls.flatMap PhaseOp.transfers

def beats (calls : PhaseCalls) : List Beat := calls.flatMap PhaseOp.beats

def events (calls : PhaseCalls) : List BusEvent := calls.flatMap PhaseOp.events

variable (op : PhaseOp)

@[simp] theorem transfers_one : transfers [op] = op.transfers := List.flatMap_singleton ..

@[simp] theorem beats_one : beats [op] = op.beats := List.flatMap_singleton ..

/-- A phase that makes one call pushes its task once. -/
theorem events_one_done : (events [op]).count .done = 1 := by
  rw [events, List.flatMap_singleton, op.events_done]

end PhaseCalls

/-- The addresses of `payload_head ++ payload_tail`. -/
def payload : Option CpxSpiSendReq → List Ptr
  | some r => List.range' r.payloadHead r.headLength.toNat ++
      List.range' r.payloadTail r.tailLength.toNat
  | none => []

/-- The payload pointers are given where the lengths are not zero. -/
def CpxSpiSendReq.Given (r : CpxSpiSendReq) : Prop :=
  (r.headLength ≠ 0 → r.payloadHead ≠ 0) ∧ (r.tailLength ≠ 0 → r.payloadTail ≠ 0)

/-- What a transfer with these requests, of which the received header is known, looks like
on the bus. -/
structure PayloadSplit (sendReq : Option CpxSpiSendReq) (req : CpxSpiReceiveReq)
    (header head tail : PhaseCalls) : Prop where
  /-- The remaining length is not negative: the subtraction does not wrap. -/
  remaining : headLength sendReq ≤ totalLength sendReq (some req) ∧
    remainingLength sendReq (some req) = totalLength sendReq (some req) - headLength sendReq
  /-- The buffer is written from its start, without a gap and not past its end. -/
  stored : ∃ n ≤ cpxSpiMtu,
    (head.beats ++ tail.beats).filterMap Beat.target = List.range' req.buffer n
  /-- The payload is clocked out first. -/
  sent : ((head.beats ++ tail.beats).take (sendLength sendReq)).map Beat.source =
    (payload sendReq).map some
  /-- The bytes that are received are stored in order. -/
  received : ((head.beats ++ tail.beats).take (receiveLength (some req))).map Beat.target =
    (List.range' req.buffer (receiveLength (some req))).map some
  /-- Every transfer has whole words, and at least one. -/
  words : ∀ t ∈ header.transfers ++ head.transfers ++ tail.transfers,
    ∃ n, n ≠ 0 ∧ t.length = n * 4 * 8
  /-- The last transfer releases the chip select, no other does. -/
  chipSelect : ∃ l last, header.transfers ++ head.transfers ++ tail.transfers = l ++ [last] ∧
    last.flags = .auto ∧ ∀ t ∈ l, t.flags = .keep
  /-- Every phase pushes its task once. -/
  done : ∀ calls ∈ [header, head, tail], (PhaseCalls.events calls).count .done = 1

section
variable (emptyHeader : EmptyHeader) (sendReq : Option CpxSpiSendReq) (req : CpxSpiReceiveReq)

theorem payload_length : (payload sendReq).length = sendLength sendReq := by
  cases sendReq with
  | none => rfl
  | some r =>
    change _ = r.header.length.toNat
    rw [payload, List.length_append, List.length_range', List.length_range', r.length_eq]

theorem beats_source_nonNull {n : Nat} {p : Ptr} (h : n ≠ 0 → p ≠ 0) (target : Option Ptr) :
    (beats n (nonNull p) target).map Beat.source = (List.range' p n).map some := by
  by_cases hn : n = 0
  · subst hn
    rfl
  · rw [nonNull, if_neg (h hn), beats_source]

/-- The bytes both phases store, up to whole words. -/
abbrev storedLength : Nat :=
  headLength sendReq + (totalLength sendReq (some req) - headLength sendReq + 3) / 4 * 4

theorem storedLength_le : storedLength sendReq req ≤ cpxSpiMtu := by
  have htotal : totalLength sendReq (some req) ≤ 4088 := totalLength_le sendReq req
  have hhead := headLength_le_totalLength sendReq req
  have hwords := headLength_words sendReq
  change headLength sendReq + _ ≤ 4088
  omega

variable {emptyHeader sendReq req} {header head tail : PhaseCalls}
  (hhead : cpxSpiTransferPayloadHeadAsync emptyHeader sendReq (some req) = .ok head)
  (htail : cpxSpiTransferPayloadTailAsync sendReq (some req) = .ok tail)
include hhead htail

/-- With nothing to send or to receive, only the chip select is released. -/
theorem phases_empty (htotal : totalLength sendReq (some req) = 0) :
    head.beats ++ tail.beats = beats 4 (some emptyHeader.address) none := by
  have hzero : headLength sendReq = 0 :=
    Nat.le_zero.mp (htotal ▸ headLength_le_totalLength sendReq req)
  obtain ⟨head', hhead', ⟨-, rfl⟩ | ⟨hne, -⟩⟩ := transferPayloadHead_spec emptyHeader sendReq req
  · obtain ⟨tail', htail', ⟨-, rfl⟩ | ⟨hne, -⟩⟩ := transferPayloadTail_spec sendReq req
    · obtain rfl := Except.ok.inj (hhead'.symm.trans hhead)
      obtain rfl := Except.ok.inj (htail'.symm.trans htail)
      rw [if_pos htotal]
      rw [PhaseCalls.beats_one, PhaseCalls.beats_one]
      change Lib.beats (4 * 8 / 8) (some emptyHeader.address) none ++ [] = _
      rw [List.append_nil]
    · exact absurd (htotal.trans hzero.symm) hne
  · exact absurd hzero hne

/-- Else the head is clocked out, and the tail with what is received behind it. -/
theorem phases_beats (htotal : totalLength sendReq (some req) ≠ 0) :
    head.beats = beats (headLength sendReq) (nonNull (headBuffer sendReq)) (some req.buffer) ∧
      tail.beats = beats ((totalLength sendReq (some req) - headLength sendReq + 3) / 4 * 4)
        (nonNull (tailBuffer sendReq)) (some (req.buffer + headLength sendReq)) := by
  obtain ⟨head', hhead', hcases⟩ := transferPayloadHead_spec emptyHeader sendReq req
  obtain rfl := Except.ok.inj (hhead'.symm.trans hhead)
  obtain ⟨tail', htail', hcases'⟩ := transferPayloadTail_spec sendReq req
  obtain rfl := Except.ok.inj (htail'.symm.trans htail)
  constructor
  · rcases hcases with ⟨hzero, rfl⟩ | ⟨-, t, rfl, htx, hrx, hlen, -⟩
    · rw [if_neg htotal, hzero]
      rfl
    · rw [PhaseCalls.beats_one, PhaseOp.beats, SpiTransfer.beats, htx, hrx, hlen, Nat.mul_div_cancel _ (by omega)]
  · rcases hcases' with ⟨hdone, rfl⟩ | ⟨-, t, rfl, htx, hrx, hlen, -⟩
    · rw [hdone, Nat.sub_self]
      rfl
    · rw [PhaseCalls.beats_one, PhaseOp.beats, SpiTransfer.beats, htx, hrx, hlen, Nat.mul_div_cancel _ (by omega)]

theorem phases_target (htotal : totalLength sendReq (some req) ≠ 0) :
    (head.beats ++ tail.beats).map Beat.target =
      (List.range' req.buffer (storedLength sendReq req)).map some := by
  obtain ⟨hh, ht⟩ := phases_beats hhead htail htotal
  rw [hh, ht, List.map_append, beats_target, beats_target, ← List.map_append, List.range'_append_1]

theorem phases_stored : ∃ n ≤ cpxSpiMtu,
    (head.beats ++ tail.beats).filterMap Beat.target = List.range' req.buffer n := by
  by_cases htotal : totalLength sendReq (some req) = 0
  · refine ⟨0, Nat.zero_le _, ?_⟩
    rw [phases_empty hhead htail htotal, beats_no_target]
    rfl
  · refine ⟨_, storedLength_le sendReq req, ?_⟩
    have hmap : (head.beats ++ tail.beats).filterMap Beat.target =
        ((head.beats ++ tail.beats).map Beat.target).filterMap id := by
      rw [List.filterMap_map]
      rfl
    rw [hmap, phases_target hhead htail htotal, List.filterMap_map]
    exact List.filterMap_some

theorem phases_received :
    ((head.beats ++ tail.beats).take (receiveLength (some req))).map Beat.target =
      (List.range' req.buffer (receiveLength (some req))).map some := by
  have hle : receiveLength (some req) ≤ totalLength sendReq (some req) := Nat.le_max_right _ _
  by_cases htotal : totalLength sendReq (some req) = 0
  · have hzero : receiveLength (some req) = 0 := Nat.le_zero.mp (htotal ▸ hle)
    rw [hzero]
    rfl
  · have hstored : receiveLength (some req) ≤ storedLength sendReq req := by
      have hhead := headLength_le_totalLength sendReq req
      unfold storedLength
      omega
    rw [List.map_take, phases_target hhead htail htotal, ← List.map_take,
      List.take_range'_of_length_ge hstored]

theorem phases_sent (hgiven : ∀ r ∈ sendReq, r.Given) :
    ((head.beats ++ tail.beats).take (sendLength sendReq)).map Beat.source =
      (payload sendReq).map some := by
  cases sendReq with
  | none => rfl
  | some r =>
    obtain ⟨hgivenHead, hgivenTail⟩ := hgiven r rfl
    have hlength : sendLength (some r) = r.headLength.toNat + r.tailLength.toNat := r.length_eq
    by_cases htotal : totalLength (some r) (some req) = 0
    · have hzero : sendLength (some r) = 0 :=
        Nat.le_zero.mp (htotal ▸ Nat.le_max_left _ _)
      have hnil := payload_length (some r)
      rw [hzero] at hnil
      rw [hzero, List.eq_nil_of_length_eq_zero hnil]
      rfl
    · obtain ⟨hh, ht⟩ := phases_beats hhead htail htotal
      have hle : r.tailLength.toNat ≤
          (totalLength (some r) (some req) - r.headLength.toNat + 3) / 4 * 4 := by
        have hsend : sendLength (some r) ≤ totalLength (some r) (some req) := Nat.le_max_left _ _
        omega
      change head.beats = beats r.headLength.toNat (nonNull r.payloadHead) _ at hh
      change tail.beats = beats ((_ - r.headLength.toNat + 3) / 4 * 4) (nonNull r.payloadTail) _ at ht
      rw [hh, ht, hlength, List.take_append, beats_length, List.take_of_length_le (by simp),
        Nat.add_sub_cancel_left, beats_take hle, List.map_append,
        beats_source_nonNull fun hne => hgivenHead fun hz => hne (by rw [hz]; rfl),
        beats_source_nonNull fun hne => hgivenTail fun hz => hne (by rw [hz]; rfl),
        ← List.map_append, payload]

/-- The last transfer of the two phases releases the chip select. -/
theorem phases_chipSelect : ∃ l last, head.transfers ++ tail.transfers = l ++ [last] ∧
    last.flags = .auto ∧ ∀ t ∈ l, t.flags = .keep := by
  obtain ⟨head', hhead', hcases⟩ := transferPayloadHead_spec emptyHeader sendReq req
  obtain rfl := Except.ok.inj (hhead'.symm.trans hhead)
  obtain ⟨tail', htail', hcases'⟩ := transferPayloadTail_spec sendReq req
  obtain rfl := Except.ok.inj (htail'.symm.trans htail)
  rcases hcases with ⟨hzero, rfl⟩ | ⟨hne, t, rfl, -, -, -, hflags⟩
  · rcases hcases' with ⟨hdone, rfl⟩ | ⟨hleft, t, rfl, -, -, -, hflags⟩
    · rw [if_pos (hdone.trans hzero)]
      exact ⟨[], _, rfl, rfl, fun t ht => absurd ht List.not_mem_nil⟩
    · rw [if_neg fun htotal => hleft (htotal.trans hzero.symm)]
      exact ⟨[], t, rfl, hflags, fun t ht => absurd ht List.not_mem_nil⟩
  · rcases hcases' with ⟨hdone, rfl⟩ | ⟨hleft, t', rfl, -, -, -, hflags'⟩
    · rw [if_pos hdone] at hflags
      exact ⟨[], t, rfl, hflags, fun t ht => absurd ht List.not_mem_nil⟩
    · rw [if_neg hleft] at hflags
      refine ⟨[t], t', rfl, hflags', fun u hu => ?_⟩
      rw [List.mem_singleton.mp hu]
      exact hflags

theorem phases_words : ∀ t ∈ head.transfers ++ tail.transfers, ∃ n, n ≠ 0 ∧ t.length = n * 4 * 8 := by
  have hle := headLength_le_totalLength sendReq req
  have hwords := headLength_words sendReq
  obtain ⟨head', hhead', hcases⟩ := transferPayloadHead_spec emptyHeader sendReq req
  obtain rfl := Except.ok.inj (hhead'.symm.trans hhead)
  obtain ⟨tail', htail', hcases'⟩ := transferPayloadTail_spec sendReq req
  obtain rfl := Except.ok.inj (htail'.symm.trans htail)
  intro u hu
  rcases List.mem_append.mp hu with hu | hu
  · rcases hcases with ⟨-, rfl⟩ | ⟨hne, t, rfl, -, -, hlen, -⟩
    · split at hu
      · obtain rfl := List.mem_singleton.mp hu
        exact ⟨1, Nat.one_ne_zero, rfl⟩
      · cases hu
    · obtain rfl := List.mem_singleton.mp hu
      exact ⟨headLength sendReq / 4, by omega, by omega⟩
  · rcases hcases' with ⟨-, rfl⟩ | ⟨hleft, t, rfl, -, -, hlen, -⟩
    · cases hu
    · obtain rfl := List.mem_singleton.mp hu
      exact ⟨(totalLength sendReq (some req) - headLength sendReq + 3) / 4, by omega, hlen⟩

/-! ## What the memory holds -/

omit hhead htail in
theorem PayloadSplit.target_mem {header : PhaseCalls}
    (h : PayloadSplit sendReq req header head tail) {b : Beat} {a : Ptr}
    (hb : b ∈ head.beats ++ tail.beats) (ha : b.target = some a) :
    a ∈ List.range' req.buffer cpxSpiMtu := by
  obtain ⟨n, hn, hstored⟩ := h.stored
  have hmem : a ∈ List.range' req.buffer n := hstored ▸ List.mem_filterMap.mpr ⟨b, hb, ha⟩
  rw [List.mem_range'_1] at hmem ⊢
  omega

omit hhead htail in
/-- A payload outside the receive buffer is clocked out as it was in memory. -/
theorem PayloadSplit.outgoing {header : PhaseCalls} (h : PayloadSplit sendReq req header head tail)
    {α : Type} (incoming mem : Ptr → α)
    (houtside : ∀ a ∈ payload sendReq, a ∉ List.range' req.buffer cpxSpiMtu) :
    (exchange incoming 0 (head.beats ++ tail.beats) mem).1.take (sendLength sendReq) =
      (payload sendReq).map fun a => some (mem a) := by
  rw [exchange_take, exchange_sent]
  · have hsent := congrArg (List.map (Option.map mem)) h.sent
    rw [List.map_map, List.map_map] at hsent
    exact hsent
  · intro b hb a ha b' hb' htarget
    refine houtside a ?_ (h.target_mem (List.mem_of_mem_take hb') htarget)
    have hmem : some a ∈ (payload sendReq).map some := h.sent ▸ ha ▸ List.mem_map_of_mem hb
    simpa using hmem

omit hhead htail in
theorem PayloadSplit.untouched {header : PhaseCalls} (h : PayloadSplit sendReq req header head tail)
    {α : Type} (incoming mem : Ptr → α) {a : Ptr} (ha : a ∉ List.range' req.buffer cpxSpiMtu) :
    (exchange incoming 0 (head.beats ++ tail.beats) mem).2 a = mem a :=
  exchange_frame fun _ hb htarget => ha (h.target_mem hb htarget)

/-- What is received is in the buffer, in order. -/
theorem phases_landed {α : Type} (incoming mem : Ptr → α) {k : Nat}
    (hk : k < receiveLength (some req)) :
    (exchange incoming 0 (head.beats ++ tail.beats) mem).2 (req.buffer + k) = incoming k := by
  have hreceive : receiveLength (some req) ≤ totalLength sendReq (some req) := Nat.le_max_right _ _
  have htotal : totalLength sendReq (some req) ≠ 0 := by omega
  have htarget := phases_target hhead htail htotal
  have hlength : (head.beats ++ tail.beats).length = storedLength sendReq req := by
    simpa using congrArg List.length htarget
  have hle := headLength_le_totalLength sendReq req
  have hkstored : k < storedLength sendReq req := by
    unfold storedLength
    omega
  rw [← hlength] at htarget hkstored
  have hstored : (exchange incoming 0 (head.beats ++ tail.beats) mem).2 (req.buffer + k) =
      incoming (0 + k) := exchange_stored htarget hkstored
  rwa [Nat.zero_add] at hstored

end

/-- **The payload phases split a packet without loss.** For every send request whose
pointers are given, or none, and whatever length the received header says, no assertion
is reached and the three phases do on the bus what `PayloadSplit` says. For the bytes:
the payload is clocked out as it lies in memory outside the receive buffer, what is
received lies in the buffer in order, and no other memory is written. -/
theorem payload_split (emptyHeader : EmptyHeader) (sendReq : Option CpxSpiSendReq)
    (req : CpxSpiReceiveReq) (hgiven : ∀ r ∈ sendReq, r.Given) :
    ∃ header head tail,
      cpxSpiTransferHeaderAsync emptyHeader sendReq (some req) = .ok header ∧
      cpxSpiTransferPayloadHeadAsync emptyHeader sendReq (some req) = .ok head ∧
      cpxSpiTransferPayloadTailAsync sendReq (some req) = .ok tail ∧
      PayloadSplit sendReq req header head tail ∧
      ∀ incoming mem : Nat → UInt8,
        ((∀ a ∈ payload sendReq, a ∉ List.range' req.buffer cpxSpiMtu) →
          (exchange incoming 0 (head.beats ++ tail.beats) mem).1.take (sendLength sendReq) =
            (payload sendReq).map fun a => some (mem a)) ∧
        (∀ k < receiveLength (some req),
          (exchange incoming 0 (head.beats ++ tail.beats) mem).2 (req.buffer + k) = incoming k) ∧
        ∀ a, a ∉ List.range' req.buffer cpxSpiMtu →
          (exchange incoming 0 (head.beats ++ tail.beats) mem).2 a = mem a := by
  obtain ⟨t, hheader, hlen, hflags⟩ := transferHeader_ok emptyHeader sendReq req
  obtain ⟨head, hhead, -⟩ := transferPayloadHead_spec emptyHeader sendReq req
  obtain ⟨tail, htail, -⟩ := transferPayloadTail_spec sendReq req
  have hdone : ∀ calls ∈ [[.spi t], [head], [tail]], (PhaseCalls.events calls).count .done = 1 := by
    simp only [List.forall_mem_cons, PhaseCalls.events_one_done, List.not_mem_nil, false_implies,
      implies_true, and_self]
  have hwords := phases_words hhead htail
  obtain ⟨l, last, htransfers, hlast, hkeep⟩ := phases_chipSelect hhead htail
  have hsplit : PayloadSplit sendReq req [.spi t] [head] [tail] := by
    refine ⟨⟨headLength_le_totalLength sendReq req, remainingLength_eq sendReq req⟩,
      phases_stored hhead htail, phases_sent hhead htail hgiven, phases_received hhead htail,
      ?_, ⟨t :: l, last, ?_, hlast, ?_⟩, hdone⟩
    · intro u hu
      rw [List.append_assoc] at hu
      rcases List.mem_append.mp hu with hu | hu
      · obtain rfl := List.mem_singleton.mp hu
        exact ⟨1, Nat.one_ne_zero, hlen⟩
      · exact hwords u hu
    · rw [List.append_assoc, htransfers]
      rfl
    · intro u hu
      rcases List.mem_cons.mp hu with rfl | hu
      · exact hflags
      · exact hkeep u hu
  exact ⟨[.spi t], [head], [tail], hheader, hhead, htail, hsplit, fun incoming mem =>
    ⟨hsplit.outgoing incoming mem, fun k hk => phases_landed hhead htail incoming mem hk,
      fun a ha => hsplit.untouched incoming mem ha⟩⟩

/-- A head of one word and a tail of two, while five words and a byte are received. -/
theorem payload_split_longer : ∃ r header head tail,
    CpxSpiSendReq.init 16 rfl (by decide) 100 4 200 8 = .ok r ∧
    PayloadSplit (some r) ⟨32, ⟨21, ⟨0, 0, 0, 0, 0, 0⟩⟩, 400, 4088, rfl, by decide, rfl, by decide⟩
      header head tail := by
  obtain ⟨r, hinit, hhead, htail⟩ : ∃ r, CpxSpiSendReq.init 16 rfl (by decide) 100 4 200 8 = .ok r ∧
      r.payloadHead = 100 ∧ r.payloadTail = 200 := ⟨_, rfl, rfl, rfl⟩
  obtain ⟨header, head, tail, -, -, -, hsplit, -⟩ := payload_split ⟨48, rfl, by decide⟩ (some r)
    ⟨32, ⟨21, ⟨0, 0, 0, 0, 0, 0⟩⟩, 400, 4088, rfl, by decide, rfl, by decide⟩ (by
      intro r' hr
      obtain rfl := Option.some.inj hr
      exact ⟨fun _ => by rw [hhead]; decide, fun _ => by rw [htail]; decide⟩)
  exact ⟨r, header, head, tail, hinit, hsplit⟩

end AiDeck.Cpx
