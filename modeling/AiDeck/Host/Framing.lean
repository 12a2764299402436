import AiDeck.Host.TcpTransport

/-! # Packets and chunks

The packets of one connection arrive cut into chunks. `receive` takes at most one of
its two transitions per chunk, so where it stands after each chunk is a function of
the numbers of bytes received. -/
namespace AiDeck.Host
open AiDeck.Lib.Bytes AiDeck.Cpx

/-- The packets one after the other, as `send` encodes them. -/
def wire (packets : List CpxPacket) : List UInt8 := (packets.map CpxPacket.encode).flatten

/-- Where packet number `k` starts. -/
def offset (packets : List CpxPacket) (k : Nat) : Nat := (wire (packets.take k)).length

/-- The bytes in the first `t` chunks. -/
def received (chunks : List (List UInt8)) (t : Nat) : Nat := (chunks.take t).flatten.length

/-- The packets whose encoding lies in the first `n` bytes. -/
def complete : List CpxPacket → Nat → List CpxPacket
  | [], _ => []
  | p :: packets, n =>
    if p.encode.length ≤ n then p :: complete packets (n - p.encode.length) else []

/-- The items yielded when `packets` were received on a connection. -/
def yieldsOf (packets : List CpxPacket) : List (Bool × Option CpxPacket) :=
  (true, none) :: packets.map fun p => (false, some p)

section
variable {packets : List CpxPacket} {chunks : List (List UInt8)}

@[simp] theorem offset_zero : offset packets 0 = 0 := rfl

theorem offset_cons (p : CpxPacket) (k : Nat) :
    offset (p :: packets) (k + 1) = p.encode.length + offset packets k := by
  simp [offset, wire]

theorem offset_succ {k : Nat} {p : CpxPacket} (h : packets[k]? = some p) :
    offset packets (k + 1) = offset packets k + sizeofTcpHeader + p.payload.length := by
  rw [offset, List.take_add_one, h, wire, List.map_append, List.flatten_append, List.length_append,
    Nat.add_assoc, ← p.encode_length]
  simp [offset, wire]

/-- The stream from packet `k` on. -/
theorem wire_drop {k : Nat} {p : CpxPacket} (h : packets[k]? = some p) :
    (wire packets).drop (offset packets k) = p.encode ++ wire (packets.drop (k + 1)) := by
  obtain ⟨hk, hp⟩ := List.getElem?_eq_some_iff.mp h
  have hsplit : wire packets = wire (packets.take k) ++ wire (packets.drop k) := by
    rw [wire, wire, wire, ← List.flatten_append, ← List.map_append, List.take_append_drop]
  rw [hsplit, offset, List.drop_left, List.drop_eq_getElem_cons hk, hp]
  rfl

theorem complete_spec (packets : List CpxPacket) (n : Nat) : ∃ k ≤ packets.length,
    complete packets n = packets.take k ∧ offset packets k ≤ n ∧
      (k < packets.length → n < offset packets (k + 1)) := by
  induction packets generalizing n with
  | nil => exact ⟨0, Nat.le_refl 0, rfl, Nat.zero_le n, fun h => absurd h (Nat.lt_irrefl 0)⟩
  | cons p packets ih =>
    by_cases hn : p.encode.length ≤ n
    · obtain ⟨k, hk, hc, ho, hlt⟩ := ih (n - p.encode.length)
      refine ⟨k + 1, Nat.succ_le_succ hk, ?_, ?_, ?_⟩
      · rw [complete, if_pos hn, hc, List.take_succ_cons]
      · rw [offset_cons]; omega
      · intro h
        have := hlt (Nat.lt_of_succ_lt_succ h)
        rw [offset_cons]; omega
    · refine ⟨0, Nat.zero_le _, ?_, Nat.zero_le _, ?_⟩
      · rw [complete, if_neg hn, List.take_zero]
      · intro _
        rw [offset_cons, offset_zero]; omega

theorem offset_le_succ (k : Nat) : offset packets k ≤ offset packets (k + 1) := by
  cases h : packets[k]? with
  | none =>
    rw [offset, offset, List.take_add_one, h]
    exact Nat.le_of_eq (by simp)
  | some p => rw [offset_succ h]; omega

theorem offset_mono {i j : Nat} (h : i ≤ j) : offset packets i ≤ offset packets j := by
  induction h with
  | refl => exact Nat.le_refl _
  | step _ ih => exact Nat.le_trans ih (offset_le_succ _)

/-- Exactly `k` packets are complete. -/
theorem complete_eq_take_iff {k n : Nat} (hk : k ≤ packets.length) :
    complete packets n = packets.take k ↔
      offset packets k ≤ n ∧ (k < packets.length → n < offset packets (k + 1)) := by
  obtain ⟨m, hm, hc, ho, hlt⟩ := complete_spec packets n
  rw [hc]
  constructor
  · intro heq
    have hlen := congrArg List.length heq
    rw [List.length_take_of_le hm, List.length_take_of_le hk] at hlen
    exact hlen ▸ ⟨ho, hlt⟩
  · rintro ⟨hok, hltk⟩
    rcases Nat.lt_trichotomy m k with h | rfl | h
    · have hle : offset packets (m + 1) ≤ offset packets k := offset_mono h
      have := hlt (by omega)
      omega
    · rfl
    · have hle : offset packets (k + 1) ≤ offset packets m := offset_mono h
      have := hltk (by omega)
      omega

theorem received_mono {t u : Nat} (h : t ≤ u) : received chunks t ≤ received chunks u :=
  (List.take_prefix_take_left h).flatten.length_le

end

/-! ## Where the generator stands -/

/-- After `bytes` the generator has yielded `k` packets and waits for the header or,
its header taken, for the payload of the next one. -/
inductive Parsed (packets : List CpxPacket) (bytes : List UInt8) : Nat → Bool → Generator → Prop
  | header {k : Nat} (hk : k ≤ packets.length) (ho : offset packets k ≤ bytes.length) :
    Parsed packets bytes k false
      ⟨some ⟨bytes.drop (offset packets k), .waitHeader⟩, yieldsOf (packets.take k)⟩
  | payload {k : Nat} {p : CpxPacket} (hp : packets[k]? = some p)
      (ho : offset packets k + sizeofTcpHeader ≤ bytes.length) :
    Parsed packets bytes k true
      ⟨some ⟨bytes.drop (offset packets k + sizeofTcpHeader), .waitPayload p.tcpHeader⟩,
        yieldsOf (packets.take k)⟩

/-- The transition a chunk causes once `n` bytes have arrived. -/
def advance (packets : List CpxPacket) (n : Nat) : Nat × Bool → Nat × Bool
  | (k, false) =>
    if k < packets.length ∧ offset packets k + sizeofTcpHeader ≤ n then (k, true) else (k, false)
  | (k, true) => if offset packets (k + 1) ≤ n then (k + 1, false) else (k, true)

/-- The packets yielded and the header taken after `t` chunks. -/
def cursor (packets : List CpxPacket) (chunks : List (List UInt8)) : Nat → Nat × Bool
  | 0 => (0, false)
  | t + 1 => advance packets (received chunks (t + 1)) (cursor packets chunks t)

section
variable {packets : List CpxPacket} {bytes : List UInt8}

theorem offset_length : offset packets packets.length = (wire packets).length := by
  rw [offset, List.take_length]

/-- A piece of the wire that has arrived can be read off the buffer. -/
theorem arrived_start {l rest : List UInt8} {o : Nat} (h : bytes <+: wire packets)
    (hw : (wire packets).drop o = l ++ rest) (hl : o + l.length ≤ bytes.length) :
    l <+: bytes.drop o := by
  have hb : bytes.drop o <+: l ++ rest := hw ▸ h.drop o
  refine List.prefix_of_prefix_length_le (List.prefix_append l rest) hb ?_
  rw [List.length_drop]
  omega

theorem fromBufferCopy_arrived {k : Nat} {p : CpxPacket} (h : bytes <+: wire packets)
    (hp : packets[k]? = some p) (ho : offset packets k + sizeofTcpHeader ≤ bytes.length) :
    TcpHeader.fromBufferCopy (bytes.drop (offset packets k)) = p.tcpHeader := by
  have hw := wire_drop hp
  rw [CpxPacket.encode, List.append_assoc] at hw
  obtain ⟨rest, hrest⟩ := arrived_start h hw ho
  rw [← hrest]
  exact TcpHeader.fromBufferCopy_toBytes _ _

theorem payload_arrived {k : Nat} {p : CpxPacket} (h : bytes <+: wire packets)
    (hp : packets[k]? = some p) (ho : offset packets (k + 1) ≤ bytes.length) :
    (bytes.drop (offset packets k + sizeofTcpHeader)).take p.payload.length = p.payload := by
  have hw := wire_drop hp
  rw [CpxPacket.encode, List.append_assoc] at hw
  have hw' : (wire packets).drop (offset packets k + sizeofTcpHeader) =
      p.payload ++ wire (packets.drop (k + 1)) := by
    rw [← List.drop_drop, hw]
    exact List.drop_left' (TcpHeader.toBytes_length p.tcpHeader)
  rw [offset_succ hp] at ho
  exact (List.prefix_iff_eq_take.mp (arrived_start h hw' ho)).symm

/-- The 16-bit length field holds the length of a payload of at most `CPX_TCP_MTU`
bytes. -/
theorem tcpHeader_length {p : CpxPacket} (h : p.payload.length ≤ cpxTcpMtu) :
    p.tcpHeader.length.toNat = p.payload.length := by
  have hm : p.payload.length ≤ 4088 := h
  rw [CpxPacket.tcpHeader, UInt16.toNat_ofNat']
  omega

theorem Parsed.step {k : Nat} {b : Bool} {g : Generator} {chunk : List UInt8}
    (hg : Parsed packets bytes k b g) (hmtu : ∀ p ∈ packets, p.payload.length ≤ cpxTcpMtu)
    (h : bytes ++ chunk <+: wire packets) :
    Parsed packets (bytes ++ chunk) (advance packets (bytes ++ chunk).length (k, b)).1
      (advance packets (bytes ++ chunk).length (k, b)).2 (receiveItem g (false, chunk)) := by
  cases hg with
  | header hk ho =>
    simp only [receiveItem, Bool.false_eq_true, if_false, ← List.drop_append_of_le_length ho,
      Generator.parse, advance]
    have ho' : offset packets k ≤ (bytes ++ chunk).length := by
      rw [List.length_append]; omega
    by_cases hc : k < packets.length ∧ offset packets k + sizeofTcpHeader ≤ (bytes ++ chunk).length
    · have hp := List.getElem?_eq_getElem hc.1
      have hlen : ¬ ((bytes ++ chunk).drop (offset packets k)).length < sizeofTcpHeader := by
        rw [List.length_drop]; omega
      rw [if_pos hc, if_neg hlen, List.drop_drop, fromBufferCopy_arrived h hp hc.2]
      exact .payload hp hc.2
    · have hlen : ((bytes ++ chunk).drop (offset packets k)).length < sizeofTcpHeader := by
        rw [List.length_drop]
        rcases Nat.lt_or_eq_of_le hk with hlt | rfl
        · have : ¬ offset packets k + sizeofTcpHeader ≤ (bytes ++ chunk).length :=
            fun hle => hc ⟨hlt, hle⟩
          omega
        · have hend := h.length_le
          rw [← offset_length] at hend
          simp only [sizeofTcpHeader]
          omega
      rw [if_neg hc, if_pos hlen]
      exact .header hk ho'
  | @payload p hp ho =>
    have hlen := tcpHeader_length (hmtu p (List.mem_of_getElem? hp))
    have hfit : ¬ p.payload.length > cpxTcpMtu := Nat.not_lt.mpr (hmtu p (List.mem_of_getElem? hp))
    simp only [receiveItem, Bool.false_eq_true, if_false, ← List.drop_append_of_le_length ho,
      Generator.parse, advance, hlen, if_neg hfit, List.length_drop]
    have hk : k < packets.length := (List.getElem?_eq_some_iff.mp hp).1
    have hsucc := offset_succ hp
    have happ : (bytes ++ chunk).length = bytes.length + chunk.length := List.length_append
    by_cases hc : offset packets (k + 1) ≤ (bytes ++ chunk).length
    · rw [if_pos hc, if_neg (by omega), payload_arrived h hp hc, List.drop_drop, ← hsucc]
      have hyields : yieldsOf (packets.take k) ++ [(false, some p)] = yieldsOf (packets.take (k + 1)) := by
        rw [yieldsOf, yieldsOf, List.take_add_one, hp, List.map_append]
        rfl
      change Parsed _ _ _ _ ⟨_, yieldsOf (packets.take k) ++ [(false, some p)]⟩
      rw [hyields]
      exact .header hk hc
    · rw [if_neg hc, if_pos (by omega)]
      refine .payload hp ?_
      change offset packets k + sizeofTcpHeader ≤ _
      omega

end

section
variable {packets : List CpxPacket} {chunks : List (List UInt8)}

theorem receive_parsed (hmtu : ∀ p ∈ packets, p.payload.length ≤ cpxTcpMtu)
    (hcut : chunks.flatten = wire packets) {t : Nat} (ht : t ≤ chunks.length) :
    Parsed packets (chunks.take t).flatten (cursor packets chunks t).1 (cursor packets chunks t).2
      (receive (connection (chunks.take t))) := by
  induction t with
  | zero => exact .header (Nat.zero_le _) (Nat.zero_le _)
  | succ t ih =>
    have hc := List.getElem?_eq_getElem ht
    have htake : chunks.take (t + 1) = chunks.take t ++ [chunks[t]] := by
      rw [List.take_add_one, hc]; rfl
    have hflat : (chunks.take (t + 1)).flatten = (chunks.take t).flatten ++ chunks[t] := by
      rw [htake, List.flatten_append, List.flatten_singleton]
    have hprefix : (chunks.take t).flatten ++ chunks[t] <+: wire packets := by
      rw [← hflat, ← hcut]
      exact (List.take_prefix _ _).flatten
    rw [htake, receive_connection_concat, ← htake, hflat]
    have hstep := (ih (Nat.le_of_succ_le ht)).step hmtu hprefix
    rw [← hflat] at hstep
    exact hflat ▸ hstep

/-! ## When no packet is withheld -/

/-- After each chunk exactly the packets received in full have been yielded. -/
def OnTime (packets : List CpxPacket) (chunks : List (List UInt8)) : Prop :=
  ∀ t ≤ chunks.length, (receive (connection (chunks.take t))).yields =
    yieldsOf (complete packets (received chunks t))

/-- The end of every packet arrives in a chunk of its own: the header came with an
earlier chunk, and the packet before it with one still earlier. -/
def EndsApart (packets : List CpxPacket) (chunks : List (List UInt8)) : Prop :=
  ∀ i < packets.length, ∀ t < chunks.length, received chunks t < offset packets (i + 1) →
    offset packets (i + 1) ≤ received chunks (t + 1) →
    0 < t ∧ offset packets i ≤ received chunks (t - 1) ∧
      offset packets i + sizeofTcpHeader ≤ received chunks t

/-- Where the generator can stand relative to the bytes received. -/
theorem Parsed.bounds {bytes : List UInt8} {k : Nat} {b : Bool} {g : Generator}
    (h : Parsed packets bytes k b g) : k ≤ packets.length ∧ offset packets k ≤ bytes.length ∧
      (b = true → offset packets k + sizeofTcpHeader ≤ bytes.length) := by
  cases h with
  | header hk ho => exact ⟨hk, ho, fun h => by cases h⟩
  | payload hp ho =>
    exact ⟨Nat.le_of_lt (List.getElem?_eq_some_iff.mp hp).1, by omega, fun _ => ho⟩

theorem Parsed.yields_eq {bytes : List UInt8} {k : Nat} {b : Bool} {g : Generator}
    (h : Parsed packets bytes k b g) : g.yields = yieldsOf (packets.take k) := by
  cases h <;> rfl

theorem yieldsOf_inj {a b : List CpxPacket} (h : yieldsOf a = yieldsOf b) : a = b := by
  have hmap := (List.cons.inj h).2
  refine (List.map_inj_right ?_).mp hmap
  intro p q hpq
  exact Option.some.inj (Prod.ext_iff.mp hpq).2

section
variable (hmtu : ∀ p ∈ packets, p.payload.length ≤ cpxTcpMtu) (hcut : chunks.flatten = wire packets)
include hmtu hcut

theorem cursor_bounds {t k : Nat} {b : Bool} (ht : t ≤ chunks.length)
    (hc : cursor packets chunks t = (k, b)) :
    k ≤ packets.length ∧ offset packets k ≤ received chunks t ∧
      (b = true → offset packets k + sizeofTcpHeader ≤ received chunks t) := by
  have h := receive_parsed hmtu hcut ht
  rw [hc] at h
  exact h.bounds

/-- No packet is withheld when the next one to be yielded has never arrived in full. -/
theorem onTime_iff_cursor : OnTime packets chunks ↔ ∀ t ≤ chunks.length, ∀ k b,
    cursor packets chunks t = (k, b) → k < packets.length →
      received chunks t < offset packets (k + 1) := by
  constructor
  · intro h t ht k b hc
    obtain ⟨hk, -, -⟩ := cursor_bounds hmtu hcut ht hc
    have hp := receive_parsed hmtu hcut ht
    rw [hc] at hp
    have heq := h t ht
    rw [hp.yields_eq] at heq
    exact ((complete_eq_take_iff hk).mp (yieldsOf_inj heq).symm).2
  · intro h t ht
    obtain ⟨k, b, hc⟩ : ∃ k b, cursor packets chunks t = (k, b) := ⟨_, _, rfl⟩
    obtain ⟨hk, ho, -⟩ := cursor_bounds hmtu hcut ht hc
    have hp := receive_parsed hmtu hcut ht
    rw [hc] at hp
    rw [hp.yields_eq, (complete_eq_take_iff hk).mpr ⟨ho, h t ht k b hc⟩]

end

/-- A transition yields at most one packet, and only after its header was taken. -/
theorem advance_cases {n k m : Nat} {b c : Bool} (h : advance packets n (k, b) = (m, c)) :
    (m = k ∧ (b = true → c = true ∧ n < offset packets (k + 1))) ∨
      (m = k + 1 ∧ b = true ∧ c = false ∧ offset packets (k + 1) ≤ n) := by
  cases b with
  | false =>
    simp only [advance] at h
    split at h
    · cases h; exact Or.inl ⟨rfl, fun h => by cases h⟩
    · cases h; exact Or.inl ⟨rfl, fun h => by cases h⟩
  | true =>
    simp only [advance] at h
    split at h
    · cases h; exact Or.inr ⟨rfl, rfl, rfl, by assumption⟩
    · cases h; exact Or.inl ⟨rfl, fun _ => ⟨rfl, by omega⟩⟩

theorem advance_payload {n k : Nat} {b : Bool} (hk : k < packets.length)
    (hh : offset packets k + sizeofTcpHeader ≤ n) (hn : n < offset packets (k + 1)) :
    advance packets n (k, b) = (k, true) := by
  cases b with
  | false => exact if_pos ⟨hk, hh⟩
  | true => exact if_neg (Nat.not_le.mpr hn)

section
variable (hmtu : ∀ p ∈ packets, p.payload.length ≤ cpxTcpMtu) (hcut : chunks.flatten = wire packets)
include hmtu hcut

theorem endsApart_of_onTime (h : OnTime packets chunks) : EndsApart packets chunks := by
  have htime := (onTime_iff_cursor hmtu hcut).mp h
  intro i hi t ht hlo hhi
  obtain ⟨k, b, hc⟩ : ∃ k b, cursor packets chunks t = (k, b) := ⟨_, _, rfl⟩
  obtain ⟨m, c, hc'⟩ : ∃ m c, cursor packets chunks (t + 1) = (m, c) := ⟨_, _, rfl⟩
  obtain ⟨-, hot, hbt⟩ := cursor_bounds hmtu hcut (Nat.le_of_lt ht) hc
  have hnext := htime (t + 1) ht m c hc'
  have hki : k ≤ i := by
    by_contra hgt
    have hle : offset packets (i + 1) ≤ offset packets k := offset_mono (by omega)
    omega
  have him : i < m := by
    by_contra hgt
    have hle : offset packets (m + 1) ≤ offset packets (i + 1) := offset_mono (by omega)
    have := hnext (by omega)
    omega
  -- packet `i` is yielded with this chunk
  rw [cursor, hc] at hc'
  rcases advance_cases hc' with ⟨rfl, -⟩ | ⟨rfl, rfl, -, -⟩
  · omega
  · obtain rfl : k = i := by omega
    cases t with
    | zero => cases hc
    | succ u =>
      refine ⟨Nat.succ_pos u, ?_, hbt rfl⟩
      obtain ⟨l, d, hu⟩ : ∃ l d, cursor packets chunks u = (l, d) := ⟨_, _, rfl⟩
      obtain ⟨-, hou, -⟩ := cursor_bounds hmtu hcut (show u ≤ chunks.length by omega) hu
      rw [cursor, hu] at hc
      rcases advance_cases hc with ⟨rfl, -⟩ | ⟨-, -, hfalse, -⟩
      · exact hou
      · cases hfalse

theorem onTime_of_endsApart (h : EndsApart packets chunks) : OnTime packets chunks := by
  refine (onTime_iff_cursor hmtu hcut).mpr fun t => ?_
  induction t using Nat.strong_induction_on with
  | _ t ih =>
    cases t with
    | zero =>
      intro _ k b hc hk
      cases hc
      rw [offset_succ (List.getElem?_eq_getElem hk)]
      exact Nat.lt_of_lt_of_le (Nat.succ_pos _) (Nat.le_add_right _ _)
    | succ t =>
      intro ht m c hc' hm
      by_contra hge
      obtain ⟨k, b, hc⟩ : ∃ k b, cursor packets chunks t = (k, b) := ⟨_, _, rfl⟩
      have hpast := ih t (Nat.lt_succ_self t) (Nat.le_of_succ_le ht) k b hc
      rw [cursor, hc] at hc'
      rcases advance_cases hc' with ⟨rfl, hstay⟩ | ⟨rfl, -, -, -⟩
      · -- packet `m` has arrived, its header was taken and it was not yielded
        obtain ⟨hpos, hou, hht⟩ := h m hm t ht (hpast hm) (Nat.not_lt.mp hge)
        suffices hb : b = true from hge (hstay hb).2
        obtain ⟨u, rfl⟩ := Nat.exists_eq_succ_of_ne_zero (Nat.ne_of_gt hpos)
        obtain ⟨l, d, hu⟩ : ∃ l d, cursor packets chunks u = (l, d) := ⟨_, _, rfl⟩
        have hpast' := ih u (by omega) (by omega) l d hu
        rw [cursor, hu] at hc
        rcases advance_cases hc with ⟨rfl, -⟩ | ⟨rfl, -, -, -⟩
        · rw [advance_payload hm hht (hpast hm)] at hc
          exact (Prod.mk.inj hc).2.symm
        · have := hpast' (by omega)
          simp only [Nat.succ_sub_one] at hou
          omega
      · -- two packets end in one chunk
        have hlt := hpast (by omega)
        have hle : offset packets (k + 1) ≤ offset packets (k + 1 + 1) := offset_le_succ _
        obtain ⟨-, hou, -⟩ := h (k + 1) hm t ht (by omega) (Nat.not_lt.mp hge)
        have hrec : received chunks (t - 1) ≤ received chunks t := received_mono (Nat.sub_le t 1)
        omega

end

/-- **When the chunking does not matter.** After every chunk exactly the packets
received in full have been yielded if and only if every packet's last byte comes
at least one chunk after its header and two after the packet before it. -/
theorem onTime_iff_endsApart (packets : List CpxPacket) (chunks : List (List UInt8))
    (hmtu : ∀ p ∈ packets, p.payload.length ≤ cpxTcpMtu)
    (hcut : chunks.flatten = wire packets) : OnTime packets chunks ↔ EndsApart packets chunks :=
  ⟨endsApart_of_onTime hmtu hcut, onTime_of_endsApart hmtu hcut⟩

/-- A 4-byte packet that came with one chunk. -/
def onePacket : CpxPacket := ⟨⟨3, 4, 1, 0, 6, 0⟩, [1, 2, 3, 4]⟩

/-- Two packets in five chunks, each end in a chunk of its own. -/
theorem onTime_iff_endsApart_apart :
    OnTime [onePacket, onePacket] [onePacket.encode.take 2, (onePacket.encode.drop 2).take 2,
        onePacket.encode.drop 4, onePacket.encode.take 4, onePacket.encode.drop 4] := by
  refine (onTime_iff_endsApart _ _ ?_ ?_).mpr ?_
  · intro p hp
    rw [show p = onePacket by simpa using hp]
    decide
  · decide
  · unfold EndsApart
    decide

/-- A packet that comes whole in one chunk is withheld. -/
theorem oneChunk_withheld : ¬ ∀ packets chunks,
    (∀ p ∈ packets, p.payload.length ≤ cpxTcpMtu) → (∀ c ∈ chunks, c ≠ []) →
    chunks.flatten = wire packets → OnTime packets chunks := by
  intro h
  have htime := h [onePacket] [onePacket.encode] (by decide) (by decide) rfl 1 (Nat.le_refl 1)
  revert htime
  decide

end

end AiDeck.Host
