import AiDeck.Streamer.Client

/-! # What the client processes

Over any packets: each buffer given to `process_buffer` is announced by a BUFFER_BEGIN packet
and carried by it and the BUFFER_DATA packets right behind it. -/
namespace AiDeck.Streamer
open AiDeck.Lib.Bytes AiDeck.Cpx AiDeck.Crc32 AiDeck.Host

/-- The BUFFER_BEGIN packet `b` has the fields `begin`; its segment and those of the BUFFER_DATA
packets `ds` make up `bytes`. -/
structure Announced (b : CpxPacket) (ds : List CpxPacket) (begin : StreamerBegin)
    (bytes : List UInt8) : Prop where
  begin : ∃ fields, b.payload = cmdBufferBegin :: fields ∧ sizeofBegin ≤ fields.length ∧
    StreamerBegin.ofBytes fields = begin
  data : ∀ d ∈ ds, ∃ fields, d.payload = cmdBufferData :: fields ∧ sizeofData ≤ fields.length
  bytes : bytes = b.payload.drop (sizeofCommand + sizeofBegin) ++
    ds.flatMap fun d => d.payload.drop (sizeofCommand + sizeofData)

/-- The calls of `process_buffer` that packets of the streamer may lead to: no packet is
part of two buffers. -/
inductive Sound : List CpxPacket → List (UInt8 × List UInt8) → Prop
  | start : Sound [] []
  | skip {packets calls} (p : CpxPacket) (h : Sound packets calls) : Sound (packets ++ [p]) calls
  | buffer {packets calls b ds begin bytes} (h : Sound packets calls)
      (announced : Announced b ds begin bytes) (complete : begin.size.toNat ≤ bytes.length)
      (checksum : begin.checksum ≠ 0 → crc32 (bytes.take begin.size.toNat) = begin.checksum) :
      Sound (packets ++ b :: ds) (calls ++ [(begin.type, bytes.take begin.size.toNat)])

/-- The buffer that is being received: it lies at the end of the packets. -/
structure Pending (packets : List CpxPacket) (calls : List (UInt8 × List UInt8))
    (vars : ClientState) (earlier : List CpxPacket) (b : CpxPacket) (ds : List CpxPacket)
    (begin : StreamerBegin) (bytes : List UInt8) : Prop where
  packets : packets = earlier ++ b :: ds
  sound : Sound earlier calls
  announced : Announced b ds begin bytes
  short : bytes.length ≤ begin.size.toNat
  vars : vars = receiving bytes begin.type (begin.size.toNat - bytes.length) begin.checksum

/-- What holds of the generator after packets of the streamer. -/
structure ClientInv (packets : List CpxPacket) (g : ClientGenerator) : Prop where
  sound : Sound packets g.calls
  pending : ∀ vars, g.vars = some vars → vars.expectedCmd = .bufferData →
    ∃ earlier b ds begin bytes, Pending packets g.calls vars earlier b ds begin bytes

section
variable {packets earlier ds : List CpxPacket} {g : ClientGenerator} {p b : CpxPacket}
  {vars : ClientState} {begin : StreamerBegin} {bytes : List UInt8}
  {raises : UInt8 → List UInt8 → Bool}

theorem Announced.snoc (h : Announced b ds begin bytes) {fields : List UInt8}
    (hp : p.payload = cmdBufferData :: fields) (hlength : sizeofData ≤ fields.length) :
    Announced b (ds ++ [p]) begin (bytes ++ p.payload.drop (sizeofCommand + sizeofData)) := by
  refine ⟨h.begin, ?_, ?_⟩
  · intro d hd
    rcases List.mem_append.mp hd with hd | hd
    · exact h.data d hd
    · obtain rfl := List.mem_singleton.mp hd
      exact ⟨fields, hp, hlength⟩
  · rw [h.bytes, List.flatMap_append, List.flatMap_singleton, List.append_assoc]

/-- A packet that stops the generator, or behind which no buffer is received. -/
theorem ClientInv.raised (h : ClientInv packets g) (p : CpxPacket) :
    ClientInv (packets ++ [p]) g.raised := by
  refine ⟨h.sound.skip p, ?_⟩
  intro vars hsome
  cases hsome

theorem ClientInv.set (h : ClientInv packets g) (p : CpxPacket)
    (hvars : vars.expectedCmd = .bufferBegin) : ClientInv (packets ++ [p]) (g.set vars) := by
  refine ⟨h.sound.skip p, ?_⟩
  intro vars' hsome hdata
  obtain rfl := Option.some.inj hsome
  rw [hvars] at hdata
  cases hdata

/-- The last packet of a buffer ends it, whether its checksum is right or not. -/
theorem finish_inv (h : ClientInv packets g) (hearlier : Sound earlier g.calls)
    (hannounced : Announced b ds begin bytes) (hcomplete : begin.size.toNat ≤ bytes.length)
    (heq : packets ++ [p] = earlier ++ b :: ds) :
    ClientInv (packets ++ [p])
      (g.finish raises begin.type begin.checksum (bytes.take begin.size.toNat)) := by
  rw [ClientGenerator.finish]
  split
  case isTrue hcorrupted => exact h.set p rfl
  case isFalse hright =>
    refine ⟨?_, ?_⟩
    · rw [heq]
      refine hearlier.buffer hannounced hcomplete ?_
      intro hne
      exact Decidable.not_not.mp fun hdiffers => hright ⟨hne, hdiffers⟩
    · intro vars hsome hdata
      by_cases hraises : raises begin.type (bytes.take begin.size.toNat) = true
      · rw [ClientGenerator.process, if_pos hraises] at hsome
        cases hsome
      · rw [ClientGenerator.process, if_neg hraises] at hsome
        obtain rfl := Option.some.inj hsome
        cases hdata

/-- A segment of the buffer that is received. -/
theorem chunk_inv (h : ClientInv packets g) (hearlier : Sound earlier g.calls)
    {segment : List UInt8} (hannounced : Announced b ds begin (bytes ++ segment))
    (hshort : bytes.length ≤ begin.size.toNat) (heq : packets ++ [p] = earlier ++ b :: ds) :
    ClientInv (packets ++ [p]) (g.chunk raises
      (receiving bytes begin.type (begin.size.toNat - bytes.length) begin.checksum) segment) := by
  have hlength : (bytes ++ segment).length = bytes.length + segment.length := List.length_append
  by_cases hmore : segment.length < begin.size.toNat - bytes.length
  · rw [chunk_more hmore]
    refine ⟨h.sound.skip p, ?_⟩
    intro vars hsome _
    obtain rfl := Option.some.inj hsome
    refine ⟨earlier, b, ds, begin, bytes ++ segment, heq, hearlier, hannounced, ?_, ?_⟩
    · rw [hlength]
      omega
    · rw [hlength, Nat.sub_sub]
  · have htake : bytes ++ segment.take (begin.size.toNat - bytes.length) =
        (bytes ++ segment).take begin.size.toNat := by
      rw [List.take_append, List.take_of_length_le hshort]
    rw [chunk_last (Nat.le_of_not_lt hmore), htake]
    refine finish_inv h hearlier hannounced ?_ heq
    rw [hlength]
    omega

theorem begin_inv (h : ClientInv packets g) {fields : List UInt8}
    (hp : p.payload = cmdBufferBegin :: fields) (hcommand : vars.expectedCmd = .bufferBegin) :
    ClientInv (packets ++ [p]) (g.packet raises vars p.payload) := by
  rw [ClientGenerator.packet]
  by_cases hlength : p.payload.length < sizeofCommand + sizeofBegin
  · have hheader : vars.header p.payload = none := by
      rw [ClientState.header, hcommand]
      exact if_pos hlength
    rw [hheader]
    exact h.raised p
  · have hheader : vars.header p.payload = some (receiving [] (StreamerBegin.ofBytes fields).type
        (StreamerBegin.ofBytes fields).size.toNat (StreamerBegin.ofBytes fields).checksum,
        sizeofCommand + sizeofBegin) := by
      have hfields : p.payload.drop sizeofCommand = fields := by
        rw [hp]
        rfl
      rw [ClientState.header, hcommand]
      refine (if_neg hlength).trans ?_
      rw [hfields]
      rfl
    rw [hheader]
    refine chunk_inv h h.sound ⟨⟨fields, hp, ?_, rfl⟩, ?_, ?_⟩ (Nat.zero_le _) rfl
    · rw [hp, List.length_cons] at hlength
      change ¬ fields.length + 1 < 12 at hlength
      change 11 ≤ fields.length
      omega
    · intro d hd
      cases hd
    · exact (List.append_nil _).symm

theorem data_inv (h : ClientInv packets g) (hvars : g.vars = some vars) {fields : List UInt8}
    (hp : p.payload = cmdBufferData :: fields) (hcommand : vars.expectedCmd = .bufferData) :
    ClientInv (packets ++ [p]) (g.packet raises vars p.payload) := by
  rw [ClientGenerator.packet]
  by_cases hlength : p.payload.length < sizeofCommand + sizeofData
  · have hheader : vars.header p.payload = none := by
      rw [ClientState.header, hcommand]
      exact if_pos hlength
    rw [hheader]
    exact h.raised p
  · have hheader : vars.header p.payload = some (vars, sizeofCommand + sizeofData) := by
      rw [ClientState.header, hcommand]
      exact if_neg hlength
    have hfields : sizeofData ≤ fields.length := by
      rw [hp, List.length_cons] at hlength
      change ¬ fields.length + 1 < 4 at hlength
      change 3 ≤ fields.length
      omega
    obtain ⟨earlier, b, ds, begin, bytes, hpackets, hsound, hannounced, hshort, rfl⟩ :=
      h.pending vars hvars hcommand
    rw [hheader]
    refine chunk_inv h hsound (hannounced.snoc hp hfields) hshort ?_
    rw [hpackets, List.append_assoc, List.cons_append]

theorem receiveStreamer_inv (h : ClientInv packets g) (hvars : g.vars = some vars) :
    ClientInv (packets ++ [p]) (receiveStreamer raises g vars p.payload) := by
  cases hp : p.payload with
  | nil => exact h.raised p
  | cons command fields =>
    rw [receiveStreamer, ← hp]
    by_cases hexpected : command = vars.expectedCmd.value
    · have hsame : vars.expect command = vars := if_neg (not_not.mpr hexpected)
      rw [hsame, if_neg (not_not.mpr hexpected)]
      cases hcommand : vars.expectedCmd with
      | bufferBegin =>
        rw [hcommand] at hexpected
        exact begin_inv h (hexpected ▸ hp) hcommand
      | bufferData =>
        rw [hcommand] at hexpected
        exact data_inv h hvars (hexpected ▸ hp) hcommand
    · have hreset : vars.expect command = .reset := if_pos hexpected
      rw [hreset]
      by_cases hbegin : command = ClientState.reset.expectedCmd.value
      · rw [if_neg (not_not.mpr hbegin)]
        exact begin_inv h (hbegin ▸ hp) rfl
      · rw [if_pos hbegin]
        exact h.set p rfl

/-- The packets of the streamer. -/
def streamerPackets (packets : List CpxPacket) : List CpxPacket :=
  packets.filter fun p => p.header.function = cpxFStreamer

theorem receivePacket_inv (h : ClientInv (streamerPackets packets) g) (p : CpxPacket) :
    ClientInv (streamerPackets (packets ++ [p])) (receivePacket raises g p) := by
  have hsplit : streamerPackets (packets ++ [p]) = streamerPackets packets ++ streamerPackets [p] :=
    List.filter_append _ _
  rw [hsplit]
  by_cases hfunction : p.header.function = cpxFStreamer
  · have hp : streamerPackets [p] = [p] := List.filter_cons_of_pos (decide_eq_true hfunction)
    rw [hp]
    cases hvars : g.vars with
    | none =>
      rw [receivePacket, hvars]
      refine ⟨h.sound.skip p, ?_⟩
      intro vars hsome
      cases hvars.symm.trans hsome
    | some vars =>
      rw [receivePacket_streamer hvars hfunction]
      exact receiveStreamer_inv h hvars
  · have hp : streamerPackets [p] = [] :=
      List.filter_cons_of_neg (fun hf => hfunction (of_decide_eq_true hf))
    rw [hp, List.append_nil]
    cases hvars : g.vars with
    | none =>
      rw [receivePacket, hvars]
      exact h
    | some vars =>
      simp only [receivePacket, hvars, ne_eq, hfunction, not_false_eq_true, if_true]
      exact h

end

/-- **What is processed was sent.** Over any packets, and whatever `process_buffer` does, the
buffers given to it are the announced ones, each from its own packets. -/
theorem clientReceive_sound (raises : UInt8 → List UInt8 → Bool) (packets : List CpxPacket) :
    Sound (streamerPackets packets) (clientReceive raises packets).calls := by
  have hinv : ClientInv (streamerPackets packets) (clientReceive raises packets) := by
    induction packets using List.reverseRecOn with
    | nil =>
      refine ⟨.start, ?_⟩
      intro vars hsome hdata
      obtain rfl := Option.some.inj hsome
      cases hdata
    | append_singleton packets p ih =>
      rw [clientReceive, List.foldl_append]
      exact receivePacket_inv ih p
  exact hinv.sound

end AiDeck.Streamer
