import AiDeck.Wifi.Stream

/-! # The chunks of the two senders

`sendBufferViaCPX` of examples/image_processing/FaceDetection/main.c beside
`cpx_stream_send_buffer`: the copies out of the buffer that each of them makes. -/
namespace AiDeck.Wifi
open AiDeck.Lib.Bytes AiDeck.Com

/-- A packet filled from the buffer: `copied` bytes from `offset` on are copied to its `data`. -/
structure Chunk where
  offset : UInt32
  copied : UInt32
  dataLength : UInt16
  deriving DecidableEq, Repr

namespace Chunk

/-- `data[0..dataLength)`, with the memory from the buffer on. -/
def payload (buffer : Nat → UInt8) (c : Chunk) : List UInt8 :=
  (segment buffer c.offset.toNat c.copied.toNat).take c.dataLength.toNat

/-- The copy reads only the buffer. -/
def Inside (bufferSize : UInt32) (c : Chunk) : Prop :=
  c.offset.toNat + c.copied.toNat ≤ bufferSize.toNat

end Chunk

/-- The size of the chunk at `offset`. -/
def chunkSizeAt (bufferSize offset : UInt32) : UInt32 :=
  if offset + .ofNat sizeofData > bufferSize then bufferSize - offset else .ofNat sizeofData

/-- The loop of `sendBufferViaCPX` from `offset` on, with a bound on its rounds. -/
def sendBufferViaCpxLoop (bufferSize : UInt32) : Nat → UInt32 → Option (List Chunk)
  | 0, _ => none
  | n + 1, offset =>
    let size := chunkSizeAt bufferSize offset
    let chunk : Chunk := ⟨offset, .ofNat sizeofData, size.toUInt16⟩
    if size = .ofNat sizeofData then do
      let chunks ← sendBufferViaCpxLoop bufferSize n (offset + size)
      return chunk :: chunks
    else some [chunk]

def sendBufferViaCpx (bufferSize : UInt32) : Option (List Chunk) :=
  sendBufferViaCpxLoop bufferSize (bufferSize.toNat + 1) 0

/-- The copies in the loop of `cpx_stream_send_buffer`. -/
def streamChunksLoop (bufferSize : UInt32) : Nat → UInt32 → Option (List Chunk)
  | 0, _ => none
  | n + 1, offset =>
    if offset < bufferSize then do
      let chunkSize := chunkSizeAt bufferSize offset
      let chunks ← streamChunksLoop bufferSize n (offset + chunkSize)
      return ⟨offset, chunkSize, chunkSize.toUInt16⟩ :: chunks
    else some []

def streamChunks (bufferSize : UInt32) : Option (List Chunk) :=
  streamChunksLoop bufferSize (bufferSize.toNat + 1) 0

section
variable {bufferSize offset : UInt32} (buffer : Nat → UInt8)

theorem chunkSizeAt_spec (hsize : bufferSize.toNat < 2 ^ 31)
    (hle : offset.toNat ≤ bufferSize.toNat) :
    (chunkSizeAt bufferSize offset).toNat = min sizeofData (bufferSize.toNat - offset.toNat) ∧
      (offset + chunkSizeAt bufferSize offset).toNat =
        offset.toNat + (chunkSizeAt bufferSize offset).toNat ∧
      (chunkSizeAt bufferSize offset).toUInt16.toNat = (chunkSizeAt bufferSize offset).toNat := by
  obtain ⟨hvalue, hnext⟩ := chunkSize_spec hsize hle (c := chunkSizeAt bufferSize offset) rfl
  refine ⟨hvalue, hnext, ?_⟩
  rw [UInt32.toNat_toUInt16, hvalue]
  change min 1020 _ % 2 ^ 16 = min 1020 _
  omega

/-- The packets of `cpx_stream_send_buffer` are made of these copies. -/
theorem sendBufferLoop_eq (hsize : bufferSize.toNat < 2 ^ 31) (n : Nat)
    (hle : offset.toNat ≤ bufferSize.toNat) :
    sendBufferLoop (segment buffer 0 bufferSize.toNat) bufferSize n offset =
      (streamChunksLoop bufferSize n offset).map fun chunks =>
        chunks.map fun c => streamPacket (c.payload buffer) := by
  induction n generalizing offset with
  | zero => rfl
  | succ n ih =>
    obtain ⟨hvalue, hnext, hlength⟩ := chunkSizeAt_spec hsize hle
    change _ = min 1020 _ at hvalue
    by_cases hlt : offset < bufferSize
    · have hle' : (offset + chunkSizeAt bufferSize offset).toNat ≤ bufferSize.toNat := by omega
      have hrest := ih hle'
      have hpayload : ((segment buffer 0 bufferSize.toNat).drop offset.toNat).take
          (chunkSizeAt bufferSize offset).toNat =
            Chunk.payload buffer ⟨offset, chunkSizeAt bufferSize offset,
              (chunkSizeAt bufferSize offset).toUInt16⟩ := by
        rw [segment_drop _ _ hle, Nat.zero_add, segment_take _ _ (by omega), Chunk.payload, hlength,
          List.take_of_length_le (by rw [segment_length])]
      simp only [sendBufferLoop, streamChunksLoop, if_pos hlt, ← chunkSizeAt.eq_1, hrest, hpayload]
      cases streamChunksLoop bufferSize n (offset + chunkSizeAt bufferSize offset) <;> rfl
    · simp only [sendBufferLoop, streamChunksLoop, if_neg hlt]
      rfl

/-- The rounds of `cpx_stream_send_buffer` with less than a full chunk left. -/
theorem streamChunksLoop_last (hsize : bufferSize.toNat < 2 ^ 31) {n : Nat}
    (hle : offset.toNat ≤ bufferSize.toNat) (hn : bufferSize.toNat - offset.toNat < n + 1)
    (hshort : (chunkSizeAt bufferSize offset).toNat ≠ 1020) :
    streamChunksLoop bufferSize (n + 1) offset = some (if chunkSizeAt bufferSize offset = 0 then [] else
      [⟨offset, chunkSizeAt bufferSize offset, (chunkSizeAt bufferSize offset).toUInt16⟩]) := by
  obtain ⟨hvalue, hnext, -⟩ := chunkSizeAt_spec hsize hle
  change _ = min 1020 _ at hvalue
  by_cases hlt : offset < bufferSize
  · have hlt' := UInt32.lt_iff_toNat_lt.mp hlt
    have hpos : chunkSizeAt bufferSize offset ≠ 0 := by
      rintro heq
      rw [heq, UInt32.toNat_zero] at hvalue
      omega
    obtain ⟨m, rfl⟩ := Nat.exists_eq_succ_of_ne_zero (show n ≠ 0 by omega)
    have hdone : ¬ offset + chunkSizeAt bufferSize offset < bufferSize :=
      fun h => absurd (UInt32.lt_iff_toNat_lt.mp h) (by omega)
    simp only [streamChunksLoop, if_pos hlt, if_neg hdone, if_neg hpos]
    rfl
  · have hge : ¬ offset.toNat < bufferSize.toNat := fun h => hlt (UInt32.lt_iff_toNat_lt.mpr h)
    have hzero : chunkSizeAt bufferSize offset = 0 := by
      rw [← UInt32.toNat_inj, UInt32.toNat_zero]
      omega
    rw [streamChunksLoop, if_neg hlt, if_pos hzero]

/-- Both loops make the same full chunks; of the `r` bytes behind them one makes a chunk in
any case, with a copy of full size, and the other one if there are any. -/
theorem loops_spec (hsize : bufferSize.toNat < 2 ^ 31) {n : Nat}
    (hle : offset.toNat ≤ bufferSize.toNat) (hn : bufferSize.toNat - offset.toNat < n) :
    ∃ front e r, sendBufferViaCpxLoop bufferSize n offset =
        some (front ++ [⟨e, .ofNat sizeofData, r.toUInt16⟩]) ∧
      streamChunksLoop bufferSize n offset =
        some (front ++ if r = 0 then [] else [⟨e, r, r.toUInt16⟩]) ∧
      (∀ c ∈ front, c.Inside bufferSize) ∧ e.toNat + r.toNat = bufferSize.toNat ∧
      r.toNat = (bufferSize.toNat - offset.toNat) % sizeofData := by
  induction n generalizing offset with
  | zero => exact absurd hn (Nat.not_lt_zero _)
  | succ n ih =>
    obtain ⟨hvalue, hnext, -⟩ := chunkSizeAt_spec hsize hle
    have hfull : (UInt32.ofNat sizeofData).toNat = 1020 := by decide
    change _ = min 1020 _ at hvalue
    by_cases hsame : chunkSizeAt bufferSize offset = .ofNat sizeofData
    · have hlong : (chunkSizeAt bufferSize offset).toNat = 1020 := hsame ▸ hfull
      have hlt : offset < bufferSize := UInt32.lt_iff_toNat_lt.mpr (by omega)
      have hle' : (offset + chunkSizeAt bufferSize offset).toNat ≤ bufferSize.toNat := by omega
      obtain ⟨front, e, r, hvia, hstream, hfront, hend, hrest⟩ := ih hle' (by omega)
      refine ⟨⟨offset, .ofNat sizeofData, (chunkSizeAt bufferSize offset).toUInt16⟩ :: front, e, r,
        ?_, ?_, ?_, hend, ?_⟩
      · rw [sendBufferViaCpxLoop, if_pos hsame, hvia]
        rfl
      · simp only [streamChunksLoop, if_pos hlt, hstream]
        rw [hsame]
        rfl
      · refine List.forall_mem_cons.mpr ⟨?_, hfront⟩
        change offset.toNat + (UInt32.ofNat sizeofData).toNat ≤ _
        omega
      · rw [hrest]
        change _ % 1020 = _ % 1020
        omega
    · have hshort : (chunkSizeAt bufferSize offset).toNat ≠ 1020 := fun heq =>
        hsame (UInt32.toNat_inj.mp (heq.trans hfull.symm))
      refine ⟨[], offset, chunkSizeAt bufferSize offset, ?_, ?_,
        fun c hc => absurd hc List.not_mem_nil, by omega, ?_⟩
      · rw [sendBufferViaCpxLoop, if_neg hsame]
        rfl
      · rw [List.nil_append]
        exact streamChunksLoop_last hsize hle hn hshort
      · change _ = _ % 1020
        omega

end

/-- The senders pass the same data on: non-empty chunks that make up the buffer, and only
bytes of the buffer are read. -/
def Agree (buffer : Nat → UInt8) (bufferSize : UInt32) : Prop :=
  ∃ via stream, sendBufferViaCpx bufferSize = some via ∧ streamChunks bufferSize = some stream ∧
    via.map (Chunk.payload buffer) = stream.map (Chunk.payload buffer) ∧
    (stream.map (Chunk.payload buffer)).flatten = segment buffer 0 bufferSize.toNat ∧
    Carried (stream.map (Chunk.payload buffer)) ∧
    ∀ c ∈ via ++ stream, c.Inside bufferSize

section
variable {bufferSize : UInt32} (buffer : Nat → UInt8)

/-- The data of the last chunk, whatever is copied beyond it. -/
theorem payload_last {e r copied : UInt32} (hr : r.toNat < sizeofData)
    (hcopied : r.toNat ≤ copied.toNat) :
    Chunk.payload buffer ⟨e, copied, r.toUInt16⟩ = segment buffer e.toNat r.toNat := by
  have hlength : r.toUInt16.toNat = r.toNat := by
    rw [UInt32.toNat_toUInt16]
    change r.toNat < 1020 at hr
    omega
  rw [Chunk.payload, hlength, segment_take _ _ hcopied]

/-- The chunks of `cpx_stream_send_buffer`. -/
theorem streamChunks_spec (hsize : bufferSize.toNat < 2 ^ 31) {stream : List Chunk}
    (hstream : streamChunks bufferSize = some stream) :
    (stream.map (Chunk.payload buffer)).flatten = segment buffer 0 bufferSize.toNat ∧
      Carried (stream.map (Chunk.payload buffer)) := by
  have hlength : (segment buffer 0 bufferSize.toNat).length = bufferSize.toNat := segment_length _ _ _
  have hsame : UInt32.ofNat (segment buffer 0 bufferSize.toNat).length = bufferSize := by
    rw [hlength, UInt32.ofNat_toNat]
  obtain ⟨chunks, hsend, hflat, hcarried⟩ :=
    cpxStreamSendBuffer_spec (segment buffer 0 bufferSize.toNat) (hlength.trans_lt hsize)
  have hzero : (0 : UInt32).toNat ≤ bufferSize.toNat := Nat.zero_le _
  have hloop := sendBufferLoop_eq buffer hsize (bufferSize.toNat + 1) hzero
  rw [hsame, cpxStreamSendBuffer, hloop, ← streamChunks, hstream, Option.map_some,
    Option.some.injEq] at hsend
  have hdata : stream.map (Chunk.payload buffer) = chunks := by
    have hmap := congrArg (List.map CpxPacket.data) hsend
    rw [List.map_map, List.map_map] at hmap
    exact hmap.trans (List.map_id chunks)
  rw [hdata]
  exact ⟨hflat, hcarried⟩

/-- **The two senders.** The last copy of `sendBufferViaCPX` reads behind the buffer, whatever
its size; the data passed on are the same except that a multiple of the chunk size, zero
included, is followed by an empty packet. -/
theorem senders_disagree (hsize : bufferSize.toNat < 2 ^ 31) :
    ¬ Agree buffer bufferSize ∧
      ∃ via stream, sendBufferViaCpx bufferSize = some via ∧ streamChunks bufferSize = some stream ∧
        via.map (Chunk.payload buffer) = stream.map (Chunk.payload buffer) ++
          (if bufferSize.toNat % sizeofData = 0 then [[]] else []) ∧
        (stream.map (Chunk.payload buffer)).flatten = segment buffer 0 bufferSize.toNat ∧
        Carried (stream.map (Chunk.payload buffer)) ∧
        (∀ c ∈ stream, c.Inside bufferSize) ∧ ¬ ∀ c ∈ via, c.Inside bufferSize := by
  have hzero : (0 : UInt32).toNat ≤ bufferSize.toNat := Nat.zero_le _
  obtain ⟨front, e, r, hvia, hstream, hfront, hend, hrest⟩ :=
    loops_spec hsize hzero (Nat.lt_succ_self _)
  change sendBufferViaCpx bufferSize = _ at hvia
  change streamChunks bufferSize = _ at hstream
  change r.toNat = bufferSize.toNat % sizeofData at hrest
  have hshort : r.toNat < 1020 := hrest ▸ Nat.mod_lt _ (by decide)
  have hfull : (UInt32.ofNat sizeofData).toNat = 1020 := by decide
  have hoverrun : ¬ ∀ c ∈ front ++ [⟨e, .ofNat sizeofData, r.toUInt16⟩], Chunk.Inside bufferSize c := by
    intro hinside
    have hlast : e.toNat + (UInt32.ofNat sizeofData).toNat ≤ bufferSize.toNat :=
      hinside _ (List.mem_append_right _ (List.mem_singleton_self _))
    omega
  refine ⟨?_, _, _, hvia, hstream, ?_, (streamChunks_spec buffer hsize hstream).1,
    (streamChunks_spec buffer hsize hstream).2, ?_, hoverrun⟩
  · rintro ⟨via, stream, hvia', -, -, -, -, hinside⟩
    obtain rfl := Option.some.inj (hvia.symm.trans hvia')
    exact hoverrun fun c hc => hinside c (List.mem_append_left _ hc)
  · have hlast : Chunk.payload buffer ⟨e, .ofNat sizeofData, r.toUInt16⟩ =
        segment buffer e.toNat r.toNat :=
      payload_last buffer hshort (by rw [hfull]; exact hshort.le)
    have hlast' : Chunk.payload buffer ⟨e, r, r.toUInt16⟩ = segment buffer e.toNat r.toNat :=
      payload_last buffer hshort (Nat.le_refl _)
    rw [List.map_append, List.map_append, List.map_singleton, hlast, List.append_assoc, ← hrest]
    by_cases hzero : r = 0
    · have hzero' : r.toNat = 0 := hzero ▸ UInt32.toNat_zero
      rw [if_pos hzero, if_pos hzero', hzero']
      rfl
    · have hpos : r.toNat ≠ 0 := fun h => hzero (UInt32.toNat_inj.mp h)
      rw [if_neg hzero, if_neg hpos, List.map_singleton, hlast', List.append_nil]
  · intro c hc
    rcases List.mem_append.mp hc with hc | hc
    · exact hfront c hc
    · split at hc
      · exact absurd hc List.not_mem_nil
      · obtain rfl := List.mem_singleton.mp hc
        exact hend.le

/-- A frame of 20 full packets. -/
theorem senders_disagree_frame : ¬ Agree (fun _ => 0) 20400 :=
  (senders_disagree (fun _ => 0) (by decide)).1

/-- A buffer of one byte: 1020 bytes are read. -/
theorem senders_disagree_byte : ¬ Agree (fun _ => 0) 1 := by
  rintro ⟨via, stream, hvia, -, -, -, -, hinside⟩
  have hone : sendBufferViaCpx 1 = some [⟨0, .ofNat sizeofData, 1⟩] := by decide
  obtain rfl := Option.some.inj (hone.symm.trans hvia)
  have hread : 0 + 1020 ≤ 1 := hinside _ (List.mem_append_left _ (List.mem_singleton_self _))
  omega

end

end AiDeck.Wifi
