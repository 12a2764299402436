import AiDeck.Com.Transfer

/-! # Sending images

examples/other/wifi-img-streamer/cpx_stream.c over the CPX library: a header and the bytes of an
image as packets to the host. -/
namespace AiDeck.Wifi
open AiDeck.Lib.Bytes AiDeck.Cpx AiDeck.Com

/-- `StreamerMode_t`. -/
inductive StreamerMode where
  | raw
  | jpeg
  deriving DecidableEq, Repr

def StreamerMode.toByte : StreamerMode → UInt8
  | raw => 0
  | jpeg => 1

/-- `ImageHeader_t`. -/
structure ImageHeader where
  magic : UInt8
  width : UInt16
  height : UInt16
  depth : UInt8
  type : UInt8
  size : UInt32
  deriving DecidableEq, Repr

abbrev sizeofImageHeader : Nat := 11

def ImageHeader.toBytes (h : ImageHeader) : List UInt8 :=
  h.magic :: (toLE16 h.width ++ (toLE16 h.height ++ (h.depth :: h.type :: toLE32 h.size)))

/-- `struct.unpack('<BHHBBI', …)`. -/
def ImageHeader.ofBytes (l : List UInt8) : ImageHeader :=
  ⟨l.getD 0 0, ofLE16 (l.drop 1), ofLE16 (l.drop 3), l.getD 5 0, l.getD 6 0, ofLE32 (l.drop 7)⟩

@[simp] theorem ImageHeader.toBytes_length (h : ImageHeader) :
    h.toBytes.length = sizeofImageHeader := rfl

@[simp] theorem ImageHeader.ofBytes_toBytes (h : ImageHeader) : ofBytes h.toBytes = h := by
  obtain ⟨magic, width, height, depth, type, size⟩ := h
  have hwidth := ofLE16_toLE16 width (toLE16 height ++ (depth :: type :: toLE32 size))
  have hheight := ofLE16_toLE16 height (depth :: type :: toLE32 size)
  have hsize := ofLE32_toLE32 size
  simp only [ofBytes, mk.injEq]
  exact ⟨rfl, hwidth, hheight, rfl, rfl, hsize⟩

/-- `packet` with `length` bytes in `data`: its route is that of `cpx_stream_init`. -/
def streamPacket (data : List UInt8) : CpxPacket :=
  { route := ⟨3, 4, 1, 5, 0⟩
    dataLength := .ofNat data.length
    data := data }

/-- `cpx_stream_send_header`. -/
def cpxStreamSendHeader (width height : UInt16) (imageSize : UInt32) (imageType : StreamerMode) :
    CpxPacket :=
  streamPacket (ImageHeader.toBytes ⟨0xBC, width, height, 1, imageType.toByte, imageSize⟩)

/-- The loop of `cpx_stream_send_buffer` from `offset` on, with a bound on its rounds. -/
def sendBufferLoop (buffer : List UInt8) (bufferSize : UInt32) : Nat → UInt32 →
    Option (List CpxPacket)
  | 0, _ => none
  | n + 1, offset =>
    if offset < bufferSize then do
      let chunkSize : UInt32 := .ofNat sizeofData
      let chunkSize := if offset + chunkSize > bufferSize then bufferSize - offset else chunkSize
      let packets ← sendBufferLoop buffer bufferSize n (offset + chunkSize)
      return streamPacket ((buffer.drop offset.toNat).take chunkSize.toNat) :: packets
    else some []

/-- `cpx_stream_send_buffer`. -/
def cpxStreamSendBuffer (buffer : List UInt8) (bufferSize : UInt32) : Option (List CpxPacket) :=
  sendBufferLoop buffer bufferSize (bufferSize.toNat + 1) 0

/-- An image and the buffers its bytes are in. -/
structure StreamImage where
  width : UInt16
  height : UInt16
  type : StreamerMode
  buffers : List (List UInt8)
  deriving DecidableEq

def StreamImage.bytes (image : StreamImage) : List UInt8 := image.buffers.flatten

/-- The header and a call for each buffer, as `camera_task` and `send_jpeg` send an image. -/
def sendImage (image : StreamImage) : Option (List CpxPacket) := do
  let packets ← image.buffers.mapM fun buffer => cpxStreamSendBuffer buffer (.ofNat buffer.length)
  return cpxStreamSendHeader image.width image.height (.ofNat image.bytes.length) image.type ::
    packets.flatten

def sendImages (images : List StreamImage) : Option (List CpxPacket) := do
  let packets ← images.mapM sendImage
  return packets.flatten

/-! ## The CPX library -/

/-- The bit-fields of `txpPacked.route`: `reserved` stays as it is. -/
def packRoute (route : CpxRouting) (reserved : BitVec 1) : CpxHeader :=
  ⟨route.destination, route.source, route.lastPacket, reserved, route.function, route.version⟩

/-- `cpxSendPacketBlocking`: what is left in `txpPacked` and passed to `com_write`. -/
def cpxSendPacketBlocking (txpPacked : Packet) (packet : CpxPacket) : Except Fault Packet :=
  let l := toLE16 (packet.dataLength + 2) ++
    ((packRoute packet.route txpPacked.route.reserved).toBytes ++
      packet.data.take packet.dataLength.toNat)
  if h : 0 + l.length ≤ sizeofPacket then .ok (txpPacked.store 0 l h) else .error .outside

/-- Packets sent one after the other. -/
def sendPackets (txpPacked : Packet) : List CpxPacket → Except Fault (List Packet)
  | [] => .ok []
  | packet :: packets => do
    let p ← cpxSendPacketBlocking txpPacked packet
    let sent ← sendPackets p packets
    return p :: sent

/-- The stream to the host: what the ESP32 makes of the packets. -/
def espForward (wire : List Packet) : List UInt8 := wire.flatMap Packet.message

/-! ## What is sent -/

section
variable {buffer : List UInt8} {size offset : UInt32}

/-- Packets with data that the library can carry. -/
def Carried (chunks : List (List UInt8)) : Prop :=
  ∀ chunk ∈ chunks, 1 ≤ chunk.length ∧ chunk.length ≤ sizeofData

/-- The size of the next chunk: no sum wraps below 2^31 bytes. -/
theorem chunkSize_spec (hsize : size.toNat < 2 ^ 31) (hle : offset.toNat ≤ size.toNat) {c : UInt32}
    (hc : (if offset + UInt32.ofNat sizeofData > size then size - offset
      else UInt32.ofNat sizeofData) = c) :
    c.toNat = min sizeofData (size.toNat - offset.toNat) ∧
      (offset + c).toNat = offset.toNat + c.toNat := by
  have hfull : (UInt32.ofNat sizeofData).toNat = 1020 := by decide
  have hsum : (offset + UInt32.ofNat sizeofData).toNat = offset.toNat + 1020 := by
    rw [UInt32.toNat_add, hfull]
    omega
  have hvalue : c.toNat = min 1020 (size.toNat - offset.toNat) := by
    rw [← hc]
    by_cases hlast : offset + UInt32.ofNat sizeofData > size
    · have hless : size.toNat < offset.toNat + 1020 := hsum ▸ UInt32.lt_iff_toNat_lt.mp hlast
      rw [if_pos hlast, UInt32.toNat_sub_of_le _ _ (UInt32.le_iff_toNat_le.mpr hle)]
      omega
    · have hmore : ¬ size.toNat < offset.toNat + 1020 :=
        hsum ▸ mt UInt32.lt_iff_toNat_lt.mpr hlast
      rw [if_neg hlast, hfull]
      omega
  refine ⟨hvalue, ?_⟩
  rw [UInt32.toNat_add, hvalue]
  omega

theorem sendBufferLoop_spec (hsize : size.toNat = buffer.length) (hshort : buffer.length < 2 ^ 31)
    (offset : UInt32) {n : Nat} (hoffset : offset.toNat ≤ buffer.length) (hn : buffer.length - offset.toNat < n) :
    ∃ chunks, sendBufferLoop buffer size n offset = some (chunks.map streamPacket) ∧
      chunks.flatten = buffer.drop offset.toNat ∧ Carried chunks := by
  induction n generalizing offset with
  | zero => exact absurd hn (Nat.not_lt_zero _)
  | succ n ih =>
    by_cases hlt : offset < size
    · generalize hc : (if offset + UInt32.ofNat sizeofData > size then size - offset
        else UInt32.ofNat sizeofData) = c
      have hlt' : offset.toNat < buffer.length := hsize ▸ UInt32.lt_iff_toNat_lt.mp hlt
      obtain ⟨hvalue, hnext⟩ := chunkSize_spec (hsize ▸ hshort) (hsize ▸ hlt'.le) hc
      rw [hsize] at hvalue
      change c.toNat = min 1020 (buffer.length - offset.toNat) at hvalue
      obtain ⟨chunks, hloop, hflat, hcarried⟩ :=
        ih (offset + c) (by omega) (by omega)
      refine ⟨(buffer.drop offset.toNat).take c.toNat :: chunks, ?_, ?_, ?_⟩
      · simp only [sendBufferLoop, if_pos hlt, hc, hloop]
        rfl
      · rw [List.flatten_cons, hflat, hnext, ← List.drop_drop, List.take_append_drop]
      · refine List.forall_mem_cons.mpr ⟨?_, hcarried⟩
        rw [List.length_take, List.length_drop]
        change 1 ≤ _ ∧ _ ≤ 1020
        omega
    · refine ⟨[], ?_, ?_, fun chunk hchunk => absurd hchunk List.not_mem_nil⟩
      · rw [sendBufferLoop, if_neg hlt]
        rfl
      · have hend : buffer.length ≤ offset.toNat :=
          hsize ▸ Nat.not_lt.mp (mt UInt32.lt_iff_toNat_lt.mpr hlt)
        rw [List.drop_eq_nil_of_le hend, List.flatten_nil]

/-- A buffer is cut into chunks that a packet can carry. -/
theorem cpxStreamSendBuffer_spec (buffer : List UInt8) (hshort : buffer.length < 2 ^ 31) :
    ∃ chunks, cpxStreamSendBuffer buffer (.ofNat buffer.length) = some (chunks.map streamPacket) ∧
      chunks.flatten = buffer ∧ Carried chunks := by
  have hsize : (UInt32.ofNat buffer.length).toNat = buffer.length := by
    rw [UInt32.toNat_ofNat']
    exact Nat.mod_eq_of_lt (Nat.lt_trans hshort (by decide))
  obtain ⟨chunks, hloop, hflat, hcarried⟩ := sendBufferLoop_spec hsize hshort 0
    (Nat.zero_le _) (n := (UInt32.ofNat buffer.length).toNat + 1) (by
      rw [hsize]
      exact Nat.lt_succ_of_le (Nat.sub_le _ _))
  exact ⟨chunks, hloop, hflat, hcarried⟩

/-- The data of the packets of an image: its header, and chunks of its bytes. -/
def ImageData (image : StreamImage) (data : List (List UInt8)) : Prop :=
  ∃ chunks, data = ImageHeader.toBytes ⟨0xBC, image.width, image.height, 1, image.type.toByte,
    .ofNat image.bytes.length⟩ :: chunks ∧ chunks.flatten = image.bytes ∧ Carried chunks

theorem ImageData.carried {image : StreamImage} {data : List (List UInt8)}
    (h : ImageData image data) : Carried data := by
  obtain ⟨chunks, rfl, -, hcarried⟩ := h
  refine List.forall_mem_cons.mpr ⟨?_, hcarried⟩
  rw [ImageHeader.toBytes_length]
  decide

theorem sendImage_spec {image : StreamImage} (hshort : image.bytes.length < 2 ^ 31) :
    ∃ data, sendImage image = some (data.map streamPacket) ∧ ImageData image data := by
  have hbuffers : ∀ buffers : List (List UInt8), buffers.flatten.length < 2 ^ 31 →
      ∃ packets chunks, buffers.mapM (fun buffer =>
          cpxStreamSendBuffer buffer (.ofNat buffer.length)) = some packets ∧
        packets.flatten = chunks.map streamPacket ∧ chunks.flatten = buffers.flatten ∧
        Carried chunks := by
    intro buffers
    induction buffers with
    | nil =>
      intro _
      exact ⟨[], [], rfl, rfl, rfl, fun chunk hchunk => absurd hchunk List.not_mem_nil⟩
    | cons buffer buffers ih =>
      intro hlength
      rw [List.flatten_cons, List.length_append] at hlength
      obtain ⟨chunks, hsend, hflat, hcarried⟩ :=
        cpxStreamSendBuffer_spec buffer (by omega)
      obtain ⟨packets, rest, hrest, hpackets, hflats, hcarrieds⟩ := ih (by omega)
      refine ⟨chunks.map streamPacket :: packets, chunks ++ rest, ?_, ?_, ?_, ?_⟩
      · rw [List.mapM_cons, hsend, hrest]
        rfl
      · rw [List.flatten_cons, hpackets, List.map_append]
      · rw [List.flatten_append, hflat, hflats, List.flatten_cons]
      · exact List.forall_mem_append.mpr ⟨hcarried, hcarrieds⟩
  obtain ⟨packets, chunks, hmap, hpackets, hflat, hcarried⟩ := hbuffers image.buffers hshort
  refine ⟨_ :: chunks, ?_, chunks, rfl, hflat, hcarried⟩
  rw [sendImage, hmap, List.map_cons, ← hpackets]
  rfl

theorem sendImages_spec {images : List StreamImage}
    (hshort : ∀ image ∈ images, image.bytes.length < 2 ^ 31) :
    ∃ datas, sendImages images = some (datas.flatten.map streamPacket) ∧
      List.Forall₂ ImageData images datas := by
  have hmap : ∃ packets datas, images.mapM sendImage = some packets ∧
      packets.flatten = datas.flatten.map streamPacket ∧ List.Forall₂ ImageData images datas := by
    induction images with
    | nil => exact ⟨[], [], rfl, rfl, .nil⟩
    | cons image images ih =>
      obtain ⟨hfirst, hothers⟩ := List.forall_mem_cons.mp hshort
      obtain ⟨data, hsend, hdata⟩ := sendImage_spec hfirst
      obtain ⟨packets, datas, hrest, hpackets, hdatas⟩ := ih hothers
      refine ⟨data.map streamPacket :: packets, data :: datas, ?_, ?_, .cons hdata hdatas⟩
      · rw [List.mapM_cons, hsend, hrest]
        rfl
      · rw [List.flatten_cons, hpackets, List.flatten_cons, List.map_append]
  obtain ⟨packets, datas, hmap, hpackets, hdatas⟩ := hmap
  refine ⟨datas, ?_, hdatas⟩
  rw [sendImages, hmap, ← hpackets]
  rfl

end

/-! ## What is forwarded -/

/-- Data as the host receives it: each behind its length and two bytes of routing. -/
inductive Frames : List (List UInt8) → List UInt8 → Prop where
  | nil : Frames [] []
  | cons {data : List UInt8} {chunks : List (List UInt8)} {l : List UInt8} (route : List UInt8)
      (hroute : route.length = 2) (h : Frames chunks l) :
      Frames (data :: chunks) (toLE16 (.ofNat (data.length + 2)) ++ (route ++ data) ++ l)

theorem Frames.length_le {chunks : List (List UInt8)} {l : List UInt8} (h : Frames chunks l) :
    chunks.length ≤ l.length := by
  induction h with
  | nil => exact Nat.le_refl _
  | cons route hroute _ ih =>
    simp only [List.length_cons, List.length_append, hroute]
    omega

/-- A packet is passed on as its length, its route and its data. -/
theorem cpxSendPacketBlocking_message (txpPacked : Packet) {data : List UInt8}
    (hdata : data.length ≤ sizeofData) :
    ∃ packed route, cpxSendPacketBlocking txpPacked (streamPacket data) = .ok packed ∧
      route.length = 2 ∧
      packed.message = toLE16 (.ofNat (data.length + 2)) ++ (route ++ data) := by
  change data.length ≤ 1020 at hdata
  have hlength : (streamPacket data).dataLength.toNat = data.length := by
    simp only [streamPacket, UInt16.toNat_ofNat']
    omega
  have hwire : (streamPacket data).dataLength + 2 = .ofNat (data.length + 2) := by
    apply UInt16.toNat_inj.mp
    rw [UInt16.toNat_add, hlength, UInt16.toNat_ofNat']
    rfl
  have htake : (streamPacket data).data.take (streamPacket data).dataLength.toNat = data := by
    rw [hlength]
    exact List.take_length
  generalize hroute : (packRoute (streamPacket data).route txpPacked.route.reserved).toBytes = route
  have hroute' : route.length = 2 := hroute ▸ rfl
  generalize hl : toLE16 (.ofNat (data.length + 2)) ++ (route ++ data) = l
  have hlen : l.length = 4 + data.length := by
    rw [← hl, List.length_append, List.length_append, hroute']
    change 2 + (2 + data.length) = _
    omega
  have hfits : 0 + l.length ≤ sizeofPacket := by
    change 0 + l.length ≤ 1024
    omega
  refine ⟨txpPacked.store 0 l hfits, route, ?_, hroute', ?_⟩
  · simp only [cpxSendPacketBlocking, hwire, htake, hroute, hl, dif_pos hfits]
  · have hbytes : (txpPacked.store 0 l hfits).bytes = l ++ txpPacked.bytes.drop (0 + l.length) := rfl
    have hlen' : (txpPacked.store 0 l hfits).len = .ofNat (data.length + 2) := by
      rw [Packet.len, hbytes, ← hl, List.append_assoc, ofLE16_toLE16]
    rw [Packet.message, hlen', hbytes, UInt16.toNat_ofNat', Nat.mod_eq_of_lt (by omega), hl]
    exact List.take_left' (by omega)

theorem sendPackets_spec (txpPacked : Packet) {chunks : List (List UInt8)} (h : Carried chunks) :
    ∃ wire, sendPackets txpPacked (chunks.map streamPacket) = .ok wire ∧
      Frames chunks (espForward wire) := by
  induction chunks generalizing txpPacked with
  | nil => exact ⟨[], rfl, .nil⟩
  | cons data chunks ih =>
    obtain ⟨hfirst, hothers⟩ := List.forall_mem_cons.mp h
    obtain ⟨packed, route, hsend, hroute, hmessage⟩ :=
      cpxSendPacketBlocking_message txpPacked hfirst.2
    obtain ⟨wire, hrest, hframes⟩ := ih packed hothers
    refine ⟨packed :: wire, ?_, ?_⟩
    · rw [List.map_cons, sendPackets, hsend]
      show (sendPackets packed (chunks.map streamPacket) >>= _) = _
      rw [hrest]
      rfl
    · rw [espForward, List.flatMap_cons, hmessage]
      exact .cons route hroute hframes

end AiDeck.Wifi
