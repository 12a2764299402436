import AiDeck.Wifi.Stream

/-! # The viewer

The receive loop of examples/other/wifi-img-streamer/opencv-viewer.py, up to where an image is
complete. What it then shows reads nothing more from the socket. -/
namespace AiDeck.Wifi
open AiDeck.Lib.Bytes AiDeck.Com

/-- The bytes that `recv` has not given yet, and the calls of `recv` so far. -/
structure Socket where
  pending : List UInt8
  calls : Nat
  deriving DecidableEq

/-- Why the loop does not go on: `recv` waits for bytes, `struct.unpack` was given another number
of bytes, or the rounds of a loop were used up. -/
inductive Stop where
  | blocked
  | structError
  | diverged
  deriving DecidableEq

/-- An image as the viewer has it. -/
structure Image where
  width : UInt16
  height : UInt16
  format : UInt8
  imgStream : List UInt8
  deriving DecidableEq

def StreamImage.image (image : StreamImage) : Image :=
  ⟨image.width, image.height, image.type.toByte, image.bytes⟩

section
variable (cut : Nat → Nat)

/-- `recv(size)` gives at least one byte; `cut` says how many of those there are. -/
def Socket.recv (s : Socket) (size : Nat) : Except Stop (List UInt8 × Socket) :=
  if s.pending.length = 0 then .error .blocked
  else
    let n := min (max 1 (cut s.calls)) (min size s.pending.length)
    .ok (s.pending.take n, ⟨s.pending.drop n, s.calls + 1⟩)

def rxBytesLoop (size : Nat) : Nat → Socket → List UInt8 → Except Stop (List UInt8 × Socket)
  | 0, _, _ => .error .diverged
  | n + 1, s, data =>
    if data.length < size then do
      let bytes ← s.recv cut (size - data.length)
      rxBytesLoop size n bytes.2 (data ++ bytes.1)
    else .ok (data, s)

def rxBytes (s : Socket) (size : Nat) : Except Stop (List UInt8 × Socket) :=
  rxBytesLoop cut size (size + 1) s []

/-- `packetInfoRaw` and the data behind it. -/
def rxPacket (s : Socket) : Except Stop (List UInt8 × Socket) := do
  let packetInfoRaw ← rxBytes cut s 4
  rxBytes cut packetInfoRaw.2 ((ofLE16 packetInfoRaw.1).toNat - 2)

/-- The inner loop. -/
def rxChunks (size : Nat) : Nat → Socket → List UInt8 → Except Stop (List UInt8 × Socket)
  | 0, _, _ => .error .diverged
  | n + 1, s, imgStream =>
    if imgStream.length < size then do
      let chunk ← rxPacket cut s
      rxChunks size n chunk.2 (imgStream ++ chunk.1)
    else .ok (imgStream, s)

/-- A round of the outer loop: an image if the header has the magic number. -/
def rxImage (s : Socket) : Except Stop (Option Image × Socket) := do
  let imgHeader ← rxPacket cut s
  if imgHeader.1.length ≠ sizeofImageHeader then .error .structError
  else
    let header := ImageHeader.ofBytes imgHeader.1
    if header.magic = 0xBC then do
      let imgStream ← rxChunks cut header.size.toNat (imgHeader.2.pending.length + 1)
        imgHeader.2 []
      return (some ⟨header.width, header.height, header.type, imgStream.1⟩, imgStream.2)
    else return (none, imgHeader.2)

def viewerLoop : Nat → Socket → List Image × Stop
  | 0, _ => ([], .diverged)
  | n + 1, s =>
    match rxImage cut s with
    | .error stop => ([], stop)
    | .ok (image, s) =>
      let rest := viewerLoop n s
      (image.toList ++ rest.1, rest.2)

/-- The images of a stream. A round takes at least four bytes. -/
def viewer (stream : List UInt8) : List Image × Stop :=
  viewerLoop cut (stream.length + 1) ⟨stream, 0⟩

/-! ## Packets -/

theorem rxBytesLoop_spec {size n : Nat} (data l rest : List UInt8) (calls : Nat)
    (hsize : data.length + l.length = size) (hn : l.length < n) :
    ∃ calls', rxBytesLoop cut size n ⟨l ++ rest, calls⟩ data =
      .ok (data ++ l, ⟨rest, calls'⟩) := by
  induction n generalizing data l calls with
  | zero => exact absurd hn (Nat.not_lt_zero _)
  | succ n ih =>
    rw [rxBytesLoop]
    by_cases hmore : data.length < size
    · have hpending : (l ++ rest).length = l.length + rest.length := List.length_append
      have hrecv : ∃ k, 1 ≤ k ∧ k ≤ l.length ∧
          Socket.recv cut ⟨l ++ rest, calls⟩ (size - data.length) =
            .ok ((l ++ rest).take k, ⟨(l ++ rest).drop k, calls + 1⟩) := by
        refine ⟨min (max 1 (cut calls)) (min (size - data.length) (l ++ rest).length), ?_, ?_, ?_⟩
        · omega
        · omega
        · unfold Socket.recv
          refine if_neg ?_
          rw [show (⟨l ++ rest, calls⟩ : Socket).pending = l ++ rest from rfl]
          omega
      obtain ⟨k, hpos, hle, hrecv⟩ := hrecv
      have hcut : data.length + k + (l.length - k) = size := by omega
      obtain ⟨calls', hrest⟩ := ih (data ++ l.take k) (l.drop k) (calls + 1)
        (by rw [List.length_append, List.length_take, List.length_drop, min_eq_left hle, hcut])
        (by rw [List.length_drop]; omega)
      rw [List.append_assoc, List.take_append_drop] at hrest
      refine ⟨calls', ?_⟩
      rw [if_pos hmore, hrecv, List.take_append_of_le_length hle, List.drop_append_of_le_length hle]
      exact hrest
    · have hnil : l = [] := List.eq_nil_of_length_eq_zero (by omega)
      subst hnil
      exact ⟨calls, by rw [if_neg hmore, List.append_nil, List.nil_append]⟩

theorem rxBytes_spec (l rest : List UInt8) (calls : Nat) :
    ∃ calls', rxBytes cut ⟨l ++ rest, calls⟩ l.length = .ok (l, ⟨rest, calls'⟩) :=
  rxBytesLoop_spec cut [] l rest calls (Nat.zero_add _) (Nat.lt_succ_self _)

/-- However the bytes are cut, the data of the next packet is received. -/
theorem rxPacket_spec {data : List UInt8} {chunks : List (List UInt8)} {l : List UInt8}
    (h : Frames (data :: chunks) l) (hdata : data.length ≤ sizeofData) (calls : Nat) :
    ∃ l' calls', rxPacket cut ⟨l, calls⟩ = .ok (data, ⟨l', calls'⟩) ∧ Frames chunks l' := by
  change data.length ≤ 1020 at hdata
  cases h with
  | @cons _ _ l' route hroute h =>
    generalize hinfo : toLE16 (.ofNat (data.length + 2)) ++ route = info
    have hinfoLength : info.length = 4 := by
      rw [← hinfo, List.length_append, hroute]
      rfl
    have hlength : (ofLE16 info).toNat - 2 = data.length := by
      rw [← hinfo, ofLE16_toLE16, UInt16.toNat_ofNat']
      omega
    obtain ⟨calls₁, hfirst⟩ := rxBytes_spec cut info (data ++ l') calls
    obtain ⟨calls₂, hsecond⟩ := rxBytes_spec cut data l' calls₁
    refine ⟨l', calls₂, ?_, h⟩
    have hbytes : toLE16 (.ofNat (data.length + 2)) ++ (route ++ data) ++ l' =
        info ++ (data ++ l') := by
      rw [← hinfo, List.append_assoc, List.append_assoc, List.append_assoc]
    rw [hinfoLength] at hfirst
    rw [hbytes, rxPacket, hfirst]
    show rxBytes cut ⟨data ++ l', calls₁⟩ ((ofLE16 info).toNat - 2) = _
    rw [hlength, hsecond]

/-! ## Images -/

/-- The inner loop ends with the chunk that completes the image. -/
theorem rxChunks_spec (imgStream : List UInt8) {chunks others : List (List UInt8)} {size n : Nat}
    {l : List UInt8}
    (h : Frames (chunks ++ others) l) (hcarried : Carried chunks)
    (hsize : imgStream.length + chunks.flatten.length = size) (hn : chunks.length < n)
    (calls : Nat) :
    ∃ l' calls', rxChunks cut size n ⟨l, calls⟩ imgStream =
        .ok (imgStream ++ chunks.flatten, ⟨l', calls'⟩) ∧
      Frames others l' := by
  induction n generalizing chunks l imgStream calls with
  | zero => exact absurd hn (Nat.not_lt_zero _)
  | succ n ih =>
    cases chunks with
    | nil =>
      rw [List.flatten_nil, List.length_nil, Nat.add_zero] at hsize
      refine ⟨l, calls, ?_, h⟩
      rw [rxChunks, if_neg (by omega), List.flatten_nil, List.append_nil]
    | cons chunk chunks =>
      obtain ⟨⟨hpos, hle⟩, hcarried⟩ := List.forall_mem_cons.mp hcarried
      obtain ⟨l₁, calls₁, hpacket, h⟩ := rxPacket_spec cut h hle calls
      rw [List.flatten_cons, List.length_append] at hsize
      rw [List.length_cons] at hn
      obtain ⟨l₂, calls₂, hrest, h⟩ := ih (imgStream ++ chunk) h hcarried
        (by rw [List.length_append]; omega) (by omega) calls₁
      refine ⟨l₂, calls₂, ?_, h⟩
      rw [rxChunks, if_pos (by omega), hpacket, List.flatten_cons, ← List.append_assoc]
      exact hrest

/-- A round receives the next image. -/
theorem rxImage_spec {image : StreamImage} {data others : List (List UInt8)} {l : List UInt8}
    (h : Frames (data ++ others) l) (hdata : ImageData image data)
    (hshort : image.bytes.length < 2 ^ 31) (calls : Nat) :
    ∃ l' calls', rxImage cut ⟨l, calls⟩ = .ok (some image.image, ⟨l', calls'⟩) ∧
      Frames others l' := by
  obtain ⟨chunks, rfl, hflat, hcarried⟩ := hdata
  generalize hheader : (⟨0xBC, image.width, image.height, 1, image.type.toByte,
    .ofNat image.bytes.length⟩ : ImageHeader) = header at h
  rw [List.cons_append] at h
  have hsize : header.size.toNat = image.bytes.length := by
    rw [← hheader]
    show (UInt32.ofNat image.bytes.length).toNat = _
    rw [UInt32.toNat_ofNat', Nat.mod_eq_of_lt (by omega)]
  obtain ⟨l₁, calls₁, hpacket, h⟩ := rxPacket_spec cut h
    (by rw [ImageHeader.toBytes_length]; decide) calls
  have hfuel : chunks.length < l₁.length + 1 := by
    have hle := h.length_le
    rw [List.length_append] at hle
    omega
  obtain ⟨l₂, calls₂, hchunks, h⟩ := rxChunks_spec cut [] h hcarried
    (by rw [List.length_nil, Nat.zero_add, hflat]) hfuel calls₁
  rw [List.nil_append, hflat, ← hsize] at hchunks
  refine ⟨l₂, calls₂, ?_, h⟩
  have hmagic : header.magic = 0xBC := hheader ▸ rfl
  unfold rxImage
  simp only [hpacket, bind, Except.bind, ImageHeader.toBytes_length, ImageHeader.ofBytes_toBytes,
    ne_eq, not_true_eq_false, if_false, hmagic, if_true, hchunks]
  rw [← hheader]
  rfl

/-- At the end of the stream the viewer waits for the next packet. -/
theorem rxImage_nil (calls : Nat) : rxImage cut ⟨[], calls⟩ = .error .blocked := rfl

theorem viewerLoop_spec {images : List StreamImage} {datas : List (List (List UInt8))}
    {l : List UInt8} {n : Nat} (hdatas : List.Forall₂ ImageData images datas)
    (h : Frames datas.flatten l) (hshort : ∀ image ∈ images, image.bytes.length < 2 ^ 31)
    (hn : images.length < n) (calls : Nat) :
    viewerLoop cut n ⟨l, calls⟩ = (images.map StreamImage.image, .blocked) := by
  induction hdatas generalizing l n calls with
  | nil =>
    cases h
    cases n with
    | zero => exact absurd hn (Nat.not_lt_zero _)
    | succ n => rw [viewerLoop, rxImage_nil]; rfl
  | @cons image data images datas hdata _ ih =>
    obtain ⟨hfirst, hothers⟩ := List.forall_mem_cons.mp hshort
    rw [List.flatten_cons] at h
    cases n with
    | zero => exact absurd hn (Nat.not_lt_zero _)
    | succ n =>
      obtain ⟨l', calls', himage, h⟩ := rxImage_spec cut h hdata hfirst calls
      have hrest := ih h hothers (Nat.lt_of_succ_lt_succ hn) calls'
      rw [viewerLoop, himage]
      simp only [hrest]
      rfl

end

theorem length_le_flatten {images : List StreamImage} {datas : List (List (List UInt8))}
    (h : List.Forall₂ ImageData images datas) : images.length ≤ datas.flatten.length := by
  induction h with
  | nil => exact Nat.le_refl _
  | cons hdata _ ih =>
    obtain ⟨chunks, rfl, -, -⟩ := hdata
    simp only [List.length_cons, List.flatten_cons, List.length_append]
    omega

theorem carried_flatten {images : List StreamImage} {datas : List (List (List UInt8))}
    (h : List.Forall₂ ImageData images datas) : Carried datas.flatten := by
  induction h with
  | nil => exact fun chunk hchunk => absurd hchunk List.not_mem_nil
  | cons hdata _ ih =>
    rw [List.flatten_cons]
    exact List.forall_mem_append.mpr ⟨hdata.carried, ih⟩

/-- The number of bytes a packet says it has. -/
theorem streamPacket_dataLength {chunks : List (List UInt8)} (h : Carried chunks) :
    ∀ packet ∈ chunks.map streamPacket,
      1 ≤ packet.dataLength.toNat ∧ packet.dataLength.toNat ≤ sizeofData := by
  intro packet hpacket
  obtain ⟨chunk, hchunk, rfl⟩ := List.mem_map.mp hpacket
  obtain ⟨hpos, hle⟩ := h chunk hchunk
  have hvalue : (streamPacket chunk).dataLength.toNat = chunk.length := by
    change chunk.length ≤ 1020 at hle
    simp only [streamPacket, UInt16.toNat_ofNat']
    omega
  rw [hvalue]
  exact ⟨hpos, hle⟩

/-- **Image streamer round trip.** Images of less than 2^31 bytes are sent in packets with 1 to
1020 bytes of data, and however the socket cuts what is forwarded, the viewer has the same images
and waits for the next one. -/
theorem viewer_sendImages (txpPacked : Packet) (images : List StreamImage) (cut : Nat → Nat)
    (hshort : ∀ image ∈ images, image.bytes.length < 2 ^ 31) :
    ∃ packets wire, sendImages images = some packets ∧
      (∀ packet ∈ packets,
        1 ≤ packet.dataLength.toNat ∧ packet.dataLength.toNat ≤ 1020) ∧
      sendPackets txpPacked packets = .ok wire ∧
      viewer cut (espForward wire) = (images.map StreamImage.image, .blocked) := by
  obtain ⟨datas, hsend, hdatas⟩ := sendImages_spec hshort
  have hcarried := carried_flatten hdatas
  obtain ⟨wire, hwire, hframes⟩ := sendPackets_spec txpPacked hcarried
  have hfuel : images.length < (espForward wire).length + 1 :=
    Nat.lt_succ_of_le ((length_le_flatten hdatas).trans hframes.length_le)
  exact ⟨_, wire, hsend, streamPacket_dataLength hcarried, hwire,
    viewerLoop_spec cut hdatas hframes hshort hfuel 0⟩

/-- A raw image in one buffer and a JPEG in three, received byte by byte. -/
theorem viewer_sendImages_two :
    ∃ packets wire, sendImages [⟨1, 2, .raw, [[7, 8]]⟩, ⟨1, 1, .jpeg, [[1], [], [2, 3]]⟩] =
        some packets ∧
      (∀ packet ∈ packets,
        1 ≤ packet.dataLength.toNat ∧ packet.dataLength.toNat ≤ 1020) ∧
      sendPackets .zero packets = .ok wire ∧
      viewer (fun _ => 1) (espForward wire) =
        ([⟨1, 2, 0, [7, 8]⟩, ⟨1, 1, 1, [1, 2, 3]⟩], .blocked) :=
  viewer_sendImages .zero [⟨1, 2, .raw, [[7, 8]]⟩, ⟨1, 1, .jpeg, [[1], [], [2, 3]]⟩] (fun _ => 1)
    (by decide)

end AiDeck.Wifi
