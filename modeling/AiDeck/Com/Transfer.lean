import AiDeck.Com.Packet

/-! # A transfer and what is made of it

One turn of `com_task` (lib/cpx/src/com.c): four bytes that carry both lengths and a second
transfer for the rest, and `cpx_rx_task` (lib/cpx/src/cpx.c) on the packet received. -/
namespace AiDeck.Com
open AiDeck.Lib.Bytes AiDeck.Cpx

abbrev initialTransferSize : Nat := 4

/-- `sizeLeft`: the longer of the two packets, rounded up to words, and at least one. -/
def sizeLeft (txLen rxLen : Int) : Int :=
  let sizeLeft := max (txLen - initialTransferSize + 2) (rxLen - initialTransferSize + 2)
  let sizeLeft := max 0 sizeLeft
  let sizeLeft := if sizeLeft % 4 > 0 then sizeLeft + (4 - sizeLeft % 4) else sizeLeft
  if sizeLeft = 0 then 4 else sizeLeft

/-- `pi_spi_transfer` from `offset` in the buffers on: `miso` is what the ESP32 clocks out. -/
def piSpiTransfer (rxBuff : Packet) (offset : Nat) (miso : List UInt8) : Except Fault Packet :=
  if h : offset + miso.length ≤ sizeofPacket then .ok (rxBuff.store offset miso h)
  else .error .outside

/-- The two transfers of `com_task`, with `sizeLeft` and `rx_buff` after them. -/
def comTransfer (txBuff rxBuff : Packet) (esp : Nat → UInt8) : Except Fault (Int × Packet) := do
  let rxBuff ← piSpiTransfer rxBuff 0 (segment esp 0 initialTransferSize)
  let left := sizeLeft txBuff.len.toNat rxBuff.len.toNat
  let rxBuff ← piSpiTransfer rxBuff initialTransferSize
    (segment esp initialTransferSize left.toNat)
  return (left, rxBuff)

/-- The fields of `rxp` that `cpx_rx_task` fills. -/
def Packet.unpacked (rxpPacked : Packet) (dataLength : UInt16) : CpxPacket :=
  let route := rxpPacked.route
  { route := ⟨route.destination, route.source, route.lastPacket, route.function, route.version⟩
    dataLength := dataLength
    data := rxpPacked.data.take dataLength.toNat }

/-- `cpx_rx_task` from `com_read` to the copy of the data. -/
def cpxUnpack (rxpPacked : Packet) : Except Fault CpxPacket :=
  if rxpPacked.route.version ≠ cpxVersion then .error .assertion
  else
    let dataLength := rxpPacked.len - 2
    if dataLength.toNat > sizeofData then .error .outside
    else .ok (rxpPacked.unpacked dataLength)

/-- The header the ESP32 sends. -/
def espHeader (esp : Nat → UInt8) : List UInt8 := segment esp 0 initialTransferSize

/-- The length in it. -/
def espLen (esp : Nat → UInt8) : UInt16 := ofLE16 (espHeader esp)

/-- The version in it. -/
def espVersion (esp : Nat → UInt8) : BitVec 2 := (CpxHeader.ofBytes ((espHeader esp).drop 2)).version

/-! ## The bytes clocked -/

theorem sizeLeft_spec (txLen rxLen : Nat) : 0 < sizeLeft txLen rxLen ∧ sizeLeft txLen rxLen % 4 = 0 ∧
    (max txLen rxLen : Int) ≤ sizeLeft txLen rxLen + 2 ∧
    (sizeLeft txLen rxLen = 4 ∨ sizeLeft txLen rxLen < (max txLen rxLen : Int) + 2) := by
  simp only [sizeLeft, Nat.cast_ofNat]
  split <;> split <;> omega

/-- The second transfer stays in the buffers if and only if both lengths are within the MTU. -/
theorem sizeLeft_fits_iff (txLen rxLen : Nat) :
    initialTransferSize + sizeLeft txLen rxLen ≤ (sizeofPacket : Int) ↔
      txLen ≤ mtu ∧ rxLen ≤ mtu := by
  obtain ⟨hpos, hwords, hlo, hhi⟩ := sizeLeft_spec txLen rxLen
  change 4 + sizeLeft txLen rxLen ≤ 1024 ↔ txLen ≤ 1022 ∧ rxLen ≤ 1022
  constructor
  · intro h
    omega
  · intro h
    omega

/-! ## What a transfer leaves in the buffer -/

section
variable {txBuff rxBuff p : Packet} {esp : Nat → UInt8} {offset : Nat} {miso l l' : List UInt8}

theorem piSpiTransfer_ok (rxBuff : Packet) (h : offset + miso.length ≤ sizeofPacket) :
    ∃ p, piSpiTransfer rxBuff offset miso = .ok p ∧
      p.bytes = rxBuff.bytes.take offset ++ miso ++ rxBuff.bytes.drop (offset + miso.length) :=
  ⟨_, dif_pos h, rfl⟩

theorem piSpiTransfer_outside (h : ¬ offset + miso.length ≤ sizeofPacket) :
    piSpiTransfer rxBuff offset miso = .error .outside := dif_neg h

theorem ofLE16_append_left (h : 2 ≤ l.length) : ofLE16 (l ++ l') = ofLE16 l := by
  simp only [ofLE16, List.getD_append _ _ _ 0 (Nat.lt_of_lt_of_le Nat.zero_lt_two h),
    List.getD_append _ _ _ 1 (Nat.lt_of_lt_of_le Nat.one_lt_two h)]

theorem ofBytes_append_left (h : 4 ≤ l.length) :
    CpxHeader.ofBytes ((l ++ l').drop 2) = CpxHeader.ofBytes (l.drop 2) := by
  have hlong : 2 ≤ (l.drop 2).length := by
    rw [List.length_drop]
    omega
  rw [List.drop_append_of_le_length (Nat.le_trans (by decide) h)]
  simp only [CpxHeader.ofBytes, List.getD_append _ _ _ 0 (Nat.lt_of_lt_of_le Nat.zero_lt_two hlong),
    List.getD_append _ _ _ 1 (Nat.lt_of_lt_of_le Nat.one_lt_two hlong)]

/-- A buffer that begins with what the ESP32 sends has its length and version. -/
theorem header_received {n : Nat} (h : p.bytes = segment esp 0 (initialTransferSize + n) ++ l) :
    p.len = espLen esp ∧ p.route.version = espVersion esp := by
  rw [segment_add, List.append_assoc] at h
  have hheader : (espHeader esp).length = 4 := segment_length ..
  constructor
  · rw [Packet.len, h]
    exact ofLE16_append_left (hheader ▸ by decide)
  · rw [Packet.route, h, espVersion]
    exact congrArg CpxHeader.version (ofBytes_append_left (Nat.le_of_eq hheader.symm))

/-- The first transfer brings the length. -/
theorem initial_transfer (rxBuff : Packet) (esp : Nat → UInt8) :
    ∃ p, piSpiTransfer rxBuff 0 (segment esp 0 initialTransferSize) = .ok p ∧
      p.bytes = espHeader esp ++ rxBuff.bytes.drop initialTransferSize ∧ p.len = espLen esp := by
  have hfits : 0 + (segment esp 0 initialTransferSize).length ≤ sizeofPacket := by
    rw [segment_length]
    decide
  obtain ⟨p, hp, hbytes⟩ := piSpiTransfer_ok rxBuff hfits
  rw [List.take_zero, List.nil_append, segment_length, Nat.zero_add] at hbytes
  exact ⟨p, hp, hbytes, (header_received (n := 0) hbytes).1⟩

/-- Both transfers, where the second one stays in the buffers. -/
theorem comTransfer_ok (rxBuff : Packet) (h : initialTransferSize +
      sizeLeft txBuff.len.toNat (espLen esp).toNat ≤ (sizeofPacket : Int)) :
    ∃ p l, comTransfer txBuff rxBuff esp =
        .ok (sizeLeft txBuff.len.toNat (espLen esp).toNat, p) ∧
      p.bytes = segment esp 0 (initialTransferSize +
        (sizeLeft txBuff.len.toNat (espLen esp).toNat).toNat) ++ l := by
  obtain ⟨p, hp, hbytes, hlen⟩ := initial_transfer rxBuff esp
  have hpos := (sizeLeft_spec txBuff.len.toNat (espLen esp).toNat).1
  have hfits : initialTransferSize + (segment esp initialTransferSize
      (sizeLeft txBuff.len.toNat (espLen esp).toNat).toNat).length ≤ sizeofPacket := by
    rw [segment_length]
    omega
  obtain ⟨q, hq, hqbytes⟩ := piSpiTransfer_ok p hfits
  generalize p.bytes.drop _ = l at hqbytes
  refine ⟨q, l, ?_, ?_⟩
  · rw [comTransfer, hp]
    change (do
      let rxBuff ← piSpiTransfer p initialTransferSize (segment esp initialTransferSize
        (sizeLeft txBuff.len.toNat p.len.toNat).toNat)
      return (sizeLeft txBuff.len.toNat p.len.toNat, rxBuff)) = _
    rw [hlen, hq]
    rfl
  · have hheader : (espHeader esp).length = initialTransferSize := segment_length ..
    rw [hqbytes, hbytes, List.take_left' hheader, segment_add, Nat.zero_add]
    rfl

theorem comTransfer_outside (rxBuff : Packet) (esp : Nat → UInt8) (h : ¬ initialTransferSize +
      sizeLeft txBuff.len.toNat (espLen esp).toNat ≤ (sizeofPacket : Int)) :
    comTransfer txBuff rxBuff esp = .error .outside := by
  obtain ⟨p, hp, -, hlen⟩ := initial_transfer rxBuff esp
  have hpos := (sizeLeft_spec txBuff.len.toNat (espLen esp).toNat).1
  have houtside : ¬ initialTransferSize + (segment esp initialTransferSize
      (sizeLeft txBuff.len.toNat (espLen esp).toNat).toNat).length ≤ sizeofPacket := by
    rw [segment_length]
    omega
  rw [comTransfer, hp]
  change (do
    let rxBuff ← piSpiTransfer p initialTransferSize (segment esp initialTransferSize
      (sizeLeft txBuff.len.toNat p.len.toNat).toNat)
    return (sizeLeft txBuff.len.toNat p.len.toNat, rxBuff)) = _
  rw [hlen, piSpiTransfer_outside houtside]
  rfl

end

/-! ## When the lengths are safe -/

/-- The transfers stay in the buffers, and a packet that `com_task` queues is unpacked with a
length that is at least that of the header and fits the data, unless its version stops
`cpx_rx_task` first. -/
def LengthSafe (txBuff rxBuff : Packet) (esp : Nat → UInt8) : Prop :=
  ∃ left p, comTransfer txBuff rxBuff esp = .ok (left, p) ∧
    initialTransferSize + left ≤ (sizeofPacket : Int) ∧
    (0 < p.len.toNat → cpxUnpack p ≠ .error .assertion →
      cpxHeaderSize ≤ p.len.toNat ∧
        ∃ rxp, cpxUnpack p = .ok rxp ∧ rxp.dataLength.toNat = p.len.toNat - cpxHeaderSize ∧
          rxp.dataLength.toNat ≤ sizeofData)

theorem cpxUnpack_assertion {p : Packet} : cpxUnpack p = .error .assertion ↔
    p.route.version ≠ cpxVersion := by
  by_cases h : p.route.version = cpxVersion
  · refine iff_of_false ?_ (not_not_intro h)
    simp only [cpxUnpack, if_neg (not_not_intro h)]
    split
    · simp
    · simp
  · exact iff_of_true (if_pos h) h

/-- The length of the data, where the version is the supported one. -/
theorem cpxUnpack_iff {p : Packet} (hversion : p.route.version = cpxVersion)
    (hpos : 0 < p.len.toNat) :
    (cpxHeaderSize ≤ p.len.toNat ∧
        ∃ rxp, cpxUnpack p = .ok rxp ∧ rxp.dataLength.toNat = p.len.toNat - cpxHeaderSize ∧
          rxp.dataLength.toNat ≤ sizeofData) ↔ 1 < p.len.toNat ∧ p.len.toNat ≤ mtu := by
  have hlt := p.len.toNat_lt
  constructor
  · rintro ⟨hheader, rxp, -, hlength, hfits⟩
    change 2 ≤ p.len.toNat at hheader
    change rxp.dataLength.toNat ≤ 1020 at hfits
    change 1 < p.len.toNat ∧ p.len.toNat ≤ 1022
    rw [hlength] at hfits
    change p.len.toNat - 2 ≤ 1020 at hfits
    omega
  · rintro ⟨hlo, hhi⟩
    have hlength : (p.len - 2).toNat = p.len.toNat - cpxHeaderSize :=
      UInt16.toNat_sub_of_le p.len 2 hlo
    have hfits : (p.len - 2).toNat ≤ sizeofData := by
      rw [hlength]
      exact Nat.sub_le_sub_right hhi _
    refine ⟨hlo, p.unpacked (p.len - 2), ?_, hlength, hfits⟩
    rw [cpxUnpack, if_neg (not_not_intro hversion)]
    exact if_neg (Nat.not_lt.mpr hfits)

/-- **When the receive lengths are safe.** With a pending packet within the MTU, transfers and
copies stay in their buffers if and only if the length that the ESP32 announces is within the MTU
and is not 1 in a packet of the supported version. -/
theorem comTransfer_lengthSafe_iff (rxBuff : Packet) (esp : Nat → UInt8) {txBuff : Packet}
    (htx : txBuff.len.toNat ≤ mtu) :
    LengthSafe txBuff rxBuff esp ↔ (espLen esp).toNat ≤ mtu ∧
      ((espLen esp).toNat = 1 → espVersion esp ≠ cpxVersion) := by
  have hfits := sizeLeft_fits_iff txBuff.len.toNat (espLen esp).toNat
  by_cases hmtu : (espLen esp).toNat ≤ mtu
  · obtain ⟨p, l, hok, hbytes⟩ := comTransfer_ok rxBuff (hfits.mpr ⟨htx, hmtu⟩)
    obtain ⟨hlen, hversion⟩ := header_received hbytes
    constructor
    · rintro ⟨left, q, hq, -, hsafe⟩
      obtain ⟨-, rfl⟩ := Prod.mk.inj (Except.ok.inj (hok.symm.trans hq))
      refine ⟨hmtu, fun hone hsupported => ?_⟩
      rw [← hversion] at hsupported
      rw [← hlen] at hone
      have hpos : 0 < p.len.toNat := hone ▸ Nat.one_pos
      have hlong := (cpxUnpack_iff hsupported hpos).mp
        (hsafe hpos fun h => cpxUnpack_assertion.mp h hsupported)
      omega
    · rintro ⟨-, hone⟩
      refine ⟨_, p, hok, hfits.mpr ⟨htx, hmtu⟩, fun hpos hassert => ?_⟩
      have hsupported : p.route.version = cpxVersion :=
        Decidable.not_not.mp (mt cpxUnpack_assertion.mpr hassert)
      refine (cpxUnpack_iff hsupported hpos).mpr ⟨?_, hlen ▸ hmtu⟩
      rw [hversion] at hsupported
      rw [hlen] at hpos ⊢
      exact Nat.lt_of_le_of_ne hpos fun h => hone h.symm hsupported
  · have houtside := comTransfer_outside rxBuff esp
      (mt (fun h => (hfits.mp h).2) hmtu)
    refine iff_of_false ?_ fun h => hmtu h.1
    rintro ⟨left, p, hok, -⟩
    rw [houtside] at hok
    cases hok

/-- The ESP32 sends the four bytes of a header and zeros. -/
def headerOnly (length : UInt16) (route : CpxHeader) : Nat → UInt8 :=
  feed (toLE16 length ++ route.toBytes) fun _ => 0

/-- A packet of ten bytes from the host to the GAP8. -/
theorem comTransfer_lengthSafe_ten :
    LengthSafe .zero .zero (headerOnly 10 ⟨4, 3, 1, 0, 5, 0⟩) :=
  (comTransfer_lengthSafe_iff .zero _ (by decide)).mpr (by decide)

/-- The longest length leaves the buffers, and the length 1 makes the data 65535 bytes long. -/
theorem longLength_unsafe :
    Packet.zero.len.toNat ≤ mtu ∧
      ¬ LengthSafe .zero .zero (headerOnly 65535 ⟨4, 3, 1, 0, 5, 0⟩) ∧
      ¬ LengthSafe .zero .zero (headerOnly 1 ⟨4, 3, 1, 0, 5, 0⟩) := by
  refine ⟨by decide, ?_, ?_⟩
  · rintro ⟨left, p, hok, -⟩
    rw [comTransfer_outside _ _ (by decide)] at hok
    cases hok
  · rintro ⟨left, p, hok, -, hsafe⟩
    have hfits : initialTransferSize + sizeLeft Packet.zero.len.toNat
        (espLen (headerOnly 1 ⟨4, 3, 1, 0, 5, 0⟩)).toNat ≤ (sizeofPacket : Int) := by decide
    obtain ⟨q, l, hok', hbytes⟩ := comTransfer_ok .zero hfits
    obtain ⟨-, rfl⟩ := Prod.mk.inj (Except.ok.inj (hok.symm.trans hok'))
    obtain ⟨hlen, hversion⟩ := header_received hbytes
    have hone : p.len.toNat = 1 := hlen ▸ by decide
    have hsupported : p.route.version = cpxVersion := hversion.trans (by decide)
    have hpos : 0 < p.len.toNat := hone ▸ Nat.one_pos
    have hlong := (cpxUnpack_iff hsupported hpos).mp
      (hsafe hpos fun h => cpxUnpack_assertion.mp h hsupported)
    omega

end AiDeck.Com
