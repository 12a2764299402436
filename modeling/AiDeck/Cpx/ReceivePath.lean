import AiDeck.Cpx.Spi

/-! # From a received header to the receive callback

nanocockpit/lib/cpx/cpx.c with `CPX_SPI_BIDIRECTIONAL` defined: a transfer fills the
receive buffer, `cpx_receive_task` goes on with the header, and the callback
registered for its function is started. -/
namespace AiDeck.Cpx

/-- `cpx_receive_req_t` as a receive callback finds it. -/
structure CpxReceiveReq where
  header : CpxHeader
  payload : Ptr
  payloadLength : UInt16
  receiverArgs : Ptr
  deriving DecidableEq, Repr

/-- The memory from `receive_callbacks` and from `receiver_args` of `cpx_t` on. -/
structure CallbackTables where
  receiveCallbacks : Nat → Ptr
  receiverArgs : Nat → Ptr

/-- The outcome of a dispatch: the coroutine started, with its request, or none and
`done_task` pushed; `indices` are the table entries read. -/
structure Dispatch where
  started : Option (Ptr × CpxReceiveReq)
  indices : List Nat
  deriving DecidableEq

/-- The assertions on the receive path. -/
inductive ReceiveAssertion where
  | spi (assertion : SpiAssertion)
  /-- "Received packet with unsupported CPX version %d, expected %d." -/
  | version (version : BitVec 2)
  deriving DecidableEq, Repr

def cpxDispatchCallbackAsync (cpx : CallbackTables) (req : CpxReceiveReq) : Dispatch :=
  let function := req.header.function.toNat
  if function < cpxFLast then
    let receiveCallback := cpx.receiveCallbacks function
    if receiveCallback ≠ 0 then
      ⟨some (receiveCallback, { req with receiverArgs := cpx.receiverArgs function }),
        [function, function]⟩
    else ⟨none, [function]⟩
  else ⟨none, []⟩

/-- `cpx_receive_task` from the end of the wait for `receive_done` on; an empty packet
is not dispatched. -/
def cpxReceiveTask (cpx : CallbackTables) (receiverArgs : Ptr) (req : CpxSpiReceiveReq) :
    Except ReceiveAssertion (Option Dispatch) :=
  let receiveLength := req.header.length
  if receiveLength.toNat > 0 then
    if req.header.cpx.version ≠ cpxVersion then .error (.version req.header.cpx.version)
    else .ok (some (cpxDispatchCallbackAsync cpx
      ⟨req.header.cpx, req.buffer, receiveLength, receiverArgs⟩))
  else .ok none

/-- A packet received: the payload bytes the transfers stored and what became of it. -/
structure Received where
  written : Nat
  dispatch : Option Dispatch
  deriving DecidableEq

/-- Steps 6 to 12 of `cpx_spi_task` as far as they reach the receiver, and
`cpx_receive_task`: the header phase stores `header`, the payload phases the payload. -/
def receivePacket (cpx : CallbackTables) (receiverArgs : Ptr) (emptyHeader : EmptyHeader)
    (sendReq : Option CpxSpiSendReq) (receiveReq : CpxSpiReceiveReq) (header : CpxSpiHeader) :
    Except ReceiveAssertion Received := do
  let _ ← (cpxSpiTransferHeaderAsync emptyHeader sendReq (some receiveReq)).mapError .spi
  let receiveReq := { receiveReq with header := header }
  let head ← (cpxSpiTransferPayloadHeadAsync emptyHeader sendReq (some receiveReq)).mapError .spi
  let tail ← (cpxSpiTransferPayloadTailAsync sendReq (some receiveReq)).mapError .spi
  let dispatch ← cpxReceiveTask cpx receiverArgs receiveReq
  return ⟨head.written + tail.written, dispatch⟩

/-- A callback is told of no more bytes than were stored, and the tables are read below
`CPX_F_LAST`. -/
def Received.LengthSafe (r : Received) : Prop :=
  ∀ d, r.dispatch = some d → (∀ i ∈ d.indices, i < cpxFLast) ∧
    ∀ callback req, d.started = some (callback, req) →
      req.payloadLength.toNat ≤ r.written ∧ req.payloadLength.toNat ≤ cpxSpiMtu

/-- A callback is registered for `function`. -/
def CallbackTables.Registered (cpx : CallbackTables) (function : BitVec 6) : Prop :=
  function.toNat < cpxFLast ∧ cpx.receiveCallbacks function.toNat ≠ 0

section
variable (cpx : CallbackTables) (receiverArgs : Ptr) (emptyHeader : EmptyHeader)
  (sendReq : Option CpxSpiSendReq) (receiveReq : CpxSpiReceiveReq) (header : CpxSpiHeader)

theorem dispatch_indices (req : CpxReceiveReq) :
    ∀ i ∈ (cpxDispatchCallbackAsync cpx req).indices, i < cpxFLast := by
  intro i hi
  simp only [cpxDispatchCallbackAsync] at hi
  by_cases hf : req.header.function.toNat < cpxFLast
  · rw [if_pos hf] at hi
    suffices he : i = req.header.function.toNat from he ▸ hf
    split at hi
    · simpa using hi
    · simpa using hi
  · rw [if_neg hf] at hi
    cases hi

/-- A callback starts exactly when one is registered, and is given the request. -/
theorem dispatch_started (req : CpxReceiveReq) (callback : Ptr) (started : CpxReceiveReq) :
    (cpxDispatchCallbackAsync cpx req).started = some (callback, started) ↔
      cpx.Registered req.header.function ∧
      callback = cpx.receiveCallbacks req.header.function.toNat ∧
      started = { req with receiverArgs := cpx.receiverArgs req.header.function.toNat } := by
  simp only [cpxDispatchCallbackAsync, CallbackTables.Registered]
  by_cases hf : req.header.function.toNat < cpxFLast
  · rw [if_pos hf]
    by_cases hc : cpx.receiveCallbacks req.header.function.toNat ≠ 0
    · rw [if_pos hc]
      constructor
      · intro h; cases h; exact ⟨⟨hf, hc⟩, rfl, rfl⟩
      · rintro ⟨-, rfl, rfl⟩; rfl
    · rw [if_neg hc]
      constructor
      · intro h; cases h
      · rintro ⟨⟨-, h⟩, -⟩; exact absurd h hc
  · rw [if_neg hf]
    constructor
    · intro h; cases h
    · rintro ⟨⟨h, -⟩, -⟩; exact absurd h hf

/-- The two payload phases store the longer of the two packets, rounded up. -/
theorem receivePacket_written (dispatch : Option Dispatch)
    (h : cpxReceiveTask cpx receiverArgs { receiveReq with header := header } = .ok dispatch) :
    ∃ written, receivePacket cpx receiverArgs emptyHeader sendReq receiveReq header =
      .ok ⟨written, dispatch⟩ ∧ min header.length.toNat cpxSpiMtu ≤ written ∧
      written ≤ cpxSpiMtu := by
  obtain ⟨t, ht, -⟩ := transferHeader_ok emptyHeader sendReq receiveReq
  obtain ⟨head, hhead, hwritten, -⟩ :=
    transferPayloadHead_ok emptyHeader sendReq { receiveReq with header := header }
  obtain ⟨tail, htail, hround, -⟩ :=
    transferPayloadTail_ok sendReq { receiveReq with header := header }
  have htotal := totalLength_le sendReq { receiveReq with header := header }
  have hle := headLength_le_totalLength sendReq { receiveReq with header := header }
  have hwords := headLength_words sendReq
  have hmin : min header.length.toNat cpxSpiMtu ≤
      totalLength sendReq (some { receiveReq with header := header }) := Nat.le_max_right _ _
  refine ⟨head.written + tail.written, ?_, ?_, ?_⟩
  · simp only [receivePacket, ht, hhead, htail, h, Except.mapError]
    rfl
  · omega
  · have hmtu : totalLength sendReq (some { receiveReq with header := header }) ≤ 4088 := htotal
    change head.written + tail.written ≤ 4088
    omega

/-- **When the length passed on is safe.** With the supported version a packet is
received without an assertion and its callback is told of stored bytes only,
exactly when the announced length is within the MTU or no callback is registered
for its function. -/
theorem receivePacket_lengthSafe_iff (hversion : header.cpx.version = cpxVersion) :
    (∃ r, receivePacket cpx receiverArgs emptyHeader sendReq receiveReq header = .ok r ∧
        r.LengthSafe) ↔
      header.length.toNat ≤ cpxSpiMtu ∨ ¬ cpx.Registered header.cpx.function := by
  have hdispatch : ∃ dispatch,
      cpxReceiveTask cpx receiverArgs { receiveReq with header := header } = .ok dispatch ∧
      (header.length.toNat = 0 ∧ dispatch = none ∨ dispatch = some (cpxDispatchCallbackAsync cpx
        ⟨header.cpx, receiveReq.buffer, header.length, receiverArgs⟩)) := by
    by_cases hpos : header.length.toNat > 0
    · exact ⟨_, by rw [cpxReceiveTask, if_pos hpos, if_neg (not_not_intro hversion)], Or.inr rfl⟩
    · exact ⟨none, if_neg hpos, Or.inl ⟨Nat.eq_zero_of_not_pos hpos, rfl⟩⟩
  obtain ⟨dispatch, hok, hcases⟩ := hdispatch
  obtain ⟨written, hreceive, hlo, hhi⟩ :=
    receivePacket_written cpx receiverArgs emptyHeader sendReq receiveReq header dispatch hok
  constructor
  · rintro ⟨r, hr, hsafe⟩
    obtain rfl := Except.ok.inj (hreceive.symm.trans hr)
    rcases hcases with ⟨hzero, -⟩ | hd
    · left; omega
    · by_cases hreg : cpx.Registered header.cpx.function
      · left
        have hstart := (dispatch_started cpx
          ⟨header.cpx, receiveReq.buffer, header.length, receiverArgs⟩ _ _).mpr ⟨hreg, rfl, rfl⟩
        exact ((hsafe _ hd).2 _ _ hstart).2
      · exact Or.inr hreg
  · intro hcond
    refine ⟨_, hreceive, ?_⟩
    rintro d hd
    rcases hcases with ⟨-, hnone⟩ | hsome
    · rw [hnone] at hd; cases hd
    · obtain rfl := Option.some.inj (hsome.symm.trans hd)
      refine ⟨dispatch_indices cpx _, ?_⟩
      intro callback req hstart
      obtain ⟨hreg, -, rfl⟩ := (dispatch_started cpx _ _ _).mp hstart
      rcases hcond with hle | hnot
      · rw [Nat.min_eq_left hle] at hlo
        exact ⟨hlo, hle⟩
      · exact absurd hreg hnot

end

/-! ## Concrete packets -/

/-- One callback, for `CPX_F_STREAMER`. -/
def streamerOnly : CallbackTables := ⟨fun i => if i = 6 then 0x1000 else 0, fun _ => 0⟩

def sampleEmptyHeader : EmptyHeader := ⟨64, rfl, by decide⟩
def sampleReceiveReq : CpxSpiReceiveReq :=
  ⟨128, ⟨0, ⟨0, 0, 0, 0, 0, 0⟩⟩, 4096, 4088, rfl, by decide, rfl, by decide⟩
/-- A streamer packet from the host that announces `length` bytes. -/
def streamerHeader (length : UInt16) : CpxSpiHeader := ⟨length, ⟨4, 3, 1, 0, 6, 0⟩⟩

theorem receivePacket_lengthSafe_short :
    ∃ r, receivePacket streamerOnly 0 sampleEmptyHeader none sampleReceiveReq (streamerHeader 10) =
      .ok r ∧ r.LengthSafe :=
  (receivePacket_lengthSafe_iff _ _ _ _ _ _ rfl).mpr (Or.inl (by decide))

/-- A header above the MTU makes the callback read past the receive buffer. -/
theorem longHeader_unsafe : ¬ ∀ cpx receiverArgs emptyHeader sendReq receiveReq header r,
    header.cpx.version = cpxVersion →
    receivePacket cpx receiverArgs emptyHeader sendReq receiveReq header = .ok r →
    r.LengthSafe := by
  intro h
  obtain ⟨written, hreceive, -, hle⟩ := receivePacket_written streamerOnly 0 sampleEmptyHeader none
    sampleReceiveReq (streamerHeader 65535) _ rfl
  have hsafe := h _ _ _ _ _ _ _ rfl hreceive
  have hlen := ((hsafe _ rfl).2 0x1000 _ rfl).1
  have hlong : (65535 : Nat) ≤ written := hlen
  have hmtu : written ≤ 4088 := hle
  omega

end AiDeck.Cpx
