import AiDeck.Lib.Transition
import AiDeck.Host.TcpTransport

/-! # Connections one after the other

The loop of `TCPClientTransport._receive_stream` while the transport is not shut down, and what
`receive` makes of the connections it opens. -/
namespace AiDeck.Host
open AiDeck.Lib AiDeck.Lib.Bytes AiDeck.Cpx

/-- What a call of `recv` gives: bytes, none of them at the end of the connection, or an
exception. -/
inductive Recv where
  | chunk (bytes : List UInt8)
  | timeout
  | connectionReset
  | osError (errno : Nat)
  deriving DecidableEq

/-- An attempt to connect, and the calls of `recv` until the socket is no longer connected. -/
inductive Attempt where
  | timeout
  | connectionRefused
  | osError (errno : Nat)
  | connected (recvs : List Recv)
  deriving DecidableEq

/-- The chunks that the inner loop yields: it is left by `break` at the end of the connection and
at every exception. -/
def chunksOf : List Recv → List (List UInt8)
  | [] => []
  | .chunk bytes :: recvs => if bytes.length = 0 then [] else bytes :: chunksOf recvs
  | .timeout :: _ => []
  | .connectionReset :: _ => []
  | .osError _ :: _ => []

/-- What an attempt yields. -/
def Attempt.items : Attempt → List (Bool × List UInt8)
  | timeout => []
  | connectionRefused => []
  | osError _ => []
  | connected recvs => (true, []) :: (chunksOf recvs).map fun chunk => (false, chunk)

def receiveStream (attempts : List Attempt) : List (Bool × List UInt8) :=
  attempts.flatMap Attempt.items

/-- The chunks of the connection, if there is one. -/
def Attempt.chunks? : Attempt → Option (List (List UInt8))
  | timeout => none
  | connectionRefused => none
  | osError _ => none
  | connected recvs => some (chunksOf recvs)

/-- The chunks of each connection. -/
def connections (attempts : List Attempt) : List (List (List UInt8)) :=
  attempts.filterMap Attempt.chunks?

/-- `receive` has taken a header whose length is above `CPX_TCP_MTU`. -/
def Generator.Overlong (g : Generator) : Prop :=
  ∃ buffer tcpHeader, g.receiver = some ⟨buffer, .waitPayload tcpHeader⟩ ∧
    cpxTcpMtu < tcpHeader.length.toNat

theorem receiveStream_eq (attempts : List Attempt) :
    receiveStream attempts = (connections attempts).flatMap connection := by
  induction attempts with
  | nil => rfl
  | cons attempt attempts ih =>
    have hcons : receiveStream (attempt :: attempts) = attempt.items ++ receiveStream attempts :=
      List.flatMap_cons
    rw [hcons, ih]
    cases attempt with
    | timeout => rfl
    | connectionRefused => rfl
    | osError errno => rfl
    | connected recvs => rfl

/-! ## One item -/

/-- The same generator with more yielded before. -/
def Generator.behind (g : Generator) (yields : List (Bool × Option CpxPacket)) : Generator :=
  { g with yields := yields ++ g.yields }

section
variable {g : Generator} {yields : List (Bool × Option CpxPacket)}

theorem Generator.parse_behind (g : Generator) (yields : List (Bool × Option CpxPacket))
    (buffer : List UInt8) (state : ReceiveState) :
    (g.behind yields).parse buffer state = (g.parse buffer state).behind yields := by
  cases state with
  | waitHeader =>
    rw [parse, parse]
    split
    · rfl
    · rfl
  | waitPayload tcpHeader =>
    simp only [parse]
    split
    · rfl
    · split
      · rfl
      · simp only [behind, List.append_assoc]

theorem receiveItem_behind (g : Generator) (yields : List (Bool × Option CpxPacket))
    (item : Bool × List UInt8) :
    receiveItem (g.behind yields) item = (receiveItem g item).behind yields := by
  cases hg : g.receiver with
  | none => simp only [receiveItem, Generator.behind, hg]
  | some receiver =>
    have hreceiver : (g.behind yields).receiver = some receiver := hg
    simp only [receiveItem, hreceiver, hg]
    split
    · rw [← Generator.parse_behind]
      simp only [Generator.behind, List.append_assoc]
    · exact Generator.parse_behind g yields _ _

/-- A generator that has ended takes no more items. -/
theorem foldl_ended (h : g.receiver = none) (items : List (Bool × List UInt8)) :
    items.foldl receiveItem g = g := by
  induction items with
  | nil => rfl
  | cons item items ih =>
    have hitem : receiveItem g item = g := by simp only [receiveItem, h]
    rw [List.foldl_cons, hitem, ih]

theorem foldl_behind (g : Generator) (yields : List (Bool × Option CpxPacket))
    (items : List (Bool × List UInt8)) :
    items.foldl receiveItem (g.behind yields) = (items.foldl receiveItem g).behind yields := by
  induction items generalizing g with
  | nil => rfl
  | cons item items ih => rw [List.foldl_cons, List.foldl_cons, receiveItem_behind, ih]

/-- A chunk ends the generator if a header above the MTU waits for its payload. -/
theorem receiveItem_ended_iff (hlive : g.receiver ≠ none) (chunk : List UInt8) :
    (receiveItem g (false, chunk)).receiver = none ↔ g.Overlong := by
  obtain ⟨receiver, hg⟩ := Option.ne_none_iff_exists'.mp hlive
  obtain ⟨buffer, state⟩ := receiver
  simp only [receiveItem, hg, Bool.false_eq_true, if_false, Generator.Overlong]
  cases state with
  | waitHeader =>
    rw [Generator.parse]
    split
    · simp
    · simp
  | waitPayload tcpHeader =>
    simp only [Generator.parse]
    by_cases hlong : tcpHeader.length.toNat > cpxTcpMtu
    · rw [if_pos hlong]
      exact iff_of_true rfl ⟨buffer, tcpHeader, rfl, hlong⟩
    · rw [if_neg hlong]
      refine iff_of_false ?_ ?_
      · split
        · simp
        · simp
      · rintro ⟨buffer', tcpHeader', heq, hlong'⟩
        obtain ⟨-, hstate⟩ := Receiver.mk.inj (Option.some.inj heq)
        exact hlong (ReceiveState.waitPayload.inj hstate ▸ hlong')

/-! ## One connection -/

/-- A connection is received as if it were the first one, behind what was yielded before. -/
theorem foldl_connection (hlive : g.receiver ≠ none) (chunks : List (List UInt8)) :
    (connection chunks).foldl receiveItem g = (receive (connection chunks)).behind g.yields := by
  obtain ⟨receiver, hg⟩ := Option.ne_none_iff_exists'.mp hlive
  have hreset : receiveItem g (true, []) =
      (receiveItem ⟨some .reset, []⟩ (true, [])).behind g.yields := by
    simp only [receiveItem, hg, if_true]
    rw [← Generator.parse_behind]
    simp only [Generator.behind, List.nil_append]
    rfl
  rw [connection, List.foldl_cons, hreset, foldl_behind]
  rfl

/-- Where the generator ends on a connection. -/
theorem receive_connection_live_iff (chunks : List (List UInt8)) :
    (receive (connection chunks)).receiver ≠ none ↔
      ∀ earlier chunk later, chunks = earlier ++ chunk :: later →
        ¬ (receive (connection earlier)).Overlong := by
  induction chunks using List.reverseRecOn with
  | nil =>
    refine iff_of_true (by decide) ?_
    intro earlier chunk later heq
    exact absurd heq.symm (List.append_ne_nil_of_right_ne_nil earlier (List.cons_ne_nil chunk later))
  | append_singleton chunks chunk ih =>
    rw [forall_split_concat (P := fun earlier _ => ¬ (receive (connection earlier)).Overlong), ← ih,
      receive_connection_concat]
    by_cases hlive : (receive (connection chunks)).receiver = none
    · have hended := foldl_ended hlive [(false, chunk)]
      rw [List.foldl_cons, List.foldl_nil] at hended
      simp [hended, hlive]
    · simp [receiveItem_ended_iff hlive chunk, hlive]

end

/-! ## All connections -/

section
variable {conns : List (List (List UInt8))}

theorem receive_concat (conns : List (List (List UInt8))) (chunks : List (List UInt8)) :
    receive ((conns ++ [chunks]).flatMap connection) =
      (connection chunks).foldl receiveItem (receive (conns.flatMap connection)) := by
  rw [receive, List.flatMap_append, List.foldl_append, List.flatMap_singleton]
  rfl

/-- Where the generator has not ended it has ended on no connection, and it has yielded what it
yields on each. -/
theorem receive_live (hlive : (receive (conns.flatMap connection)).receiver ≠ none) :
    (∀ chunks ∈ conns, (receive (connection chunks)).receiver ≠ none) ∧
      (receive (conns.flatMap connection)).yields =
        conns.flatMap fun chunks => (receive (connection chunks)).yields := by
  induction conns using List.reverseRecOn with
  | nil => exact ⟨fun chunks hchunks => absurd hchunks List.not_mem_nil, rfl⟩
  | append_singleton conns chunks ih =>
    rw [receive_concat] at hlive ⊢
    have hbefore : (receive (conns.flatMap connection)).receiver ≠ none := by
      intro hended
      rw [foldl_ended hended] at hlive
      exact hlive hended
    obtain ⟨hall, hyields⟩ := ih hbefore
    rw [foldl_connection hbefore] at hlive ⊢
    refine ⟨?_, ?_⟩
    · intro other hother
      rcases List.mem_append.mp hother with hother | hother
      · exact hall other hother
      · exact List.mem_singleton.mp hother ▸ hlive
    · rw [List.flatMap_append, List.flatMap_singleton, ← hyields]
      rfl

theorem receive_live_of_forall
    (h : ∀ chunks ∈ conns, (receive (connection chunks)).receiver ≠ none) :
    (receive (conns.flatMap connection)).receiver ≠ none := by
  induction conns using List.reverseRecOn with
  | nil => exact Option.some_ne_none _
  | append_singleton conns chunks ih =>
    have hbefore := ih fun other hother => h other (List.mem_append_left _ hother)
    rw [receive_concat, foldl_connection hbefore]
    exact h chunks (List.mem_append_right _ (List.mem_singleton_self chunks))

end

/-- The generator has not ended, and each connection was received as if it were the first. -/
def Recovered (attempts : List Attempt) : Prop :=
  (receive (receiveStream attempts)).receiver ≠ none ∧
    (receive (receiveStream attempts)).yields =
      (connections attempts).flatMap fun chunks => (receive (connection chunks)).yields

/-- **When TCP recovers from a bad length.** `receive` goes on, with every connection received as
if it were the first one, if and only if on no connection a chunk arrives behind a header whose
length is above `CPX_TCP_MTU`. -/
theorem receive_recovered_iff (attempts : List Attempt) :
    Recovered attempts ↔ ∀ chunks ∈ connections attempts, ∀ earlier chunk later,
      chunks = earlier ++ chunk :: later → ¬ (receive (connection earlier)).Overlong := by
  simp only [Recovered, receiveStream_eq, ← receive_connection_live_iff]
  constructor
  · rintro ⟨hlive, -⟩
    exact (receive_live hlive).1
  · intro hall
    have hlive := receive_live_of_forall hall
    exact ⟨hlive, (receive_live hlive).2⟩

/-- A connection with a header that announces 65535 bytes and one more chunk. -/
def badConnection : Attempt :=
  .connected [.chunk (TcpHeader.toBytes ⟨65535, ⟨3, 4, 1, 0, 6, 0⟩⟩), .chunk [0]]

/-- A connection with a packet of one byte in two chunks. -/
def goodConnection : Attempt :=
  .connected [.chunk (TcpHeader.toBytes ⟨1, ⟨3, 4, 1, 0, 6, 0⟩⟩), .chunk [7]]

/-- Behind the bad length the iterator ends, and the packet of the next connection, which alone
would be yielded, is not. -/
theorem badLength_ends :
    receive (receiveStream [badConnection, goodConnection]) = ⟨none, [(true, none)]⟩ ∧
      (receive (receiveStream [goodConnection])).yields =
        [(true, none), (false, some ⟨⟨3, 4, 1, 0, 6, 0⟩, [7]⟩)] ∧
      ¬ Recovered [badConnection, goodConnection] := by
  have hended : receive (receiveStream [badConnection, goodConnection]) =
      ⟨none, [(true, none)]⟩ := by decide
  refine ⟨hended, by decide, fun h => h.1 ?_⟩
  rw [hended]

end AiDeck.Host
