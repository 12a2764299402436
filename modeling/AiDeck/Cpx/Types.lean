import AiDeck.Lib.Bytes

/-! # CPX headers

`cpx_header_t` (nanocockpit/lib/cpx/cpx_types.h) and `CPXHeader` of the host client
(aideck_cpx_streamer/cpx/cpx.py) declare the same packed bit-fields: the same two
bytes on every link. -/
namespace AiDeck.Cpx

abbrev cpxVersion : BitVec 2 := 0
/-- `CPX_F_LAST`: the entries of a table indexed by `cpx_function_e`. -/
abbrev cpxFLast : Nat := 0x10

/-- The bit-fields of `cpx_header_t`, lowest first. -/
structure CpxHeader where
  destination : BitVec 3
  source : BitVec 3
  lastPacket : BitVec 1
  reserved : BitVec 1
  function : BitVec 6
  version : BitVec 2
  deriving DecidableEq, Repr

namespace CpxHeader

def toBytes (h : CpxHeader) : List UInt8 :=
  [.ofNat (h.destination.toNat + 2 ^ 3 * h.source.toNat + 2 ^ 6 * h.lastPacket.toNat +
      2 ^ 7 * h.reserved.toNat),
    .ofNat (h.function.toNat + 2 ^ 6 * h.version.toNat)]

/-- The header in the first two bytes of `l`. -/
def ofBytes (l : List UInt8) : CpxHeader :=
  let routing := (l.getD 0 0).toNat
  let kind := (l.getD 1 0).toNat
  { destination := .ofNat 3 routing
    source := .ofNat 3 (routing / 2 ^ 3)
    lastPacket := .ofNat 1 (routing / 2 ^ 6)
    reserved := .ofNat 1 (routing / 2 ^ 7)
    function := .ofNat 6 kind
    version := .ofNat 2 (kind / 2 ^ 6) }

@[simp] theorem toBytes_length (h : CpxHeader) : h.toBytes.length = 2 := rfl

@[simp] theorem ofBytes_toBytes (h : CpxHeader) (l : List UInt8) :
    ofBytes (h.toBytes ++ l) = h := by
  cases h with
  | mk destination source lastPacket reserved function version =>
    have hd := destination.isLt
    have hs := source.isLt
    have hl := lastPacket.isLt
    have hr := reserved.isLt
    have hf := function.isLt
    have hv := version.isLt
    simp only [ofBytes, toBytes, List.cons_append, List.getD_cons_zero, List.getD_cons_succ,
      UInt8.toNat_ofNat', CpxHeader.mk.injEq]
    refine ⟨?_, ?_, ?_, ?_, ?_, ?_⟩ <;>
    · apply BitVec.eq_of_toNat_eq
      rw [BitVec.toNat_ofNat]
      omega

end CpxHeader

end AiDeck.Cpx
