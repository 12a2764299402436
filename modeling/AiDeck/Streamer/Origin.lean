import AiDeck.Streamer.ReceiverInvariant

/-! # The origin of a completed buffer

A BUFFER_BEGIN packet that is too big for the registered buffer is dropped, but what was
received of an earlier buffer stays: the BUFFER_DATA packets behind it are taken for that one. -/
namespace AiDeck.Streamer
open AiDeck.Lib AiDeck.Lib.Bytes AiDeck.Cpx AiDeck.Coroutine

variable {Task : Type} {receiveChecksum : Bool} {s : StreamerSystem Task}

/-- No BUFFER_BEGIN packet that is too big for the registered buffer is delivered while that one
is received. -/
def FitsStorage (s : StreamerSystem Task) : StreamerAction Task → Prop
  | .deliver p => ∀ b, s.bufferRx = some b → (s.buffers b).size ≠ 0 →
      p.command = cmdBufferBegin → p.begin.size ≤ (s.buffers b).storageCapacity
  | .init _ _ _ => True
  | .receive _ _ => True
  | .cancel _ => True

instance decidableFitsStorage (s : StreamerSystem Task) (a : StreamerAction Task) :
    Decidable (FitsStorage s a) :=
  match a with
  | .deliver p => inferInstanceAs (Decidable (∀ b, b ∈ s.bufferRx → (s.buffers b).size ≠ 0 →
      p.command = cmdBufferBegin → p.begin.size ≤ (s.buffers b).storageCapacity))
  | .init _ _ _ => inferInstanceAs (Decidable True)
  | .receive _ _ => inferInstanceAs (Decidable True)
  | .cancel _ => inferInstanceAs (Decidable True)

/-- **A completed buffer has one origin** in the runs without such a packet: the last BUFFER_BEGIN
packet before it ends, and all BUFFER_DATA packets behind that one. -/
theorem reachable_origin (h : (streamerReceiver Task receiveChecksum FitsStorage).Reachable s)
    {doneTask : Task} {buffer : StreamerBuffer Task} {packets : List CpxReceiveReq}
    (hend : .completed doneTask buffer packets ∈ s.ends) :
    ∃ earlier first rest, packets = earlier ++ first :: rest ∧ first.command = cmdBufferBegin ∧
      (∀ p ∈ rest, p.command ≠ cmdBufferBegin) ∧ buffer.type = first.begin.type ∧
      buffer.size = first.begin.size ∧ buffer.checksum = first.begin.checksum ∧
      segment buffer.storage 0 buffer.size.toNat =
        (first :: dataPackets rest).flatMap CpxReceiveReq.segment := by
  have hR : ∀ (s : StreamerSystem Task) p b, FitsStorage s (.deliver p) → s.bufferRx = some b →
      (s.buffers b).size ≠ 0 → p.command = cmdBufferBegin →
      p.begin.size > (s.buffers b).storageCapacity → False := by
    intro s p b hfits hrx hsize hcommand htooBig
    exact UInt32.not_lt.mpr (hfits b hrx hsize hcommand) htooBig
  obtain ⟨hinv, -⟩ := reachable_receiverInv (R := fun _ _ => False) hR h
  obtain ⟨⟨earlier, first, rest, hpackets, hfrom⟩, hcomplete, -⟩ :=
    hinv.completed doneTask buffer packets hend
  refine ⟨earlier, first, rest, hpackets, hfrom.command, hfrom.others, hfrom.type, hfrom.size,
    hfrom.checksum, ?_⟩
  rw [← hcomplete]
  exact hfrom.received

/-- A buffer in two packets, behind one that its sender has abandoned. -/
theorem reachable_origin_abandoned :
    ∃ (buffer : StreamerBuffer Nat) (packets : List CpxReceiveReq),
      segment buffer.storage 0 buffer.size.toNat = [3, 4, 5] ∧
      ∃ earlier first rest, packets = earlier ++ first :: rest ∧ first.command = cmdBufferBegin ∧
        [3, 4, 5] = (first :: dataPackets rest).flatMap CpxReceiveReq.segment := by
  have hrun : ∃ (s : StreamerSystem Nat) (buffer : StreamerBuffer Nat) (packets : _),
      Transition.follow (fun s a => StreamerAction.Enabled s a ∧ FitsStorage s a)
        (StreamerAction.run true) (.initial Nat)
        [.init 5 (fun _ => 0) 8, .receive 5 (some 1),
          .deliver (.ofBegin ⟨typeImage, 4, 0⟩ [1, 2] fun _ => 0),
          .deliver (.ofBegin ⟨typeImage, 3, 0⟩ [3] fun _ => 0),
          .deliver (.ofData [0, 0, 0] [4, 5] fun _ => 0)] = some s ∧
      s.ends = [.completed 1 buffer packets] ∧
      segment buffer.storage 0 buffer.size.toNat = [3, 4, 5] := ⟨_, _, _, rfl, rfl, rfl⟩
  obtain ⟨s, buffer, packets, hfollow, hends, hcontents⟩ := hrun
  have hend : .completed 1 buffer packets ∈ s.ends := hends ▸ List.mem_singleton_self _
  obtain ⟨earlier, first, rest, hpackets, hbegin, -, -, -, -, horigin⟩ :=
    reachable_origin (streamerReceiver_follow hfollow) hend
  exact ⟨buffer, packets, hcontents, earlier, first, rest, hpackets, hbegin, hcontents ▸ horigin⟩

theorem getLast_begin {packets earlier rest : List CpxReceiveReq} {first : CpxReceiveReq}
    (hpackets : packets = earlier ++ first :: rest) (hbegin : first.command = cmdBufferBegin)
    (hothers : ∀ p ∈ rest, p.command ≠ cmdBufferBegin) :
    (packets.filter fun p => p.command = cmdBufferBegin).getLast? = some first := by
  have hrest : (rest.filter fun p => p.command = cmdBufferBegin) = [] := by
    rw [List.filter_eq_nil_iff]
    intro p hp
    rw [decide_eq_true_iff]
    exact hothers p hp
  have hfirst : ((first :: rest).filter fun p => p.command = cmdBufferBegin) = [first] := by
    rw [List.filter_cons, if_pos (decide_eq_true hbegin), hrest]
  rw [hpackets, List.filter_append, hfirst, List.getLast?_concat]

/-- A BUFFER_BEGIN packet for 100 bytes comes while 2 of 4 bytes are received into a storage of
8: the next BUFFER_DATA packet completes the 4 bytes. -/
theorem tooBig_mixed :
    ∃ (s : StreamerSystem Nat) (buffer : StreamerBuffer Nat) (packets : List CpxReceiveReq),
      (streamerReceiver Nat true fun _ _ => True).Reachable s ∧
      .completed 1 buffer packets ∈ s.ends ∧
      segment buffer.storage 0 buffer.size.toNat = [1, 2, 3, 4] ∧
      ¬ ∃ earlier first rest, packets = earlier ++ first :: rest ∧
        first.command = cmdBufferBegin ∧ (∀ p ∈ rest, p.command ≠ cmdBufferBegin) ∧
        buffer.size = first.begin.size := by
  have hrun : ∃ (s : StreamerSystem Nat) (buffer : StreamerBuffer Nat) (packets : _),
      Transition.follow (fun s a => StreamerAction.Enabled s a ∧ True)
        (StreamerAction.run true) (.initial Nat)
        [.init 5 (fun _ => 0) 8, .receive 5 (some 1),
          .deliver (.ofBegin ⟨typeImage, 4, 0⟩ [1, 2] fun _ => 0),
          .deliver (.ofBegin ⟨typeImage, 100, 0⟩ [9, 9] fun _ => 0),
          .deliver (.ofData [0, 0, 0] [3, 4] fun _ => 0)] = some s ∧
      s.ends = [.completed 1 buffer packets] ∧
      segment buffer.storage 0 buffer.size.toNat = [1, 2, 3, 4] ∧ buffer.size = 4 ∧
      (packets.filter fun p => p.command = cmdBufferBegin).getLast? =
        some (.ofBegin ⟨typeImage, 100, 0⟩ [9, 9] fun _ => 0) :=
    ⟨_, _, _, rfl, rfl, rfl, rfl, rfl⟩
  obtain ⟨s, buffer, packets, hfollow, hends, hcontents, hsize, hlast⟩ := hrun
  refine ⟨s, buffer, packets, streamerReceiver_follow hfollow, hends ▸ List.mem_singleton_self _,
    hcontents, ?_⟩
  rintro ⟨earlier, first, rest, hpackets, hbegin, hothers, hsize'⟩
  obtain rfl := Option.some.inj (hlast.symm.trans (getLast_begin hpackets hbegin hothers))
  have hdiffers : (4 : UInt32) ≠ (CpxReceiveReq.ofBegin ⟨typeImage, 100, 0⟩ [9, 9]
    fun _ => 0).begin.size := by decide
  exact hdiffers (hsize.symm.trans hsize')

end AiDeck.Streamer
