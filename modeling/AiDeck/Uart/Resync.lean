import AiDeck.Uart.InSync

/-! # Resynchronisation

Behind arbitrary bytes come valid messages whose only header patterns are their
own headers. The windows decide at which offset the next header is found: a
time-of-flight message found past offset 52 does not fit the buffer, the next
window starts 4 to 7 bytes into it, and so the next one is found at offset 69 to
72 and does not fit either. A run of such messages is lost as a whole, any other
message ends it. -/
namespace AiDeck.Uart
open AiDeck.Lib.Bytes AiDeck.Crc32

/-- No header pattern on the wire except at message starts. -/
def OnlyStarts (msgs : List Message) : Prop :=
  ∀ p, p + 4 ≤ (wire msgs).length → matchHeader (fun i => (wire msgs).getD i 0) p ≠ none →
    ∃ i < msgs.length, p = offsetOf msgs i

/-- The stream starts with `pre` and goes on with the messages. -/
def Follows (w : World) (pre : List UInt8) (msgs : List Message) : Prop :=
  segment w.uart 0 (pre ++ wire msgs).length = pre ++ wire msgs

/-- Message `j` reaches the callback. -/
def Reaches (w : World) (pre : List UInt8) (msgs : List Message) (j : Nat) : Prop :=
  ∃ n, ∃ d ∈ (run w n).deliveries, d.start = pre.length + offsetOf msgs j ∧
    ∃ m, msgs[j]? = some m ∧ d.Is m

/-- Of every `K` consecutive messages at least one reaches the callback. -/
def OneInEvery (K : Nat) (w : World) (pre : List UInt8) (msgs : List Message) : Prop :=
  ∀ i, i + K ≤ msgs.length → ∃ j, i ≤ j ∧ j < i + K ∧ Reaches w pre msgs j

/-! ## Offsets -/

@[simp] theorem offsetOf_zero (msgs : List Message) : offsetOf msgs 0 = 0 := by simp [offsetOf]

theorem offsetOf_succ {msgs : List Message} {i : Nat} {m : Message} (h : msgs[i]? = some m) :
    offsetOf msgs (i + 1) = offsetOf msgs i + m.size := by
  obtain ⟨hi, rfl⟩ := List.getElem?_eq_some_iff.mp h
  rw [offsetOf, List.take_succ_eq_append_getElem hi, wire_append, List.length_append]
  simp [offsetOf]

theorem size_bounds (m : Message) : 12 ≤ m.size ∧ m.size ≤ 76 := by
  have := m.kind.length_le
  unfold Message.size
  omega

theorem offsetOf_lt_succ {msgs : List Message} {i : Nat} (h : i < msgs.length) :
    offsetOf msgs i + 12 ≤ offsetOf msgs (i + 1) := by
  rw [offsetOf_succ (List.getElem?_eq_getElem h)]
  have := size_bounds msgs[i]
  omega

theorem offsetOf_mono (msgs : List Message) {i j : Nat} (hij : i ≤ j) (hj : j ≤ msgs.length) :
    offsetOf msgs i + 12 * (j - i) ≤ offsetOf msgs j := by
  induction j, hij using Nat.le_induction with
  | base => simp
  | succ j hij ih =>
    have := ih (by omega)
    have := offsetOf_lt_succ (show j < msgs.length by omega)
    omega

theorem offsetOf_length (msgs : List Message) : offsetOf msgs msgs.length = (wire msgs).length := by
  simp [offsetOf]

section
variable {w : World} {pre : List UInt8} {msgs : List Message}

theorem Follows.byte (h : Follows w pre msgs) {i : Nat} (hi : i < (wire msgs).length) :
    w.uart (pre.length + i) = (wire msgs).getD i 0 := by
  have hs := (segment_eq_append h).2
  rw [Nat.zero_add] at hs
  rw [← hs, segment_getD _ 0 hi]

theorem Follows.messageAt (h : Follows w pre msgs) {i : Nat} {m : Message}
    (hm : msgs[i]? = some m) : MessageAt w.uart (pre.length + offsetOf msgs i) m := by
  obtain ⟨hi, rfl⟩ := List.getElem?_eq_some_iff.mp hm
  have hs := (segment_eq_append h).2
  rw [Nat.zero_add] at hs
  have hsplit : wire msgs = wire (msgs.take i) ++ (msgs[i].bytes ++ wire (msgs.drop (i + 1))) := by
    rw [← wire_cons, ← wire_append, List.getElem_cons_drop, List.take_append_drop]
  rw [hsplit] at hs
  have h2 := (segment_eq_append (segment_eq_append hs).2).1
  rw [Message.bytes_length] at h2
  exact h2

/-- Between two message starts nothing looks like a header. -/
theorem Follows.scanned (h : Follows w pre msgs) (ho : OnlyStarts msgs) {j p d : Nat} {m : Message}
    (hm : msgs[j]? = some m) (hd : p + d = pre.length + offsetOf msgs j)
    (hp : ∀ i < j, pre.length + offsetOf msgs i < p) (hpre : pre.length ≤ p) :
    Scanned w.uart p d := by
  intro e he
  obtain ⟨hj, -⟩ := List.getElem?_eq_some_iff.mp hm
  obtain ⟨q, hq⟩ := Nat.exists_eq_add_of_le hpre
  have hend := offsetOf_mono msgs (show j ≤ msgs.length by omega) (Nat.le_refl _)
  rw [offsetOf_length] at hend
  have hfit : q + e + 4 ≤ (wire msgs).length := by omega
  have heq : matchHeader w.uart (p + e) = matchHeader (fun i => (wire msgs).getD i 0) (q + e) := by
    apply matchHeader_congr
    intro i hi
    rw [hq, show pre.length + q + e + i = pre.length + (q + e + i) by omega, h.byte (by omega)]
  by_contra hne
  rw [heq] at hne
  obtain ⟨i, hi, hoff⟩ := ho (q + e) hfit hne
  rcases Nat.lt_or_ge i j with hlt | hge
  · have := hp i hlt; omega
  · have := offsetOf_mono _ hge (Nat.le_of_lt hi); omega

theorem reaches_of_window {p d : Nat} (h : Follows w pre msgs) (hv : Visits w p)
    {j : Nat} {m : Message} (hm : msgs[j]? = some m)
    (hd : p + d = pre.length + offsetOf msgs j) (hs : Scanned w.uart p d) (hfit : d + m.size ≤ 128) :
    Reaches w pre msgs j ∧ Visits w (pre.length + offsetOf msgs (j + 1)) := by
  obtain ⟨n, hp, hr⟩ := hv
  have hat := h.messageAt hm
  rw [← hd] at hat
  obtain ⟨n', -, hp', hr', e, he, hc⟩ := restart_window hp hr (hat.window hs hfit)
  refine ⟨⟨n', e, by rw [he]; simp, by rw [hc.start, hd], m, hm, hc.is hat rfl⟩, n', hp', ?_⟩
  rw [hr', hd, offsetOf_succ hm, Nat.add_assoc]

/-- From message `j` on, all messages reach the callback. -/
def SyncFrom (w : World) (pre : List UInt8) (msgs : List Message) (j : Nat) : Prop :=
  ∀ i, j ≤ i → i < msgs.length → Reaches w pre msgs i

/-- In step, every message from there on is handed over. -/
theorem syncFrom_of_visits (h : Follows w pre msgs) {j : Nat}
    (hv : Visits w (pre.length + offsetOf msgs j)) : SyncFrom w pre msgs j := by
  have hstep : ∀ i < msgs.length, Visits w (pre.length + offsetOf msgs i) →
      Reaches w pre msgs i ∧ Visits w (pre.length + offsetOf msgs (i + 1)) := by
    intro i hi hv
    have hb := size_bounds msgs[i]
    exact reaches_of_window (d := 0) h hv (List.getElem?_eq_getElem hi) rfl
      (fun e he => absurd he (Nat.not_lt_zero e)) (by omega)
  intro i hji hi
  have hboth : Reaches w pre msgs i ∧ Visits w (pre.length + offsetOf msgs (i + 1)) := by
    induction i, hji using Nat.le_induction with
    | base => exact hstep j hi hv
    | succ i hji ih => exact hstep (i + 1) hi (ih (by omega)).2
  exact hboth.1

/-- A message handed over puts the parser in step. -/
theorem syncFrom_of_window {p d j : Nat} {m : Message} (h : Follows w pre msgs) (hv : Visits w p)
    (hm : msgs[j]? = some m) (hd : p + d = pre.length + offsetOf msgs j) (hs : Scanned w.uart p d)
    (hfit : d + m.size ≤ 128) : SyncFrom w pre msgs j := by
  obtain ⟨hr, hv'⟩ := reaches_of_window h hv hm hd hs hfit
  intro i hji hi
  rcases Nat.eq_or_lt_of_le hji with rfl | hlt
  · exact hr
  · exact syncFrom_of_visits h hv' i hlt hi

/-! ## A window that starts inside a message -/

/-- Some window starts strictly inside message `j`. -/
def Mid (w : World) (pre : List UInt8) (msgs : List Message) (j : Nat) : Prop :=
  ∃ p, Visits w p ∧ pre.length + offsetOf msgs j < p ∧ p < pre.length + offsetOf msgs (j + 1)

theorem kind_eq_tof {m : Message} (h : 52 < m.size) : m.kind = .tof := by
  unfold Message.size at h
  cases hk : m.kind with
  | tof => rfl
  | state | rng => rw [hk] at h; exact absurd h (by decide)

/-- A window inside message `j` sees no header before message `j + 1`. -/
theorem Follows.scanned_mid (h : Follows w pre msgs) (ho : OnlyStarts msgs) {j p d : Nat}
    {m m' : Message} (hm : msgs[j]? = some m) (hm' : msgs[j + 1]? = some m')
    (hlo : pre.length + offsetOf msgs j < p) (hd : p + d = pre.length + offsetOf msgs j + m.size) :
    Scanned w.uart p d := by
  have hj : j + 1 < msgs.length := (List.getElem?_eq_some_iff.mp hm').1
  apply h.scanned ho hm' (by rw [offsetOf_succ hm]; omega) _ (by omega)
  intro i hi
  have := offsetOf_mono msgs (show i ≤ j by omega) (by omega)
  omega

/-- Found too late, message `j + 1` is dropped and the next window starts 4 to 7
bytes into it. -/
theorem Follows.window_tooLong (h : Follows w pre msgs) (ho : OnlyStarts msgs) {j p d : Nat}
    {m m' : Message} (hm : msgs[j]? = some m) (hm' : msgs[j + 1]? = some m')
    (hlo : pre.length + offsetOf msgs j < p) (hd : p + d = pre.length + offsetOf msgs j + m.size)
    (hlong : 128 < d + m'.size) :
    ∃ p', Window w.uart p none p' ∧ pre.length + offsetOf msgs (j + 1) + 4 ≤ p' ∧
      p' ≤ pre.length + offsetOf msgs (j + 1) + 7 := by
  have hb := size_bounds m
  have hat := (h.messageAt hm').header
  rw [offsetOf_succ hm, ← Nat.add_assoc, ← hd] at hat
  have hlong' : 128 < totalFor d m'.kind := by
    unfold Message.size at hlong; unfold totalFor; omega
  refine ⟨_, .tooLong ⟨h.scanned_mid ho hm hm' hlo hd, hat, by omega⟩ hlong', ?_, ?_⟩ <;>
    rw [offsetOf_succ hm] <;> unfold readUpTo <;> omega

/-- The next message is handed over, or both are time-of-flight messages and the
next window starts inside the second. -/
theorem Mid.next (h : Follows w pre msgs) (ho : OnlyStarts msgs) {j : Nat} {m m' : Message}
    (hm : msgs[j]? = some m) (hm' : msgs[j + 1]? = some m') (hmid : Mid w pre msgs j) :
    SyncFrom w pre msgs (j + 1) ∨ (m.kind = .tof ∧ m'.kind = .tof ∧ Mid w pre msgs (j + 1)) := by
  obtain ⟨p, hv, hlo, hhi⟩ := hmid
  obtain ⟨d, hd⟩ := Nat.exists_eq_add_of_le (Nat.le_of_lt hhi)
  have hb := size_bounds m
  have hb' := size_bounds m'
  rw [offsetOf_succ hm, ← Nat.add_assoc] at hd
  by_cases hfit : d + m'.size ≤ 128
  · refine .inl (syncFrom_of_window h hv hm' ?_ (h.scanned_mid ho hm hm' hlo hd.symm) hfit)
    rw [offsetOf_succ hm]; omega
  · obtain ⟨p', hw, hplo, hphi⟩ := h.window_tooLong ho hm hm' hlo hd.symm (by omega)
    obtain ⟨n, hp, hr⟩ := hv
    obtain ⟨n', -, hp', hr', -⟩ := restart_window hp hr hw
    refine .inr ⟨kind_eq_tof (by omega), kind_eq_tof (by omega), p', ⟨n', hp', hr'⟩, by omega, ?_⟩
    rw [offsetOf_succ hm']; omega

/-- Messages `j` to `K - 1` are time-of-flight messages. -/
def TofRun (msgs : List Message) (j K : Nat) : Prop :=
  ∀ i, j ≤ i → i < K → ∃ m, msgs[i]? = some m ∧ m.kind = .tof

/-- From inside message `j` the parser gets in step before message `K`, or all
messages up to there are time-of-flight messages. -/
theorem Mid.run (h : Follows w pre msgs) (ho : OnlyStarts msgs) {K : Nat} (hK : K ≤ msgs.length) :
    ∀ g j, K = j + 1 + g → Mid w pre msgs j →
      (∃ j', j < j' ∧ j' < K ∧ SyncFrom w pre msgs j') ∨
        (TofRun msgs (j + 1) K ∧ (j + 1 < K → TofRun msgs j (j + 1))) := by
  intro g
  induction g with
  | zero =>
    intro j hj _
    exact .inr ⟨fun i hi hiK => by omega, fun hlt => by omega⟩
  | succ g ih =>
    intro j hj hmid
    have hm := List.getElem?_eq_getElem (show j < msgs.length by omega)
    have hm' := List.getElem?_eq_getElem (show j + 1 < msgs.length by omega)
    rcases hmid.next h ho hm hm' with hsync | ⟨hk, hk', hmid'⟩
    · exact .inl ⟨j + 1, by omega, by omega, hsync⟩
    rcases ih (j + 1) (by omega) hmid' with ⟨j', hlt, hltK, hsync⟩ | ⟨htof, -⟩
    · exact .inl ⟨j', by omega, hltK, hsync⟩
    · refine .inr ⟨?_, fun _ i hi hij => ⟨_, (show i = j by omega) ▸ hm, hk⟩⟩
      intro i hi hiK
      rcases Nat.eq_or_lt_of_le hi with rfl | hlt
      · exact ⟨_, hm', hk'⟩
      · exact htof i hlt hiK

/-! ## Entering the messages -/

/-- No two headers overlap: `'!'` is only their first byte. -/
theorem headers_disjoint {uart : Nat → UInt8} {q r : Nat} {k k' : MsgKind}
    (hq : matchHeader uart q = some k) (hr : matchHeader uart r = some k') (hlt : q < r) :
    q + 4 ≤ r := by
  have hfirst : uart r = 0x21 := by
    have h0 := congrArg (fun l => l[0]?) (matchHeader_eq_some.mp hr)
    simp only [segment_getElem? uart (show 0 < 4 by omega)] at h0
    cases k' <;> exact Option.some.inj h0
  have hrest : ∀ i, 0 < i → i < 4 → uart (q + i) ≠ 0x21 := by
    intro i hi hi4 hbyte
    have hi' := congrArg (fun l => l[i]?) (matchHeader_eq_some.mp hq)
    simp only [segment_getElem? uart hi4, hbyte] at hi'
    have hcases : i = 1 ∨ i = 2 ∨ i = 3 := by omega
    rcases hcases with rfl | rfl | rfl <;> cases k <;> exact absurd hi' (by decide)
  by_contra hlt'
  obtain ⟨i, rfl⟩ := Nat.exists_eq_add_of_le (Nat.le_of_lt hlt)
  exact hrest i (by omega) (by omega) hfirst

/-- What was before the messages can swallow at most their first 72 bytes. -/
theorem enters (h : Follows w pre msgs) {m : Message} (hm : msgs[0]? = some m) :
    SyncFrom w pre msgs 0 ∨ ∃ p, Visits w p ∧ pre.length ≤ p ∧ p ≤ pre.length + 72 := by
  have hat : matchHeader w.uart pre.length = some m.kind := by
    simpa using (h.messageAt hm).header
  suffices hall : ∀ g p, pre.length - p = g → p ≤ pre.length → Visits w p →
      SyncFrom w pre msgs 0 ∨ ∃ p, Visits w p ∧ pre.length ≤ p ∧ p ≤ pre.length + 72 from
    hall _ 0 rfl (Nat.zero_le _) (visits_zero w)
  intro g
  induction g using Nat.strongRecOn with
  | ind g ih =>
    intro p hg hle hv
    obtain ⟨n, hp, hr⟩ := hv
    obtain ⟨o, p', n', -, hw, hp', hr', -⟩ := window_run hp
    rw [hr] at hw
    have hlt := hw.lt
    have hv' : Visits w p' := ⟨n', hp', hr'⟩
    -- it is enough to bound where this window ends
    suffices hend : SyncFrom w pre msgs 0 ∨ p' ≤ pre.length + 72 by
      rcases hend with hsync | hend
      · exact .inl hsync
      · by_cases hin : p' ≤ pre.length
        · exact ih _ (by omega) p' rfl hin hv'
        · exact .inr ⟨p', hv', by omega, hend⟩
    have hfound : ∀ {d k}, FirstHeader w.uart p d k → p + d < pre.length → p + d + 4 ≤ pre.length :=
      fun hf hlt => headers_disjoint hf.header hat hlt
    have hnot : ∀ {d}, Scanned w.uart p d → p + d ≤ pre.length := by
      intro d hs
      by_contra hgt
      have hnone := hs (pre.length - p) (by omega)
      rw [show p + (pre.length - p) = pre.length by omega, hat] at hnone
      cases hnone
    cases hw with
    | skip hs => exact .inr (by have := hnot hs; omega)
    | @tooLong d k hf hl =>
      have := hnot hf.scanned
      exact .inr (by unfold readUpTo; omega)
    | @corrupt d k hf hl hc | @message d k hf hl hc =>
      have hkl := k.length_le
      rcases Nat.eq_or_lt_of_le (hnot hf.scanned) with heq | hlt
      · -- the first message itself
        have hk : k = m.kind := Option.some.inj ((hf.header.symm.trans (heq ▸ hat)))
        refine .inl (syncFrom_of_window h ⟨n, hp, hr⟩ hm (by simpa using heq) hf.scanned ?_)
        rw [hk] at hl
        unfold totalFor at hl; unfold Message.size; omega
      · have := hfound hf hlt
        exact .inr (by unfold totalFor; omega)

/-- The message a position among the first `n` messages belongs to. -/
theorem locate {p : Nat} (hlo : pre.length ≤ p) :
    ∀ n, p < pre.length + offsetOf msgs n →
      ∃ j < n, pre.length + offsetOf msgs j ≤ p ∧ p < pre.length + offsetOf msgs (j + 1) := by
  intro n
  induction n with
  | zero => intro hlt; simp at hlt; omega
  | succ n ih =>
    intro hlt
    by_cases hn : p < pre.length + offsetOf msgs n
    · obtain ⟨j, hj, hjp⟩ := ih hn
      exact ⟨j, by omega, hjp⟩
    · exact ⟨n, by omega, by omega, hlt⟩

/-- `K` messages can be lost: fewer than 72 bytes of messages are followed by
time-of-flight messages up to the `K`-th. -/
def LosesFirst (K : Nat) (msgs : List Message) : Prop :=
  K ≤ msgs.length ∧ ∃ j < K, offsetOf msgs j < 72 ∧ TofRun msgs j K

/-- Among the first `K` messages one puts the parser in step, unless they are of
the losing form. -/
theorem syncFrom_exists (h : Follows w pre msgs) (ho : OnlyStarts msgs) {K : Nat} (h8 : 8 ≤ K)
    (hK : K ≤ msgs.length) (hgood : ¬ LosesFirst K msgs) : ∃ j < K, SyncFrom w pre msgs j := by
  have hm := List.getElem?_eq_getElem (show 0 < msgs.length by omega)
  rcases enters h hm with hsync | ⟨p, hv, hlo, hhi⟩
  · exact ⟨0, by omega, hsync⟩
  have h7 := offsetOf_mono msgs (show 0 ≤ 7 by omega) (by omega)
  rw [offsetOf_zero] at h7
  obtain ⟨j, hj, hjlo, hjhi⟩ := locate hlo 7 (show p < pre.length + offsetOf msgs 7 by omega)
  rcases Nat.eq_or_lt_of_le hjlo with heq | hlt
  · exact ⟨j, by omega, syncFrom_of_visits h (heq ▸ hv)⟩
  rcases Mid.run h ho hK (K - (j + 1)) j (by omega) ⟨p, hv, hlt, hjhi⟩ with
    ⟨j', -, hlt', hsync⟩ | ⟨htof, hj'⟩
  · exact ⟨j', hlt', hsync⟩
  · refine absurd ⟨hK, j, by omega, by omega, ?_⟩ hgood
    intro i hi hiK
    rcases Nat.eq_or_lt_of_le hi with rfl | hlt
    · exact hj' (by omega) j (Nat.le_refl j) (Nat.lt_succ_self j)
    · exact htof i hlt hiK

theorem oneInEvery_of_not_loses (h : Follows w pre msgs) (ho : OnlyStarts msgs) {K : Nat}
    (h8 : 8 ≤ K) (hgood : ¬ LosesFirst K msgs) : OneInEvery K w pre msgs := by
  intro i hi
  obtain ⟨j, hj, hsync⟩ := syncFrom_exists h ho h8 (by omega) hgood
  exact ⟨max i j, by omega, by omega, hsync _ (by omega) (by omega)⟩

/-! ## A prefix that loses a run of time-of-flight messages -/

/-- The run comes to a restart at `p` and all it has handed over starts before `lo`. -/
def QuietAt (w : World) (lo p : Nat) : Prop :=
  ∃ n, (run w n).point = .restart ∧ (run w n).received = p ∧
    ∀ d ∈ (run w n).deliveries, d.start < lo

theorem QuietAt.window {lo p p' : Nat} (h : QuietAt w lo p) (hw : Window w.uart p none p') :
    QuietAt w lo p' := by
  obtain ⟨n, hp, hr, hd⟩ := h
  obtain ⟨n', -, hp', hr', hd'⟩ := restart_window hp hr hw
  exact ⟨n', hp', hr', fun d hm => hd d (hd' ▸ hm)⟩

/-- After a restart at `p` everything handed over starts at `p` or later. -/
theorem deliveries_after {n p : Nat} (hp : (run w n).point = .restart)
    (hr : (run w n).received = p) (g : Nat) :
    ∃ q, Inv w.uart q (run w (n + g)) ∧ p ≤ windowOf q (run w (n + g)) ∧
      ∃ ds, (run w (n + g)).deliveries = (run w n).deliveries ++ ds ∧ ∀ d ∈ ds, p ≤ d.start := by
  induction g with
  | zero =>
    obtain ⟨q, hi⟩ := run_inv w n
    exact ⟨q, hi, by simp [windowOf, hp, hr], [], by simp, by simp⟩
  | succ g ih =>
    obtain ⟨q, hi, hq, ds, hds, hge⟩ := ih
    have hi' := inv_step (w.timeGetUs (n + g)) hi
    refine ⟨_, hi', Nat.le_trans hq hi'.le_windowOf, ?_⟩
    by_cases hdel : (run w (n + g)).point = .deliver
    · obtain ⟨k, d, -, -, -, -, hd, hc⟩ := deliver_carries hdel hi
      have hstep : run w (n + (g + 1)) = stepDeliver (run w (n + g)) := by
        rw [← Nat.add_assoc, run_succ, uartProtocolTask, hdel]
      refine ⟨ds ++ [d], by rw [hstep, hd, hds, List.append_assoc], ?_⟩
      intro e he
      rcases List.mem_append.mp he with he | he
      · exact hge e he
      · simp only [windowOf, hdel, reduceCtorEq, if_false] at hq
        rw [List.mem_singleton.mp he, hc.start]; omega
    · exact ⟨ds, (deliveries_step _ hdel).trans hds, hge⟩

theorem deliveries_subset {n n' : Nat} (h : n ≤ n') :
    ∀ d ∈ (run w n).deliveries, d ∈ (run w n').deliveries := by
  induction n', h using Nat.le_induction with
  | base => exact fun _ hd => hd
  | succ n' _ ih =>
    intro d hd
    have hd' := ih d hd
    by_cases hp : (run w n').point = .deliver
    · rw [run_succ, uartProtocolTask, hp]
      exact List.mem_append_left _ hd'
    · rw [run_succ, deliveries_step _ hp]; exact hd'

/-- Nothing that starts between the two positions is ever handed over. -/
theorem QuietAt.start {lo p : Nat} (h : QuietAt w lo p) {n : Nat} {d : Delivery}
    (hd : d ∈ (run w n).deliveries) : d.start < lo ∨ p ≤ d.start := by
  obtain ⟨n', hp, hr, hquiet⟩ := h
  obtain ⟨-, -, -, ds, hds, hge⟩ := deliveries_after hp hr n
  have hm := deliveries_subset (Nat.le_add_left n n') d hd
  rw [hds] at hm
  rcases List.mem_append.mp hm with hm | hm
  · exact .inl (hquiet d hm)
  · exact .inr (hge d hm)

/-- A window that starts in the first bytes of a run of time-of-flight messages
leads to one that starts in its last message. -/
theorem quiet_run (h : Follows w pre msgs) (ho : OnlyStarts msgs) {K : Nat} :
    ∀ g j p, K = j + 1 + g → TofRun msgs j K → QuietAt w pre.length p →
      pre.length + offsetOf msgs j < p → p ≤ pre.length + offsetOf msgs j + 7 →
      ∃ p', QuietAt w pre.length p' ∧ pre.length + offsetOf msgs (K - 1) < p' := by
  intro g
  induction g with
  | zero =>
    intro j p hK _ hq hlo _
    exact ⟨p, hq, by rw [hK]; exact hlo⟩
  | succ g ih =>
    intro j p hK htof hq hlo hhi
    obtain ⟨m, hm, hk⟩ := htof j (Nat.le_refl j) (by omega)
    obtain ⟨m', hm', hk'⟩ := htof (j + 1) (by omega) (by omega)
    have hsize : m.size = 76 := by rw [Message.size, hk]; rfl
    have hsize' : m'.size = 76 := by rw [Message.size, hk']; rfl
    obtain ⟨d, hd⟩ := Nat.exists_eq_add_of_le
      (show p ≤ pre.length + offsetOf msgs j + m.size by omega)
    obtain ⟨p', hw, hplo, hphi⟩ := h.window_tooLong ho hm hm' hlo hd.symm (by omega)
    exact ih (j + 1) p' (by omega) (fun i hi => htof i (by omega)) (hq.window hw) (by omega) hphi

/-- Four bytes that look like the header of a time-of-flight message and padding,
so that the message they announce ends one byte into message `j`. -/
def losingPrefix (msgs : List Message) (j : Nat) : List UInt8 :=
  MsgKind.tof.header ++ List.replicate (71 - offsetOf msgs j) 0

theorem losingPrefix_loses {j K : Nat} (ho : OnlyStarts msgs) (hj : j < K)
    (hoff : offsetOf msgs j < 72) (htof : TofRun msgs j K)
    (h : Follows w (losingPrefix msgs j) msgs) {i : Nat} (hi : i < K) (hK : K ≤ msgs.length) :
    ¬ Reaches w (losingPrefix msgs j) msgs i := by
  have hlen : (losingPrefix msgs j).length = 4 + (71 - offsetOf msgs j) := by
    rw [losingPrefix, List.length_append, List.length_replicate]; rfl
  have hhead : matchHeader w.uart 0 = some .tof := by
    rw [matchHeader_eq_some]
    have hs := (segment_eq_append h).1
    exact (segment_eq_append hs).1
  have hfirst : FirstHeader w.uart 0 0 .tof :=
    ⟨fun e he => absurd he (Nat.not_lt_zero e), hhead, by omega⟩
  have hfit : totalFor 0 .tof ≤ 128 := by decide
  have hquiet : QuietAt w (losingPrefix msgs j).length (0 + totalFor 0 .tof) := by
    by_cases hc : ChecksumOk w.uart (0 + 0) .tof
    · obtain ⟨n', -, hp', hr', d, hd, hcar⟩ :=
        restart_window (n := 0) (p := 0) rfl rfl (.message hfirst hfit hc)
      refine ⟨n', hp', hr', ?_⟩
      intro e he
      rw [hd] at he
      rw [List.mem_singleton.mp he, hcar.start, hlen]
      omega
    · obtain ⟨n', -, hp', hr', hd⟩ :=
        restart_window (n := 0) (p := 0) rfl rfl (.corrupt hfirst hfit hc)
      exact ⟨n', hp', hr', fun e he => by rw [hd] at he; cases he⟩
  have htot : totalFor 0 .tof = 76 := rfl
  obtain ⟨p', hq, hlast⟩ := quiet_run h ho (K - (j + 1)) j _ (by omega) htof hquiet
    (by rw [hlen, htot]; omega) (by rw [hlen, htot]; omega)
  rintro ⟨n, d, hd, hstart, -⟩
  have hmono := offsetOf_mono msgs (show i ≤ K - 1 by omega) (by omega)
  rcases hq.start hd with hlt | hge <;> omega

/-- A silent memory and clock, and a stream that starts with the given bytes. -/
def worldOf (bytes : List UInt8) : World := ⟨fun _ => 0, feed bytes fun _ => 0, fun _ => 0⟩

theorem follows_worldOf (pre : List UInt8) (msgs : List Message) :
    Follows (worldOf (pre ++ wire msgs)) pre msgs := segment_feed (pre ++ wire msgs) fun _ => 0

theorem losesFirst_exists {K : Nat} (ho : OnlyStarts msgs) (hbad : LosesFirst K msgs) :
    ∃ w pre, Follows w pre msgs ∧ ¬ OneInEvery K w pre msgs := by
  obtain ⟨hK, j, hj, hoff, htof⟩ := hbad
  refine ⟨_, losingPrefix msgs j, follows_worldOf _ _, ?_⟩
  intro hone
  obtain ⟨i, -, hi, hreach⟩ := hone 0 (by omega)
  exact losingPrefix_loses ho hj hoff htof (follows_worldOf _ _) (by omega) hK hreach

end

/-- **When resynchronisation is bounded.** For `K ≥ 8`, at least one of every `K`
messages reaches the callback behind every prefix exactly when the messages are
not of the losing form. -/
theorem oneInEvery_iff (msgs : List Message) (ho : OnlyStarts msgs) (K : Nat) (h8 : 8 ≤ K) :
    (∀ w pre, Follows w pre msgs → OneInEvery K w pre msgs) ↔ ¬ LosesFirst K msgs := by
  constructor
  · intro hall hbad
    obtain ⟨w, pre, h, hnot⟩ := losesFirst_exists ho hbad
    exact hnot (hall w pre h)
  · intro hgood w pre h
    exact oneInEvery_of_not_loses h ho h8 hgood

/-! ## Time-of-flight messages only -/

/-- A time-of-flight message without data. -/
def emptyTof : Message := ⟨.tof, List.replicate 68 0, rfl⟩

theorem wire_replicate_getD (n p : Nat) (h : p < (wire (List.replicate n emptyTof)).length) :
    (wire (List.replicate n emptyTof)).getD p 0 = emptyTof.bytes.getD (p % 76) 0 := by
  induction n generalizing p with
  | zero => simp at h
  | succ n ih =>
    have hsize : emptyTof.bytes.length = 76 := emptyTof.bytes_length
    simp only [List.replicate_succ, wire_cons, List.length_append] at h ⊢
    by_cases hp : p < 76
    · rw [List.getD_append _ _ _ _ (by omega), Nat.mod_eq_of_lt hp]
    · obtain ⟨q, rfl⟩ := Nat.exists_eq_add_of_le (Nat.le_of_not_lt hp)
      rw [List.getD_append_right _ _ _ _ (by omega), hsize, Nat.add_sub_cancel_left, ih q (by omega),
        Nat.add_mod_left]

theorem offsetOf_replicate {n i : Nat} (h : i ≤ n) :
    offsetOf (List.replicate n emptyTof) i = 76 * i := by
  induction i with
  | zero => simp
  | succ i ih =>
    have hmsg : (List.replicate n emptyTof)[i]? = some emptyTof := by
      rw [List.getElem?_replicate, if_pos (by omega)]
    rw [offsetOf_succ hmsg, ih (by omega)]
    change 76 * i + 76 = _
    omega

theorem emptyTof_onlyStarts (n : Nat) : OnlyStarts (List.replicate n emptyTof) := by
  intro p hp hne
  have hlen : (wire (List.replicate n emptyTof)).length = 76 * n := by
    rw [← offsetOf_length, List.length_replicate, offsetOf_replicate (Nat.le_refl n)]
  -- the pattern depends on the position modulo the message size
  have hmod : matchHeader (fun i => (wire (List.replicate n emptyTof)).getD i 0) p =
      matchHeader (fun i => emptyTof.bytes.getD (i % 76) 0) (p % 76) := by
    apply matchHeader_congr
    intro i hi
    rw [wire_replicate_getD n (p + i) (by omega), Nat.mod_add_mod]
  have hall : ∀ r < 76, matchHeader (fun i => emptyTof.bytes.getD (i % 76) 0) r ≠ none → r = 0 := by
    decide +kernel
  have hr := hall (p % 76) (Nat.mod_lt p (by omega)) (hmod ▸ hne)
  exact ⟨p / 76, by rw [List.length_replicate]; omega, by rw [offsetOf_replicate (by omega)]; omega⟩

theorem losesFirst_replicate {K : Nat} (h : 0 < K) :
    LosesFirst K (List.replicate K emptyTof) := by
  refine ⟨Nat.le_of_eq (List.length_replicate).symm, 0, h, by simp, ?_⟩
  intro i _ hi
  exact ⟨emptyTof, by rw [List.getElem?_replicate, if_pos hi], rfl⟩

/-- Eight time-of-flight messages can all be lost. -/
theorem oneInEvery_iff_tof :
    ¬ ∀ w pre, Follows w pre (List.replicate 8 emptyTof) →
      OneInEvery 8 w pre (List.replicate 8 emptyTof) := by
  intro hall
  have hgood := (oneInEvery_iff _ (emptyTof_onlyStarts 8) 8 (Nat.le_refl 8)).1 hall
  exact hgood (losesFirst_replicate (by omega))

/-- No `K` bounds the consecutive messages lost: behind a suitable prefix any
number of time-of-flight messages is. -/
theorem resync_unbounded : ¬ ∃ K, ∀ msgs, OnlyStarts msgs → ∀ w pre, Follows w pre msgs →
    OneInEvery K w pre msgs := by
  rintro ⟨K, h⟩
  have ho := emptyTof_onlyStarts (K + 1)
  obtain ⟨w, pre, hf, hnot⟩ := losesFirst_exists ho (losesFirst_replicate (Nat.succ_pos K))
  apply hnot
  intro i hi
  obtain ⟨j, hij, hj, hr⟩ := h _ ho w pre hf i (by omega)
  exact ⟨j, hij, by omega, hr⟩

end AiDeck.Uart
