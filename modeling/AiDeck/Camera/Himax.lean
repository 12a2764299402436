import Mathlib

/-! # The timing of the camera

nanocockpit/lib/camera/himax.c: the line and frame lengths for a frame rate, in exact
arithmetic. A conversion to an integer that C leaves undefined stops. -/
namespace AiDeck.Camera

/-- `himax_format_e`. -/
inductive HimaxFormat where
  | himaxFull
  | himaxQvga
  | himaxHalf
  | himaxQqvga
  deriving DecidableEq, Repr

def minLineLenPck : HimaxFormat → UInt16
  | .himaxFull => 0x0178
  | .himaxQvga => 0x0178
  | .himaxHalf => 0x00D7
  | .himaxQqvga => 0x00D7

def minFrameLenLines : HimaxFormat → UInt16
  | .himaxFull => 0x0158
  | .himaxQvga => 0x0104
  | .himaxHalf => 0x00AA
  | .himaxQqvga => 0x0080

/-- A division by zero, a conversion of a value outside of the integer type, or a loop
without end. -/
inductive HimaxStop where
  | divideByZero
  | undefined
  | diverged
  deriving DecidableEq, Repr

/-- The loop of `compute_line_len_pck`, with a bound on its rounds. -/
def lineLenLoop (frameLenPck : UInt32) : Nat → UInt16 → Except HimaxStop UInt16
  | 0, _ => .error .diverged
  | n + 1, lineLenPck =>
    if lineLenPck.toUInt32 < frameLenPck then
      if lineLenPck = 0 then .error .divideByZero
      else if frameLenPck % lineLenPck.toUInt32 = 0 then .ok lineLenPck
      else lineLenLoop frameLenPck n (lineLenPck + 1)
    else .ok lineLenPck

/-- `compute_line_len_pck` with its `frame_len_pck`. -/
def searchLineLenPck (format : HimaxFormat) (frameLenPck : UInt32) : Except HimaxStop UInt16 :=
  lineLenLoop frameLenPck (2 ^ 16 + 1) (minLineLenPck format)

/-! ## The search -/

/-- Where the loop stops. -/
def Stops (frameLenPck d : Nat) : Prop := frameLenPck ≤ d ∨ d ∣ frameLenPck

/-- The line length: the first number from the minimum on that divides `frameLenPck` or is not
below it. -/
def IsLineLen (format : HimaxFormat) (frameLenPck l : Nat) : Prop :=
  IsLeast {d | (minLineLenPck format).toNat ≤ d ∧ Stops frameLenPck d} l

section
variable {frameLenPck : UInt32} {n : Nat} {l : UInt16}

theorem stops_iff : Stops frameLenPck.toNat l.toNat ↔
    ¬ l.toUInt32 < frameLenPck ∨ frameLenPck % l.toUInt32 = 0 := by
  rw [Stops, UInt32.lt_iff_toNat_lt, Nat.not_lt, ← UInt32.toNat_inj, UInt32.toNat_mod]
  exact or_congr_right Nat.dvd_iff_mod_eq_zero

theorem lineLenLoop_stops (hl : l ≠ 0) (h : Stops frameLenPck.toNat l.toNat) :
    lineLenLoop frameLenPck (n + 1) l = .ok l := by
  by_cases hlt : l.toUInt32 < frameLenPck
  · rw [lineLenLoop, if_pos hlt, if_neg hl, if_pos ((stops_iff.mp h).resolve_left (not_not.mpr hlt))]
  · rw [lineLenLoop, if_neg hlt]

theorem lineLenLoop_next (hl : l ≠ 0) (h : ¬ Stops frameLenPck.toNat l.toNat) :
    lineLenLoop frameLenPck (n + 1) l = lineLenLoop frameLenPck n (l + 1) := by
  rw [stops_iff, not_or, not_not] at h
  rw [lineLenLoop, if_pos h.1, if_neg hl, if_neg h.2]

/-- **The search finds the first stop**, or its counter wraps and divides by zero. -/
theorem lineLenLoop_spec (hl : l ≠ 0) (hn : 2 ^ 16 - l.toNat < n) :
    (∃ d, lineLenLoop frameLenPck n l = .ok d ∧
        IsLeast {d | l.toNat ≤ d ∧ Stops frameLenPck.toNat d} d.toNat) ∨
      lineLenLoop frameLenPck n l = .error .divideByZero ∧
        ∀ d, l.toNat ≤ d → d < 2 ^ 16 → ¬ Stops frameLenPck.toNat d := by
  induction n generalizing l with
  | zero => exact absurd hn (Nat.not_lt_zero _)
  | succ n ih =>
    have hlt := l.toNat_lt
    by_cases hstop : Stops frameLenPck.toNat l.toNat
    · exact .inl ⟨l, lineLenLoop_stops hl hstop, ⟨Nat.le_refl _, hstop⟩, fun d hd => hd.1⟩
    · rw [lineLenLoop_next hl hstop]
      by_cases hwrap : l.toNat + 1 = 2 ^ 16
      · have hzero : l + 1 = 0 := by
          rw [← UInt16.toNat_inj, UInt16.toNat_add]
          change (l.toNat + 1) % 2 ^ 16 = 0
          rw [hwrap, Nat.mod_self]
        obtain ⟨m, rfl⟩ := Nat.exists_eq_succ_of_ne_zero (show n ≠ 0 by omega)
        have hpos : (0 : UInt16).toUInt32 < frameLenPck := by
          rw [UInt32.lt_iff_toNat_lt]
          exact Nat.lt_of_le_of_lt (Nat.zero_le _) (Nat.not_le.mp (not_or.mp hstop).1)
        refine .inr ⟨?_, ?_⟩
        · rw [hzero, lineLenLoop, if_pos hpos, if_pos rfl]
        · intro d hd hd'
          obtain rfl : l.toNat = d := by omega
          exact hstop
      · have hnext : (l + 1).toNat = l.toNat + 1 := by
          rw [UInt16.toNat_add]
          exact Nat.mod_eq_of_lt (Nat.lt_of_le_of_ne hlt hwrap)
        have hne : l + 1 ≠ 0 := by
          rintro heq
          rw [heq] at hnext
          exact Nat.succ_ne_zero _ hnext.symm
        have hrest := ih (l := l + 1) hne (by omega)
        rw [hnext] at hrest
        have hshift : ∀ d, l.toNat ≤ d → Stops frameLenPck.toNat d → l.toNat + 1 ≤ d := by
          intro d hd hd'
          refine Nat.lt_of_le_of_ne hd ?_
          rintro rfl
          exact hstop hd'
        rcases hrest with ⟨d, hok, hd, hleast⟩ | ⟨hfail, hnone⟩
        · exact .inl ⟨d, hok, ⟨Nat.le_of_succ_le hd.1, hd.2⟩,
            fun d' hd' => hleast ⟨hshift d' hd'.1 hd'.2, hd'.2⟩⟩
        · refine .inr ⟨hfail, fun d hd hd' hs => hnone d (hshift d hd hs) hd' hs⟩

end

section
variable (format : HimaxFormat) (frameLenPck : UInt32)

theorem minLineLenPck_ne_zero : minLineLenPck format ≠ 0 := by
  cases format <;> decide

/-- A line length, or no number that fits and at which the search could stop. -/
theorem searchLineLenPck_spec :
    (∃ l, searchLineLenPck format frameLenPck = .ok l ∧
        IsLineLen format frameLenPck.toNat l.toNat) ∨
      searchLineLenPck format frameLenPck = .error .divideByZero ∧
        ∀ d, (minLineLenPck format).toNat ≤ d → d < 2 ^ 16 → ¬ Stops frameLenPck.toNat d :=
  lineLenLoop_spec (minLineLenPck_ne_zero format) (Nat.lt_succ_of_le (Nat.sub_le _ _))

/-- The search ends without a division by zero, at or above the minimum, and at the smallest
divisor that there is. -/
def LineLenSafe : Prop :=
  ∃ l, searchLineLenPck format frameLenPck = .ok l ∧ minLineLenPck format ≤ l ∧
    ((∃ d, (minLineLenPck format).toNat ≤ d ∧ d ≤ 65535 ∧ d ∣ frameLenPck.toNat) →
      IsLeast {d | (minLineLenPck format).toNat ≤ d ∧ d ∣ frameLenPck.toNat} l.toNat)

theorem lineLenSafe_of_stops {d : Nat} (hmin : (minLineLenPck format).toNat ≤ d) (hd : d ≤ 65535)
    (hstops : Stops frameLenPck.toNat d) : LineLenSafe format frameLenPck := by
  rcases searchLineLenPck_spec format frameLenPck with ⟨l, hok, ⟨hge, hstop⟩, hleast⟩ | ⟨-, hnone⟩
  · refine ⟨l, hok, UInt16.le_iff_toNat_le.mpr hge, ?_⟩
    rintro ⟨d', hmin', -, hdvd⟩
    have hle : l.toNat ≤ d' := hleast ⟨hmin', .inr hdvd⟩
    have hdivides : l.toNat ∣ frameLenPck.toNat := by
      rcases hstop with hge' | hdivides
      · rcases Nat.eq_zero_or_pos frameLenPck.toNat with hzero | hpos
        · rw [hzero]
          exact Nat.dvd_zero _
        · have hle' : d' ≤ frameLenPck.toNat := Nat.le_of_dvd hpos hdvd
          obtain rfl : d' = l.toNat := by omega
          exact hdvd
      · exact hdivides
    exact ⟨⟨hge, hdivides⟩, fun d'' hd'' => hleast ⟨hd''.1, .inr hd''.2⟩⟩
  · exact absurd hstops (hnone d hmin (Nat.lt_succ_of_le hd))

/-- **The search is safe if and only if there is a number to find**: the frame length itself or
a divisor of it, in 16 bits. -/
theorem lineLenSafe_iff :
    LineLenSafe format frameLenPck ↔ frameLenPck.toNat ≤ 65535 ∨
      ∃ d, (minLineLenPck format).toNat ≤ d ∧ d ≤ 65535 ∧ d ∣ frameLenPck.toNat := by
  constructor
  · rintro ⟨l, hok, -, -⟩
    rcases searchLineLenPck_spec format frameLenPck with ⟨l', -, ⟨hge, hstop⟩, -⟩ | ⟨hfail, -⟩
    · have hlt := l'.toNat_lt
      rcases hstop with hle | hdvd
      · exact .inl (by omega)
      · exact .inr ⟨l'.toNat, hge, by omega, hdvd⟩
    · cases hfail.symm.trans hok
  · rintro (hle | ⟨d, hmin, hd, hdvd⟩)
    · have hmin := (minLineLenPck format).toNat_lt
      exact lineLenSafe_of_stops format frameLenPck (Nat.le_max_left _ _)
        (max_le (by omega) hle) (.inl (Nat.le_max_right _ _))
    · exact lineLenSafe_of_stops format frameLenPck hmin hd (.inr hdvd)

end

/-- A prime above the range of the counter. -/
theorem not_lineLenSafe_prime : ¬ LineLenSafe .himaxFull 65537 := by
  have hprime : Nat.Prime 65537 := by norm_num
  rintro ⟨l, hok, -, -⟩
  rcases searchLineLenPck_spec .himaxFull 65537 with ⟨l', -, ⟨hge, hstop⟩, -⟩ | ⟨hfail, -⟩
  · have hlt := l'.toNat_lt
    change 376 ≤ l'.toNat at hge
    rcases hstop with hle | hdvd
    · change 65537 ≤ l'.toNat at hle
      omega
    · change l'.toNat ∣ 65537 at hdvd
      rcases (Nat.dvd_prime hprime).mp hdvd with hone | hsame
      · omega
      · omega
  · cases hfail.symm.trans hok

end AiDeck.Camera
