import AiDeck.Camera.Himax

/-! # The frame rate that is realised

`himax_configure` of nanocockpit/lib/camera/himax.c computes the line length for the desired rate
and from it the number of lines of a frame; the second call has its last two arguments
exchanged. -/
namespace AiDeck.Camera

/-- Conversion of a floating-point value that is not negative to an unsigned integer. -/
def toUnsigned (bits : Nat) (x : ℚ) : Except HimaxStop Nat :=
  if ⌊x⌋₊ < 2 ^ bits then .ok ⌊x⌋₊ else .error .undefined

/-- A quotient of floating-point values, converted: by zero it has no value of an integer
type. -/
def quotient (bits : Nat) (x y : ℚ) : Except HimaxStop Nat :=
  if y = 0 then .error .undefined else toUnsigned bits (x / y)

section
variable (vtPixClk : UInt32) (format : HimaxFormat)

def computeLineLenPck (frameRate : ℚ) : Except HimaxStop UInt16 := do
  let frameLenPck ← quotient 32 vtPixClk.toNat frameRate
  searchLineLenPck format (.ofNat frameLenPck)

def computeFrameLenLines (lineLenPck : UInt16) (frameRate : ℚ) : Except HimaxStop UInt16 := do
  let frameLenLines ← quotient 16 vtPixClk.toNat (frameRate * lineLenPck.toNat)
  return max (minFrameLenLines format) (.ofNat frameLenLines)

/-- The line and frame lengths that `himax_configure` writes: the rate is passed as the length
of a line, and the length of a line as the rate. -/
def himaxConfigure (desiredFrameRate : ℚ) : Except HimaxStop (UInt16 × UInt16) := do
  let lineLenPck ← computeLineLenPck vtPixClk format desiredFrameRate
  let rate ← toUnsigned 16 desiredFrameRate
  let frameLenLines ← computeFrameLenLines vtPixClk format (.ofNat rate) lineLenPck.toNat
  return (lineLenPck, frameLenLines)

/-- The number of lines for a rate, given the length of a line. -/
def desiredFrameLenLines (l : Nat) (r : ℚ) : Nat :=
  max (minFrameLenLines format).toNat ⌊(vtPixClk.toNat : ℚ) / (r * l)⌋₊

/-- The frame timing realises the rate. -/
def Realises (r : ℚ) : Prop :=
  ∀ l, computeLineLenPck vtPixClk format r = .ok l → desiredFrameLenLines vtPixClk format l.toNat r < 2 ^ 16 →
    ∃ lines, himaxConfigure vtPixClk format r = .ok (l, lines) ∧
      lines.toNat = desiredFrameLenLines vtPixClk format l.toNat r

/-- Truncating the rate to 16 bits changes nothing: the rate is in range, and no number of lines
above the minimum lies between the two quotients. -/
def TruncationHarmless (l : Nat) (r : ℚ) : Prop :=
  1 ≤ r ∧ r < 2 ^ 16 ∧ ∀ n : Nat, (minFrameLenLines format).toNat < n →
    ¬ ((vtPixClk.toNat : ℚ) / (r * l) < n ∧ (n : ℚ) ≤ vtPixClk.toNat / (⌊r⌋₊ * l))

end

/-- Two quotients whose integral parts are the same above a minimum. -/
theorem max_floor_eq_iff {m : Nat} {x y : ℚ} (hx : 0 ≤ x) (hxy : x ≤ y) :
    max m ⌊x⌋₊ = max m ⌊y⌋₊ ↔ ∀ n : Nat, m < n → ¬ (x < n ∧ (n : ℚ) ≤ y) := by
  have hfloor : ⌊x⌋₊ ≤ ⌊y⌋₊ := Nat.floor_mono hxy
  constructor
  · rintro heq n hn ⟨hlow, hhigh⟩
    have hlow' : ⌊x⌋₊ < n := (Nat.floor_lt hx).mpr hlow
    have hhigh' : n ≤ ⌊y⌋₊ := Nat.le_floor hhigh
    omega
  · intro hnone
    by_contra hne
    refine hnone ⌊y⌋₊ (by omega) ⟨?_, Nat.floor_le (hx.trans hxy)⟩
    exact (Nat.floor_lt hx).mp (by omega)

theorem toUnsigned_eq {bits : Nat} {x : ℚ} (h : ⌊x⌋₊ < 2 ^ bits) : toUnsigned bits x = .ok ⌊x⌋₊ :=
  if_pos h

section
variable {vtPixClk : UInt32} {format : HimaxFormat} {r : ℚ} {l : UInt16}

/-- The line length is that of the search. -/
theorem computeLineLenPck_iff (hr : 0 < r) : computeLineLenPck vtPixClk format r = .ok l ↔
    ⌊(vtPixClk.toNat : ℚ) / r⌋₊ < 2 ^ 32 ∧
      IsLineLen format ⌊(vtPixClk.toNat : ℚ) / r⌋₊ l.toNat := by
  generalize hF : ⌊(vtPixClk.toNat : ℚ) / r⌋₊ = F
  by_cases hlt : F < 2 ^ 32
  · have hquotient : quotient 32 vtPixClk.toNat r = .ok F := by
      rw [quotient, if_neg hr.ne', toUnsigned_eq (hF ▸ hlt), hF]
    have hvalue : (UInt32.ofNat F).toNat = F := UInt32.toNat_ofNat_of_lt' hlt
    have hcompute : computeLineLenPck vtPixClk format r = searchLineLenPck format (.ofNat F) := by
      rw [computeLineLenPck, hquotient]
      rfl
    rw [hcompute]
    rcases searchLineLenPck_spec format (.ofNat F) with ⟨l', hok, hleast⟩ | ⟨hfail, hnone⟩
    · rw [hvalue] at hleast
      rw [hok]
      constructor
      · intro heq
        rw [← Except.ok.inj heq]
        exact ⟨hlt, hleast⟩
      · rintro ⟨-, hleast'⟩
        rw [UInt16.toNat_inj.mp (hleast.unique hleast')]
    · rw [hvalue] at hnone
      rw [hfail]
      constructor
      · intro heq
        cases heq
      · rintro ⟨-, ⟨hge, hstop⟩, -⟩
        exact absurd hstop (hnone _ hge l.toNat_lt)
  · constructor
    · intro hok
      have hquotient : quotient 32 vtPixClk.toNat r = .error .undefined := by
        rw [quotient, if_neg hr.ne', toUnsigned, if_neg (hF ▸ hlt)]
      rw [computeLineLenPck, hquotient] at hok
      cases hok
    · exact fun h => absurd h.1 hlt

theorem toNat_max (a b : UInt16) : (max a b).toNat = max a.toNat b.toNat := by
  change (if a ≤ b then b else a).toNat = _
  split
  · rename_i hle
    exact (Nat.max_eq_right (UInt16.le_iff_toNat_le.mp hle)).symm
  · rename_i hgt
    exact (Nat.max_eq_left (Nat.le_of_not_le fun hle => hgt (UInt16.le_iff_toNat_le.mpr hle))).symm

theorem computeFrameLenLines_iff {a : Nat} (ha : a < 2 ^ 16) {x : ℚ} {lines : UInt16} :
    computeFrameLenLines vtPixClk format (.ofNat a) x = .ok lines ↔
      x * a ≠ 0 ∧ ⌊(vtPixClk.toNat : ℚ) / (x * a)⌋₊ < 2 ^ 16 ∧
        lines.toNat = max (minFrameLenLines format).toNat ⌊(vtPixClk.toNat : ℚ) / (x * a)⌋₊ := by
  have hvalue : (UInt16.ofNat a).toNat = a := UInt16.toNat_ofNat_of_lt' ha
  rw [computeFrameLenLines, hvalue, quotient]
  by_cases hzero : x * a = 0
  · rw [if_pos hzero]
    constructor
    · intro h
      cases h
    · exact fun h => absurd hzero h.1
  · rw [if_neg hzero, toUnsigned]
    by_cases hlt : ⌊(vtPixClk.toNat : ℚ) / (x * a)⌋₊ < 2 ^ 16
    · rw [if_pos hlt]
      have hlines : (max (minFrameLenLines format)
          (.ofNat ⌊(vtPixClk.toNat : ℚ) / (x * a)⌋₊)).toNat =
            max (minFrameLenLines format).toNat ⌊(vtPixClk.toNat : ℚ) / (x * a)⌋₊ := by
        rw [toNat_max, UInt16.toNat_ofNat_of_lt' hlt]
      constructor
      · intro h
        rw [← Except.ok.inj h]
        exact ⟨hzero, hlt, hlines⟩
      · rintro ⟨-, -, heq⟩
        exact congrArg Except.ok (UInt16.toNat_inj.mp (hlines.trans heq.symm))
    · rw [if_neg hlt]
      constructor
      · intro h
        cases h
      · exact fun h => absurd h.2.1 hlt

/-- The number of lines that is written. -/
theorem himaxConfigure_iff (hline : computeLineLenPck vtPixClk format r = .ok l) {lines : UInt16} :
    himaxConfigure vtPixClk format r = .ok (l, lines) ↔ ⌊r⌋₊ < 2 ^ 16 ∧
      computeFrameLenLines vtPixClk format (.ofNat ⌊r⌋₊) l.toNat = .ok lines := by
  rw [himaxConfigure, hline]
  show (toUnsigned 16 r >>= _) = _ ↔ _
  by_cases hrate : ⌊r⌋₊ < 2 ^ 16
  · rw [toUnsigned_eq hrate]
    show (computeFrameLenLines vtPixClk format (.ofNat ⌊r⌋₊) l.toNat >>= _) = _ ↔ _
    cases hlines : computeFrameLenLines vtPixClk format (.ofNat ⌊r⌋₊) l.toNat with
    | error e =>
      constructor
      · intro h
        cases h
      · intro h
        cases h.2
    | ok lines' =>
      constructor
      · intro h
        exact ⟨hrate, congrArg Except.ok (Prod.mk.inj (Except.ok.inj h)).2⟩
      · rintro ⟨-, h⟩
        rw [← Except.ok.inj h]
        rfl
  · rw [toUnsigned, if_neg hrate]
    constructor
    · intro h
      cases h
    · exact fun h => absurd h.1 hrate

theorem lineLen_pos {F : Nat} (h : IsLineLen format F l.toNat) : 0 < l.toNat := by
  have hmin : (minLineLenPck format).toNat ≠ 0 := fun heq =>
    minLineLenPck_ne_zero format (UInt16.toNat_inj.mp heq)
  exact Nat.lt_of_lt_of_le (Nat.pos_of_ne_zero hmin) h.1.1

/-- For one line length: what is written is what is desired exactly when truncating is
harmless. -/
theorem lines_iff (hr : 0 < r) (hl : 0 < l.toNat)
    (hline : computeLineLenPck vtPixClk format r = .ok l)
    (hfits : desiredFrameLenLines vtPixClk format l.toNat r < 2 ^ 16) :
    (∃ lines, himaxConfigure vtPixClk format r = .ok (l, lines) ∧
        lines.toNat = desiredFrameLenLines vtPixClk format l.toNat r) ↔
      TruncationHarmless vtPixClk format l.toNat r := by
  have hl' : (0 : ℚ) < l.toNat := Nat.cast_pos.mpr hl
  have hrange : ⌊r⌋₊ < 2 ^ 16 ↔ r < 2 ^ 16 := by
    rw [Nat.floor_lt hr.le]
    norm_num
  have hpos : (l.toNat : ℚ) * ⌊r⌋₊ ≠ 0 ↔ 1 ≤ r := by
    rw [mul_ne_zero_iff, Nat.cast_ne_zero, Nat.cast_ne_zero, ← Nat.floor_pos]
    omega
  have hx : (0 : ℚ) ≤ vtPixClk.toNat / (r * l.toNat) := by positivity
  have hxy : 1 ≤ r → (vtPixClk.toNat : ℚ) / (r * l.toNat) ≤ vtPixClk.toNat / (⌊r⌋₊ * l.toNat) := by
    intro hone
    have hfloor : (0 : ℚ) < ⌊r⌋₊ := Nat.cast_pos.mpr (Nat.floor_pos.mpr hone)
    have hle : (⌊r⌋₊ : ℚ) ≤ r := Nat.floor_le hr.le
    gcongr
  unfold TruncationHarmless
  constructor
  · rintro ⟨lines, hok, heq⟩
    obtain ⟨hrate, hcompute⟩ := (himaxConfigure_iff hline).mp hok
    obtain ⟨hne, -, hlines⟩ := (computeFrameLenLines_iff hrate).mp hcompute
    have hone := hpos.mp hne
    refine ⟨hone, hrange.mp hrate, (max_floor_eq_iff hx (hxy hone)).mp ?_⟩
    rw [mul_comm (⌊r⌋₊ : ℚ)]
    exact heq.symm.trans hlines
  · rintro ⟨hone, hlt, hnone⟩
    have hsame := (max_floor_eq_iff hx (hxy hone)).mpr hnone
    rw [mul_comm (⌊r⌋₊ : ℚ)] at hsame
    have hvalue : (UInt16.ofNat (desiredFrameLenLines vtPixClk format l.toNat r)).toNat =
      desiredFrameLenLines vtPixClk format l.toNat r := UInt16.toNat_ofNat_of_lt' hfits
    refine ⟨.ofNat (desiredFrameLenLines vtPixClk format l.toNat r), ?_, hvalue⟩
    refine (himaxConfigure_iff hline).mpr ⟨hrange.mpr hlt,
      (computeFrameLenLines_iff (hrange.mpr hlt)).mpr ⟨hpos.mpr hone, ?_, hvalue.trans hsame⟩⟩
    refine Nat.lt_of_le_of_lt ?_ hfits
    rw [desiredFrameLenLines, hsame]
    exact Nat.le_max_right _ _

/-- A whole rate is not changed. -/
theorem truncationHarmless_natCast {k : Nat} (hpos : 1 ≤ k) (hlt : k < 2 ^ 16) (l : Nat) :
    TruncationHarmless vtPixClk format l k := by
  refine ⟨Nat.one_le_cast.mpr hpos, ?_, ?_⟩
  · exact_mod_cast hlt
  · rintro n - ⟨hlow, hhigh⟩
    rw [Nat.floor_natCast] at hhigh
    exact absurd hhigh (not_le.mpr hlow)

/-- **The desired rate is realised if and only if truncating it is harmless**, at the line
length of the search. -/
theorem realises_iff (vtPixClk : UInt32) (format : HimaxFormat) (r : ℚ) (hr : 0 < r) :
    Realises vtPixClk format r ↔
      ∀ l < 2 ^ 16, ⌊(vtPixClk.toNat : ℚ) / r⌋₊ < 2 ^ 32 →
        IsLineLen format ⌊(vtPixClk.toNat : ℚ) / r⌋₊ l →
        desiredFrameLenLines vtPixClk format l r < 2 ^ 16 →
          TruncationHarmless vtPixClk format l r := by
  constructor
  · intro h l hl hclock hleast hfits
    have hvalue : (UInt16.ofNat l).toNat = l := UInt16.toNat_ofNat_of_lt' hl
    rw [← hvalue] at hleast hfits ⊢
    have hline := (computeLineLenPck_iff hr).mpr ⟨hclock, hleast⟩
    exact (lines_iff hr (lineLen_pos hleast) hline hfits).mp (h _ hline hfits)
  · intro h l hline hfits
    obtain ⟨hclock, hleast⟩ := (computeLineLenPck_iff hr).mp hline
    exact (lines_iff hr (lineLen_pos hleast) hline hfits).mpr
      (h _ l.toNat_lt hclock hleast hfits)

/-- Thirty frames per second. -/
theorem realises_thirty : Realises 6000000 .himaxHalf 30 :=
  (realises_iff 6000000 .himaxHalf 30 (by norm_num)).mpr fun l _ _ _ _ =>
    truncationHarmless_natCast (k := 30) (by decide) (by decide) l

/-- Three frames in two seconds: the frame gets 1200 lines instead of 800. -/
theorem not_realises_fraction : ¬ Realises 451200 .himaxFull (3 / 2) := by
  have hclock : ⌊((451200 : UInt32).toNat : ℚ) / (3 / 2)⌋₊ = 300800 := by
    change ⌊((451200 : ℕ) : ℚ) / (3 / 2)⌋₊ = 300800
    rw [show ((451200 : ℕ) : ℚ) / (3 / 2) = (300800 : ℕ) by norm_num, Nat.floor_natCast]
  have hline : computeLineLenPck 451200 .himaxFull (3 / 2) = .ok 376 := by
    rw [computeLineLenPck_iff (by norm_num), hclock]
    exact ⟨by decide, ⟨Nat.le_refl _, .inr (by decide)⟩, fun d hd => hd.1⟩
  have hdesired : desiredFrameLenLines 451200 .himaxFull 376 (3 / 2) = 800 := by
    change max 344 ⌊((451200 : ℕ) : ℚ) / (3 / 2 * (376 : ℕ))⌋₊ = 800
    rw [show ((451200 : ℕ) : ℚ) / (3 / 2 * (376 : ℕ)) = (800 : ℕ) by norm_num, Nat.floor_natCast]
    rfl
  intro h
  have hharmless := (lines_iff (by norm_num) (by decide) hline (hdesired ▸ by decide)).mp
    (h 376 hline (hdesired ▸ by decide))
  refine hharmless.2.2 801 (by decide) ⟨?_, ?_⟩
  · change ((451200 : ℕ) : ℚ) / (3 / 2 * (376 : ℕ)) < _
    norm_num
  · change _ ≤ ((451200 : ℕ) : ℚ) / (⌊(3 / 2 : ℚ)⌋₊ * (376 : ℕ))
    rw [show ⌊(3 / 2 : ℚ)⌋₊ = 1 by norm_num]
    norm_num

end

end AiDeck.Camera
