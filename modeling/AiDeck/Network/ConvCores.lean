import Mathlib
import AiDeck.Network.Conv

/-! # Convolution on several cores

Each core does some columns of some lines. No core writes to what another one looks at, and
each pixel of the output belongs to one core, so that in every interleaving each pixel gets
the output of its window. -/
namespace AiDeck.Network

open AiDeck.Lib AiDeck.Lib.Cores AiDeck.Lib.Copies AiDeck.Lib.Convolution

/-! ## Shares -/

section
variable {a : ConvArgs} {share : ConvShare} {k : Nat}

/-- The columns of a share, from the first one on. -/
def ConvShare.first (s : ConvShare) : Nat := s.sectionR * s.dimOutXR

def ConvArgs.count (a : ConvArgs) (s : ConvShare) : Nat :=
  s.dimOutXR + s.sectionR * (s.dimOutXR + a.dimOutX % 2) - s.first

/-- A share is a whole line or one of its two halves. -/
structure ConvArgs.Fair (a : ConvArgs) (s : ConvShare) : Prop where
  section_le : s.sectionR ≤ 1
  half : s.extraChunk = 1 ∧ s.dimOutXR = a.dimOutX / 2 ∨
    s.extraChunk = 0 ∧ s.sectionR = 0 ∧ s.dimOutXR = a.dimOutX

theorem share_fair (a : ConvArgs) (numCores coreId : Nat) : a.Fair (a.share numCores coreId) := by
  unfold ConvArgs.share
  split
  · refine ⟨?_, Or.inl ⟨rfl, Nat.shiftRight_eq_div_pow _ _⟩⟩
    change coreId &&& 1 ≤ 1
    rw [Nat.and_one_is_mod]
    omega
  · exact ⟨Nat.zero_le 1, Or.inr ⟨rfl, rfl, rfl⟩⟩

theorem columns_eq (a : ConvArgs) (s : ConvShare) :
    a.columns s = List.range' s.first (a.count s) := rfl

/-- The columns that are skipped are those of the other section. -/
theorem ConvArgs.Fair.width (h : a.Fair share) : share.first + a.count share ≤ a.dimOutX ∧
    a.count share + share.extraChunk *
      (share.dimOutXR + (1 - share.sectionR) * (a.dimOutX % 2)) = a.dimOutX := by
  obtain ⟨hsection, ⟨hextra, hhalf⟩ | ⟨hextra, hzero, hwhole⟩⟩ := h
  · unfold count ConvShare.first
    rw [hextra, hhalf]
    obtain hzero | hone : share.sectionR = 0 ∨ share.sectionR = 1 := by omega
    · rw [hzero]
      omega
    · rw [hone]
      omega
  · unfold count ConvShare.first
    rw [hextra, hzero, hwhole]
    omega

/-- **Each pixel belongs to one core.** -/
theorem share_unique (a : ConvArgs) (k : Nat) {y x : Nat} (hy : y < a.dimOutY) (hx : x < a.dimOutX) :
    (∃ c < 2 ^ k, y ∈ lines (a.share (2 ^ k) c).chunk a.dimOutY (a.share (2 ^ k) c).coreIdR ∧
      x ∈ a.columns (a.share (2 ^ k) c)) ∧
    ∀ c < 2 ^ k, ∀ d < 2 ^ k,
      y ∈ lines (a.share (2 ^ k) c).chunk a.dimOutY (a.share (2 ^ k) c).coreIdR →
      x ∈ a.columns (a.share (2 ^ k) c) →
      y ∈ lines (a.share (2 ^ k) d).chunk a.dimOutY (a.share (2 ^ k) d).coreIdR →
      x ∈ a.columns (a.share (2 ^ k) d) → c = d := by
  by_cases hsplit : a.dimOutY &&& (2 ^ k - 1) ≠ 0 ∧ a.dimOutX > 1
  · -- two cores share a line: the half of the number says which line, the rest which columns
    have hshare : ∀ c, a.share (2 ^ k) c = _ := fun c => if_pos hsplit
    obtain ⟨j, rfl⟩ : ∃ j, k = j + 1 := by
      rcases Nat.eq_zero_or_pos k with rfl | hpos
      · exact absurd (Nat.and_zero _) hsplit.1
      · exact ⟨k - 1, by omega⟩
    have hhalf : 2 ^ (j + 1) >>> 1 = 2 ^ j := by
      rw [Nat.shiftRight_eq_div_pow, pow_succ, pow_one, Nat.mul_div_cancel _ two_pos]
    have hshares := shares_lines (le_mul_coreChunk (n := a.dimOutY) (Nat.log2_two_pow (n := j)).le)
    have hcolumns : ∀ c, x ∈ a.columns (a.share (2 ^ (j + 1)) c) ↔
        (c % 2 = 0 ∧ x < a.dimOutX / 2 ∨ c % 2 = 1 ∧ a.dimOutX / 2 ≤ x) := by
      intro c
      rw [hshare, columns_eq, List.mem_range'_1]
      unfold ConvArgs.count ConvShare.first
      dsimp only
      rw [Nat.and_one_is_mod, Nat.shiftRight_eq_div_pow, pow_one]
      obtain hzero | hone : c % 2 = 0 ∨ c % 2 = 1 := by omega
      · rw [hzero]
        omega
      · rw [hone]
        omega
    have hlines : ∀ c, (y ∈ lines (a.share (2 ^ (j + 1)) c).chunk a.dimOutY
        (a.share (2 ^ (j + 1)) c).coreIdR) ↔ y ∈ lines (coreChunk (2 ^ j).log2 (2 ^ j) a.dimOutY)
          a.dimOutY (c / 2) := by
      intro c
      rw [hshare]
      dsimp only
      rw [hhalf, Nat.shiftRight_eq_div_pow, pow_one]
    have hpow : 2 ^ (j + 1) = 2 * 2 ^ j := pow_succ' 2 j
    refine ⟨?_, fun c hc d hd hcy hcx hdy hdx => ?_⟩
    · obtain ⟨core, hcore⟩ := (hshares.mem y).mpr hy
      have hlt := core.isLt
      rcases Nat.lt_or_ge x (a.dimOutX / 2) with hleft | hright
      · refine ⟨2 * core, by omega, (hlines _).mpr ?_, (hcolumns _).mpr (Or.inl ⟨by omega, hleft⟩)⟩
        rwa [Nat.mul_div_cancel_left _ two_pos]
      · refine ⟨2 * core + 1, by omega, (hlines _).mpr ?_,
          (hcolumns _).mpr (Or.inr ⟨by omega, hright⟩)⟩
        rwa [show (2 * core.val + 1) / 2 = core by omega]
    · have hcd := hshares.unique (c := ⟨c / 2, by omega⟩) (d := ⟨d / 2, by omega⟩)
        ((hlines c).mp hcy) ((hlines d).mp hdy)
      have hhalves : c / 2 = d / 2 := congrArg Fin.val hcd
      rcases (hcolumns c).mp hcx with hc' | hc' <;> rcases (hcolumns d).mp hdx with hd' | hd' <;> omega
  · have hshare : ∀ c, a.share (2 ^ k) c = _ := fun c => if_neg hsplit
    have hshares := shares_lines (le_mul_coreChunk (n := a.dimOutY) (Nat.log2_two_pow (n := k)).le)
    have hcolumns : ∀ c, x ∈ a.columns (a.share (2 ^ k) c) := by
      intro c
      rw [hshare, columns_eq, List.mem_range'_1]
      unfold ConvArgs.count ConvShare.first
      dsimp only
      omega
    have hlines : ∀ c, (y ∈ lines (a.share (2 ^ k) c).chunk a.dimOutY (a.share (2 ^ k) c).coreIdR) ↔
        y ∈ lines (coreChunk (2 ^ k).log2 (2 ^ k) a.dimOutY) a.dimOutY c := by
      intro c
      rw [hshare]
    refine ⟨?_, fun c hc d hd hcy _ hdy _ => ?_⟩
    · obtain ⟨core, hcore⟩ := (hshares.mem y).mpr hy
      exact ⟨core, core.isLt, (hlines _).mpr hcore, hcolumns _⟩
    · exact congrArg Fin.val (hshares.unique (c := ⟨c, hc⟩) (d := ⟨d, hd⟩)
        ((hlines c).mp hcy) ((hlines d).mp hdy))

end

/-! ## The lines of a core -/

section
variable {a : ConvArgs} {share : ConvShare} {numCores base y r : Nat}

/-- What a core writes to while it does some lines. -/
def ConvArgs.ownedLines (a : ConvArgs) (share : ConvShare) (base y r : Nat) : Set Nat :=
  cells base (2 * a.numCol) ∪
    {z | ∃ v, y ≤ v ∧ v < y + r ∧ z ∈ cells (a.pixelOut v share.first) (a.count share * a.chOut)}

/-- None of it is read. -/
structure ConvArgs.ClearLines (a : ConvArgs) (share : ConvShare) (base : Nat) : Prop where
  base_read : Disjoint (cells base (2 * a.numCol)) a.readCells
  out_read : Disjoint a.outputCells a.readCells
  out_base : Disjoint a.outputCells (cells base (2 * a.numCol))
  fair : a.Fair share

theorem line_outputCells (hfair : a.Fair share) (hy : y < a.dimOutY) :
    cells (a.pixelOut y share.first) (a.count share * a.chOut) ⊆ a.outputCells := by
  have hline : (y + 1) * a.dimOutX * a.chOut ≤ a.dimOutY * a.dimOutX * a.chOut :=
    Nat.mul_le_mul_right _ (Nat.mul_le_mul_right _ hy)
  have hwidth : (share.first + a.count share) * a.chOut ≤ a.dimOutX * a.chOut :=
    Nat.mul_le_mul_right _ hfair.width.1
  intro z hz
  rw [ConvArgs.outputCells, mem_cells]
  rw [mem_cells] at hz
  unfold ConvArgs.pixelOut at hz
  simp only [Nat.add_mul, Nat.one_mul] at *
  omega

theorem ConvArgs.ClearLines.line (h : a.ClearLines share base) (hy : y < a.dimOutY) :
    a.Clear base (a.pixelOut y share.first) (a.count share) :=
  ⟨h.base_read, Set.disjoint_of_subset_left (line_outputCells h.fair hy) h.out_read,
    Set.disjoint_of_subset_left (line_outputCells h.fair hy) h.out_base⟩

theorem owned_subset : a.owned base (a.pixelOut y share.first) (a.count share) ⊆
    a.ownedLines share base y (r + 1) :=
  Set.union_subset_union_right _ fun _ hz => ⟨y, le_rfl, by omega, hz⟩

theorem ownedLines_subset :
    a.ownedLines share base (y + 1) r ⊆ a.ownedLines share base y (r + 1) := by
  refine Set.union_subset_union_right _ fun z hz => ?_
  obtain ⟨v, hv, hv', hz⟩ := hz
  exact ⟨v, by omega, by omega, hz⟩

theorem pixelOut_add (a : ConvArgs) (y x i : Nat) :
    a.pixelOut y (x + i) = a.pixelOut y x + i * a.chOut := by
  unfold ConvArgs.pixelOut
  ring

/-- Different pixels have different cells. -/
theorem pixelOut_ne {v x i o o' : Nat} (hx : x < a.dimOutX) (hi : i < a.dimOutX)
    (ho : o < a.chOut) (ho' : o' < a.chOut) (hne : v ≠ y ∨ i ≠ x) :
    a.pixelOut v i + o' ≠ a.pixelOut y x + o := by
  intro heq
  have hplace : (v * a.dimOutX + i) * a.chOut + o' = (y * a.dimOutX + x) * a.chOut + o := by
    unfold ConvArgs.pixelOut at heq
    omega
  have hch : 0 < a.chOut := Nat.zero_lt_of_lt ho
  have hwidth : 0 < a.dimOutX := Nat.zero_lt_of_lt hx
  have hpixel := congrArg (· / a.chOut) hplace
  simp only [Nat.mul_comm _ a.chOut, Nat.mul_add_div hch, Nat.div_eq_of_lt ho,
    Nat.div_eq_of_lt ho', Nat.add_zero] at hpixel
  have hline := congrArg (· / a.dimOutX) hpixel
  have hcolumn := congrArg (· % a.dimOutX) hpixel
  simp only [Nat.mul_comm _ a.dimOutX, Nat.mul_add_div hwidth, Nat.mul_add_mod,
    Nat.div_eq_of_lt hx, Nat.div_eq_of_lt hi, Nat.mod_eq_of_lt hx, Nat.mod_eq_of_lt hi,
    Nat.add_zero] at hline hcolumn
  omega

/-- A cell among the outputs of a line is that of a pixel. -/
theorem exists_pixel {z : Nat} (hz : z ∈ cells (a.pixelOut y share.first) (a.count share * a.chOut)) :
    ∃ i < a.count share, ∃ o < a.chOut, z = a.pixelOut y (share.first + i) + o := by
  obtain ⟨hle, hlt⟩ := hz
  have hch : 0 < a.chOut := Nat.pos_of_mul_pos_left (show 0 < a.count share * a.chOut by omega)
  have hi : (z - a.pixelOut y share.first) / a.chOut < a.count share :=
    Nat.div_lt_of_lt_mul (by rw [Nat.mul_comm]; omega)
  refine ⟨_, hi, _, Nat.mod_lt (z - a.pixelOut y share.first) hch, ?_⟩
  have hsplit := Nat.div_add_mod' (z - a.pixelOut y share.first) a.chOut
  unfold ConvArgs.pixelOut at *
  rw [← Nat.add_assoc (y * a.dimOutX), Nat.add_mul (y * a.dimOutX + share.first)]
  omega

/-- Some lines are done. -/
structure LinesDone (a : ConvArgs) (share : ConvShare) (base y r : Nat) (p : ByteProgram) : Prop where
  within : ∀ s ∈ p, Within (a.ownedLines share base y r)
    (a.ownedLines share base y r ∪ a.readCells) s
  value : ∀ m, ∀ v, y ≤ v → v < y + r → ∀ i < a.count share, ∀ o < a.chOut,
    run p m (a.pixelOut v (share.first + i) + o) = a.result m v (share.first + i) o

variable (h : a.Proper numCores)
include h

/-- After a line the core is at the same column of the next one. -/
theorem ConvArgs.Proper.line_done (hclear : a.ClearLines share base) (hy : y < a.dimOutY) :
    Done a base (a.pixelOut y share.first) y share.first (a.count share)
      ((a.line share base ⟨base, a.pixelOut y share.first, none⟩ y).1,
        (a.pixels base y ⟨base, a.pixelOut y share.first, none⟩ (a.columns share)).2) ∧
    (a.line share base ⟨base, a.pixelOut y share.first, none⟩ y).2 =
      ⟨base, a.pixelOut (y + 1) share.first, none⟩ := by
  have hdone := h.pixels_done (y := y) (a.count share) share.first _ (hclear.line hy)
  rw [← columns_eq] at hdone
  refine ⟨hdone, ?_⟩
  have hwidth := congrArg (· * a.chOut) hclear.fair.width.2
  unfold line
  dsimp only
  rw [hdone.pOutBuffer, hdone.bias]
  congr 1
  unfold pixelOut
  simp only [Nat.add_mul, Nat.one_mul, Nat.mul_assoc] at *
  omega

/-- **The lines of a core**, one after the other. -/
theorem ConvArgs.Proper.lines_done (hclear : a.ClearLines share base) (r : Nat) :
    ∀ y, y + r ≤ a.dimOutY → LinesDone a share base y r
      (steps (a.line share base) ⟨base, a.pixelOut y share.first, none⟩ (List.range' y r)).1 := by
  induction r with
  | zero =>
    intro y _
    exact ⟨fun s hs => absurd hs List.not_mem_nil, fun m v hv hv' => by omega⟩
  | succ r ih =>
    intro y hend
    obtain ⟨hline, hstate⟩ := h.line_done (y := y) hclear (by omega)
    have hrest := ih (y + 1) (by omega)
    have hsub := @owned_subset a share base y r
    have hsub' := @ownedLines_subset a share base y r
    rw [List.range'_succ, steps, hstate]
    constructor
    · intro s hs
      rcases List.mem_append.mp hs with hs | hs
      · exact (hline.within s hs).mono hsub (Set.union_subset_union_left _ hsub)
      · exact (hrest.within s hs).mono hsub' (Set.union_subset_union_left _ hsub')
    · intro m v hv hv' i hi o ho
      have hwidth := hclear.fair.width.1
      rw [run_append]
      rcases Nat.eq_or_lt_of_le hv with rfl | hlt
      · -- the lines that follow leave this one alone
        have hmem := @output_mem a (a.pixelOut y share.first) (a.count share) i o hi ho
        rw [run_of_notMem hrest.within, pixelOut_add, hline.value m i hi o ho]
        rintro (hbase | ⟨u, hu, hu', hout⟩)
        · rw [pixelOut_add] at hbase
          exact Set.disjoint_left.mp (hclear.line (by omega)).out_base hmem hbase
        · obtain ⟨j, hj, o', ho', heq⟩ := exists_pixel hout
          exact pixelOut_ne (a := a) (v := y) (y := u) (by omega) (by omega) ho' ho
            (Or.inl (by omega)) heq
      · rw [hrest.value _ v hlt (by omega) i hi o ho]
        exact result_congr (hline.frame (hclear.line (by omega)) m) ho

end

/-! ## All cores -/

section
variable {a : ConvArgs} {k c d : Nat}

def ConvArgs.base (a : ConvArgs) (c : Nat) : Nat := a.pIm2ColBuffer + 2 * c * a.numCol

/-- The first line of a core and how many lines it has. -/
def ConvArgs.startPixel (a : ConvArgs) (k c : Nat) : Nat :=
  min ((a.share (2 ^ k) c).chunk * (a.share (2 ^ k) c).coreIdR) a.dimOutY

def ConvArgs.lineCount (a : ConvArgs) (k c : Nat) : Nat :=
  min (a.startPixel k c + (a.share (2 ^ k) c).chunk) a.dimOutY - a.startPixel k c

/-- All that a core writes to. -/
def ConvArgs.own (a : ConvArgs) (k c : Nat) : Set Nat :=
  a.ownedLines (a.share (2 ^ k) c) (a.base c) (a.startPixel k c) (a.lineCount k c)

theorem lines_core (a : ConvArgs) (k c : Nat) :
    lines (a.share (2 ^ k) c).chunk a.dimOutY (a.share (2 ^ k) c).coreIdR =
      List.range' (a.startPixel k c) (a.lineCount k c) := rfl

theorem lineCount_le (a : ConvArgs) (k c : Nat) :
    a.startPixel k c + a.lineCount k c ≤ a.dimOutY := by
  have hle : a.startPixel k c ≤ a.dimOutY := Nat.min_le_right _ _
  unfold ConvArgs.lineCount
  omega

theorem base_workCells (hc : c < 2 ^ k) :
    cells (a.base c) (2 * a.numCol) ⊆ a.workCells (2 ^ k) := by
  have hend : 2 * (c + 1) * a.numCol ≤ 2 * 2 ^ k * a.numCol :=
    Nat.mul_le_mul_right _ (Nat.mul_le_mul_left 2 hc)
  intro z hz
  rw [mem_cells, ConvArgs.base] at hz
  rw [ConvArgs.workCells, mem_cells]
  simp only [Nat.mul_add, Nat.add_mul, Nat.mul_one] at *
  omega

theorem base_disjoint (hcd : c ≠ d) :
    Disjoint (cells (a.base c) (2 * a.numCol)) (cells (a.base d) (2 * a.numCol)) := by
  have h := cells_disjoint (p := a.pIm2ColBuffer) (w := 2 * a.numCol) hcd
  have hbase : ∀ c, a.base c = a.pIm2ColBuffer + c * (2 * a.numCol) := by
    intro c
    unfold ConvArgs.base
    ring
  rwa [hbase, hbase]

theorem own_subset (hc : c < 2 ^ k) : a.own k c ⊆ a.workCells (2 ^ k) ∪ a.outputCells := by
  rintro z (hz | ⟨v, hv, hv', hz⟩)
  · exact Or.inl (base_workCells hc hz)
  · have := lineCount_le a k c
    exact Or.inr (line_outputCells (share_fair a _ _) (by omega) hz)

variable (h : a.Proper (2 ^ k))
include h

theorem ConvArgs.Proper.clearLines (hc : c < 2 ^ k) :
    a.ClearLines (a.share (2 ^ k) c) (a.base c) where
  base_read := Set.disjoint_of_subset_left (base_workCells hc) h.work_read
  out_read := h.output_read
  out_base := Set.disjoint_of_subset_right (base_workCells hc) h.output_work
  fair := share_fair a _ c

theorem ConvArgs.Proper.core_done (hc : c < 2 ^ k) : LinesDone a (a.share (2 ^ k) c) (a.base c)
    (a.startPixel k c) (a.lineCount k c) (a.core (2 ^ k) c) := by
  have hdone := h.lines_done (h.clearLines hc) _ _ (lineCount_le a k c)
  have hfirst : a.pOut + a.startPixel k c * a.chOut * a.dimOutX +
      (a.share (2 ^ k) c).sectionR * a.chOut * (a.share (2 ^ k) c).dimOutXR =
        a.pixelOut (a.startPixel k c) (a.share (2 ^ k) c).first := by
    unfold pixelOut ConvShare.first
    ring
  rw [← hfirst, ← h.bias] at hdone
  exact hdone

/-- **No core writes to what another one looks at.** -/
theorem ConvArgs.Proper.apart : Apart (fun c : Fin (2 ^ k) => a.own k c)
    (fun c => a.own k c ∪ a.readCells) fun c => a.core (2 ^ k) c := by
  refine ⟨fun c => (h.core_done c.isLt).within, fun c d hcd => ?_⟩
  have hread : Disjoint (a.own k c) a.readCells :=
    Set.disjoint_of_subset_left (own_subset c.isLt)
      (Set.disjoint_union_left.mpr ⟨h.work_read, h.output_read⟩)
  refine Set.disjoint_union_right.mpr ⟨Set.disjoint_left.mpr ?_, hread⟩
  have hend := lineCount_le a k
  rintro z (hz | ⟨v, hv, hv', hz⟩) (hz' | ⟨u, hu, hu', hz'⟩)
  · exact Set.disjoint_left.mp (base_disjoint fun heq => hcd (Fin.ext heq)) hz hz'
  · exact Set.disjoint_left.mp h.output_work
      (line_outputCells (share_fair a _ _) (by have := hend d; omega) hz') (base_workCells c.isLt hz)
  · exact Set.disjoint_left.mp h.output_work
      (line_outputCells (share_fair a _ _) (by have := hend c; omega) hz) (base_workCells d.isLt hz')
  · -- a pixel of both cores
    obtain ⟨i, hi, o, ho, rfl⟩ := exists_pixel hz
    obtain ⟨j, hj, o', ho', heq⟩ := exists_pixel hz'
    have hwidth := (share_fair a (2 ^ k) c).width.1
    have hwidth' := (share_fair a (2 ^ k) d).width.1
    have hsame : u = v ∧ (a.share (2 ^ k) d).first + j = (a.share (2 ^ k) c).first + i := by
      by_contra hne
      exact pixelOut_ne (a := a) (v := u) (y := v) (by omega) (by omega) ho ho' (by omega) heq.symm
    obtain ⟨rfl, hcolumn⟩ := hsame
    refine hcd (Fin.ext ((share_unique a k (y := u) (x := (a.share (2 ^ k) c).first + i)
      (by have := hend c; omega) (by omega)).2 c c.isLt d d.isLt ?_ ?_ ?_ ?_))
    · exact lines_core a k c ▸ List.mem_range'_1.mpr ⟨hv, hv'⟩
    · exact columns_eq a _ ▸ List.mem_range'_1.mpr ⟨by omega, by omega⟩
    · exact lines_core a k d ▸ List.mem_range'_1.mpr ⟨hu, hu'⟩
    · exact columns_eq a _ ▸ List.mem_range'_1.mpr ⟨by omega, by omega⟩

variable {m n : Memory}

/-- **In every interleaving each pixel of the output gets the result of its window.** -/
theorem pulpNnConvU8U8I8_value (hrun : pulpNnConvU8U8I8 a (2 ^ k) m n) :
    ∀ y < a.dimOutY, ∀ x < a.dimOutX, ∀ o < a.chOut,
      n (a.pixelOut y x + o) = a.result m y x o := by
  intro y hy x hx o ho
  obtain ⟨⟨c, hc, hline, hcolumn⟩, -⟩ := share_unique a k hy hx
  rw [lines_core, List.mem_range'_1] at hline
  rw [columns_eq, List.mem_range'_1] at hcolumn
  obtain ⟨i, rfl⟩ := Nat.exists_eq_add_of_le hcolumn.1
  have hi : i < a.count (a.share (2 ^ k) c) := by omega
  have hcell : a.pixelOut y ((a.share (2 ^ k) c).first + i) + o ∈ a.own k c := by
    refine Or.inr ⟨y, hline.1, hline.2, ?_⟩
    rw [pixelOut_add]
    exact output_mem hi ho
  have heq := Phase.eqOn hrun h.apart ⟨c, hc⟩ (Or.inl hcell)
  rw [heq]
  exact (h.core_done hc).value m y hline.1 hline.2 i hi o ho

theorem pulpNnConvU8U8I8_frame (hrun : pulpNnConvU8U8I8 a (2 ^ k) m n) {z : Nat}
    (hz : z ∉ a.workCells (2 ^ k)) (hz' : z ∉ a.outputCells) : n z = m z :=
  Phase.of_notMem hrun h.apart fun c hmem => (own_subset c.isLt hmem).elim hz hz'

omit h in
theorem exists_pulpNnConvU8U8I8 (a : ConvArgs) (numCores : Nat) (m : Memory) :
    ∃ n, pulpNnConvU8U8I8 a numCores m n := exists_phase _ m

/-- **The kernel is a convolution**: on any power of two cores, however they take turns, it comes
to its end, the output at each pixel and filter is that of the padded window, whose sum does not
overflow, and nothing is written but the output and the windows of the cores. -/
theorem pulpNnConvU8U8I8_spec (m : Memory) :
    (∃ n, pulpNnConvU8U8I8 a (2 ^ k) m n) ∧ ∀ n, pulpNnConvU8U8I8 a (2 ^ k) m n →
      (∀ y < a.dimOutY, ∀ x < a.dimOutX, ∀ o < a.chOut,
        n (a.pixelOut y x + o) = a.result m y x o ∧
          (Int32.ofInt (a.windowSum m y x o)).toInt = a.windowSum m y x o) ∧
      ∀ z, z ∉ a.workCells (2 ^ k) → z ∉ a.outputCells → n z = m z :=
  ⟨exists_pulpNnConvU8U8I8 a _ m, fun _ hrun =>
    ⟨fun y hy x hx o ho => ⟨pulpNnConvU8U8I8_value h hrun y hy x hx o ho, h.windowSum_toInt m y x o⟩,
      fun _ hz hz' => pulpNnConvU8U8I8_frame h hrun hz hz'⟩⟩

end

/-- Three filters on a padded image of three lines of three pixels with two channels. -/
def threeFilters : ConvArgs where
  pBias := none
  pWeight := 100
  pKappa := 200
  pLambda := 300
  outMult := 1
  outShift := 1
  chOut := 3
  flagRelu := 1
  flagBatchNorm := 0
  pIn := 0
  pIm2ColBuffer := 400
  pOut := 50
  dimInX := 3
  dimInY := 3
  chIn := 2
  dimOutX := 3
  dimOutY := 3
  dimKernelX := 3
  dimKernelY := 3
  paddingYTop := 1
  paddingYBottom := 1
  paddingXLeft := 1
  paddingXRight := 1
  strideX := 1
  strideY := 1

theorem threeFilters_proper : threeFilters.Proper (2 ^ 1) where
  bias := rfl
  numCol_pos := by decide
  numCol_lt := by decide
  rows y hy hy' i hi := by
    simp only [threeFilters, ConvArgs.windowY] at *
    omega
  columns x hx hx' j hj := by
    simp only [threeFilters, ConvArgs.windowX] at *
    omega
  output_read := by
    refine Set.disjoint_union_right.mpr ⟨cells_apart (by decide), ?_⟩
    exact Set.disjoint_union_right.mpr ⟨cells_apart (by decide),
      Set.disjoint_union_right.mpr ⟨cells_apart (by decide), cells_apart (by decide)⟩⟩
  work_read := by
    refine Set.disjoint_union_right.mpr ⟨cells_apart (by decide), ?_⟩
    exact Set.disjoint_union_right.mpr ⟨cells_apart (by decide),
      Set.disjoint_union_right.mpr ⟨cells_apart (by decide), cells_apart (by decide)⟩⟩
  output_work := cells_apart (by decide)

/-- With ones everywhere the filters add up the eighteen bytes of a window in the middle and the
eight of one in a corner, of which the output is the half. -/
theorem pulpNnConvU8U8I8_spec_ones : ∃ n, pulpNnConvU8U8I8 threeFilters (2 ^ 1) (fun _ => 1) n ∧
    n (threeFilters.pixelOut 1 1) = 9 ∧ n (threeFilters.pixelOut 0 2) = 4 := by
  obtain ⟨⟨n, hrun⟩, hall⟩ := pulpNnConvU8U8I8_spec threeFilters_proper fun _ => 1
  have hmiddle := ((hall n hrun).1 1 (by decide) 1 (by decide) 0 (by decide)).1
  have hcorner := ((hall n hrun).1 0 (by decide) 2 (by decide) 0 (by decide)).1
  exact ⟨n, hrun, hmiddle.trans (by decide), hcorner.trans (by decide)⟩

end AiDeck.Network
