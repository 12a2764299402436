import Mathlib
import AiDeck.Lib.Cores
import AiDeck.Lib.Summed
import AiDeck.Faces.Integral

/-! # The kernels compute the integral images

One loop is followed over the memory it leaves, then the three phases of a call in
any interleaving of the cores, then the calls for all stripes of an image. -/
namespace AiDeck.Faces

open AiDeck.Lib.Cores AiDeck.Lib.Summed
open AiDeck.Images (upto mem_upto)

/-! ## One loop -/

section
variable (value : Summand) (inImg : Nat → UInt8) (w : Nat)

/-- The summands of a stripe by line and column. -/
def summands (i j : Nat) : UInt32 := value (inImg (i * w + j))

/-- `sumColumn`, over `rounds` lines after the first. -/
def columnSums (col rounds : Nat) : Program :=
  ⟨.integralImage col, fun m => value (inImg col) + m (.kerBuffer col)⟩ ::
  (List.range rounds).map fun line =>
    ⟨.integralImage ((line + 1) * w + col), fun m =>
      m (.integralImage (line * w + col)) + value (inImg ((line + 1) * w + col))⟩

/-- `sumLine`, over `rounds` columns after the first. -/
def lineSums (line rounds : Nat) : Program :=
  (List.range rounds).map fun col =>
    ⟨.integralImage (line * w + (col + 1)), fun m =>
      m (.integralImage (line * w + col)) + m (.integralImage (line * w + (col + 1)))⟩

variable {w}

theorem index_inj {i j col : Nat} (hcol : col < w) :
    i * w + col = j * w + col ↔ i = j := by
  rw [Nat.add_right_cancel_iff, Nat.mul_left_inj (by omega)]

theorem run_columnSums {col rounds r : Nat} (hcol : col < w) (hr : r ≤ rounds) (m : Memory) :
    run (columnSums value inImg w col rounds) m (.integralImage (r * w + col)) =
      m (.kerBuffer col) + column (summands value inImg w) (r + 1) col := by
  induction rounds generalizing r with
  | zero =>
    obtain rfl := Nat.le_zero.mp hr
    rw [columnSums, List.range_zero, List.map_nil, run_cons, run_nil, column_succ, column_zero,
      zero_add, summands, Nat.zero_mul, Nat.zero_add, add_comm]
    exact Function.update_self _ _ _
  | succ rounds ih =>
    have hprogram : columnSums value inImg w col (rounds + 1) =
        columnSums value inImg w col rounds ++ [⟨.integralImage ((rounds + 1) * w + col), fun m =>
          m (.integralImage (rounds * w + col)) + value (inImg ((rounds + 1) * w + col))⟩] := by
      rw [columnSums, List.range_succ, List.map_append, List.map_singleton]
      rfl
    rw [hprogram, run_concat]
    rcases Nat.lt_or_ge r (rounds + 1) with hlt | hge
    · have hne : r * w + col ≠ (rounds + 1) * w + col := fun he =>
        hlt.ne ((index_inj hcol).mp he)
      rw [← ih (Nat.le_of_lt_succ hlt)]
      exact Function.update_of_ne (fun he => hne (Cell.integralImage.inj he)) _ _
    · obtain rfl := Nat.le_antisymm hr hge
      rw [column_succ, ← add_assoc, ← ih le_rfl]
      exact Function.update_self _ _ _

theorem run_lineSums {line rounds c : Nat} (hc : c ≤ rounds) (m : Memory) :
    run (lineSums w line rounds) m (.integralImage (line * w + c)) =
      ∑ j ∈ Finset.range (c + 1), m (.integralImage (line * w + j)) := by
  induction rounds generalizing c with
  | zero =>
    obtain rfl := Nat.le_zero.mp hc
    rw [Nat.zero_add, Finset.sum_range_one]
    rfl
  | succ rounds ih =>
    have hprogram : lineSums w line (rounds + 1) =
        lineSums w line rounds ++ [⟨.integralImage (line * w + (rounds + 1)), fun m =>
          m (.integralImage (line * w + rounds)) +
            m (.integralImage (line * w + (rounds + 1)))⟩] := by
      rw [lineSums, List.range_succ, List.map_append, List.map_singleton]
      rfl
    rw [hprogram, run_concat]
    rcases Nat.lt_or_ge c (rounds + 1) with hlt | hge
    · rw [← ih (Nat.le_of_lt_succ hlt)]
      refine Function.update_of_ne (fun he => ?_) _ _
      have := Cell.integralImage.inj he
      omega
    · obtain rfl := Nat.le_antisymm hc hge
      -- the last column is still as it was
      have hlast : run (lineSums w line rounds) m (.integralImage (line * w + (rounds + 1))) =
          m (.integralImage (line * w + (rounds + 1))) := by
        refine run_unwritten (fun s hs => ?_) m
        obtain ⟨col, hcol, rfl⟩ := List.mem_map.mp hs
        have hcol := List.mem_range.mp hcol
        intro he
        have := Cell.integralImage.inj he
        omega
      rw [Finset.sum_range_succ, ← ih le_rfl, ← hlast]
      exact Function.update_self _ _ _

end

/-! ## The loops of the kernels -/

section
variable {value : Summand} {a : KerProcessImageArg}
  (hw : 0 < a.w.toNat) (hh : 0 < a.h.toNat) (hfit : 4 * (a.w.toNat * a.h.toNat) < 2 ^ 32)

theorem pred_toNat {u : UInt32} (hu : 0 < u.toNat) : (u - 1).toNat = u.toNat - 1 :=
  UInt32.toNat_sub_of_le _ _ (UInt32.le_iff_toNat_le.mpr hu)

theorem succ_toNat {u i : UInt32} (hu : 0 < u.toNat) (hi : i ∈ upto 0 (u - 1)) :
    i.toNat + 1 < u.toNat ∧ (i + 1).toNat = i.toNat + 1 := by
  have hlt := (mem_upto.mp hi).2
  rw [pred_toNat hu] at hlt
  have hmax := u.toNat_lt
  refine ⟨by omega, ?_⟩
  rw [UInt32.toNat_add, UInt32.toNat_one, Nat.mod_eq_of_lt (by omega)]

include hh hfit

theorem sumColumn_eq {col : UInt32} (hcol : col.toNat < a.w.toNat) :
    sumColumn value a col = columnSums value a.inImg a.w.toNat col.toNat (a.h.toNat - 1) := by
  rw [sumColumn, columnSums]
  congr 1
  rw [← upto_map hh]
  refine List.map_congr_left fun line hline => ?_
  obtain ⟨hlt, hsucc⟩ := succ_toNat hh hline
  rw [index_toNat hfit hcol (by omega), index_toNat hfit hcol (by omega), hsucc]

theorem saveColumn_eq {col : UInt32} (hcol : col.toNat < a.w.toNat) :
    saveColumn a col = [⟨.kerBuffer col.toNat, fun m =>
      m (.integralImage ((a.h.toNat - 1) * a.w.toNat + col.toNat))⟩] := by
  have hlast : (a.h - 1).toNat < a.h.toNat := by
    rw [pred_toNat hh]
    omega
  rw [saveColumn, index_toNat hfit hcol hlast, pred_toNat hh]

omit hh in
include hw in
theorem sumLine_eq {line : UInt32} (hline : line.toNat < a.h.toNat) :
    sumLine a line = lineSums a.w.toNat line.toNat (a.w.toNat - 1) := by
  rw [sumLine, lineSums, ← upto_map hw]
  refine List.map_congr_left fun col hcol => ?_
  obtain ⟨hlt, hsucc⟩ := succ_toNat hw hcol
  rw [index_toNat hfit (by omega) hline, index_toNat hfit (by omega) hline, hsucc]

end

/-! ## The phases -/

/-- A loop spread over the cores, round by round. -/
theorem units_of_spread {nCore x : UInt32} {k : Nat} (hcore : nCore.toNat = 2 ^ k)
    (hx : x.toNat < 2 ^ 30) {body : UInt32 → Program} {q : Nat → Program} {m n : Memory}
    (hq : ∀ u : UInt32, u.toNat < x.toNat → body u = q u.toNat)
    (h : Phase (spread nCore x body) m n) :
    Phase (fun u => if u < x.toNat then q u else []) m n := by
  have hle := nCore_le hcore
  have hshares := chunk_shares hcore (x := x) (by omega)
  have hspread : spread nCore x body = fun c : Fin nCore.toNat =>
      ((chunk nCore x (.ofNat c)).map UInt32.toNat).flatMap q := by
    funext c
    rw [spread, List.flatMap_map]
    refine List.flatMap_congr fun u hu => hq u ?_
    exact (hshares.mem u.toNat).mp ⟨c, List.mem_map_of_mem hu⟩
  rw [hspread] at h
  exact h.units hshares

section
variable {nCore : UInt32} {k : Nat} (hcore : nCore.toNat = 2 ^ k) {m n : Memory}
include hcore

theorem prime_spec {w : UInt32} (hw : w.toNat < 2 ^ 30) (h : KerIntegralImagePrime nCore w m n) :
    ∀ col < w.toNat, n (.kerBuffer col) = 0 := by
  have hunits := units_of_spread hcore hw
    (q := fun col => [⟨.kerBuffer col, fun _ => 0⟩]) (fun _ _ => rfl) h
  obtain ⟨hsees, -⟩ := hunits.unit (fun col => {.kerBuffer col})
    (fun col => {.kerBuffer col}) (by
      intro col _ s hs
      obtain rfl := List.mem_singleton.mp hs
      exact ⟨rfl, fun _ _ _ => rfl⟩) (by
      intro u _ v _ huv
      exact Set.disjoint_singleton.mpr fun he => huv (Cell.kerBuffer.inj he))
  intro col hcol
  rw [hsees col hcol rfl]
  exact Function.update_self _ _ _

variable {value : Summand} {a : KerProcessImageArg} (hw : 0 < a.w.toNat) (hh : 0 < a.h.toNat)
  (hfit : 4 * (a.w.toNat * a.h.toNat) < 2 ^ 32)
include hh hfit

omit hcore in
theorem width_lt : a.w.toNat < 2 ^ 30 := by
  have := Nat.le_mul_of_pos_right a.w.toNat hh
  omega

/-- The cells of a column of the stripe. -/
def columnCells (w col : Nat) : Set Cell := {x | ∃ i, x = .integralImage (i * w + col)}

theorem columns_spec (h : Phase (spread nCore a.w (sumColumn value a)) m n) :
    (∀ r < a.h.toNat, ∀ col < a.w.toNat, n (.integralImage (r * a.w.toNat + col)) =
      m (.kerBuffer col) + column (summands value a.inImg a.w.toNat) (r + 1) col) ∧
    ∀ col, n (.kerBuffer col) = m (.kerBuffer col) := by
  have hunits := units_of_spread hcore (width_lt hh hfit)
    (q := fun col => columnSums value a.inImg a.w.toNat col (a.h.toNat - 1))
    (fun _ hcol => sumColumn_eq hh hfit hcol) h
  obtain ⟨hsees, hrest⟩ := hunits.unit (columnCells a.w.toNat)
    (fun col => columnCells a.w.toNat col ∪ {.kerBuffer col}) (by
      intro col hcol s hs
      rcases List.mem_cons.mp hs with rfl | hs
      · refine ⟨⟨0, by rw [Nat.zero_mul, Nat.zero_add]⟩, fun m m' heq => ?_⟩
        exact congrArg (value (a.inImg col) + ·) (heq (Or.inr rfl))
      · obtain ⟨line, -, rfl⟩ := List.mem_map.mp hs
        refine ⟨⟨line + 1, rfl⟩, fun m m' heq => ?_⟩
        exact congrArg (· + _) (heq (Or.inl ⟨line, rfl⟩))) (by
      intro u hu v hv huv
      refine Set.disjoint_left.mpr ?_
      rintro x ⟨i, rfl⟩ (⟨j, hj⟩ | hbuffer)
      · have heq := congrArg (· % a.w.toNat) (Cell.integralImage.inj hj)
        simp only [Nat.mul_comm _ a.w.toNat, Nat.mul_add_mod, Nat.mod_eq_of_lt hu,
          Nat.mod_eq_of_lt hv] at heq
        exact huv heq
      · cases hbuffer)
  constructor
  · intro r hr col hcol
    rw [hsees col hcol (Or.inl ⟨r, rfl⟩)]
    exact run_columnSums value a.inImg hcol (by omega) m
  · intro col
    refine hrest _ fun u _ => ?_
    rintro ⟨i, hi⟩
    cases hi

theorem save_spec (h : Phase (spread nCore a.w (saveColumn a)) m n) :
    (∀ col < a.w.toNat, n (.kerBuffer col) =
      m (.integralImage ((a.h.toNat - 1) * a.w.toNat + col))) ∧
    ∀ i, n (.integralImage i) = m (.integralImage i) := by
  have hunits := units_of_spread hcore (width_lt hh hfit)
    (q := fun col => [⟨.kerBuffer col, fun m =>
      m (.integralImage ((a.h.toNat - 1) * a.w.toNat + col))⟩])
    (fun col hcol => saveColumn_eq hh hfit hcol) h
  obtain ⟨hsees, hrest⟩ := hunits.unit (fun col => {.kerBuffer col})
    (fun col => {x | x = .kerBuffer col ∨ ∃ i, x = .integralImage i}) (by
      intro col _ s hs
      obtain rfl := List.mem_singleton.mp hs
      exact ⟨rfl, fun _ _ heq => heq (Or.inr ⟨_, rfl⟩)⟩) (by
      intro u _ v _ huv
      refine Set.disjoint_singleton_left.mpr ?_
      rintro (he | ⟨i, he⟩)
      · exact huv (Cell.kerBuffer.inj he)
      · cases he)
  constructor
  · intro col hcol
    rw [hsees col hcol (Or.inl rfl)]
    exact Function.update_self _ _ _
  · intro i
    refine hrest _ fun u _ he => ?_
    cases he

omit hh in
include hw in
theorem lines_spec (h : Phase (spread nCore a.h (sumLine a)) m n) :
    (∀ r < a.h.toNat, ∀ c < a.w.toNat, n (.integralImage (r * a.w.toNat + c)) =
      ∑ j ∈ Finset.range (c + 1), m (.integralImage (r * a.w.toNat + j))) ∧
    ∀ col, n (.kerBuffer col) = m (.kerBuffer col) := by
  have hh' : a.h.toNat < 2 ^ 30 := by
    have := Nat.le_mul_of_pos_left a.h.toNat hw
    omega
  have hunits := units_of_spread hcore hh'
    (q := fun line => lineSums a.w.toNat line (a.w.toNat - 1)) (fun line hline => sumLine_eq hw hfit hline) h
  obtain ⟨hsees, hrest⟩ := hunits.unit
    (fun r => {x | ∃ c < a.w.toNat, x = .integralImage (r * a.w.toNat + c)})
    (fun r => {x | ∃ c < a.w.toNat, x = .integralImage (r * a.w.toNat + c)}) (by
      intro r _ s hs
      obtain ⟨col, hcol, rfl⟩ := List.mem_map.mp hs
      have hcol := List.mem_range.mp hcol
      refine ⟨⟨col + 1, by omega, rfl⟩, fun m m' heq => ?_⟩
      exact congrArg₂ (· + ·) (heq ⟨col, by omega, rfl⟩) (heq ⟨col + 1, by omega, rfl⟩)) (by
      intro u _ v _ huv
      refine Set.disjoint_left.mpr ?_
      rintro x ⟨c, hc, rfl⟩ ⟨c', hc', he⟩
      have heq := congrArg (· / a.w.toNat) (Cell.integralImage.inj he)
      simp only [Nat.mul_comm _ a.w.toNat, Nat.mul_add_div hw, Nat.div_eq_of_lt hc,
        Nat.div_eq_of_lt hc', Nat.add_zero] at heq
      exact huv heq)
  constructor
  · intro r hr c hc
    rw [hsees r hr ⟨c, hc, rfl⟩]
    exact run_lineSums (by omega) m
  · intro col
    refine hrest _ fun u _ => ?_
    rintro ⟨c, -, he⟩
    cases he

/-! ## The calls -/

include hw in
/-- What one call leaves: the stripe with what the line before it held, and its last line. -/
theorem process_spec (h : Process value a nCore m n) :
    (∀ r < a.h.toNat, ∀ c < a.w.toNat, n (.integralImage (r * a.w.toNat + c)) =
      ∑ j ∈ Finset.range (c + 1),
        (m (.kerBuffer j) + column (summands value a.inImg a.w.toNat) (r + 1) j)) ∧
    ∀ col < a.w.toNat, n (.kerBuffer col) =
      m (.kerBuffer col) + column (summands value a.inImg a.w.toNat) a.h.toNat col := by
  obtain ⟨m', m'', hcolumns, hsave, hlines⟩ := h
  obtain ⟨hsums, -⟩ := columns_spec hcore hh hfit hcolumns
  obtain ⟨hkept, hsame⟩ := save_spec hcore hh hfit hsave
  obtain ⟨htotals, hbuffer⟩ := lines_spec hcore hw hfit hlines
  constructor
  · intro r hr c hc
    rw [htotals r hr c hc]
    refine Finset.sum_congr rfl fun j hj => ?_
    have hj := Finset.mem_range.mp hj
    rw [hsame, hsums r hr j (by omega)]
  · intro col hcol
    rw [hbuffer, hkept col hcol, hsums _ (by omega) col hcol, Nat.sub_add_cancel hh]

end

section
variable {value : Summand} {nCore w : UInt32} {k : Nat} {image : Nat → UInt8} {hs : List UInt32}
  {first : Nat} {m : Memory} {lines : List (Nat → UInt32)}

/-- The calls for the stripes always come to their ends. -/
theorem exists_stripes (value : Summand) (nCore w : UInt32) (image : Nat → UInt8)
    (hs : List UInt32) (first : Nat) (m : Memory) :
    ∃ lines, Stripes value nCore w image hs first m lines := by
  induction hs generalizing first m with
  | nil => exact ⟨[], .nil⟩
  | cons h hs ih =>
    obtain ⟨m', h'⟩ := exists_phase
      (spread nCore w (sumColumn value ⟨fun i => image (first * w.toNat + i), w, h⟩)) m
    obtain ⟨m'', h''⟩ := exists_phase
      (spread nCore w (saveColumn ⟨fun i => image (first * w.toNat + i), w, h⟩)) m'
    obtain ⟨n, hn⟩ := exists_phase
      (spread nCore h (sumLine ⟨fun i => image (first * w.toNat + i), w, h⟩)) m''
    obtain ⟨lines, hlines⟩ := ih (first + h.toNat) n
    exact ⟨_, .cons (fun _ => rfl) ⟨m', m'', h', h'', hn⟩ hlines⟩

variable (hcore : nCore.toNat = 2 ^ k) (hw : 0 < w.toNat)
  (hhs : ∀ h ∈ hs, 0 < h.toNat ∧ 4 * (w.toNat * h.toNat) < 2 ^ 32)
include hcore hw hhs

theorem stripes_spec (h : Stripes value nCore w image hs first m lines)
    (hm : ∀ j < w.toNat, m (.kerBuffer j) = column (summands value image w.toNat) first j) :
    lines.length = (hs.map UInt32.toNat).sum ∧ ∀ i (hi : i < lines.length), ∀ c < w.toNat,
      lines[i] c = corner (summands value image w.toNat) (first + i + 1) (c + 1) := by
  induction h with
  | nil => exact ⟨rfl, fun i hi => absurd hi (Nat.not_lt_zero i)⟩
  | @cons h hs first m m' n lines htile hprocess _ ih =>
    have ⟨⟨hh, hfit⟩, hrest⟩ := List.forall_mem_cons.mp hhs
    obtain ⟨hout, hbuffer⟩ := process_spec hcore hw hh hfit hprocess
    have hsum (r j : Nat) (hj : j < w.toNat) : m' (.kerBuffer j) +
        column (summands value (fun i => image (first * w.toNat + i)) w.toNat) r j =
          column (summands value image w.toNat) (first + r) j := by
      have hshift : summands value (fun i => image (first * w.toNat + i)) w.toNat =
          fun i => summands value image w.toNat (first + i) := by
        funext i j
        rw [summands, summands, Nat.add_mul, Nat.add_assoc]
      rw [htile, hm j hj, column_add, hshift]
    obtain ⟨hlength, hlines⟩ := ih hrest fun j hj => by rw [hbuffer j hj, hsum _ j hj]
    constructor
    · rw [List.length_append, List.length_map, List.length_range, hlength, List.map_cons,
        List.sum_cons]
    · intro i hi c hc
      rcases Nat.lt_or_ge i h.toNat with hlt | hge
      · rw [List.getElem_append_left (by rwa [List.length_map, List.length_range]),
          List.getElem_map, List.getElem_range, hout i hlt c hc, corner_eq_columns, Nat.add_assoc]
        refine Finset.sum_congr rfl fun j hj => ?_
        have hj := Finset.mem_range.mp hj
        exact hsum _ j (by omega)
      · have hlen : ((List.range h.toNat).map
            fun line col => n (.integralImage (line * w.toNat + col))).length = h.toNat := by
          rw [List.length_map, List.length_range]
        rw [List.getElem_append_right (by rwa [hlen]), hlines _ _ c hc]
        congr 1
        omega

/-- **The integral image, stripe by stripe and core by core, is the summed-area table of
the whole image**, in any interleaving of the cores and for any cut into stripes. -/
theorem integralImage_of_stripes {m₀ : Memory} (hprime : KerIntegralImagePrime nCore w m₀ m)
    (hw' : w.toNat < 2 ^ 30) (h : Stripes value nCore w image hs 0 m lines) :
    lines.length = (hs.map UInt32.toNat).sum ∧ ∀ i (hi : i < lines.length), ∀ c < w.toNat,
      lines[i] c = ∑ i' ∈ Finset.range (i + 1), ∑ j ∈ Finset.range (c + 1),
        value (image (i' * w.toNat + j)) := by
  have hzero := prime_spec hcore hw' hprime
  obtain ⟨hlength, hlines⟩ := stripes_spec hcore hw hhs h fun j hj => by
    rw [hzero j hj, column_zero]
  refine ⟨hlength, fun i hi c hc => ?_⟩
  rw [hlines i hi c hc, Nat.zero_add]
  rfl

end

/-- Eight cores, an image of three columns in stripes of two lines and of one. -/
theorem integralImage_of_two_stripes :
    ∃ m lines, KerIntegralImagePrime 8 3 (fun _ => 7) m ∧
      Stripes squaredPixel 8 3 UInt8.ofNat [2, 1] 0 m lines ∧ lines.length = 3 := by
  obtain ⟨m, hm⟩ := exists_phase (spread 8 3 primeColumn) (fun _ => 7)
  obtain ⟨lines, hlines⟩ := exists_stripes squaredPixel 8 3 UInt8.ofNat [2, 1] 0 m
  refine ⟨m, lines, hm, hlines, ?_⟩
  exact (integralImage_of_stripes (k := 3) (by decide) (by decide) (by simp) hm (by decide)
    hlines).1

end AiDeck.Faces
