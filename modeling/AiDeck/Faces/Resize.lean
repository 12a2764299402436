import Mathlib
import AiDeck.Lib.Cores
import AiDeck.Faces.Integral

/-! # The bilinear resize of the face detection

`KerResizeBilinear` computes the lines of one tile of the output. The cores share out the
columns; the places in the input are fixed-point numbers with 16 bits after the point,
of which 7 weigh the four pixels around. -/
namespace AiDeck.Faces

open AiDeck.Lib.Cores
open AiDeck.Images (upto mem_upto)

/-- `KerResizeBilinear_ArgT`, less the output buffer, which is the memory. -/
structure KerResizeBilinearArg where
  inImg : Nat → UInt8
  win : UInt32
  hin : UInt32
  wout : UInt32
  hout : UInt32
  hTileOut : UInt32
  firstLineIndex : UInt32

abbrev PixelProgram := List (Assign Nat UInt8)

section
variable (a : KerResizeBilinearArg)

def KerResizeBilinearArg.wStep : UInt32 := ((a.win - 1) <<< 16) / a.wout

def KerResizeBilinearArg.hStep : UInt32 := ((a.hin - 1) <<< 16) / a.hout

def KerResizeBilinearArg.baseY : UInt32 := (a.hStep * a.firstLineIndex) >>> 16

/-- The pixel of the output for a place in the input. -/
def bilinear (hCoeff wCoeff : UInt32) : UInt32 :=
  let offsetY := (hCoeff >>> 16) - a.baseY
  let hc2 := (hCoeff >>> 9) &&& 127
  let hc1 := 128 - hc2
  let offsetX := wCoeff >>> 16
  let wc2 := (wCoeff >>> 9) &&& 127
  let wc1 := 128 - wc2
  let p1 := (a.inImg (offsetY * a.win + offsetX).toNat).toUInt32
  let p2 := (a.inImg ((offsetY + 1) * a.win + offsetX).toNat).toUInt32
  let p3 := (a.inImg (offsetY * a.win + offsetX + 1).toNat).toUInt32
  let p4 := (a.inImg ((offsetY + 1) * a.win + offsetX + 1).toNat).toUInt32
  ((p1 * hc1 + p2 * hc2) * wc1 + (p3 * hc1 + p4 * hc2) * wc2) >>> 14

/-- The loop over `x`; `wCoeff` goes on with it. -/
def resizeColumns (hCoeff y : UInt32) : List UInt32 → UInt32 → PixelProgram
  | [], _ => []
  | x :: xs, wCoeff =>
    ⟨(y * a.wout + x).toNat, fun _ => (bilinear a hCoeff wCoeff).toUInt8⟩ ::
      resizeColumns hCoeff y xs (wCoeff + a.wStep)

/-- The loop over `y`; `hCoeff` goes on with it. -/
def resizeLines (first : UInt32) (xs : List UInt32) : List UInt32 → UInt32 → PixelProgram
  | [], _ => []
  | y :: ys, hCoeff =>
    resizeColumns a hCoeff y xs (first * a.wStep) ++
      resizeLines first xs ys (hCoeff + a.hStep)

/-- `KerResizeBilinear` on one core. -/
def KerResizeBilinear (nCore : UInt32) (coreId : Fin nCore.toNat) : PixelProgram :=
  let first := .ofNat coreId * chunkSize nCore a.wout
  resizeLines a first (chunk nCore a.wout (.ofNat coreId)) (upto 0 a.hTileOut)
    (a.hStep * a.firstLineIndex)

end

/-! ## The accumulators -/

/-- Successive counters, as a loop goes through them. -/
def counters (s n : Nat) : List UInt32 := (List.range' s n).map UInt32.ofNat

theorem upto_eq_counters (s u : UInt32) : upto s u = counters s.toNat (u.toNat - s.toNat) := rfl

theorem chunk_eq_counters (nCore x coreId : UInt32) :
    chunk nCore x coreId = counters (coreId * chunkSize nCore x).toNat
      (chunk nCore x coreId).length := by
  rw [chunk, upto_eq_counters, counters, List.length_map, List.length_range']
  rfl

theorem ofNat_succ_mul (s : Nat) (w : UInt32) : .ofNat s * w + w = .ofNat (s + 1) * w := by
  rw [UInt32.ofNat_add, UInt32.add_mul, show UInt32.ofNat 1 = 1 from rfl, UInt32.one_mul]

section
variable (a : KerResizeBilinearArg)

theorem resizeColumns_counters (hCoeff y : UInt32) (s n : Nat) :
    resizeColumns a hCoeff y (counters s n) (.ofNat s * a.wStep) =
      (counters s n).map fun x =>
        ⟨(y * a.wout + x).toNat, fun _ => (bilinear a hCoeff (x * a.wStep)).toUInt8⟩ := by
  induction n generalizing s with
  | zero => rfl
  | succ n ih =>
    rw [counters, List.range'_succ, List.map_cons, resizeColumns, ofNat_succ_mul]
    exact congrArg _ (ih (s + 1))

theorem resizeLines_counters (first : UInt32) (xs : List UInt32) (start : UInt32) (s n : Nat) :
    resizeLines a first xs (counters s n) (start + .ofNat s * a.hStep) =
      (counters s n).flatMap fun y =>
        resizeColumns a (start + y * a.hStep) y xs (first * a.wStep) := by
  induction n generalizing s with
  | zero => rfl
  | succ n ih =>
    rw [counters, List.range'_succ, List.map_cons, resizeLines, UInt32.add_assoc, ofNat_succ_mul]
    exact congrArg _ (ih (s + 1))

/-- What a core assigns: a pixel for each line of the tile and column of its chunk. -/
theorem mem_KerResizeBilinear {nCore : UInt32} {coreId : Fin nCore.toNat}
    {s : Assign Nat UInt8} :
    s ∈ KerResizeBilinear a nCore coreId ↔
      ∃ y ∈ upto 0 a.hTileOut, ∃ x ∈ chunk nCore a.wout (.ofNat coreId),
        s = ⟨(y * a.wout + x).toNat, fun _ =>
          (bilinear a (a.hStep * a.firstLineIndex + y * a.hStep) (x * a.wStep)).toUInt8⟩ := by
  have hlines := resizeLines_counters a (.ofNat coreId * chunkSize nCore a.wout)
    (chunk nCore a.wout (.ofNat coreId)) (a.hStep * a.firstLineIndex) 0 a.hTileOut.toNat
  rw [show UInt32.ofNat 0 = 0 from rfl, UInt32.zero_mul, UInt32.add_zero] at hlines
  rw [KerResizeBilinear, upto_eq_counters, UInt32.toNat_zero, Nat.sub_zero, hlines,
    List.mem_flatMap]
  refine exists_congr fun y => and_congr_right fun _ => ?_
  rw [chunk_eq_counters]
  have hcolumns := resizeColumns_counters a (a.hStep * a.firstLineIndex + y * a.hStep) y
    (.ofNat coreId * chunkSize nCore a.wout).toNat
  rw [UInt32.ofNat_toNat] at hcolumns
  rw [hcolumns, List.mem_map]
  exact exists_congr fun x => and_congr_right fun _ => eq_comm

end

/-! ## Places and weights -/

/-- The place of a line or column of the output, in 65536ths of one of the input. -/
def place (size out i : Nat) : Nat := i * ((size - 1) * 65536 / out)

/-- The weight of the second of two neighbours, in 128ths. -/
def weight (c : Nat) : Nat := c / 512 % 128

def blend (c p q : Nat) : Nat := p * (128 - weight c) + q * weight c

/-- The four pixels around a place of the input, by their weights. -/
def resampled (image : Nat → Nat → UInt8) (cy cx : Nat) : Nat :=
  let p (i j : Nat) : Nat := (image (cy / 65536 + i) (cx / 65536 + j)).toNat
  blend cx (blend cy (p 0 0) (p 1 0)) (blend cy (p 0 1) (p 1 1)) / 16384

/-- A place has a neighbour further on. -/
theorem place_lt {size out i : Nat} (hsize : 2 ≤ size) (hi : i < out) :
    place size out i / 65536 + 1 < size := by
  have hle : out * ((size - 1) * 65536 / out) ≤ (size - 1) * 65536 := Nat.mul_div_le _ _
  have hlt : place size out i < (size - 1) * 65536 := by
    rw [place]
    rcases Nat.eq_zero_or_pos ((size - 1) * 65536 / out) with hzero | hpos
    · rw [hzero, Nat.mul_zero]
      omega
    · exact Nat.lt_of_lt_of_le (Nat.mul_lt_mul_of_pos_right hi hpos) hle
  have hdiv := Nat.div_lt_of_lt_mul (Nat.mul_comm (size - 1) 65536 ▸ hlt)
  omega

theorem blend_between {lo hi p q : Nat} (c : Nat) (hp : lo ≤ p ∧ p ≤ hi) (hq : lo ≤ q ∧ q ≤ hi) :
    lo * 128 ≤ blend c p q ∧ blend c p q ≤ hi * 128 := by
  have hweight : weight c < 128 := Nat.mod_lt _ (by decide)
  obtain ⟨v, hv⟩ := Nat.exists_eq_add_of_le hweight.le
  rw [blend, hv, Nat.add_sub_cancel_left, Nat.mul_add, Nat.mul_add]
  have h1 := Nat.mul_le_mul_right v hp.1
  have h2 := Nat.mul_le_mul_right (weight c) hq.1
  have h3 := Nat.mul_le_mul_right v hp.2
  have h4 := Nat.mul_le_mul_right (weight c) hq.2
  omega

/-- A resampled pixel lies between the four pixels around it. -/
theorem resampled_between {image : Nat → Nat → UInt8} {cy cx lo hi : Nat}
    (h : ∀ i ≤ 1, ∀ j ≤ 1, lo ≤ (image (cy / 65536 + i) (cx / 65536 + j)).toNat ∧
      (image (cy / 65536 + i) (cx / 65536 + j)).toNat ≤ hi) :
    lo ≤ resampled image cy cx ∧ resampled image cy cx ≤ hi := by
  have hleft := blend_between cy (h 0 (by decide) 0 (by decide)) (h 1 (by decide) 0 (by decide))
  have hright := blend_between cy (h 0 (by decide) 1 (by decide)) (h 1 (by decide) 1 (by decide))
  have hboth := blend_between cx hleft hright
  simp only [resampled]
  omega

/-! ## One pixel -/

theorem step_toNat {size out : UInt32} (hsize : 2 ≤ size.toNat) (hsize' : size.toNat ≤ 2 ^ 16) :
    (((size - 1) <<< 16) / out).toNat = (size.toNat - 1) * 65536 / out.toNat := by
  have hle : (1 : UInt32) ≤ size := UInt32.le_iff_toNat_le.mpr (by
    change 1 ≤ size.toNat
    omega)
  rw [UInt32.toNat_div, UInt32.toNat_shiftLeft, UInt32.toNat_sub_of_le _ _ hle, Nat.shiftLeft_eq]
  change (size.toNat - 1) * 65536 % 2 ^ 32 / _ = _
  rw [Nat.mod_eq_of_lt (by omega)]

theorem place_le (size : Nat) {out i : Nat} (hi : i < out) : place size out i ≤ (size - 1) * 65536 :=
  (Nat.mul_le_mul_right _ hi.le).trans (Nat.mul_div_le _ _)

/-- The places the accumulators stand at. -/
theorem place_toNat {size out step i : UInt32}
    (hstep : step.toNat = (size.toNat - 1) * 65536 / out.toNat) (hsize' : size.toNat ≤ 2 ^ 16)
    (hi : i.toNat < out.toNat) : (i * step).toNat = place size.toNat out.toNat i.toNat := by
  have hle := place_le size.toNat hi
  rw [UInt32.toNat_mul, hstep, Nat.mod_eq_of_lt]
  · rfl
  · change place _ _ _ < _
    omega

theorem weight_toNat (c : UInt32) : ((c >>> 9) &&& 127).toNat = weight c.toNat := by
  rw [UInt32.toNat_and, UInt32.toNat_shiftRight, Nat.shiftRight_eq_div_pow]
  exact Nat.and_two_pow_sub_one_eq_mod _ 7

theorem whole_toNat (c : UInt32) : (c >>> 16).toNat = c.toNat / 65536 := by
  rw [UInt32.toNat_shiftRight, Nat.shiftRight_eq_div_pow]
  rfl

theorem blend_toNat {c p q : UInt32} (hi : Nat) (hp : p.toNat ≤ hi) (hq : q.toNat ≤ hi)
    (hfit : hi * 128 < 2 ^ 32) :
    (p * ((128 : UInt32) - ((c >>> 9) &&& (127 : UInt32))) + q * ((c >>> 9) &&& (127 : UInt32))).toNat =
      blend c.toNat p.toNat q.toNat := by
  have hle := (blend_between c.toNat ⟨Nat.zero_le _, hp⟩ ⟨Nat.zero_le _, hq⟩).2
  have hweight : weight c.toNat < 128 := Nat.mod_lt _ (by decide)
  have hrest : ((128 : UInt32) - ((c >>> 9) &&& (127 : UInt32))).toNat = 128 - weight c.toNat := by
    rw [UInt32.toNat_sub_of_le, weight_toNat]
    · rfl
    · rw [UInt32.le_iff_toNat_le, weight_toNat]
      exact hweight.le
  rw [blend] at hle
  rw [UInt32.toNat_add, UInt32.toNat_mul, UInt32.toNat_mul, hrest, weight_toNat, blend,
    Nat.mod_eq_of_lt (by omega : p.toNat * _ < 2 ^ 32),
    Nat.mod_eq_of_lt (by omega : q.toNat * _ < 2 ^ 32), Nat.mod_eq_of_lt (by omega)]

section
variable {a : KerResizeBilinearArg} {image : Nat → Nat → UInt8} {hCoeff wCoeff : UInt32}
  (hwin : a.win.toNat ≤ 2 ^ 16) (hhin : a.hin.toNat ≤ 2 ^ 16)
  (htile : ∀ i, ∀ j < a.win.toNat, a.inImg (i * a.win.toNat + j) = image (a.baseY.toNat + i) j)
  (hbase : a.baseY.toNat ≤ hCoeff.toNat / 65536) (hline : hCoeff.toNat / 65536 + 1 < a.hin.toNat)
  (hcol : wCoeff.toNat / 65536 + 1 < a.win.toNat)
include hwin hhin htile hbase hline hcol

/-- A pixel of the tile, by its line from the first one that is read. -/
theorem tile_pixel {i j : UInt32} {di dj : Nat} (hdi : di ≤ 1) (hdj : dj ≤ 1)
    (hi : i.toNat = hCoeff.toNat / 65536 - a.baseY.toNat + di)
    (hj : j.toNat = wCoeff.toNat / 65536 + dj) :
    a.inImg (i * a.win + j).toNat =
      image (hCoeff.toNat / 65536 + di) (wCoeff.toNat / 65536 + dj) := by
  have hrows : (i.toNat + 1) * a.win.toNat ≤ 2 ^ 16 * 2 ^ 16 := Nat.mul_le_mul (by omega) hwin
  rw [Nat.succ_mul] at hrows
  have hindex : (i * a.win + j).toNat = i.toNat * a.win.toNat + j.toNat := by
    rw [UInt32.toNat_add, UInt32.toNat_mul, Nat.mod_eq_of_lt (by omega : _ * _ < 2 ^ 32),
      Nat.mod_eq_of_lt (by omega)]
  rw [hindex, htile _ _ (by omega), hi, hj]
  congr 1
  omega

theorem bilinear_toNat :
    (bilinear a hCoeff wCoeff).toNat = resampled image hCoeff.toNat wCoeff.toNat := by
  have hx : (wCoeff >>> 16).toNat = wCoeff.toNat / 65536 + 0 := whole_toNat wCoeff
  have hy : ((hCoeff >>> 16) - a.baseY).toNat =
      hCoeff.toNat / 65536 - a.baseY.toNat + 0 := by
    rw [UInt32.toNat_sub_of_le, whole_toNat]
    · rfl
    · rw [UInt32.le_iff_toNat_le, whole_toNat]
      exact hbase
  have hx' : (wCoeff >>> 16 + 1).toNat = wCoeff.toNat / 65536 + 1 := by
    rw [UInt32.toNat_add, hx, UInt32.toNat_one, Nat.mod_eq_of_lt (by omega)]
  have hy' : ((hCoeff >>> 16) - a.baseY + 1).toNat =
      hCoeff.toNat / 65536 - a.baseY.toNat + 1 := by
    rw [UInt32.toNat_add, hy, UInt32.toNat_one, Nat.mod_eq_of_lt (by omega)]
  have hp1 := tile_pixel hwin hhin htile hbase hline hcol (by decide) (by decide) hy hx
  have hp2 := tile_pixel hwin hhin htile hbase hline hcol (by decide) (by decide) hy' hx
  have hp3 := tile_pixel hwin hhin htile hbase hline hcol (by decide) (by decide) hy hx'
  have hp4 := tile_pixel hwin hhin htile hbase hline hcol (by decide) (by decide) hy' hx'
  have hmax (p : UInt8) : p.toUInt32.toNat ≤ 255 := Nat.le_of_lt_succ p.toNat_lt
  have hblend (c : UInt32) (p q : UInt8) := blend_toNat (c := c) 255 (hmax p) (hmax q) (by decide)
  have hbound (c : UInt32) (p q : UInt8) := (blend_between c.toNat
    ⟨Nat.zero_le p.toUInt32.toNat, hmax p⟩ ⟨Nat.zero_le q.toUInt32.toNat, hmax q⟩).2
  simp only [bilinear, UInt32.add_assoc _ (wCoeff >>> 16) 1, hp1, hp2, hp3, hp4]
  rw [UInt32.toNat_shiftRight, Nat.shiftRight_eq_div_pow,
    blend_toNat (255 * 128) (by rw [hblend]; exact hbound _ _ _)
      (by rw [hblend]; exact hbound _ _ _) (by decide), hblend, hblend]
  rfl

end

/-! ## The tile -/

/-- The pixel of the resized image in a cell of the tile. -/
def resizedCell (a : KerResizeBilinearArg) (image : Nat → Nat → UInt8) (cell : Nat) : UInt8 :=
  .ofNat (resampled image
    (place a.hin.toNat a.hout.toNat (a.firstLineIndex.toNat + cell / a.wout.toNat))
    (place a.win.toNat a.wout.toNat (cell % a.wout.toNat)))

theorem resizedCell_index (a : KerResizeBilinearArg) (image : Nat → Nat → UInt8) (y : Nat) {x : Nat}
    (hx : x < a.wout.toNat) :
    resizedCell a image (y * a.wout.toNat + x) = .ofNat (resampled image
      (place a.hin.toNat a.hout.toNat (a.firstLineIndex.toNat + y))
      (place a.win.toNat a.wout.toNat x)) := by
  rw [resizedCell, Nat.mul_comm y, Nat.mul_add_div (by omega), Nat.div_eq_of_lt hx, Nat.add_zero,
    Nat.mul_add_mod, Nat.mod_eq_of_lt hx]

section
variable {a : KerResizeBilinearArg} {image : Nat → Nat → UInt8} {nCore : UInt32} {k : Nat}
  (hcore : nCore.toNat = 2 ^ k) (hwin : 2 ≤ a.win.toNat ∧ a.win.toNat ≤ 2 ^ 16)
  (hhin : 2 ≤ a.hin.toNat ∧ a.hin.toNat ≤ 2 ^ 16)
  (hout : 4 * (a.wout.toNat * a.hout.toNat) < 2 ^ 32)
  (hlines : a.firstLineIndex.toNat + a.hTileOut.toNat ≤ a.hout.toNat)
  (htile : ∀ i, ∀ j < a.win.toNat, a.inImg (i * a.win.toNat + j) =
    image (place a.hin.toNat a.hout.toNat a.firstLineIndex.toNat / 65536 + i) j)
include hcore hwin hhin hout hlines htile

/-- **The resize, tile by tile and core by core, is the bilinear resize of the whole image**;
every pixel that it reads is one of the image, and no result is out of range. -/
theorem KerResizeBilinear_spec {m n : Nat → UInt8} (h : Phase (KerResizeBilinear a nCore) m n) :
    ∀ y < a.hTileOut.toNat, ∀ x < a.wout.toNat,
      let cy := place a.hin.toNat a.hout.toNat (a.firstLineIndex.toNat + y)
      let cx := place a.win.toNat a.wout.toNat x
      (n (y * a.wout.toNat + x)).toNat = resampled image cy cx ∧
        cy / 65536 + 1 < a.hin.toNat ∧ cx / 65536 + 1 < a.win.toNat := by
  intro y hy x hx cy cx
  have hfirst : a.firstLineIndex.toNat < a.hout.toNat := by omega
  have hhStep : a.hStep.toNat = (a.hin.toNat - 1) * 65536 / a.hout.toNat :=
    step_toNat hhin.1 hhin.2
  have hwStep : a.wStep.toNat = (a.win.toNat - 1) * 65536 / a.wout.toNat :=
    step_toNat hwin.1 hwin.2
  have hbase : a.baseY.toNat = place a.hin.toNat a.hout.toNat a.firstLineIndex.toNat / 65536 := by
    rw [KerResizeBilinearArg.baseY, whole_toNat, UInt32.mul_comm, place_toNat hhStep hhin.2 hfirst]
  have hwout : a.wout.toNat < 2 ^ 30 := by
    have := Nat.le_mul_of_pos_right a.wout.toNat (Nat.zero_lt_of_lt hfirst)
    omega
  have hpixel : ∀ c, ∀ s ∈ KerResizeBilinear a nCore c, ∀ m : Nat → UInt8,
      s.value m = resizedCell a image s.cell := by
    intro c s hs m
    obtain ⟨y, hy, x, hx, rfl⟩ := (mem_KerResizeBilinear a).mp hs
    have hy := (mem_upto.mp hy).2
    have hx := ((chunk_shares hcore (x := a.wout) (by have := nCore_le hcore; omega)).mem
      x.toNat).mp ⟨c, List.mem_map_of_mem hx⟩
    have hcell : (y * a.wout + x).toNat = y.toNat * a.wout.toNat + x.toNat := by
      rw [UInt32.add_comm, index_toNat hout hx (by omega)]
    have hline : (a.firstLineIndex + y).toNat = a.firstLineIndex.toNat + y.toNat := by
      have := a.hout.toNat_lt
      rw [UInt32.toNat_add, Nat.mod_eq_of_lt (by omega)]
    have hplace := place_toNat (i := a.firstLineIndex + y) hhStep hhin.2 (by omega)
    have hcoeff : a.hStep * a.firstLineIndex + y * a.hStep = (a.firstLineIndex + y) * a.hStep := by
      rw [UInt32.mul_comm, UInt32.add_mul]
    have hcol := place_toNat hwStep hwin.2 hx
    have hafter : place a.hin.toNat a.hout.toNat a.firstLineIndex.toNat / 65536 ≤
        place a.hin.toNat a.hout.toNat (a.firstLineIndex.toNat + y.toNat) / 65536 :=
      Nat.div_le_div_right (Nat.mul_le_mul_right _ (by omega))
    have hvalue : (bilinear a ((a.firstLineIndex + y) * a.hStep) (x * a.wStep)).toNat =
        resampled image _ _ := bilinear_toNat hwin.2 hhin.2
      (fun i j hj => by rw [hbase, htile i j hj])
      (by rw [hbase, hplace, hline]; exact hafter)
      (by rw [hplace, hline]; exact place_lt hhin.1 (by omega))
      (by rw [hcol]; exact place_lt hwin.1 hx)
    change (bilinear a (a.hStep * a.firstLineIndex + y * a.hStep) (x * a.wStep)).toUInt8 = _
    rw [hcoeff, hcell, resizedCell_index a image _ hx, ← hline, ← hplace, ← hcol, ← hvalue]
    exact UInt8.toNat_inj.mp (by rw [UInt32.toNat_toUInt8, UInt8.toNat_ofNat'])
  have hassigned : ∃ c, ∃ s ∈ KerResizeBilinear a nCore c, s.cell = y * a.wout.toNat + x := by
    obtain ⟨c, hc⟩ := ((chunk_shares hcore (x := a.wout)
      (by have := nCore_le hcore; omega)).mem x).mpr hx
    obtain ⟨x, hx', rfl⟩ := List.mem_map.mp hc
    have hyu : (UInt32.ofNat y).toNat = y := by
      have := a.hTileOut.toNat_lt
      rw [UInt32.toNat_ofNat', Nat.mod_eq_of_lt (by omega)]
    refine ⟨c, _, (mem_KerResizeBilinear a).mpr ⟨.ofNat y, mem_upto.mpr ?_, x, hx', rfl⟩, ?_⟩
    · rw [hyu]
      exact ⟨Nat.zero_le _, hy⟩
    · change (UInt32.ofNat y * a.wout + x).toNat = _
      rw [UInt32.add_comm, index_toNat hout hx (by omega), hyu]
  have hcy : cy / 65536 + 1 < a.hin.toNat := place_lt hhin.1 (by omega)
  have hcx : cx / 65536 + 1 < a.win.toNat := place_lt hwin.1 hx
  refine ⟨?_, hcy, hcx⟩
  have hsmall : 0 ≤ resampled image cy cx ∧ resampled image cy cx ≤ 255 :=
    resampled_between fun i _ j _ => ⟨Nat.zero_le _, Nat.le_of_lt_succ (UInt8.toNat_lt _)⟩
  rw [h.of_values hpixel hassigned, resizedCell_index a image y hx, UInt8.toNat_ofNat',
    Nat.mod_eq_of_lt (Nat.lt_succ_of_le hsmall.2)]

end

/-- Three lines of three pixels. -/
def ninePixels (line col : Nat) : UInt8 := .ofNat (3 * line + col)

/-- The second line of two, out of these. -/
def secondLine : KerResizeBilinearArg where
  inImg i := .ofNat (3 + i)
  win := 3
  hin := 3
  wout := 2
  hout := 2
  hTileOut := 1
  firstLineIndex := 1

theorem KerResizeBilinear_secondLine :
    ∃ n, Phase (KerResizeBilinear secondLine 4) (fun _ => 0) n ∧ (n 1).toNat = 4 := by
  obtain ⟨n, hn⟩ := exists_phase (KerResizeBilinear secondLine 4) (fun _ => 0)
  have htile : ∀ i, ∀ j < secondLine.win.toNat,
      secondLine.inImg (i * secondLine.win.toNat + j) = ninePixels
        (place secondLine.hin.toNat secondLine.hout.toNat secondLine.firstLineIndex.toNat / 65536
          + i) j := by
    intro i j _
    change UInt8.ofNat (3 + (i * 3 + j)) = UInt8.ofNat (3 * (1 + i) + j)
    congr 1
    omega
  have hspec := KerResizeBilinear_spec (k := 2) (by decide) (by decide) (by decide) (by decide)
    (by decide) htile hn 0 (by decide) 1 (by decide)
  exact ⟨n, hn, hspec.1⟩

end AiDeck.Faces
