import Mathlib
import AiDeck.Lib.Decimal
import AiDeck.Lib.Share

/-! # Grey images in files

ImgIO.c writes an image as a binary grey map and reads such files. A file is its bytes;
the file system gives as many of them as there are from a position on. -/
namespace AiDeck.Images

open AiDeck.Lib.Decimal AiDeck.Lib.Share

/-! ## Writing -/

/-- `CHUNK_SIZE`. -/
def chunkSize : Nat := 8192

def writePPMHeader (w h : UInt32) : List UInt8 :=
  [0x50, 0x35, 0xA] ++ decimal w.toNat ++ [0x20] ++ decimal h.toNat ++ [0xA] ++
    [0x32, 0x35, 0x35, 0xA]

/-- `WriteImageToFile`: what is in the file after it. -/
def writeImageToFile (w h : UInt32) (outBuffer : List UInt8) : List UInt8 :=
  let steps := (w * h).toNat / chunkSize
  let rest := (w * h).toNat % chunkSize
  writePPMHeader w h ++
    (List.range steps).flatMap (fun i => (outBuffer.drop (chunkSize * i)).take chunkSize) ++
    if rest ≠ 0 then (outBuffer.drop (chunkSize * steps)).take rest else []

/-! ## Reading -/

/-- `SkipComment`; the flag says whether the inner loop is at work. -/
def skipComment : Bool → List UInt8 → Option (List UInt8)
  | _, [] => none
  | false, c :: l => if c = 0x23 then skipComment true l else some (c :: l)
  | true, c :: l => if c = 0xA then skipComment false l else skipComment true l

/-- What `ReadPPMHeader` finds out; the header size is 0 for a file it does not take. -/
structure ImageInfos where
  w : UInt32
  h : UInt32
  isRGB : Bool
  headerSize : Nat
  deriving DecidableEq

/-- `ReadPPMHeader`, behind the first three bytes; `none` where it reads past the buffer. -/
def readNumbers (total : Nat) (isRGB : Bool) (imgIn : List UInt8) : Option ImageInfos := do
  let l ← skipComment false imgIn
  let l ← skipUntil isDigit l
  let (w, l) ← readDigits 0 l
  let l ← skipComment false l
  let l ← skipUntil isDigit l
  let (h, l) ← readDigits 0 l
  let l ← skipComment false l
  let l ← skipUntil isDigit l
  let (val, l) ← readDigits 0 l
  if val ≠ 255 then return ⟨w, h, isRGB, 0⟩
  let l ← skipUntil (fun c => c = 0xA) l
  let ind := total - l.length
  return ⟨w, h, isRGB, ind + 1⟩

def readPPMHeader (imgIn : List UInt8) : Option ImageInfos :=
  if imgIn.take 3 = [0x50, 0x35, 0xA] then readNumbers imgIn.length false (imgIn.drop 3)
  else if imgIn.take 3 = [0x50, 0x36, 0xA] then readNumbers imgIn.length true (imgIn.drop 3)
  else some ⟨0, 0, false, 0⟩

/-- Why `ReadImageFromFile` fails; `outOfBounds` is a header that is read past its buffer. -/
inductive LoadError
  | infos
  | outOfBounds
  | rgb
  | openFailed
  | alloc
  | short (expects got : Nat)
  deriving DecidableEq

/-- `ALIGN(Value, 2)`. -/
def align4 (value : UInt32) : UInt32 :=
  if value &&& 3 ≠ 0 then ((value >>> 2) + 1) <<< 2 else value

/-- The loop that reads `RemainSize` bytes, at most 4096 at a time. -/
def readLoop : Nat → List UInt8 → Nat → List UInt8
  | 0, _, _ => []
  | fuel + 1, file, remainSize =>
    if remainSize = 0 then []
    else
      let chunk := min 4096 remainSize
      let r := file.take chunk
      if r.length ≠ chunk then r else r ++ readLoop fuel (file.drop chunk) (remainSize - chunk)

/-- `ReadImageFromFile` once the header is read; the buffer of the caller is given by its
size, and `rtAlloc` says which sizes there is memory for. -/
def loadPixels (rtAlloc : UInt32 → Bool) (file : List UInt8) (inBuffer : Option UInt32)
    (infos : ImageInfos) : Except LoadError (UInt32 × UInt32 × List UInt8) :=
  if infos.isRGB then .error .rgb
  else
    let size := infos.w * infos.h * (if infos.isRGB then 3 else 1)
    let inPlace := inBuffer.any (· ≥ size)
    let alignedSize := if inPlace then size else align4 size
    if inPlace = false ∧ rtAlloc alignedSize = false then .error .alloc
    else
      let img := readLoop (alignedSize.toNat + 1) (file.drop infos.headerSize) alignedSize.toNat
      if alignedSize.toNat ≠ img.length then .error (.short alignedSize.toNat img.length)
      else .ok (infos.w, infos.h, img)

/-- `ReadImageFromFile`, where the file may not be there. The 256 bytes for the header are
free again before there is a request for the pixels. -/
def readImageFromFile (rtAlloc : UInt32 → Bool) (inBuffer : Option UInt32) :
    Option (List UInt8) → Except LoadError (UInt32 × UInt32 × List UInt8)
  | none => .error .openFailed
  | some file =>
    if rtAlloc 256 = false ∨ (file.take 256).length ≠ 256 then .error .infos
    else
      match readPPMHeader (file.take 256) with
      | none => .error .outOfBounds
      | some infos => loadPixels rtAlloc file inBuffer infos

/-! ## What is read -/

theorem readLoop_eq {fuel : Nat} (file : List UInt8) {n : Nat} (h : n < fuel) :
    readLoop fuel file n = file.take n := by
  induction fuel generalizing file n with
  | zero => omega
  | succ fuel ih =>
    rw [readLoop]
    by_cases hn : n = 0
    · rw [if_pos hn, hn, List.take_zero]
    · rw [if_neg hn]
      by_cases hshort : (file.take (min 4096 n)).length = min 4096 n
      · have hsplit := List.take_add (l := file) (i := min 4096 n) (j := n - min 4096 n)
        rw [Nat.add_sub_cancel' (Nat.min_le_right _ _)] at hsplit
        simp only [hshort, ne_eq, not_true_eq_false, if_false]
        rw [ih _ (by omega), hsplit]
      · rw [if_pos hshort]
        rw [List.length_take] at hshort
        rw [List.take_of_length_le (by omega), List.take_of_length_le (by omega)]

theorem align4_toNat (value : UInt32) (h : value.toNat % 4 = 0) : align4 value = value := by
  have hmask : value &&& 3 = 0 := by
    apply UInt32.toNat_inj.mp
    rw [UInt32.toNat_and]
    exact (Nat.and_two_pow_sub_one_eq_mod _ 2).trans h
  rw [align4, if_neg (not_not.mpr hmask)]

/-- An aligned size is a multiple of four. -/
theorem align4_mod (value : UInt32) : (align4 value).toNat % 4 = 0 := by
  have hmask : (value &&& 3).toNat = value.toNat % 4 := by
    rw [UInt32.toNat_and]
    exact Nat.and_two_pow_sub_one_eq_mod _ 2
  rw [align4]
  split
  · rw [UInt32.toNat_shiftLeft, Nat.shiftLeft_eq]
    change _ * 4 % 2 ^ 32 % 4 = 0
    omega
  next hzero =>
    rw [← hmask, not_not.mp hzero]
    rfl

/-! ## The header -/

section
variable {w h : UInt32} (hw : 0 < w.toNat) (hh : 0 < h.toNat)

/-- The header of a grey map with a maximum of its own. -/
def greyHeader (w h : UInt32) (max : Nat) : List UInt8 :=
  [0x50, 0x35, 0xA] ++ decimal w.toNat ++ [0x20] ++ decimal h.toNat ++ [0xA] ++ decimal max ++ [0xA]

theorem writePPMHeader_eq (w h : UInt32) : writePPMHeader w h = greyHeader w h 255 := by
  have hmax : decimal 255 = [0x32, 0x35, 0x35] := by simp [decimal]
  simp [writePPMHeader, greyHeader, hmax]

theorem decimal_length_le (u : UInt32) : (decimal u.toNat).length ≤ 10 := by
  rw [decimal, List.length_map, List.length_reverse]
  exact (Nat.digits_length_le_iff (by decide) _).mpr (u.toNat_lt.trans_le (by decide))

theorem writePPMHeader_length_le (w h : UInt32) : (writePPMHeader w h).length ≤ 29 := by
  have hlw := decimal_length_le w
  have hlh := decimal_length_le h
  simp only [writePPMHeader, List.length_append, List.length_cons, List.length_nil]
  omega

theorem skipComment_of_digit {c : UInt8} (hc : isDigit c = true) (l : List UInt8) :
    skipComment false (c :: l) = some (c :: l) := by
  refine if_neg fun he => ?_
  rw [he] at hc
  exact absurd hc (by decide)

theorem skipComment_decimal {n : Nat} (hn : 0 < n) (l : List UInt8) :
    skipComment false (decimal n ++ l) = some (decimal n ++ l) := by
  obtain ⟨d, ds, hds⟩ := List.exists_cons_of_ne_nil (decimal_ne_nil hn)
  rw [hds]
  exact skipComment_of_digit (isDigit_of_mem (hds ▸ List.mem_cons_self)) _

include hw hh

/-- A header is read as far as its last line; with another maximum than 255 it has no size. -/
theorem readPPMHeader_grey {max : Nat} (hmax : 0 < max) (l : List UInt8) :
    readPPMHeader (greyHeader w h max ++ l) =
      some ⟨w, h, false, if UInt32.ofNat max = 255 then (greyHeader w h max).length else 0⟩ := by
  have hdrop : (greyHeader w h max ++ l).drop 3 = decimal w.toNat ++ 0x20 ::
      (decimal h.toNat ++ 0xA :: (decimal max ++ 0xA :: l)) := by
    simp [greyHeader]
  have hspace : skipUntil isDigit (0x20 :: (decimal h.toNat ++ 0xA :: (decimal max ++ 0xA :: l))) =
      some (decimal h.toNat ++ 0xA :: (decimal max ++ 0xA :: l)) :=
    skipUntil_decimal hh _
  have hline : skipUntil isDigit (0xA :: (decimal max ++ 0xA :: l)) =
      some (decimal max ++ 0xA :: l) := skipUntil_decimal hmax _
  have hlength : (greyHeader w h max ++ l).length = (greyHeader w h max).length + l.length :=
    List.length_append
  have hpos : 0 < (greyHeader w h max).length := by simp [greyHeader]
  have hcomment (c : UInt8) (hc : c ≠ 0x23) (l : List UInt8) :
      skipComment false (c :: l) = some (c :: l) := if_neg hc
  rw [readPPMHeader, if_pos (by simp [greyHeader]), hdrop, readNumbers,
    skipComment_decimal hw, Option.bind_eq_bind, Option.bind_some, skipUntil_decimal hw,
    Option.bind_eq_bind, Option.bind_some, readDigits_decimal _ (by decide)]
  simp only [Option.bind_some, hcomment _ (by decide : (0x20 : UInt8) ≠ 0x23),
    hspace, readDigits_decimal _ (by decide : isDigit 0xA = false),
    hcomment _ (by decide : (0xA : UInt8) ≠ 0x23), hline,
    skipUntil_of_head (p := fun c => decide (c = 0xA)) (c := 0xA) (by decide)]
  simp only [List.length_cons, hlength, UInt32.ofNat_toNat]
  by_cases h255 : UInt32.ofNat max = 255
  · rw [if_neg (not_not.mpr h255), if_pos h255]
    have hsize : (greyHeader w h max).length + l.length - (l.length + 1) + 1 =
        (greyHeader w h max).length := by omega
    rw [hsize]
    rfl
  · rw [if_pos h255, if_neg h255]
    rfl

/-- **The header that is written is read as it was meant**, whatever follows it. -/
theorem readPPMHeader_write (l : List UInt8) :
    readPPMHeader (writePPMHeader w h ++ l) =
      some ⟨w, h, false, (writePPMHeader w h).length⟩ := by
  have h255 : UInt32.ofNat 255 = 255 := rfl
  rw [writePPMHeader_eq, readPPMHeader_grey hw hh (by decide), if_pos h255]

end

/-! ## Round trips -/

section
variable {w h : UInt32} (hw : 0 < w.toNat) (hh : 0 < h.toNat)
  (hfit : w.toNat * h.toNat < 2 ^ 32) {outBuffer : List UInt8}
  (hlength : outBuffer.length = w.toNat * h.toNat)
include hfit hlength

/-- A file is the header and the pixels, whatever the chunks. -/
theorem writeImageToFile_eq : writeImageToFile w h outBuffer = writePPMHeader w h ++ outBuffer := by
  have hsize : (w * h).toNat = outBuffer.length := by
    rw [UInt32.toNat_mul, Nat.mod_eq_of_lt hfit, hlength]
  have hdiv := Nat.div_add_mod outBuffer.length chunkSize
  rw [writeImageToFile, hsize, flatMap_chunks, List.append_assoc]
  congr 1
  split
  next =>
    have hrest : (outBuffer.drop (chunkSize * (outBuffer.length / chunkSize))).length ≤
        outBuffer.length % chunkSize := by
      rw [List.length_drop]
      omega
    rw [List.take_of_length_le hrest, List.take_append_drop]
  next hzero =>
    rw [List.append_nil]
    exact List.take_of_length_le (by omega)

include hw hh

omit hw hh in
theorem size_toNat : (w * h).toNat = outBuffer.length := by
  rw [UInt32.toNat_mul, Nat.mod_eq_of_lt hfit, hlength]

omit hw hh in
/-- The pixels are there when there is a place for them, and as many as are asked for. -/
theorem loadPixels_iff (rtAlloc : UInt32 → Bool) (inBuffer : Option UInt32)
    {file : List UInt8} {headerSize : Nat} (hfile : file.drop headerSize = outBuffer) :
    loadPixels rtAlloc file inBuffer ⟨w, h, false, headerSize⟩ = .ok (w, h, outBuffer) ↔
      inBuffer.any (· ≥ w * h) = true ∨ 4 ∣ w.toNat * h.toNat ∧ rtAlloc (w * h) = true := by
  have hsize := size_toNat hfit hlength
  have hone : w * h * (if false = true then 3 else 1) = w * h := by
    rw [if_neg (by decide), UInt32.mul_one]
  -- as many bytes as are asked for are the pixels exactly if that is their number
  have hread (n : Nat) : (if n ≠ (readLoop (n + 1) outBuffer n).length then
      .error (.short n (readLoop (n + 1) outBuffer n).length)
      else .ok (w, h, readLoop (n + 1) outBuffer n) :
        Except LoadError (UInt32 × UInt32 × List UInt8)) = .ok (w, h, outBuffer) ↔
      n = outBuffer.length := by
    rw [readLoop_eq outBuffer (Nat.lt_succ_self n)]
    constructor
    · intro hok
      split at hok
      next => cases hok
      next hlen =>
        have hsame := congrArg List.length (Prod.mk.inj (Prod.mk.inj (Except.ok.inj hok)).2).2
        rw [← hsame]
        exact not_not.mp hlen
    · intro hn
      rw [List.take_of_length_le hn.ge, if_neg (not_not.mpr hn)]
  have hgrey : ¬ (⟨w, h, false, headerSize⟩ : ImageInfos).isRGB = true := Bool.false_ne_true
  rw [loadPixels, if_neg hgrey]
  simp only [hone, hfile]
  cases hplace : inBuffer.any (· ≥ w * h) with
  | true =>
    rw [if_neg (fun hand => Bool.noConfusion hand.1), if_pos rfl]
    exact iff_of_true ((hread _).mpr hsize) (Or.inl rfl)
  | false =>
    rw [if_neg Bool.false_ne_true]
    have hdvd : 4 ∣ w.toNat * h.toNat ↔ (align4 (w * h)).toNat = outBuffer.length := by
      rw [← hlength, ← hsize]
      constructor
      · intro h4
        rw [align4_toNat _ (Nat.mod_eq_zero_of_dvd h4)]
      · intro heq
        rw [← heq]
        exact Nat.dvd_of_mod_eq_zero (align4_mod _)
    have hsame (heq : (align4 (w * h)).toNat = outBuffer.length) : align4 (w * h) = w * h :=
      UInt32.toNat_inj.mp (heq.trans hsize.symm)
    rw [hdvd]
    cases halloc : rtAlloc (align4 (w * h)) with
    | true =>
      rw [if_neg (fun hand => Bool.noConfusion hand.2), hread]
      constructor
      · intro heq
        exact Or.inr ⟨heq, hsame heq ▸ halloc⟩
      · rintro (hfalse | ⟨heq, -⟩)
        · cases hfalse
        · exact heq
    | false =>
      rw [if_pos ⟨rfl, rfl⟩]
      constructor
      · intro hok
        cases hok
      · rintro (hfalse | ⟨heq, hsome⟩)
        · cases hfalse
        · rw [← hsame heq, halloc] at hsome
          cases hsome

include hw hh

/-- **When an image that was written is read back**: there has to be a buffer for the header,
which the file fills, and the pixels fill one of the caller, or whole words of a new one. -/
theorem readImage_writeImage_iff (rtAlloc : UInt32 → Bool) (inBuffer : Option UInt32) :
    readImageFromFile rtAlloc inBuffer (some (writeImageToFile w h outBuffer)) =
        .ok (w, h, outBuffer) ↔
      rtAlloc 256 = true ∧ 256 ≤ (writePPMHeader w h).length + w.toNat * h.toNat ∧
        (inBuffer.any (· ≥ w * h) = true ∨
          4 ∣ w.toNat * h.toNat ∧ rtAlloc (w * h) = true) := by
  have hle := writePPMHeader_length_le w h
  have hheader : readPPMHeader ((writePPMHeader w h ++ outBuffer).take 256) =
      some ⟨w, h, false, (writePPMHeader w h).length⟩ := by
    rw [List.take_append, List.take_of_length_le (by omega)]
    exact readPPMHeader_write hw hh _
  have hpixels := loadPixels_iff hfit hlength rtAlloc inBuffer
    (List.drop_left : (writePPMHeader w h ++ outBuffer).drop _ = outBuffer)
  rw [writeImageToFile_eq hfit hlength, readImageFromFile, hheader, List.length_take,
    List.length_append, hlength]
  cases hgranted : rtAlloc 256 with
  | false =>
    rw [if_pos (Or.inl rfl)]
    refine iff_of_false (fun hok => ?_) (fun hand => Bool.false_ne_true hand.1)
    cases hok
  | true =>
    by_cases hfew : 256 ≤ (writePPMHeader w h).length + w.toNat * h.toNat
    · have htaken : min 256 ((writePPMHeader w h).length + w.toNat * h.toNat) = 256 := by omega
      rw [htaken, if_neg (by decide), and_iff_right rfl, and_iff_right hfew]
      exact hpixels
    · rw [if_pos (Or.inr (by omega))]
      refine iff_of_false (fun hok => ?_) (fun hand => hfew hand.2.1)
      cases hok

end

/-- A grey square of 256 pixels, into a buffer that is large enough. -/
theorem readImage_writeImage_square :
    readImageFromFile (fun size => size = 256) (some 256)
      (some (writeImageToFile 16 16 (List.replicate 256 0x80))) =
        .ok (16, 16, List.replicate 256 0x80) := by
  refine (readImage_writeImage_iff (by decide) (by decide) (by decide)
    (List.length_replicate) _ _).mpr ⟨by decide, ?_, Or.inl (by decide)⟩
  change 256 ≤ _ + 256
  exact Nat.le_add_left _ _

end AiDeck.Images
