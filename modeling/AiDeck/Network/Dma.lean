import Mathlib
import AiDeck.Lib.Convolution
import AiDeck.Lib.Moves
import AiDeck.Network.Matmul

/-! # Copies between the memories

Core 0 has the DMA engine copy tiles between the memory of the chip and that of the cluster.
A copy of lines of pixels takes one transfer, one with a stride or one for each line,
whatever its strides allow. -/
namespace AiDeck.Network

open AiDeck.Lib AiDeck.Lib.Cores AiDeck.Lib.Copies AiDeck.Lib.Moves
open AiDeck.Lib.Convolution (Feature line_place)

/-! ## The engine -/

/-- `DMA_copy`, of a tile whose order of bytes stays; the direction is that to the cluster. -/
structure DmaCopy where
  ext : Nat
  loc : Nat
  stride2d : Nat
  numberOf2dCopies : Nat
  stride1d : Nat
  numberOf1dCopies : Nat
  length1dCopy : Nat
  dir : Bool
  deriving DecidableEq

/-- The fields are of 16 bits, and so is the length in a command. -/
structure DmaCopy.Valid (c : DmaCopy) : Prop where
  stride2d : c.stride2d < 2 ^ 16
  numberOf2dCopies : c.numberOf2dCopies < 2 ^ 16
  stride1d : c.stride1d < 2 ^ 16
  numberOf1dCopies : c.numberOf1dCopies < 2 ^ 16
  length1dCopy : c.length1dCopy < 2 ^ 16
  size : c.numberOf2dCopies * c.numberOf1dCopies * c.length1dCopy < 2 ^ 16

/-- Cell by cell, from `ext` to `loc` or back. -/
def transfer (dir : Bool) (loc ext : Nat → Nat) (size : Nat) : ByteProgram :=
  if dir then moves loc ext size else moves ext loc size

def mchanTransferPush1d (dir : Bool) (loc ext size : Nat) : ByteProgram :=
  transfer dir (loc + ·) (ext + ·) size

/-- In the external memory every `extSize1d` bytes are followed by a gap. -/
def mchanTransferPush2d (dir : Bool) (loc ext size extSize1d extStride1d : Nat) : ByteProgram :=
  transfer dir (loc + ·) (fun q => ext + (q / extSize1d * extStride1d + q % extSize1d)) size

section
variable (c : DmaCopy)

def doryDmaMemcpy1dAsync : ByteProgram :=
  mchanTransferPush1d c.dir c.loc c.ext
    (c.length1dCopy * c.numberOf1dCopies * c.numberOf2dCopies)

def doryDmaMemcpy2dAsync : ByteProgram :=
  let size2d := c.numberOf1dCopies * c.length1dCopy * c.numberOf2dCopies
  let stride := if c.numberOf2dCopies = 1 then c.stride1d else c.stride2d
  let size1d :=
    if c.numberOf2dCopies = 1 then c.length1dCopy else c.length1dCopy * c.numberOf1dCopies
  mchanTransferPush2d c.dir c.loc c.ext size2d size1d stride

def doryDmaMemcpy3dAsync : ByteProgram :=
  let size2d := c.numberOf1dCopies * c.length1dCopy
  (List.range c.numberOf2dCopies).flatMap fun i =>
    mchanTransferPush2d c.dir (c.loc + i * size2d) (c.ext + i * c.stride2d) size2d c.length1dCopy
      c.stride1d

/-- `dory_dma_memcpy_async` for `hwc_to_chw = 0`, and the barrier that waits for it. -/
def doryDmaMemcpyAsync : ByteProgram :=
  if c.numberOf2dCopies = 1 ∧ c.numberOf1dCopies = 1 ∨
      c.stride1d = c.length1dCopy ∧ c.numberOf1dCopies * c.length1dCopy = c.stride2d ∨
      c.numberOf2dCopies = 1 ∧ c.length1dCopy = c.stride1d then doryDmaMemcpy1dAsync c
  else if c.numberOf2dCopies = 1 ∨ c.length1dCopy = c.stride1d then doryDmaMemcpy2dAsync c
  else doryDmaMemcpy3dAsync c

/-- No byte of the copy is followed by a gap. -/
def DmaCopy.Dense : Prop :=
  c.numberOf2dCopies = 1 ∧ c.numberOf1dCopies = 1 ∨
    c.stride1d = c.length1dCopy ∧ c.numberOf1dCopies * c.length1dCopy = c.stride2d ∨
    c.numberOf2dCopies = 1 ∧ c.length1dCopy = c.stride1d

/-- The bytes of a copy, and where each of them is in the external memory. -/
def DmaCopy.size : Nat := c.numberOf2dCopies * c.numberOf1dCopies * c.length1dCopy

def DmaCopy.place (q : Nat) : Nat :=
  q / c.length1dCopy / c.numberOf1dCopies * c.stride2d +
    q / c.length1dCopy % c.numberOf1dCopies * c.stride1d + q % c.length1dCopy

end

/-- A place by line, pixel and byte is one of the image. -/
theorem feature_lt {y x o lines width ch : Nat} (hy : y < lines) (hx : x < width) (ho : o < ch) :
    (y * width + x) * ch + o < lines * width * ch := by
  have hline : (y + 1) * width * ch ≤ lines * width * ch :=
    Nat.mul_le_mul_right _ (Nat.mul_le_mul_right _ hy)
  have hpixel : (x + 1) * ch ≤ width * ch := Nat.mul_le_mul_right _ hx
  simp only [Nat.add_mul, Nat.one_mul] at *
  omega

/-! ## One copy -/

section
variable {c : DmaCopy}

theorem transfer_congr {dir : Bool} {loc loc' ext ext' : Nat → Nat} {size : Nat}
    (hloc : ∀ q < size, loc q = loc' q) (hext : ∀ q < size, ext q = ext' q) :
    transfer dir loc ext size = transfer dir loc' ext' size := by
  unfold transfer
  rw [moves_congr hloc hext, moves_congr hext hloc]

theorem transfer_mul (dir : Bool) (loc ext : Nat → Nat) (a b : Nat) : transfer dir loc ext (a * b) =
    (List.range a).flatMap fun i =>
      transfer dir (fun q => loc (i * b + q)) (fun q => ext (i * b + q)) b := by
  unfold transfer
  cases dir with
  | false => exact moves_mul _ _ _ _
  | true => exact moves_mul _ _ _ _

/-- One copy of all is enough where no byte is followed by a gap. -/
theorem place_eq_self (h : c.Dense) {q : Nat} (hq : q < c.size) : c.place q = q := by
  unfold DmaCopy.size at hq
  unfold DmaCopy.place
  have hsplit := Nat.div_add_mod' q c.length1dCopy
  rcases h with ⟨htwo, hone⟩ | ⟨hdense, hline⟩ | ⟨htwo, hdense⟩
  · rw [htwo, hone, Nat.one_mul] at hq
    rw [hone, Nat.div_eq_of_lt hq, Nat.mod_eq_of_lt hq]
    simp
  · have hpixel := Nat.div_add_mod' (q / c.length1dCopy) c.numberOf1dCopies
    rw [hdense, ← hline, ← Nat.mul_assoc, ← Nat.add_mul, hpixel, hsplit]
  · rw [htwo, Nat.one_mul] at hq
    have hlt : q / c.length1dCopy < c.numberOf1dCopies :=
      Nat.div_lt_of_lt_mul (hq.trans_eq (Nat.mul_comm _ _))
    rw [Nat.div_eq_of_lt hlt, Nat.mod_eq_of_lt hlt, ← hdense, Nat.zero_mul, Nat.zero_add, hsplit]

/-- **Whatever transfers are made, the copy is the same**: each byte goes to its place. -/
theorem doryDmaMemcpyAsync_eq (c : DmaCopy) :
    doryDmaMemcpyAsync c = transfer c.dir (c.loc + ·) (fun q => c.ext + c.place q) c.size := by
  unfold doryDmaMemcpyAsync
  split
  next hdense =>
    unfold doryDmaMemcpy1dAsync mchanTransferPush1d
    rw [show c.length1dCopy * c.numberOf1dCopies * c.numberOf2dCopies = c.size by
      unfold DmaCopy.size; ring]
    exact transfer_congr (fun _ _ => rfl) fun q hq => by rw [place_eq_self hdense hq]
  next hgaps =>
    split
    next hone =>
      unfold doryDmaMemcpy2dAsync mchanTransferPush2d
      dsimp only
      rw [show c.numberOf1dCopies * c.length1dCopy * c.numberOf2dCopies = c.size by
        unfold DmaCopy.size; ring]
      refine transfer_congr (fun _ _ => rfl) fun q hq => ?_
      unfold DmaCopy.size at hq
      unfold DmaCopy.place
      by_cases htwo : c.numberOf2dCopies = 1
      · -- a single line
        rw [htwo, Nat.one_mul] at hq
        have hlt : q / c.length1dCopy < c.numberOf1dCopies :=
          Nat.div_lt_of_lt_mul (hq.trans_eq (Nat.mul_comm _ _))
        rw [if_pos htwo, if_pos htwo, Nat.div_eq_of_lt hlt, Nat.mod_eq_of_lt hlt, Nat.zero_mul,
          Nat.zero_add]
      · -- lines without a gap within
        have hdense := hone.resolve_left htwo
        rw [if_neg htwo, if_neg htwo, ← Nat.div_div_eq_div_mul, Nat.mod_mul, ← hdense,
          Nat.mul_comm c.length1dCopy]
        omega
    next hmany =>
      unfold doryDmaMemcpy3dAsync mchanTransferPush2d
      rw [DmaCopy.size, Nat.mul_assoc, transfer_mul]
      refine List.flatMap_congr fun i _ => transfer_congr (fun q _ => Nat.add_assoc _ _ _)
        fun q hq => ?_
      have hlen : 0 < c.length1dCopy := Nat.pos_of_mul_pos_left (Nat.zero_lt_of_lt hq)
      have hlt : q / c.length1dCopy < c.numberOf1dCopies :=
        Nat.div_lt_of_lt_mul (hq.trans_eq (Nat.mul_comm _ _))
      have hdiv : (i * (c.numberOf1dCopies * c.length1dCopy) + q) / c.length1dCopy =
          i * c.numberOf1dCopies + q / c.length1dCopy := by
        rw [← Nat.mul_assoc, Nat.mul_comm _ c.length1dCopy, Nat.mul_add_div hlen]
      have hmod : (i * (c.numberOf1dCopies * c.length1dCopy) + q) % c.length1dCopy =
          q % c.length1dCopy := by
        rw [← Nat.mul_assoc, Nat.mul_comm _ c.length1dCopy, Nat.mul_add_mod]
      unfold DmaCopy.place
      rw [hdiv, hmod, Nat.mul_comm i c.numberOf1dCopies, Nat.mul_add_div (Nat.zero_lt_of_lt hlt),
        Nat.mul_add_mod, Nat.div_eq_of_lt hlt, Nat.mod_eq_of_lt hlt, Nat.add_zero]
      omega

variable {i j b q z : Nat} {m : Memory}

/-- Each byte of a copy by line, pixel and place in it. -/
theorem exists_index (hq : q < c.size) : ∃ i < c.numberOf2dCopies, ∃ j < c.numberOf1dCopies,
    ∃ b < c.length1dCopy, q = (i * c.numberOf1dCopies + j) * c.length1dCopy + b := by
  unfold DmaCopy.size at hq
  have hlen : 0 < c.length1dCopy := Nat.pos_of_mul_pos_left (Nat.zero_lt_of_lt hq)
  have hpixel : q / c.length1dCopy < c.numberOf2dCopies * c.numberOf1dCopies :=
    Nat.div_lt_of_lt_mul (hq.trans_eq (Nat.mul_comm _ _))
  have hwidth : 0 < c.numberOf1dCopies := Nat.pos_of_mul_pos_left (Nat.zero_lt_of_lt hpixel)
  refine ⟨q / c.length1dCopy / c.numberOf1dCopies,
    Nat.div_lt_of_lt_mul (hpixel.trans_eq (Nat.mul_comm _ _)), _,
    Nat.mod_lt (q / c.length1dCopy) hwidth, _, Nat.mod_lt q hlen, ?_⟩
  rw [Nat.div_add_mod', Nat.div_add_mod']

theorem place_index (hj : j < c.numberOf1dCopies) (hb : b < c.length1dCopy) :
    c.place ((i * c.numberOf1dCopies + j) * c.length1dCopy + b) =
      i * c.stride2d + j * c.stride1d + b := by
  obtain ⟨hline, hpixel, hbyte⟩ := @line_place c.numberOf1dCopies c.length1dCopy i j b hj hb
  unfold DmaCopy.place
  rw [hline, hpixel, hbyte]

/-- A copy to the cluster. -/
theorem run_load (hdir : c.dir = true)
    (hapart : ∀ q < c.size, c.ext + c.place q ∉ cells c.loc c.size) (hq : q < c.size) :
    run (doryDmaMemcpyAsync c) m (c.loc + q) = m (c.ext + c.place q) := by
  rw [doryDmaMemcpyAsync_eq, hdir]
  refine run_moves ?_ (fun q hq r hr heq => hapart r hr ?_) hq
  · exact fun q _ r _ heq => Nat.add_left_cancel heq
  · rw [← heq]
    exact add_mem_cells hq

theorem run_load_of_notMem (hdir : c.dir = true) (hz : z ∉ cells c.loc c.size) :
    run (doryDmaMemcpyAsync c) m z = m z := by
  rw [doryDmaMemcpyAsync_eq, hdir]
  refine run_moves_of_ne fun q hq heq => hz ?_
  rw [← heq]
  exact add_mem_cells hq

/-- A copy without gaps. -/
theorem run_load_dense (hdir : c.dir = true) (hdense : c.Dense)
    (hapart : ∀ q < c.size, c.ext + q ∉ cells c.loc c.size) (hq : q < c.size) :
    run (doryDmaMemcpyAsync c) m (c.loc + q) = m (c.ext + q) := by
  rw [run_load hdir (fun r hr => by rw [place_eq_self hdense hr]; exact hapart r hr) hq,
    place_eq_self hdense hq]

/-- A copy back. -/
theorem run_store (hdir : c.dir = false)
    (hinj : ∀ q < c.size, ∀ r < c.size, c.place q = c.place r → q = r)
    (hapart : ∀ q < c.size, c.ext + c.place q ∉ cells c.loc c.size) (hq : q < c.size) :
    run (doryDmaMemcpyAsync c) m (c.ext + c.place q) = m (c.loc + q) := by
  rw [doryDmaMemcpyAsync_eq, hdir]
  refine run_moves ?_ (fun q hq r hr heq => hapart q hq ?_) hq
  · exact fun q hq r hr heq => hinj q hq r hr (Nat.add_left_cancel heq)
  · rw [heq]
    exact add_mem_cells hr

theorem run_store_of_ne (hdir : c.dir = false) (hz : ∀ q < c.size, c.ext + c.place q ≠ z) :
    run (doryDmaMemcpyAsync c) m z = m z := by
  rw [doryDmaMemcpyAsync_eq, hdir]
  exact run_moves_of_ne hz

/-- A copy back without gaps. -/
theorem run_store_dense (hdir : c.dir = false) (hdense : c.Dense)
    (hapart : ∀ q < c.size, c.ext + q ∉ cells c.loc c.size) :
    (∀ q < c.size, run (doryDmaMemcpyAsync c) m (c.ext + q) = m (c.loc + q)) ∧
      ∀ z, z ∉ cells c.ext c.size → run (doryDmaMemcpyAsync c) m z = m z := by
  have hplace : ∀ q < c.size, c.place q = q := fun q hq => place_eq_self hdense hq
  refine ⟨fun q hq => ?_, fun z hz => run_store_of_ne hdir fun q hq heq => hz ?_⟩
  · have hstore := run_store (m := m) hdir (fun q hq r hr heq => by rwa [hplace q hq, hplace r hr] at heq)
      (fun r hr => by rw [hplace r hr]; exact hapart r hr) hq
    rwa [hplace q hq] at hstore
  · rw [← heq, hplace q hq]
    exact add_mem_cells hq

end

/-! ## Blocks of an image -/

/-- The bytes of an image in a memory, its lines of so many pixels and its pixels of so many
bytes. -/
def featureAt (m : Memory) (p width ch : Nat) : Feature UInt8 := fun y x c =>
  m (p + (y * width + x) * ch + c)

section
variable {c : DmaCopy} {m : Memory} {p width ch oy ox oc i j b : Nat}

theorem feature_inj {y x o y' x' o' : Nat} (hx : x < width) (hx' : x' < width) (ho : o < ch)
    (ho' : o' < ch) (heq : (y * width + x) * ch + o = (y' * width + x') * ch + o') :
    y = y' ∧ x = x' ∧ o = o' := by
  obtain ⟨hline, hpixel, hbyte⟩ := @line_place width ch y x o hx ho
  obtain ⟨hline', hpixel', hbyte'⟩ := @line_place width ch y' x' o' hx' ho'
  rw [heq] at hline hpixel hbyte
  exact ⟨hline.symm.trans hline', hpixel.symm.trans hpixel', hbyte.symm.trans hbyte'⟩

/-- The copy is of a block of an image: of some lines, some pixels of each and some bytes of
each pixel. -/
structure DmaCopy.Block (c : DmaCopy) (p width ch oy ox oc : Nat) : Prop where
  stride2d : c.stride2d = width * ch
  stride1d : c.stride1d = ch
  ext : c.ext = p + (oy * width + ox) * ch + oc
  pixels : ox + c.numberOf1dCopies ≤ width
  bytes : oc + c.length1dCopy ≤ ch

theorem DmaCopy.Block.place (h : c.Block p width ch oy ox oc) (hj : j < c.numberOf1dCopies)
    (hb : b < c.length1dCopy) :
    c.ext + c.place ((i * c.numberOf1dCopies + j) * c.length1dCopy + b) =
      p + ((oy + i) * width + (ox + j)) * ch + (oc + b) := by
  rw [place_index hj hb, h.stride2d, h.stride1d, h.ext]
  ring

/-- **A block is loaded.** -/
theorem DmaCopy.Block.run_load (h : c.Block p width ch oy ox oc) (hdir : c.dir = true)
    (hapart : ∀ i < c.numberOf2dCopies, ∀ j < c.numberOf1dCopies, ∀ b < c.length1dCopy,
      p + ((oy + i) * width + (ox + j)) * ch + (oc + b) ∉ cells c.loc c.size)
    (hi : i < c.numberOf2dCopies) (hj : j < c.numberOf1dCopies) (hb : b < c.length1dCopy) :
    featureAt (run (doryDmaMemcpyAsync c) m) c.loc c.numberOf1dCopies c.length1dCopy i j b =
      featureAt m p width ch (oy + i) (ox + j) (oc + b) := by
  have hload := Network.run_load (m := m) hdir (fun q hq => ?_) (feature_lt hi hj hb)
  · rw [h.place hj hb, ← Nat.add_assoc] at hload
    exact hload
  · obtain ⟨i, hi, j, hj, b, hb, rfl⟩ := exists_index hq
    rw [h.place hj hb]
    exact hapart i hi j hj b hb

/-- **A block is stored.** -/
theorem DmaCopy.Block.run_store (h : c.Block p width ch oy ox oc) (hdir : c.dir = false)
    (hapart : ∀ i < c.numberOf2dCopies, ∀ j < c.numberOf1dCopies, ∀ b < c.length1dCopy,
      p + ((oy + i) * width + (ox + j)) * ch + (oc + b) ∉ cells c.loc c.size)
    (hi : i < c.numberOf2dCopies) (hj : j < c.numberOf1dCopies) (hb : b < c.length1dCopy) :
    featureAt (run (doryDmaMemcpyAsync c) m) p width ch (oy + i) (ox + j) (oc + b) =
      featureAt m c.loc c.numberOf1dCopies c.length1dCopy i j b := by
  have hstore := Network.run_store (m := m) hdir (fun q hq r hr heq => ?_) (fun q hq => ?_)
    (feature_lt hi hj hb)
  · rw [h.place hj hb] at hstore
    exact hstore.trans (congrArg m (Nat.add_assoc _ _ _).symm)
  · obtain ⟨i, hi, j, hj, b, hb, rfl⟩ := exists_index hq
    obtain ⟨i', hi', j', hj', b', hb', rfl⟩ := exists_index hr
    have hpixels := h.pixels
    have hbytes := h.bytes
    have hplaces : c.ext + c.place _ = c.ext + c.place _ := congrArg (c.ext + ·) heq
    rw [h.place hj hb, h.place hj' hb'] at hplaces
    have hsame : ((oy + i) * width + (ox + j)) * ch + (oc + b) =
        ((oy + i') * width + (ox + j')) * ch + (oc + b') := by omega
    obtain ⟨hline, hpixel, hbyte⟩ := feature_inj (by omega) (by omega) (by omega) (by omega) hsame
    rw [show i = i' by omega, show j = j' by omega, show b = b' by omega]
  · obtain ⟨i, hi, j, hj, b, hb, rfl⟩ := exists_index hq
    rw [h.place hj hb]
    exact hapart i hi j hj b hb

/-- What is not of the block stays. -/
theorem DmaCopy.Block.run_store_of_ne (h : c.Block p width ch oy ox oc) (hdir : c.dir = false)
    {z : Nat} (hz : ∀ i < c.numberOf2dCopies, ∀ j < c.numberOf1dCopies, ∀ b < c.length1dCopy,
      p + ((oy + i) * width + (ox + j)) * ch + (oc + b) ≠ z) :
    run (doryDmaMemcpyAsync c) m z = m z := by
  refine Network.run_store_of_ne hdir fun q hq => ?_
  obtain ⟨i, hi, j, hj, b, hb, rfl⟩ := exists_index hq
  rw [h.place hj hb]
  exact hz i hi j hj b hb

end

end AiDeck.Network
