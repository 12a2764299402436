import Mathlib
import AiDeck.Network.Dma

/-! # Layers tile by tile

A layer goes through the tiles of its output: what changes from tile to tile is copied to the
cluster, all cores compute, and the tile is copied back. -/
namespace AiDeck.Network

open AiDeck.Lib AiDeck.Lib.Cores

/-! ## The loop -/

/-- The indices of a tile: channels of the output, of the input, lines and columns. -/
structure TileIndex where
  nof : Nat
  nif : Nat
  h : Nat
  w : Nat
  deriving DecidableEq

/-- `dory_get_tile_3d`; `int` expressions are added to an address. -/
def doryGetTile3d (x : Nat) (tileII tileJJ tileKK tileSizeI tileSizeJ tileSizeK tileStrideJ
    tileStrideK tileOverlapI tileOverlapJ tileOverlapK tileOffsetI tileOffsetJ tileOffsetK
    dataSize : Int) : Nat :=
  (x + ((tileII * (tileSizeI - tileOverlapI) - tileOffsetI) * tileStrideJ * tileStrideK *
      dataSize).tdiv 8 +
    ((tileJJ * (tileSizeJ - tileOverlapJ) - tileOffsetJ) * tileStrideK * dataSize).tdiv 8 +
    ((tileKK * (tileSizeK - tileOverlapK) - tileOffsetK) * dataSize).tdiv 8).toNat

/-- The end of the body of the loop: columns, then lines, then channels of the output, and with
these in one layer those of the input. -/
def nextTile (tileDimH tileDimW nifStep : Nat) (i : TileIndex) : TileIndex :=
  if i.w + 1 = tileDimW then
    if i.h + 1 = tileDimH then { nof := i.nof + 1, nif := i.nif + nifStep, h := 0, w := 0 }
    else { i with h := i.h + 1, w := 0 }
  else { i with w := i.w + 1 }

/-- What a layer does for a tile: what it loads, given the tile before, what the cores do, and
what it stores. -/
structure TiledLayer where
  totalTiles : Nat
  next : TileIndex → TileIndex
  loads : TileIndex → TileIndex → List DmaCopy
  kernel : TileIndex → Memory → Memory → Prop
  store : TileIndex → DmaCopy

/-- The loop from tile number `iter` on; the indices are those of the tile and of the one
before. Barriers of all cores are between the copies and the kernel. -/
inductive TileLoop (t : TiledLayer) : Nat → TileIndex → TileIndex → Memory → Memory → Prop
  | done {iter : Nat} {load exec : TileIndex} {m : Memory} (hiter : ¬ iter < t.totalTiles) :
      TileLoop t iter load exec m m
  | tile {iter : Nat} {load exec : TileIndex} {m m' n : Memory} (hiter : iter < t.totalTiles)
      (hloads : ∀ c ∈ t.loads load exec, c.Valid)
      (hkernel : t.kernel load (run ((t.loads load exec).flatMap doryDmaMemcpyAsync) m) m')
      (hstore : (t.store load).Valid)
      (hrest : TileLoop t (iter + 1) (t.next load) load
        (run (doryDmaMemcpyAsync (t.store load)) m') n) :
      TileLoop t iter load exec m n

/-! ## The order of the tiles -/

/-- The tile of a number. -/
def tileAt (tileDimH tileDimW iter : Nat) : TileIndex :=
  ⟨iter / tileDimW / tileDimH, 0, iter / tileDimW % tileDimH, iter % tileDimW⟩

section
variable {tileDimH tileDimW iter : Nat}

/-- One more, in the digits of a number. -/
theorem succ_div_mod {d n : Nat} (hd : 0 < d) :
    (n % d + 1 = d → (n + 1) / d = n / d + 1 ∧ (n + 1) % d = 0) ∧
    (n % d + 1 ≠ d → (n + 1) / d = n / d ∧ (n + 1) % d = n % d + 1) := by
  have hsplit := Nat.div_add_mod n d
  have hmod := Nat.mod_lt n hd
  constructor
  · intro hlast
    have heq : n + 1 = d * (n / d + 1) := by
      rw [Nat.mul_add, Nat.mul_one]
      omega
    rw [heq, Nat.mul_div_cancel_left _ hd, Nat.mul_mod_right]
    exact ⟨rfl, rfl⟩
  · intro hnot
    have heq : n + 1 = d * (n / d) + (n % d + 1) := by omega
    have hlt : n % d + 1 < d := by omega
    rw [heq, Nat.mul_add_div hd, Nat.mul_add_mod, Nat.div_eq_of_lt hlt, Nat.mod_eq_of_lt hlt]
    exact ⟨Nat.add_zero _, rfl⟩

theorem nextTile_tileAt (hh : 0 < tileDimH) (hw : 0 < tileDimW) {nifStep : Nat}
    (hnif : nifStep = 0 ∨ iter + 1 < tileDimH * tileDimW) :
    nextTile tileDimH tileDimW nifStep (tileAt tileDimH tileDimW iter) =
      tileAt tileDimH tileDimW (iter + 1) := by
  obtain ⟨hlast, hnot⟩ := @succ_div_mod tileDimW iter hw
  obtain ⟨hlast', hnot'⟩ := @succ_div_mod tileDimH (iter / tileDimW) hh
  unfold nextTile tileAt
  dsimp only
  split
  next hcolumn =>
    obtain ⟨hdiv, hmod⟩ := hlast hcolumn
    split
    next hline =>
      obtain ⟨hdiv', hmod'⟩ := hlast' hline
      rw [hdiv, hmod, hdiv', hmod']
      rcases hnif with rfl | hlt
      · rfl
      · -- there is no tile behind this one
        have hlines : (iter + 1) / tileDimW < tileDimH :=
          Nat.div_lt_of_lt_mul (hlt.trans_eq (Nat.mul_comm _ _))
        rw [hdiv] at hlines
        rw [Nat.mod_eq_of_lt (by omega)] at hline
        omega
    next hline =>
      obtain ⟨hdiv', hmod'⟩ := hnot' hline
      rw [hdiv, hmod, hdiv', hmod']
  next hcolumn =>
    obtain ⟨hdiv, hmod⟩ := hnot hcolumn
    rw [hdiv, hmod]

theorem tileAt_zero : tileAt tileDimH tileDimW 0 = ⟨0, 0, 0, 0⟩ := by
  unfold tileAt
  rw [Nat.zero_div, Nat.zero_div, Nat.zero_mod, Nat.zero_mod]

/-- Each combination of indices is that of a tile. -/
theorem exists_tileAt {tileDimNof nof h w : Nat} (hnof : nof < tileDimNof) (hh : h < tileDimH)
    (hw : w < tileDimW) : ∃ iter < tileDimNof * tileDimH * tileDimW,
      tileAt tileDimH tileDimW iter = ⟨nof, 0, h, w⟩ := by
  refine ⟨(nof * tileDimH + h) * tileDimW + w, feature_lt hnof hh hw, ?_⟩
  obtain ⟨hline, hpixel, hbyte⟩ := @Convolution.line_place tileDimH tileDimW nof h w hh hw
  unfold tileAt
  rw [hline, hpixel, hbyte]

end

/-- The address of a tile of bytes, from where it starts in its image. -/
theorem doryGetTile3d_eq {x y z o tileStrideJ tileStrideK : Nat} {tileII tileJJ tileKK tileSizeI
    tileSizeJ tileSizeK tileOverlapI tileOverlapJ tileOverlapK tileOffsetI tileOffsetJ
    tileOffsetK : Int} (hy : tileII * (tileSizeI - tileOverlapI) - tileOffsetI = y)
    (hz : tileJJ * (tileSizeJ - tileOverlapJ) - tileOffsetJ = z)
    (ho : tileKK * (tileSizeK - tileOverlapK) - tileOffsetK = o) :
    doryGetTile3d x tileII tileJJ tileKK tileSizeI tileSizeJ tileSizeK tileStrideJ tileStrideK
      tileOverlapI tileOverlapJ tileOverlapK tileOffsetI tileOffsetJ tileOffsetK 8 =
        x + (y * tileStrideJ + z) * tileStrideK + o := by
  unfold doryGetTile3d
  rw [hy, hz, ho]
  simp only [Int.mul_tdiv_cancel _ (show (8 : Int) ≠ 0 by decide)]
  have hcast : (x + (y : Int) * tileStrideJ * tileStrideK + z * tileStrideK + o) =
      ((x + (y * tileStrideJ + z) * tileStrideK + o : Nat) : Int) := by
    push_cast
    ring
  rw [hcast, Int.toNat_natCast]

/-! ## What holds from tile to tile -/

section
variable {t : TiledLayer} {tile : Nat → TileIndex} {first : TileIndex} {P : Nat → Memory → Prop}

/-- The indices of the tile before. -/
def tileBefore (tile : Nat → TileIndex) (first : TileIndex) : Nat → TileIndex
  | 0 => first
  | iter + 1 => tile iter

/-- The tiles up to `iter` are done, and for the next one nothing stands in the way. -/
structure TileStep (t : TiledLayer) (load exec : TileIndex) (m : Memory) (Q : Memory → Prop) :
    Prop where
  loads : ∀ c ∈ t.loads load exec, c.Valid
  store : (t.store load).Valid
  ends : ∃ m', t.kernel load (run ((t.loads load exec).flatMap doryDmaMemcpyAsync) m) m'
  after : ∀ m', t.kernel load (run ((t.loads load exec).flatMap doryDmaMemcpyAsync) m) m' →
    Q (run (doryDmaMemcpyAsync (t.store load)) m')

variable (hnext : ∀ iter, iter + 1 < t.totalTiles → t.next (tile iter) = tile (iter + 1))
  (hstep : ∀ iter < t.totalTiles, ∀ m, P iter m →
    TileStep t (tile iter) (tileBefore tile first iter) m (P (iter + 1)))
include hnext hstep

/-- **What each tile keeps holds after the last.** -/
theorem TileLoop.keeps {iter : Nat} {load exec : TileIndex} {m n : Memory}
    (hloop : TileLoop t iter load exec m n) (hle : iter ≤ t.totalTiles)
    (hload : iter < t.totalTiles → load = tile iter) (hexec : exec = tileBefore tile first iter)
    (hm : P iter m) : P t.totalTiles n := by
  induction hloop with
  | done hiter =>
    rw [show t.totalTiles = _ from Nat.le_antisymm (Nat.not_lt.mp hiter) hle]
    exact hm
  | tile hiter _ hkernel _ _ ih =>
    obtain rfl := hload hiter
    subst hexec
    refine ih hiter (fun hlt => hnext _ hlt) rfl ?_
    exact (hstep _ hiter _ hm).after _ hkernel

theorem exists_tileLoop {left : Nat} : ∀ {iter : Nat} {load exec : TileIndex} {m : Memory},
    iter + left = t.totalTiles → (iter < t.totalTiles → load = tile iter) →
      exec = tileBefore tile first iter → P iter m → ∃ n, TileLoop t iter load exec m n := by
  induction left with
  | zero =>
    intro iter load exec m hleft _ _ _
    exact ⟨m, .done (by omega)⟩
  | succ left ih =>
    intro iter load exec m hleft hload hexec hm
    have hiter : iter < t.totalTiles := by omega
    obtain rfl := hload hiter
    subst hexec
    obtain ⟨hloads, hstore, ⟨m', hkernel⟩, hafter⟩ := hstep iter hiter m hm
    have hrest : iter + 1 + left = t.totalTiles := by omega
    obtain ⟨n, hrest⟩ := ih hrest (fun hlt => hnext _ hlt) rfl (hafter m' hkernel)
    exact ⟨n, .tile hiter hloads hkernel hstore hrest⟩

/-- **A layer tile by tile**: it comes to its end with what holds after all tiles. -/
theorem tileLoop_spec {m : Memory} (hm : P 0 m) :
    (∃ n, TileLoop t 0 (tile 0) first m n) ∧
      ∀ n, TileLoop t 0 (tile 0) first m n → P t.totalTiles n :=
  ⟨exists_tileLoop hnext hstep (Nat.zero_add _) (fun _ => rfl) rfl hm, fun _ hloop =>
    hloop.keeps hnext hstep (Nat.zero_le _) (fun _ => rfl) rfl hm⟩

omit hnext hstep in
/-- A layer of one tile. -/
theorem tileLoop_one (hone : t.totalTiles = 1) {load exec : TileIndex} {m : Memory}
    {Q : Memory → Prop} (hstep : TileStep t load exec m Q) :
    (∃ n, TileLoop t 0 load exec m n) ∧ ∀ n, TileLoop t 0 load exec m n → Q n := by
  have hnone : ∀ iter, iter + 1 < t.totalTiles → t.next load = load := fun iter hiter => by omega
  have hfirst : ∀ iter < t.totalTiles, ∀ n, (iter = 0 ∧ n = m ∨ iter = 1 ∧ Q n) →
      TileStep t load (tileBefore (fun _ => load) exec iter) n
        fun n => iter + 1 = 0 ∧ n = m ∨ iter + 1 = 1 ∧ Q n := by
    intro iter hiter n hn
    obtain rfl : iter = 0 := by omega
    obtain ⟨-, rfl⟩ := hn.resolve_right fun h => absurd h.1 zero_ne_one
    exact ⟨hstep.loads, hstep.store, hstep.ends, fun m' hm' => Or.inr ⟨rfl, hstep.after m' hm'⟩⟩
  obtain ⟨hends, hall⟩ := tileLoop_spec hnone hfirst (Or.inl ⟨rfl, rfl⟩)
  rw [hone] at hall
  exact ⟨hends, fun n hn => ((hall n hn).resolve_left fun h => absurd h.1 one_ne_zero).2⟩

end

end AiDeck.Network
