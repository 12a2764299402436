import AiDeck.Lib.Bytes
import AiDeck.Lib.Transition

/-! # Cropping a frame in place

`camera_crop_task` of nanocockpit/lib/camera.c with the bytes it moves: source and destination
are rows of the same frame buffer. -/
namespace AiDeck.Camera
open AiDeck.Lib AiDeck.Lib.Bytes

/-- `CAMERA_CAPTURE_*` and `CAMERA_CROP_*`: something is left in both directions. -/
structure CropGeometry where
  captureWidth : Nat
  captureHeight : Nat
  cropTop : Nat
  cropLeft : Nat
  cropRight : Nat
  width : cropLeft + cropRight < captureWidth
  height : cropTop < captureHeight

namespace CropGeometry

def cropWidth (g : CropGeometry) : Nat := g.captureWidth - g.cropLeft - g.cropRight
def cropHeight (g : CropGeometry) : Nat := g.captureHeight - g.cropTop

/-- The bytes of a frame. -/
def size (g : CropGeometry) : Nat := g.captureWidth * g.captureHeight

end CropGeometry

/-- Where `camera_crop_task` goes on: at its start, behind `CO_YIELD`, or nowhere. -/
inductive CropPoint where
  | start
  | yielded
  | done
  deriving DecidableEq, Repr

/-- An access outside of the frame buffer, or a loop without end. -/
inductive CropStop where
  | outside
  | diverged
  deriving DecidableEq, Repr

/-- The static variables of the task, and the memory. -/
structure CropTask where
  point : CropPoint
  srcBuffer : Nat
  dstBuffer : Nat
  i : Nat
  mem : Nat → UInt8

section
variable (g : CropGeometry) (buffer : Nat)

/-- A run of bytes in the frame buffer. -/
def InFrame (p n : Nat) : Prop := buffer ≤ p ∧ p + n ≤ buffer + g.size

instance (p n : Nat) : Decidable (InFrame g buffer p n) := inferInstanceAs (Decidable (_ ∧ _))

/-- `memmove`: all bytes are read before the first is written. -/
def memmove (mem : Nat → UInt8) (dst src n : Nat) : Except CropStop (Nat → UInt8) :=
  if InFrame g buffer src n ∧ InFrame g buffer dst n then .ok (overwrite mem dst (segment mem src n))
  else .error .outside

/-- The row copied in one round of the loop. -/
def cropRow (s : CropTask) : Except CropStop CropTask := do
  let mem ← memmove g buffer s.mem s.dstBuffer (s.srcBuffer + g.cropLeft) g.cropWidth
  return { s with
    mem := mem
    srcBuffer := s.srcBuffer + g.captureWidth
    dstBuffer := s.dstBuffer + g.cropWidth }

/-- The loop, with a bound on its rounds; `yields` tells the rows after which it yields. -/
def cropLoop (yields : Nat → Bool) : Nat → CropTask → Except CropStop CropTask
  | 0, _ => .error .diverged
  | n + 1, s =>
    if s.i < g.cropHeight then do
      let s ← cropRow g buffer s
      if yields s.i then return { s with point := .yielded }
      else cropLoop yields n { s with i := s.i + 1 }
    else return { s with point := .done }

/-- `camera_crop_task` from where it is to its next yield or its end. -/
def cropTask (yields : Nat → Bool) (s : CropTask) : Except CropStop CropTask :=
  if s.point = .start then
    cropLoop g buffer yields (g.cropHeight + 1) { s with
      srcBuffer := buffer + g.cropTop * g.captureWidth
      dstBuffer := buffer
      i := 0 }
  else cropLoop g buffer yields (g.cropHeight + 1) { s with i := s.i + 1 }

abbrev cameraCropYield : Nat := 1

/-- The rows after which `camera_crop_task` yields. -/
def cameraCropYields (i : Nat) : Bool := i % cameraCropYield == 0

/-! ## Rows -/

/-- The first `rows` rows are cropped, and what is behind them is still that of the frame. -/
structure Cropped (frame mem : Nat → UInt8) (rows : Nat) : Prop where
  copied : ∀ i < rows, ∀ j < g.cropWidth, mem (buffer + i * g.cropWidth + j) =
    frame (buffer + (i + g.cropTop) * g.captureWidth + g.cropLeft + j)
  kept : ∀ k, rows * g.cropWidth ≤ k → k < g.size → mem (buffer + k) = frame (buffer + k)

/-- The pointers and the memory at the head of the loop. -/
structure AtRow (frame : Nat → UInt8) (s : CropTask) (rows : Nat) : Prop where
  bound : rows ≤ g.cropHeight
  srcBuffer : s.srcBuffer = buffer + (rows + g.cropTop) * g.captureWidth
  dstBuffer : s.dstBuffer = buffer + rows * g.cropWidth
  cropped : Cropped g buffer frame s.mem rows

end

namespace CropGeometry

variable (g : CropGeometry)

theorem cropWidth_eq : g.cropLeft + g.cropWidth + g.cropRight = g.captureWidth := by
  have hwidth := g.width
  rw [cropWidth]
  omega

theorem cropHeight_eq : g.cropHeight + g.cropTop = g.captureHeight :=
  Nat.sub_add_cancel g.height.le

/-- The columns of a row are in the frame. -/
theorem source_le {i : Nat} (hi : i < g.cropHeight) :
    (i + g.cropTop) * g.captureWidth + g.cropLeft + g.cropWidth ≤ g.size := by
  have hrow : (i + g.cropTop + 1) * g.captureWidth ≤ g.captureHeight * g.captureWidth := by
    refine Nat.mul_le_mul_right _ ?_
    have hheight := g.cropHeight_eq
    omega
  have hwidth := g.cropWidth_eq
  rw [Nat.add_mul, Nat.one_mul, Nat.mul_comm g.captureHeight] at hrow
  rw [size]
  omega

/-- A row is moved towards the start of the buffer. -/
theorem destination_le (i : Nat) : i * g.cropWidth ≤ (i + g.cropTop) * g.captureWidth := by
  have hwidth := g.cropWidth_eq
  exact Nat.mul_le_mul (Nat.le_add_right _ _) (by omega)

end CropGeometry

section
variable {g : CropGeometry} {buffer : Nat} {frame : Nat → UInt8} {s : CropTask} {rows : Nat}

/-- **A row is copied before any of its pixels is overwritten.** -/
theorem AtRow.cropRow (h : AtRow g buffer frame s rows) (hlt : rows < g.cropHeight) :
    ∃ s', cropRow g buffer s = .ok s' ∧ s'.i = s.i ∧ AtRow g buffer frame s' (rows + 1) ∧
      ∀ p, ¬ InFrame g buffer p 1 → s'.mem p = s.mem p := by
  have hsource := g.source_le hlt
  have hdestination := g.destination_le rows
  have hsrc : InFrame g buffer (s.srcBuffer + g.cropLeft) g.cropWidth := by
    rw [h.srcBuffer]
    constructor <;> omega
  have hdst : InFrame g buffer s.dstBuffer g.cropWidth := by
    rw [h.dstBuffer]
    constructor <;> omega
  have hnext : (rows + 1) * g.cropWidth = rows * g.cropWidth + g.cropWidth := Nat.succ_mul _ _
  have hlength := segment_length s.mem (s.srcBuffer + g.cropLeft) g.cropWidth
  refine ⟨{ s with
    mem := overwrite s.mem s.dstBuffer (segment s.mem (s.srcBuffer + g.cropLeft) g.cropWidth)
    srcBuffer := s.srcBuffer + g.captureWidth
    dstBuffer := s.dstBuffer + g.cropWidth }, ?_, rfl, ⟨hlt, ?_, ?_, ⟨?_, ?_⟩⟩, ?_⟩
  · rw [AiDeck.Camera.cropRow, memmove, if_pos ⟨hsrc, hdst⟩]
    rfl
  · change s.srcBuffer + g.captureWidth = _
    rw [h.srcBuffer, Nat.add_right_comm rows, Nat.succ_mul, Nat.add_assoc]
  · change s.dstBuffer + g.cropWidth = _
    rw [h.dstBuffer, hnext, Nat.add_assoc]
  · intro i hi j hj
    change overwrite s.mem s.dstBuffer _ _ = _
    rcases Nat.lt_succ_iff_lt_or_eq.mp hi with hi | rfl
    · have hbefore : (i + 1) * g.cropWidth ≤ rows * g.cropWidth := Nat.mul_le_mul_right _ hi
      rw [Nat.succ_mul] at hbefore
      rw [overwrite_before _ _ (by rw [h.dstBuffer]; omega)]
      exact h.cropped.copied i hi j hj
    · rw [← h.dstBuffer, overwrite_at _ _ (by rw [hlength]; exact hj), segment_getElem, h.srcBuffer,
        Nat.add_assoc buffer, Nat.add_assoc buffer]
      exact h.cropped.kept _ (by omega) (by omega)
  · intro k hk hsize
    change overwrite s.mem s.dstBuffer _ _ = _
    rw [overwrite_after _ _ (by rw [hlength, h.dstBuffer]; omega)]
    exact h.cropped.kept k (by omega) hsize
  · intro p hp
    change overwrite s.mem s.dstBuffer _ _ = _
    obtain ⟨hlow, hhigh⟩ := hdst
    by_cases hbefore : p < s.dstBuffer
    · exact overwrite_before _ _ hbefore
    · refine overwrite_after _ _ ?_
      rw [hlength]
      by_contra hinside
      exact hp ⟨by omega, by omega⟩

/-! ## Runs of the loop -/

/-- What is left of the frame and what is done, at each of the points. -/
inductive Going (g : CropGeometry) (buffer : Nat) (frame : Nat → UInt8) (s : CropTask) : Prop
  | start (hpoint : s.point = .start) (h : Cropped g buffer frame s.mem 0)
  | yielded (hpoint : s.point = .yielded) (hi : s.i < g.cropHeight)
    (h : AtRow g buffer frame s (s.i + 1))
  | done (hpoint : s.point = .done) (h : Cropped g buffer frame s.mem g.cropHeight)

/-- The rounds a task may still need. -/
def CropTask.left (g : CropGeometry) (s : CropTask) : Nat :=
  match s.point with
  | .start => g.cropHeight + 1
  | .yielded => g.cropHeight - s.i
  | .done => 0

theorem cropLoop_spec (yields : Nat → Bool) {n : Nat} (h : AtRow g buffer frame s s.i)
    (hn : g.cropHeight - s.i < n) :
    ∃ s', cropLoop g buffer yields n s = .ok s' ∧ Going g buffer frame s' ∧
      s'.left g ≤ g.cropHeight - s.i ∧ ∀ p, ¬ InFrame g buffer p 1 → s'.mem p = s.mem p := by
  induction n generalizing s with
  | zero => exact absurd hn (Nat.not_lt_zero _)
  | succ n ih =>
    by_cases hlt : s.i < g.cropHeight
    · obtain ⟨s₁, hrow, hi, h₁, hframe⟩ := h.cropRow hlt
      rw [← hi] at h₁
      cases hyields : yields s₁.i with
      | true =>
        refine ⟨{ s₁ with point := .yielded }, ?_, .yielded rfl ?_
          ⟨h₁.bound, h₁.srcBuffer, h₁.dstBuffer, h₁.cropped⟩, ?_, hframe⟩
        · simp only [cropLoop, if_pos hlt, hrow]
          exact if_pos hyields
        · exact hi ▸ hlt
        · change g.cropHeight - s₁.i ≤ _
          rw [hi]
      | false =>
        obtain ⟨s', hloop, hgoing, hleft, hkept⟩ := ih (s := { s₁ with i := s₁.i + 1 })
          ⟨h₁.bound, h₁.srcBuffer, h₁.dstBuffer, h₁.cropped⟩ (by
            change g.cropHeight - (s₁.i + 1) < n
            omega)
        refine ⟨s', ?_, hgoing, ?_, fun p hp => (hkept p hp).trans (hframe p hp)⟩
        · simp only [cropLoop, if_pos hlt, hrow]
          exact (if_neg (by rw [hyields]; decide)).trans hloop
        · change _ ≤ g.cropHeight - (s₁.i + 1) at hleft
          omega
    · have hend : s.i = g.cropHeight := Nat.le_antisymm h.bound (Nat.not_lt.mp hlt)
      refine ⟨{ s with point := .done }, ?_, .done rfl (hend ▸ h.cropped), Nat.zero_le _,
        fun p _ => rfl⟩
      simp only [cropLoop, if_neg hlt]
      rfl

/-- **A task that is resumed goes on to its next yield or to its end**, in the frame. -/
theorem Going.cropTask (h : Going g buffer frame s) (yields : Nat → Bool)
    (hpoint : s.point ≠ .done) :
    ∃ s', cropTask g buffer yields s = .ok s' ∧ Going g buffer frame s' ∧ s'.left g < s.left g ∧
      ∀ p, ¬ InFrame g buffer p 1 → s'.mem p = s.mem p := by
  cases h with
  | start hstart h =>
    obtain ⟨s', hloop, hgoing, hleft, hkept⟩ := cropLoop_spec yields (n := g.cropHeight + 1)
      (s := { s with
        srcBuffer := buffer + g.cropTop * g.captureWidth
        dstBuffer := buffer
        i := 0 })
      ⟨Nat.zero_le _, by rw [Nat.zero_add], by rw [Nat.zero_mul, Nat.add_zero], h⟩
      (Nat.lt_succ_self _)
    refine ⟨s', (if_pos hstart).trans hloop, hgoing, ?_, hkept⟩
    rw [CropTask.left.eq_def g s, hstart]
    exact Nat.lt_succ_of_le hleft
  | yielded hyielded hi h =>
    obtain ⟨s', hloop, hgoing, hleft, hkept⟩ := cropLoop_spec yields (n := g.cropHeight + 1)
      (s := { s with i := s.i + 1 }) ⟨h.bound, h.srcBuffer, h.dstBuffer, h.cropped⟩
      (Nat.lt_succ_of_le (Nat.sub_le _ _))
    refine ⟨s', (if_neg (by rw [hyielded]; decide)).trans hloop, hgoing, ?_, hkept⟩
    rw [CropTask.left.eq_def g s, hyielded]
    change _ ≤ g.cropHeight - (s.i + 1) at hleft
    change _ < g.cropHeight - s.i
    omega
  | done hdone _ => exact absurd hdone hpoint

/-- Whatever is written outside of the frame. -/
theorem Cropped.congr {mem mem' : Nat → UInt8} (h : Cropped g buffer frame mem rows)
    (hrows : rows ≤ g.cropHeight) (hsame : ∀ p, InFrame g buffer p 1 → mem' p = mem p) :
    Cropped g buffer frame mem' rows := by
  constructor
  · intro i hi j hj
    have hsource := g.source_le (Nat.lt_of_lt_of_le hi hrows)
    have hdestination := g.destination_le i
    rw [← h.copied i hi j hj]
    exact hsame _ ⟨by omega, by omega⟩
  · intro k hk hsize
    rw [← h.kept k hk hsize]
    exact hsame _ ⟨by omega, by omega⟩

theorem Going.congr (h : Going g buffer frame s) {mem' : Nat → UInt8}
    (hsame : ∀ p, InFrame g buffer p 1 → mem' p = s.mem p) :
    Going g buffer frame { s with mem := mem' } := by
  cases h with
  | start hpoint h => exact .start hpoint (h.congr (Nat.zero_le _) hsame)
  | yielded hpoint hi h =>
    exact .yielded hpoint hi ⟨h.bound, h.srcBuffer, h.dstBuffer, h.cropped.congr hi hsame⟩
  | done hpoint h => exact .done hpoint (h.congr (Nat.le_refl _) hsame)

end

/-! ## Runs of the task -/

/-- The task is resumed, or anything else writes to memory outside of the frame. -/
inductive CropStep (g : CropGeometry) (buffer : Nat) (yields : Nat → Bool) :
    CropTask → CropTask → Prop
  | resume {s s'} (hpoint : s.point ≠ .done) (h : cropTask g buffer yields s = .ok s') :
    CropStep g buffer yields s s'
  | other {s} (mem' : Nat → UInt8) (hsame : ∀ p, InFrame g buffer p 1 → mem' p = s.mem p) :
    CropStep g buffer yields s { s with mem := mem' }

/-- A task started on a frame buffer that holds `frame`. -/
def cropping (g : CropGeometry) (buffer : Nat) (frame : Nat → UInt8) (yields : Nat → Bool) :
    Transition CropTask where
  init s := s.point = .start ∧ ∀ p, InFrame g buffer p 1 → s.mem p = frame p
  step := CropStep g buffer yields

section
variable {g : CropGeometry} {buffer : Nat} {frame : Nat → UInt8} {yields : Nat → Bool} {s : CropTask}

theorem going (h : (cropping g buffer frame yields).Reachable s) : Going g buffer frame s := by
  refine h.invariant ?_ ?_
  · rintro s ⟨hpoint, hsame⟩
    refine .start hpoint ⟨fun i hi => absurd hi (Nat.not_lt_zero i), fun k _ hk => ?_⟩
    exact hsame _ ⟨by omega, by omega⟩
  · intro s s' hs hstep
    cases hstep with
    | resume hpoint hok =>
      obtain ⟨s'', hok', hgoing, -, -⟩ := hs.cropTask yields hpoint
      obtain rfl := Except.ok.inj (hok'.symm.trans hok)
      exact hgoing
    | other mem' hsame => exact hs.congr hsame

/-- **The crop.** However often the task yields, it stays in the frame buffer and comes to
its end, and there the rows of the crop are those of the frame. -/
theorem crop_in_place (h : (cropping g buffer frame yields).Reachable s) :
    (s.point ≠ .done → ∃ s', cropTask g buffer yields s = .ok s' ∧ s'.left g < s.left g ∧
      ∀ p, ¬ InFrame g buffer p 1 → s'.mem p = s.mem p) ∧
      (s.point = .done → ∀ i < g.cropHeight, ∀ j < g.cropWidth,
        s.mem (buffer + i * g.cropWidth + j) =
          frame (buffer + (i + g.cropTop) * g.captureWidth + g.cropLeft + j)) := by
  have hgoing := going h
  constructor
  · intro hpoint
    obtain ⟨s', hok, -, hleft, hkept⟩ := hgoing.cropTask yields hpoint
    exact ⟨s', hok, hleft, hkept⟩
  · intro hdone
    cases hgoing with
    | start hpoint _ => cases hpoint.symm.trans hdone
    | yielded hpoint _ _ => cases hpoint.symm.trans hdone
    | done _ hcropped => exact hcropped.copied

end

/-- Two lines of four pixels, of which three are kept: each line moves onto its own beginning. -/
theorem crop_in_place_pixels :
    ∃ s, (cropping ⟨4, 2, 0, 1, 0, by decide, by decide⟩ 0 UInt8.ofNat cameraCropYields).Reachable s ∧
      s.point = .done ∧ s.mem (0 + 1 * 3 + 2) = UInt8.ofNat (0 + (1 + 0) * 4 + 1 + 2) := by
  have hstart := Transition.Reachable.init (T := cropping ⟨4, 2, 0, 1, 0, by decide, by decide⟩ 0
    UInt8.ofNat cameraCropYields) (s := ⟨.start, 0, 0, 0, UInt8.ofNat⟩) ⟨rfl, fun _ _ => rfl⟩
  have hfirst := hstart.step (.resume (by decide) rfl)
  have hsecond := hfirst.step (.resume (by decide) rfl)
  have hdone := hsecond.step (.resume (by decide) rfl)
  exact ⟨_, hdone, rfl, (crop_in_place hdone).2 rfl 1 (by decide) 2 (by decide)⟩

end AiDeck.Camera
