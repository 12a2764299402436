import Mathlib
import AiDeck.Lib.Cores
import AiDeck.Faces.Chunk
import AiDeck.Faces.Window

/-! # The cascade of the face detection

A window passes from stage to stage. In a stage the cores share out the weak
classifiers and each adds up its own; the stages beyond the first five are brought to
fast memory one ahead, in two buffers by turns. -/
namespace AiDeck.Faces

open AiDeck.Lib.Cores

/-- `single_cascade_t`. -/
structure SingleCascade where
  stageSize : UInt16
  rectanglesSize : UInt16
  thresholds : Nat → Int16
  alpha1 : Nat → Int16
  alpha2 : Nat → Int16
  rectNum : Nat → UInt16
  weights : Nat → Int8
  rectangles : Nat → UInt8

/-- `cascade_t`, less the buffers. -/
structure Cascade where
  stagesNum : Nat
  thresholds : Nat → Int16
  stages : Nat → SingleCascade

/-- `CASCADE_STAGES_L1`. -/
def cascadeStagesL1 : Nat := 5

/-! ## The classifiers -/

/-- What the classifiers of one window have in common, out of `eval_weak_classifier_Arg_T`. -/
structure ClassifierArg where
  integralImage : Int → UInt32
  imgW : Int
  std : Int32
  offX : Int
  offY : Int

section
variable (a : ClassifierArg) (weaks : SingleCascade)

/-- A round of the loop in `eval_weak_classifier`: what a rectangle adds to `sumw`. -/
def rectangleSum (wIdx rIdx i : Nat) : Int32 :=
  let rectangle (field : Nat) : Int := (weaks.rectangles (rIdx + 4 * i + field)).toNat
  integralImageLookup a.integralImage (a.offX + rectangle 0) (a.offY + rectangle 1) (rectangle 2)
    (rectangle 3) a.imgW * ((weaks.weights (wIdx + i)).toInt32 <<< 12)

def evalWeakClassifier (tIdx wIdx rIdx : Nat) : Int32 :=
  let t := (weaks.thresholds tIdx).toInt32 * a.std
  let count := (weaks.rectNum (tIdx + 1)).toNat - (weaks.rectNum tIdx).toNat
  let sumw := (List.range count).foldl (fun sumw i => sumw + rectangleSum a weaks wIdx rIdx i) 0
  if sumw ≥ t then (weaks.alpha2 tIdx).toInt32 else (weaks.alpha1 tIdx).toInt32

/-- The body of the loop in `spawn_eval_weak_classifier`. -/
def weakResponse (tIdx : Nat) : Int32 :=
  let wIdx := (weaks.rectNum tIdx).toNat
  let rIdx := (weaks.rectNum tIdx).toNat * 4
  evalWeakClassifier a weaks tIdx wIdx rIdx

/-- `spawn_eval_weak_classifier` on one core; the cells are those of `stage_sum`. -/
def spawnEvalWeakClassifier (nCore : UInt32) (coreId : Fin nCore.toNat) :
    List (Assign Nat Int32) :=
  ⟨coreId, fun _ => 0⟩ ::
  (chunk nCore weaks.stageSize.toUInt32 (.ofNat coreId)).map fun tIdx =>
    ⟨coreId, fun stageSum => stageSum coreId + weakResponse a weaks tIdx.toNat⟩

end

/-! ## The stages -/

/-- `async_cascade_stage_to_l1`: the arrays are copied as far as the sizes say, beyond that
the buffer holds what it held. -/
structure Copied (l2 l1 : SingleCascade) : Prop where
  stageSize : l1.stageSize = l2.stageSize
  rectanglesSize : l1.rectanglesSize = l2.rectanglesSize
  thresholds : ∀ i < l2.stageSize.toNat, l1.thresholds i = l2.thresholds i
  alpha1 : ∀ i < l2.stageSize.toNat, l1.alpha1 i = l2.alpha1 i
  alpha2 : ∀ i < l2.stageSize.toNat, l1.alpha2 i = l2.alpha2 i
  rectNum : ∀ i < l2.stageSize.toNat + 1, l1.rectNum i = l2.rectNum i
  weights : ∀ i < l2.rectanglesSize.toNat / 4, l1.weights i = l2.weights i
  rectangles : ∀ i < l2.rectanglesSize.toNat, l1.rectangles i = l2.rectangles i

/-- The local variables of the loop over the stages, with the two buffers. -/
structure StagesState where
  buffer : Nat
  buffersL1 : Nat → SingleCascade
  stageSum : Nat → Int32
  stagesScore : Int32

/-- The stage after the current one is brought to the other buffer. -/
def Prefetch (cascade : Cascade) (i : Nat) (s t : StagesState) : Prop :=
  if i ≥ cascadeStagesL1 ∧ i < cascade.stagesNum - 1 then
    ∃ l1, Copied (cascade.stages (i + 1)) l1 ∧ t = { s with
      buffer := s.buffer + 1
      buffersL1 := Function.update s.buffersL1 ((s.buffer + 1) % 2) l1 }
  else t = s

/-- What `Arg.cascade_stage` points to in round `i`: the pointer is from before the prefetch,
what it points to from after it. -/
def cascadeStage (cascade : Cascade) (i : Nat) (s t : StagesState) : SingleCascade :=
  if i < cascadeStagesL1 then cascade.stages i else t.buffersL1 (s.buffer % 2)

/-- `stage_sum[0]` after the cores are done and their sums are added up. -/
def total (stageSum : Nat → Int32) : Int32 :=
  stageSum 0 + (stageSum 1 + stageSum 2 + stageSum 3 + stageSum 4 + stageSum 5 + stageSum 6 +
    stageSum 7)

/-- The loop over the stages from `i` on, and what the classifier returns. -/
inductive StagesLoop (a : ClassifierArg) (cascade : Cascade) (nCore : UInt32) :
    Nat → StagesState → Int32 → Prop
  | done {i : Nat} {s : StagesState} (hi : i = cascade.stagesNum) :
      StagesLoop a cascade nCore i s s.stagesScore
  | rejected {i : Nat} {s t : StagesState} {stageSum : Nat → Int32} (hi : i < cascade.stagesNum)
      (hprefetch : Prefetch cascade i s t)
      (hsum : Phase (spawnEvalWeakClassifier a (cascadeStage cascade i s t) nCore)
        t.stageSum stageSum)
      (hlow : total stageSum < (cascade.thresholds i).toInt32) :
      StagesLoop a cascade nCore i s 0
  | passed {i : Nat} {s t : StagesState} {stageSum : Nat → Int32} {r : Int32}
      (hi : i < cascade.stagesNum) (hprefetch : Prefetch cascade i s t)
      (hsum : Phase (spawnEvalWeakClassifier a (cascadeStage cascade i s t) nCore)
        t.stageSum stageSum)
      (hhigh : ¬ total stageSum < (cascade.thresholds i).toInt32)
      (hrest : StagesLoop a cascade nCore (i + 1) { t with
        stageSum := Function.update stageSum 0 (total stageSum)
        stagesScore := t.stagesScore + (total stageSum - (cascade.thresholds i).toInt32) } r) :
      StagesLoop a cascade nCore i s r

/-- `windows_cascade_classifier`; the buffers and `stage_sum` may hold anything before. -/
def WindowsCascadeClassifier (integralImage squaredIntegralImage : Int → UInt32)
    (cascade : Cascade) (winW winH : UInt8) (imgW offX offY : Int) (nCore : UInt32)
    (r : Int32) : Prop :=
  let sums := windowSums integralImage squaredIntegralImage winW winH imgW offX offY
  if sums.v < 50 * 50 then r = 0
  else ∃ std s, squareRootRounded sums.square = some std ∧ s.buffer = 0 ∧ s.stagesScore = 0 ∧
    Copied (cascade.stages cascadeStagesL1) (s.buffersL1 0) ∧
    StagesLoop ⟨integralImage, imgW, std.toInt32, offX, offY⟩ cascade nCore 0 s r

/-! ## One core, one memory -/

/-- The cascade as it is meant: a stage adds up its classifiers, and a window has to reach
the threshold of every stage. -/
def plainStages (a : ClassifierArg) (cascade : Cascade) : Nat → Nat → Int32 → Int32
  | 0, _, score => score
  | left + 1, i, score =>
    let sum := (List.range (cascade.stages i).stageSize.toNat).foldl
      (fun sum tIdx => sum + weakResponse a (cascade.stages i) tIdx) 0
    if sum < (cascade.thresholds i).toInt32 then 0
    else plainStages a cascade left (i + 1) (score + (sum - (cascade.thresholds i).toInt32))

def plainClassifier (integralImage squaredIntegralImage : Int → UInt32) (cascade : Cascade)
    (winW winH : UInt8) (imgW offX offY : Int) : Option Int32 := do
  let sums := windowSums integralImage squaredIntegralImage winW winH imgW offX offY
  if sums.v < 50 * 50 then return 0
  let std ← squareRootRounded sums.square
  return plainStages ⟨integralImage, imgW, std.toInt32, offX, offY⟩ cascade cascade.stagesNum 0 0

/-- The rectangles of the classifiers follow one another and are all there. -/
structure SingleCascade.WellFormed (c : SingleCascade) : Prop where
  mono : ∀ i < c.stageSize.toNat, (c.rectNum i).toNat ≤ (c.rectNum (i + 1)).toNat
  room : ∀ i ≤ c.stageSize.toNat, (c.rectNum i).toNat * 4 ≤ c.rectanglesSize.toNat

/-! ## A stage -/

section
variable {a : ClassifierArg}

/-- A copy of a stage answers like the stage. -/
theorem weakResponse_copied {l1 l2 : SingleCascade} (h : Copied l2 l1) (hwf : l2.WellFormed)
    {tIdx : Nat} (ht : tIdx < l2.stageSize.toNat) :
    weakResponse a l1 tIdx = weakResponse a l2 tIdx := by
  have hroom := hwf.room (tIdx + 1) ht
  have hmono := hwf.mono tIdx ht
  have hrectangle : ∀ i ∈ List.range
      ((l2.rectNum (tIdx + 1)).toNat - (l2.rectNum tIdx).toNat),
      rectangleSum a l1 (l2.rectNum tIdx).toNat ((l2.rectNum tIdx).toNat * 4) i =
        rectangleSum a l2 (l2.rectNum tIdx).toNat ((l2.rectNum tIdx).toNat * 4) i := by
    intro i hi
    have hi := List.mem_range.mp hi
    have hfield (field : Nat) (hfield : field < 4) := h.rectangles
      ((l2.rectNum tIdx).toNat * 4 + 4 * i + field) (by omega)
    simp only [rectangleSum, h.weights _ (show (l2.rectNum tIdx).toNat + i < _ by omega),
      hfield 0 (by decide), hfield 1 (by decide), hfield 2 (by decide), hfield 3 (by decide)]
  rw [weakResponse, weakResponse, evalWeakClassifier, evalWeakClassifier,
    h.rectNum tIdx (by omega), h.rectNum (tIdx + 1) (by omega), h.thresholds tIdx ht,
    h.alpha1 tIdx ht, h.alpha2 tIdx ht]
  rw [List.foldl_ext _ _ 0 fun sumw i hi => congrArg (sumw + ·) (hrectangle i hi)]

theorem run_adds {f : UInt32 → Int32} (c : Nat) (l : List UInt32) (m : Nat → Int32) :
    run (l.map fun t => ⟨c, fun m => m c + f t⟩) m c = m c + (l.map f).sum := by
  induction l generalizing m with
  | nil => exact (Int32.add_zero _).symm
  | cons t l ih =>
    rw [List.map_cons, run_cons, ih, List.map_cons, List.sum_cons, ← Int32.add_assoc]
    congr 1
    exact Function.update_self _ _ _

/-- Eight cores add up all the classifiers of a stage. -/
theorem total_eq {weaks : SingleCascade} {m stageSum : Nat → Int32}
    (h : Phase (spawnEvalWeakClassifier a weaks 8) m stageSum) :
    total stageSum = (List.range weaks.stageSize.toNat).foldl
      (fun sum tIdx => sum + weakResponse a weaks tIdx) 0 := by
  have hapart : Apart (fun c : Fin (8 : UInt32).toNat => {(c : Nat)}) (fun c => {(c : Nat)})
      (spawnEvalWeakClassifier a weaks 8) := by
    constructor
    · intro c s hs
      rcases List.mem_cons.mp hs with rfl | hs
      · exact ⟨rfl, fun _ _ _ => rfl⟩
      · obtain ⟨t, -, rfl⟩ := List.mem_map.mp hs
        exact ⟨rfl, fun _ _ heq => congrArg (· + _) (heq rfl)⟩
    · intro c d hcd
      exact Set.disjoint_singleton.mpr fun he => hcd (Fin.ext he)
  have hsize : weaks.stageSize.toUInt32.toNat = weaks.stageSize.toNat := rfl
  have hlt := weaks.stageSize.toNat_lt
  have hcore (c : Nat) (hc : c < 8) : stageSum c = ((Lib.Share.block weaks.stageSize.toNat
      ((weaks.stageSize.toNat + 8 - 1) / 8) c).map (weakResponse a weaks)).sum := by
    have hid : (UInt32.ofNat c).toNat = c := by
      rw [UInt32.toNat_ofNat', Nat.mod_eq_of_lt (by omega)]
    have hlt' : UInt32.ofNat c < 8 := UInt32.lt_iff_toNat_lt.mpr (by rw [hid]; exact hc)
    have hchunk := chunk_toNat (k := 3) (x := weaks.stageSize.toUInt32) rfl
      (by rw [hsize]; change _ + 8 ≤ _; omega) hlt'
    rw [hid, hsize, show (8 : UInt32).toNat = 8 from rfl] at hchunk
    have hzero : (⟨c, fun _ => 0⟩ : Assign Nat Int32).run m c = 0 := Function.update_self _ _ _
    have halone := h.eqOn hapart ⟨c, hc⟩ (Set.mem_singleton c)
    rw [halone, spawnEvalWeakClassifier, run_cons, run_adds, ← hchunk, List.map_map]
    exact (congrArg (· + _) hzero).trans (Int32.zero_add _)
  have hall := congrArg (fun l => (l.map (weakResponse a weaks)).sum)
    (Lib.Share.flatMap_share weaks.stageSize.toNat (k := 8) (by decide))
  simp only [List.range_succ, List.range_zero, List.nil_append, List.cons_append,
    List.flatMap_cons, List.flatMap_nil, List.append_nil, List.map_append, List.sum_append] at hall
  rw [← List.foldl_map (g := fun sum x => sum + x), ← List.sum_eq_foldl, ← hall]
  simp only [total, hcore 0 (by decide), hcore 1 (by decide), hcore 2 (by decide),
    hcore 3 (by decide), hcore 4 (by decide), hcore 5 (by decide), hcore 6 (by decide),
    hcore 7 (by decide), Int32.add_assoc]

/-- The stage that the cores evaluate is the one of the round, or a copy of it. -/
structure StagesState.Ready (cascade : Cascade) (i : Nat) (s : StagesState) : Prop where
  copied : max i cascadeStagesL1 < cascade.stagesNum →
    Copied (cascade.stages (max i cascadeStagesL1)) (s.buffersL1 (s.buffer % 2))

theorem StagesState.Ready.prefetch {cascade : Cascade} {i : Nat} {s t : StagesState}
    (h : s.Ready cascade i) (hi : i < cascade.stagesNum) (hprefetch : Prefetch cascade i s t) :
    t.Ready cascade (i + 1) ∧ t.stagesScore = s.stagesScore ∧
      (cascadeStage cascade i s t = cascade.stages i ∨
        Copied (cascade.stages i) (cascadeStage cascade i s t)) := by
  rw [Prefetch] at hprefetch
  by_cases hfirst : i < cascadeStagesL1
  · rw [if_neg (by omega)] at hprefetch
    subst hprefetch
    refine ⟨⟨fun hlt => ?_⟩, rfl, Or.inl (if_pos hfirst)⟩
    have hcopied := h.copied (by omega)
    rw [Nat.max_eq_right hfirst.le] at hcopied
    rw [Nat.max_eq_right hfirst]
    exact hcopied
  · have hcopied := h.copied (by omega)
    rw [Nat.max_eq_left (by omega)] at hcopied
    have hne : s.buffer % 2 ≠ (s.buffer + 1) % 2 := by omega
    by_cases hlast : i < cascade.stagesNum - 1
    · rw [if_pos ⟨Nat.le_of_not_lt hfirst, hlast⟩] at hprefetch
      obtain ⟨l1, hl1, rfl⟩ := hprefetch
      refine ⟨⟨fun _ => ?_⟩, rfl, Or.inr ?_⟩
      · rw [Nat.max_eq_left (by omega)]
        change Copied _ (Function.update s.buffersL1 _ l1 _)
        rw [Function.update_self]
        exact hl1
      · rw [cascadeStage, if_neg hfirst]
        change Copied _ (Function.update s.buffersL1 _ l1 _)
        rw [Function.update_of_ne hne]
        exact hcopied
    · rw [if_neg (fun hor => hlast hor.2)] at hprefetch
      subst hprefetch
      refine ⟨⟨fun hlt => absurd hlt (by omega)⟩, rfl, Or.inr ?_⟩
      rw [cascadeStage, if_neg hfirst]
      exact hcopied

/-- The sum of a round, whichever buffer the stage lies in. -/
theorem total_of_round {cascade : Cascade} {i : Nat} {s t : StagesState} {stageSum : Nat → Int32}
    (hwf : (cascade.stages i).WellFormed)
    (hstage : cascadeStage cascade i s t = cascade.stages i ∨
      Copied (cascade.stages i) (cascadeStage cascade i s t))
    (hsum : Phase (spawnEvalWeakClassifier a (cascadeStage cascade i s t) 8) t.stageSum stageSum) :
    total stageSum = (List.range (cascade.stages i).stageSize.toNat).foldl
      (fun sum tIdx => sum + weakResponse a (cascade.stages i) tIdx) 0 := by
  rw [total_eq hsum]
  rcases hstage with heq | hcopied
  · rw [heq]
  · rw [hcopied.stageSize]
    refine List.foldl_ext _ _ 0 fun sum t ht => ?_
    rw [weakResponse_copied hcopied hwf (List.mem_range.mp ht)]

/-- The loop over the stages keeps to the plain cascade. -/
theorem StagesLoop.eq_plain {cascade : Cascade} {i : Nat} {s : StagesState} {r : Int32}
    (h : StagesLoop a cascade 8 i s r) (hwf : ∀ i < cascade.stagesNum, (cascade.stages i).WellFormed)
    (hready : s.Ready cascade i) (hle : i ≤ cascade.stagesNum) :
    r = plainStages a cascade (cascade.stagesNum - i) i s.stagesScore := by
  induction h with
  | done hi =>
    rw [hi, Nat.sub_self, plainStages]
  | @rejected i s t stageSum hi hprefetch hsum hlow =>
    obtain ⟨-, -, hstage⟩ := hready.prefetch hi hprefetch
    have htotal := total_of_round (hwf i hi) hstage hsum
    rw [show cascade.stagesNum - i = cascade.stagesNum - (i + 1) + 1 by omega, plainStages]
    rw [htotal] at hlow
    exact (if_pos hlow).symm
  | @passed i s t stageSum r hi hprefetch hsum hhigh hrest ih =>
    obtain ⟨hnext, hscore, hstage⟩ := hready.prefetch hi hprefetch
    have htotal := total_of_round (hwf i hi) hstage hsum
    have hrest := ih ⟨hnext.copied⟩ (by omega)
    rw [show cascade.stagesNum - i = cascade.stagesNum - (i + 1) + 1 by omega, plainStages]
    rw [htotal] at hhigh hrest
    rw [hscore] at hrest
    exact hrest.trans (if_neg hhigh).symm

/-- The loop over the stages comes to its end. -/
theorem exists_stagesLoop (a : ClassifierArg) (cascade : Cascade) {i : Nat}
    (hi : i ≤ cascade.stagesNum) (s : StagesState) : ∃ r, StagesLoop a cascade 8 i s r := by
  generalize hleft : cascade.stagesNum - i = left
  induction left generalizing i s with
  | zero => exact ⟨_, .done (by omega)⟩
  | succ left ih =>
    have hlt : i < cascade.stagesNum := by omega
    obtain ⟨t, ht⟩ : ∃ t, Prefetch cascade i s t := by
      by_cases hfetch : i ≥ cascadeStagesL1 ∧ i < cascade.stagesNum - 1
      · refine ⟨_, (if_pos hfetch).mpr ⟨cascade.stages (i + 1), ?_, rfl⟩⟩
        constructor <;> simp
      · exact ⟨s, (if_neg hfetch).mpr rfl⟩
    obtain ⟨stageSum, hsum⟩ := exists_phase
      (spawnEvalWeakClassifier a (cascadeStage cascade i s t) 8) t.stageSum
    by_cases hlow : total stageSum < (cascade.thresholds i).toInt32
    · exact ⟨0, .rejected hlt ht hsum hlow⟩
    · obtain ⟨r, hr⟩ := ih (i := i + 1) hlt { t with
        stageSum := Function.update stageSum 0 (total stageSum)
        stagesScore := t.stagesScore + (total stageSum - (cascade.thresholds i).toInt32) } (by omega)
      exact ⟨r, .passed hlt ht hsum hlow hr⟩

end

/-! ## A window -/

/-- **Eight cores and two buffers classify a window like the plain cascade**, in any
interleaving, whatever the buffers and the sums held before; and they come to a result. -/
theorem windowsCascadeClassifier_iff (integralImage squaredIntegralImage : Int → UInt32)
    (cascade : Cascade) (winW winH : UInt8) (imgW offX offY : Int)
    (hwf : ∀ i < cascade.stagesNum, (cascade.stages i).WellFormed) :
    (∃ r, WindowsCascadeClassifier integralImage squaredIntegralImage cascade winW winH imgW offX
      offY 8 r) ∧
    ∀ r, WindowsCascadeClassifier integralImage squaredIntegralImage cascade winW winH imgW offX
      offY 8 r ↔
    plainClassifier integralImage squaredIntegralImage cascade winW winH imgW offX offY = some r := by
  unfold WindowsCascadeClassifier plainClassifier
  generalize windowSums integralImage squaredIntegralImage winW winH imgW offX offY = sums
  obtain ⟨std, hstd, -⟩ := squareRootRounded_near sums.square
  by_cases hv : sums.v < 50 * 50
  · simp only [if_pos hv]
    exact ⟨⟨0, rfl⟩, fun r => eq_comm.trans (Option.some_inj.symm)⟩
  · simp only [if_neg hv, hstd, Option.bind_eq_bind, Option.bind_some, Option.some.injEq]
    have hcopied : Copied (cascade.stages cascadeStagesL1) (cascade.stages cascadeStagesL1) := by
      constructor <;> simp
    obtain ⟨r', hr'⟩ := exists_stagesLoop
      ⟨integralImage, imgW, std.toInt32, offX, offY⟩ cascade (Nat.zero_le _)
      ⟨0, fun _ => cascade.stages cascadeStagesL1, fun _ => 0, 0⟩
    have heq := hr'.eq_plain hwf ⟨fun _ => hcopied⟩ (Nat.zero_le _)
    refine ⟨⟨r', std, _, rfl, rfl, rfl, hcopied, hr'⟩, fun r => ⟨?_, fun hplain => ?_⟩⟩
    · rintro ⟨std', s, rfl, hbuffer, hscore, hcopied, hloop⟩
      have heq := hloop.eq_plain hwf ⟨fun _ => by rw [hbuffer]; exact hcopied⟩ (Nat.zero_le _)
      rw [heq, hscore]
      rfl
    · exact ⟨std, _, rfl, rfl, rfl, hcopied, (heq.trans (Option.some.inj hplain)) ▸ hr'⟩

/-- A stage of one classifier with two rectangles. -/
def oneClassifier : SingleCascade where
  stageSize := 1
  rectanglesSize := 8
  thresholds _ := 1
  alpha1 _ := -7
  alpha2 _ := 9
  rectNum i := .ofNat (2 * i)
  weights _ := 1
  rectangles _ := 1

/-- Two more stages than fast memory holds. -/
def sevenStages : Cascade := ⟨7, fun _ => -10, fun _ => oneClassifier⟩

theorem windowsCascadeClassifier_sevenStages :
    WindowsCascadeClassifier (fun _ => 0) (fun i => if i = 131 then 3000 else 0) sevenStages 1 1
      64 2 1 8 21 := by
  have hwf : oneClassifier.WellFormed := by
    constructor
    · intro i hi
      obtain rfl : i = 0 := Nat.lt_one_iff.mp hi
      decide
    · intro i hi
      rcases Nat.le_one_iff_eq_zero_or_eq_one.mp hi with rfl | rfl <;> decide
  exact ((windowsCascadeClassifier_iff _ _ sevenStages 1 1 64 2 1 fun _ _ => hwf).2 21).mpr
    (by decide)

end AiDeck.Faces
