/-
Real samples and what lies behind them in the input grid.

For real samples the input grid has twice the components that a transform reads and writes. What is
done to the grids of a backend is followed here through any number of operations, one of which may
fail without changing anything:

* `GridOperation`, `Backend.gridsAfter` — uploads to either grid and transforms in either direction;
* `SameOn` — volumes with the same components at some places;
* `sameOn_gridsAfter_uploads` — the components behind the samples come from uploads alone;
* `sameOn_gridsAfter` — what operations do to the samples and to the spectrum depends on nothing
  else;
* `realGrids_apart` — these together.

Design notes: a place may be in the middle of an element, as the first one behind an odd number of
samples is. So agreement is a matter of components and not of elements.
-/
import FourierAudit.Proofs.CaseSizes
import FourierAudit.Proofs.GridComponents

namespace FourierAudit

variable {R : Type}

/-! ### Agreement at some places -/

/-- Whether two volumes have the same components at some places. -/
def SameOn (places : Set ℕ) (v w : Volume R) : Prop :=
  ∀ i ∈ places, (components v)[i]? = (components w)[i]?

section SameOn

variable {places : Set ℕ} {u v w : Volume R}

theorem SameOn.refl (places : Set ℕ) (v : Volume R) : SameOn places v v := fun _ _ => rfl

theorem SameOn.trans (h : SameOn places u v) (h' : SameOn places v w) : SameOn places u w :=
  fun i hi => (h i hi).trans (h' i hi)

/-- Volumes that have the same first components hold the same real samples. -/
theorem SameOn.realInput_eq {points : ℕ} (h : SameOn (Set.Iio points) v w) :
    realInput points v = realInput points w := by
  apply Array.ext_getElem?
  intro i
  rw [getElem?_realInput_components, getElem?_realInput_components]
  split_ifs with hi
  · exact h i hi
  · rfl

end SameOn

variable [Scalar R]

/-! ### Attempts to write -/

namespace Buffer

/-- The buffer after an attempt to replace its first elements. -/
def afterUpload (b : Buffer R) (values : Volume R) : Buffer R := (b.upload values).toOption.getD b

/-- The buffer after an attempt to replace all its elements. -/
def afterFill (b : Buffer R) (values : Volume R) : Buffer R := (b.fill values).toOption.getD b

section AfterUpload

variable (b : Buffer R) (values : Volume R)

theorem afterUpload_eq :
    b.afterUpload values = if b.cells.size < values.size then b else
      { b with
        cells := b.precision.storeVolume values ++ b.cells.extract values.size b.cells.size } := by
  rw [afterUpload, upload]
  split_ifs <;> rfl

theorem afterFill_eq :
    b.afterFill values =
      if values.size = b.cells.size then { b with cells := b.precision.storeVolume values }
      else b := by
  rw [afterFill, fill]
  split_ifs <;> rfl

theorem precision_afterUpload : (b.afterUpload values).precision = b.precision := by
  rw [afterUpload_eq]
  split_ifs <;> rfl

theorem precision_afterFill : (b.afterFill values).precision = b.precision := by
  rw [afterFill_eq]
  split_ifs <;> rfl

theorem size_afterUpload : (b.afterUpload values).cells.size = b.cells.size := by
  rw [afterUpload_eq]
  split_ifs
  · rfl
  · rw [Array.size_append, size_storeVolume, Array.size_extract]
    omega

theorem size_afterFill : (b.afterFill values).cells.size = b.cells.size := by
  rw [afterFill_eq]
  split_ifs with h
  · exact (size_storeVolume _ _).trans h
  · rfl

/-- What an upload leaves depends on the elements that were there and on their precision. -/
theorem cells_afterUpload_congr {b b' : Buffer R} (hprecision : b.precision = b'.precision)
    (hcells : b.cells = b'.cells) (values : Volume R) :
    (b.afterUpload values).cells = (b'.afterUpload values).cells := by
  rw [afterUpload_eq, afterUpload_eq, hprecision, hcells]
  split_ifs
  · exact hcells
  · rfl

theorem cells_afterFill_congr {b b' : Buffer R} (hprecision : b.precision = b'.precision)
    (hcells : b.cells = b'.cells) (values : Volume R) :
    (b.afterFill values).cells = (b'.afterFill values).cells := by
  rw [afterFill_eq, afterFill_eq, hprecision, hcells]
  split_ifs
  · rfl
  · exact hcells

end AfterUpload

/-- Uploads of one length keep the agreement of two grids where they agree themselves. -/
theorem sameOn_afterUpload {b b' : Buffer R} {v w : Volume R} {places : Set ℕ}
    (hprecision : b.precision = b'.precision) (hcells : b.cells.size = b'.cells.size)
    (hsize : v.size = w.size) (hvalues : SameOn places v w) (h : SameOn places b.cells b'.cells) :
    SameOn places (b.afterUpload v).cells (b'.afterUpload w).cells := by
  by_cases hlong : b.cells.size < v.size
  · rw [afterUpload_eq, afterUpload_eq, if_pos hlong, if_pos (by omega)]
    exact h
  · intro i hi
    have hv : b.upload v = .ok (b.afterUpload v) := by
      rw [afterUpload_eq, if_neg hlong, upload, if_neg hlong]
    have hw : b'.upload w = .ok (b'.afterUpload w) := by
      rw [afterUpload_eq, if_neg (by omega), upload, if_neg (by omega)]
    rw [getElem?_components_upload hv, getElem?_components_upload hw, hsize, hprecision,
      hvalues i hi, h i hi]

/-- Real samples that are written do not reach the components behind them. -/
theorem sameOn_writeComponents (b : Buffer R) (values : Array R) :
    SameOn (Set.Ici values.size) (b.writeComponents values).cells b.cells := by
  intro i hi
  rw [getElem?_components_writeComponents, Array.getElem?_eq_none hi]
  exact congrFun Option.map_id _

/-- Where real samples are written it does not matter what was there. -/
theorem sameOn_writeComponents_of_size {b b' : Buffer R} (values : Array R)
    (hprecision : b.precision = b'.precision) (hcells : b.cells.size = b'.cells.size) :
    SameOn (Set.Iio values.size) (b.writeComponents values).cells
      (b'.writeComponents values).cells := by
  intro i hi
  rw [getElem?_components_writeComponents, getElem?_components_writeComponents,
    Array.getElem?_eq_getElem hi, hprecision, getElem?_components, getElem?_components]
  by_cases hin : i / 2 < b.cells.size
  · rw [Array.getElem?_eq_getElem hin, Array.getElem?_eq_getElem (hcells ▸ hin)]
    rfl
  · rw [Array.getElem?_eq_none (by omega), Array.getElem?_eq_none (by omega)]

end Buffer

/-! ### Operations on the grids of a backend -/

theorem GridAction.snd_of_result {action : GridAction R} {grids grids' : GridPair R}
    (h : action.result grids = .ok grids') : (action grids).2 = .ok () := by
  rw [result] at h
  split at h
  case h_1 heq => rw [heq]
  case h_2 => cases h

/-- What can be done to the grids of a backend. -/
inductive GridOperation (R : Type) where
  | uploadInput (values : Volume R)
  | uploadOutput (values : Volume R)
  | forward
  | inverse

namespace GridOperation

def isInputUpload : GridOperation R → Bool
  | uploadInput _ => true
  | _ => false

/-- Whether two operations are the same, but for values that go to the input grid: of these there
are as many, and they have the same components at some places. -/
inductive Matches (places : Set ℕ) : GridOperation R → GridOperation R → Prop where
  | uploadInput {v w : Volume R} (size : v.size = w.size) (values : SameOn places v w) :
      Matches places (.uploadInput v) (.uploadInput w)
  | uploadOutput (values : Volume R) : Matches places (.uploadOutput values) (.uploadOutput values)
  | forward : Matches places .forward .forward
  | inverse : Matches places .inverse .inverse

end GridOperation

namespace Backend

/-- What an operation does to the grids of a case. -/
def operate (b : Backend R) (accelerator : Option Accelerator) (c : TransformCase R) :
    GridOperation R → GridAction R
  | .uploadInput values => (b.candidate accelerator).upload c values
  | .uploadOutput values => .ofExcept fun grids =>
    return { grids with output := ← grids.output.upload values }
  | .forward => (b.candidate accelerator).forward c
  | .inverse => (b.candidate accelerator).inverse c

/-- The grids of a case after one operation after the other, whether these fail or not. -/
def gridsAfter (b : Backend R) (accelerator : Option Accelerator) (c : TransformCase R)
    (operations : List (GridOperation R)) (grids : GridPair R) : GridPair R :=
  operations.foldl (fun grids operation => (b.operate accelerator c operation grids).1) grids

section Operate

variable {b : Backend R} {transforms : Precision → ArrayTransforms R}
  {accelerator : Option Accelerator} {c : TransformCase R} {grids grids' : GridPair R}

theorem grids_uploadInput (values : Volume R) :
    (b.operate accelerator c (.uploadInput values) grids).1
      = { grids with input := grids.input.afterUpload values } := by
  simp only [operate, candidate, GridAction.ofExcept, Buffer.afterUpload]
  cases grids.input.upload values <;> rfl

theorem grids_uploadOutput (values : Volume R) :
    (b.operate accelerator c (.uploadOutput values) grids).1
      = { grids with output := grids.output.afterUpload values } := by
  simp only [operate, GridAction.ofExcept, Buffer.afterUpload]
  cases grids.output.upload values <;> rfl

variable (hengine : b.engine = .ofTransforms transforms) (hkind : c.kind = .realToComplex)

include hengine hkind

theorem grids_forward :
    (b.operate accelerator c .forward grids).1 = { grids with
      output := grids.output.afterFill ((transforms c.precision).realForward c.extents
        (realInput c.points grids.input.cells)) } := by
  simp only [operate, candidate, hengine, Engine.ofTransforms, hkind, GridAction.ofExcept,
    Buffer.afterFill]
  cases grids.output.fill _ <;> rfl

theorem grids_inverse :
    (b.operate accelerator c .inverse grids).1 = { grids with
      input := grids.input.writeComponents
        ((transforms c.precision).realInverse c.extents grids.output.cells) } := by
  simp only [operate, candidate, hengine, Engine.ofTransforms, hkind, GridAction.ofExcept]
  rfl

/-- An operation leaves grids for the case. -/
theorem isFor_operate (h : grids.IsFor c) (operation : GridOperation R) :
    (b.operate accelerator c operation grids).1.IsFor c := by
  obtain ⟨hinput, hinputSize, houtput, houtputSize⟩ := h
  cases operation with
  | uploadInput values =>
    rw [grids_uploadInput]
    exact ⟨(Buffer.precision_afterUpload _ _).trans hinput,
      (Buffer.size_afterUpload _ _).trans hinputSize, houtput, houtputSize⟩
  | uploadOutput values =>
    rw [grids_uploadOutput]
    exact ⟨hinput, hinputSize, (Buffer.precision_afterUpload _ _).trans houtput,
      (Buffer.size_afterUpload _ _).trans houtputSize⟩
  | forward =>
    rw [grids_forward hengine hkind]
    exact ⟨hinput, hinputSize, (Buffer.precision_afterFill _ _).trans houtput,
      (Buffer.size_afterFill _ _).trans houtputSize⟩
  | inverse =>
    rw [grids_inverse hengine hkind]
    exact ⟨hinput, (Buffer.size_writeComponents _ _).trans hinputSize, houtput, houtputSize⟩

theorem isFor_gridsAfter (operations : List (GridOperation R)) (h : grids.IsFor c) :
    (b.gridsAfter accelerator c operations grids).IsFor c := by
  induction operations generalizing grids with
  | nil => exact h
  | cons operation operations ih => exact ih (isFor_operate hengine hkind h operation)

omit hengine in
/-- The library returns one sample for each grid point. -/
theorem size_realInverse (hshaped : (transforms c.precision).Shaped) (h : grids.IsFor c) :
    ((transforms c.precision).realInverse c.extents grids.output.cells).size
      = c.extents.volume := by
  refine hshaped.realInverse (volume_pos c) ?_
  rw [h.output_size, TransformCase.outputPoints, hkind]

/-- A transform back does not reach the components behind the samples. -/
theorem sameOn_inverse (hshaped : (transforms c.precision).Shaped) (h : grids.IsFor c) :
    SameOn (Set.Ici c.extents.volume) (b.operate accelerator c .inverse grids).1.input.cells
      grids.input.cells := by
  rw [grids_inverse hengine hkind, ← size_realInverse hkind hshaped h]
  exact Buffer.sameOn_writeComponents _ _

/-- Behind the samples, grids are what the uploads to the input grid make of them. -/
theorem sameOn_gridsAfter_uploads (hshaped : (transforms c.precision).Shaped)
    (operations : List (GridOperation R)) (h : grids.IsFor c) (h' : grids'.IsFor c)
    (hsame : SameOn (Set.Ici c.extents.volume) grids.input.cells grids'.input.cells) :
    SameOn (Set.Ici c.extents.volume)
      (b.gridsAfter accelerator c operations grids).input.cells
      (b.gridsAfter accelerator c (operations.filter (·.isInputUpload)) grids').input.cells := by
  -- on the right the other operations are left out, so only the grids on the left take a step then
  induction operations generalizing grids grids' with
  | nil => exact hsame
  | cons operation operations ih =>
    have hleft : (b.operate accelerator c operation grids).1.IsFor c :=
      isFor_operate hengine hkind h operation
    cases operation with
    | uploadInput values =>
      have hstep : SameOn (Set.Ici c.extents.volume)
          (b.operate accelerator c (.uploadInput values) grids).1.input.cells
          (b.operate accelerator c (.uploadInput values) grids').1.input.cells := by
        rw [grids_uploadInput, grids_uploadInput]
        exact Buffer.sameOn_afterUpload (h.input_precision.trans h'.input_precision.symm)
          (h.input_size.trans h'.input_size.symm) rfl (SameOn.refl _ values) hsame
      exact ih hleft (isFor_operate hengine hkind h' _) hstep
    | uploadOutput values =>
      have hinput : (b.operate accelerator c (.uploadOutput values) grids).1.input
          = grids.input := by rw [grids_uploadOutput]
      exact ih hleft h' (hinput ▸ hsame)
    | forward =>
      have hinput : (b.operate accelerator c .forward grids).1.input = grids.input := by
        rw [grids_forward hengine hkind]
      exact ih hleft h' (hinput ▸ hsame)
    | inverse => exact ih hleft h' ((sameOn_inverse hengine hkind hshaped h).trans hsame)

/-- Matching operations keep the spectra and the samples of two pairs of grids the same. -/
theorem sameOn_operate (hpoints : c.points = c.extents.volume)
    (hshaped : (transforms c.precision).Shaped) {operation operation' : GridOperation R}
    (hoperation : operation.Matches (Set.Iio c.extents.volume) operation')
    (h : grids.IsFor c) (h' : grids'.IsFor c) (houtput : grids.output.cells = grids'.output.cells)
    (hinput : SameOn (Set.Iio c.extents.volume) grids.input.cells grids'.input.cells) :
    (b.operate accelerator c operation grids).1.output.cells
        = (b.operate accelerator c operation' grids').1.output.cells ∧
      SameOn (Set.Iio c.extents.volume) (b.operate accelerator c operation grids).1.input.cells
        (b.operate accelerator c operation' grids').1.input.cells := by
  have hprecision := h.input_precision.trans h'.input_precision.symm
  have hsize := h.input_size.trans h'.input_size.symm
  have hprecision' := h.output_precision.trans h'.output_precision.symm
  cases hoperation with
  | uploadInput hvw hvalues =>
    rw [grids_uploadInput, grids_uploadInput]
    exact ⟨houtput, Buffer.sameOn_afterUpload hprecision hsize hvw hvalues hinput⟩
  | uploadOutput values =>
    rw [grids_uploadOutput, grids_uploadOutput]
    exact ⟨Buffer.cells_afterUpload_congr hprecision' houtput values, hinput⟩
  | forward =>
    -- the transform reads the samples only
    rw [grids_forward hengine hkind, grids_forward hengine hkind, hpoints, hinput.realInput_eq]
    exact ⟨Buffer.cells_afterFill_congr hprecision' houtput _, hinput⟩
  | inverse =>
    -- the transform back writes all samples, and reads the spectrum only
    rw [grids_inverse hengine hkind, grids_inverse hengine hkind, ← houtput]
    refine ⟨rfl, ?_⟩
    rw [← size_realInverse hkind hshaped h]
    exact Buffer.sameOn_writeComponents_of_size _ hprecision hsize

theorem sameOn_gridsAfter (hpoints : c.points = c.extents.volume)
    (hshaped : (transforms c.precision).Shaped) {operations operations' : List (GridOperation R)}
    (hoperations : List.Forall₂ (GridOperation.Matches (Set.Iio c.extents.volume)) operations
      operations')
    (h : grids.IsFor c) (h' : grids'.IsFor c) (houtput : grids.output.cells = grids'.output.cells)
    (hinput : SameOn (Set.Iio c.extents.volume) grids.input.cells grids'.input.cells) :
    (b.gridsAfter accelerator c operations grids).output.cells
        = (b.gridsAfter accelerator c operations' grids').output.cells ∧
      SameOn (Set.Iio c.extents.volume) (b.gridsAfter accelerator c operations grids).input.cells
        (b.gridsAfter accelerator c operations' grids').input.cells := by
  induction hoperations generalizing grids grids' with
  | nil => exact ⟨houtput, hinput⟩
  | cons hoperation _ ih =>
    obtain ⟨houtput, hinput⟩ :=
      sameOn_operate hengine hkind hpoints hshaped hoperation h h' houtput hinput
    exact ih (isFor_operate hengine hkind h _) (isFor_operate hengine hkind h' _) houtput hinput

/-- After a transform back, an element that a round trip compares is made of two of the samples that
the library returned. -/
theorem getElem?_inverse (hshaped : (transforms c.precision).Shaped) (h : grids.IsFor c) {j : ℕ}
    (hj : j < c.kind.roundTripSize c.extents.volume) :
    ∃ re im,
      ((transforms c.precision).realInverse c.extents grids.output.cells)[2 * j]? = some re ∧
      ((transforms c.precision).realInverse c.extents grids.output.cells)[2 * j + 1]? = some im ∧
      (b.operate accelerator c .inverse grids).1.input.cells[j]?
        = some ⟨c.precision.store re, c.precision.store im⟩ := by
  have hsize := size_realInverse hkind hshaped h
  have hpair := TransformKind.pair_lt_of_lt_roundTripSize (hkind ▸ hj)
  set values := (transforms c.precision).realInverse c.extents grids.output.cells with hvalues
  have hre : 2 * j < values.size := by omega
  have him : 2 * j + 1 < values.size := by omega
  have hin : j < grids.input.cells.size := by
    rw [h.input_size]
    omega
  refine ⟨values[2 * j], values[2 * j + 1], Array.getElem?_eq_getElem hre,
    Array.getElem?_eq_getElem him, ?_⟩
  rw [grids_inverse hengine hkind, ← hvalues, Buffer.writeComponents, Array.getElem?_mapIdx,
    Array.getElem?_eq_getElem hin, Array.getElem?_eq_getElem hre, Array.getElem?_eq_getElem him,
    h.input_precision]
  rfl

/-- On grids of the case both transforms get through. -/
theorem operate_transforms_ok (hpoints : c.points = c.extents.volume)
    (hshaped : (transforms c.precision).Shaped) (h : grids.IsFor c) :
    (b.operate accelerator c .forward grids).2 = .ok () ∧
      (b.operate accelerator c .inverse grids).2 = .ok () := by
  obtain ⟨_, hforward, -⟩ := forward_sized hshaped hpoints grids h.input_size h.output_size
  constructor
  · rw [← hengine] at hforward
    exact GridAction.snd_of_result hforward
  · simp only [operate, candidate, hengine, Engine.ofTransforms, hkind, GridAction.ofExcept]
    rfl

end Operate

/-- **Real samples and what lies behind them are kept apart.** Let a backend with a library that
keeps the promise about shapes have grids for a case with real input, and let anything be in them.
Neither transform fails; the one forward leaves the input grid, the one back leaves the output grid
and the components of the input grid behind the samples. After any operations, failed ones included,
the components behind the samples are what the uploads to the input grid alone would have made of
them. Two such pairs of grids with the same spectra and samples, on which the same is done but for
what is uploaded behind the samples, have the same spectra and samples again. And every element that
a round trip compares is made of two samples that the transform back has returned for the
spectrum. -/
theorem realGrids_apart {b : Backend R} {transforms : Precision → ArrayTransforms R}
    {accelerator : Option Accelerator} {c : TransformCase R} {opened : GridPair R}
    (hengine : b.engine = .ofTransforms transforms) (hshaped : (transforms c.precision).Shaped)
    (hkind : c.kind = .realToComplex) (hopened : b.openGrids accelerator c = .ok opened) :
    let points := c.extents.volume
    let after := b.gridsAfter accelerator c
    (opened.IsFor c ∧ ∀ operations grids, grids.IsFor c → (after operations grids).IsFor c) ∧
      (∀ grids, grids.IsFor c →
        ((b.operate accelerator c .forward grids).2 = .ok () ∧
          (b.operate accelerator c .inverse grids).2 = .ok ()) ∧
        (b.operate accelerator c .forward grids).1.input = grids.input ∧
        (b.operate accelerator c .inverse grids).1.output = grids.output ∧
        SameOn (Set.Ici points) (b.operate accelerator c .inverse grids).1.input.cells
          grids.input.cells) ∧
      (∀ operations grids, grids.IsFor c →
        SameOn (Set.Ici points) (after operations grids).input.cells
          (after (operations.filter (·.isInputUpload)) grids).input.cells) ∧
      (∀ operations operations' grids grids', grids.IsFor c → grids'.IsFor c →
        List.Forall₂ (GridOperation.Matches (Set.Iio points)) operations operations' →
        grids.output.cells = grids'.output.cells →
        SameOn (Set.Iio points) grids.input.cells grids'.input.cells →
          (after operations grids).output.cells = (after operations' grids').output.cells ∧
          SameOn (Set.Iio points) (after operations grids).input.cells
            (after operations' grids').input.cells) ∧
      ∀ grids, grids.IsFor c → ∀ j < c.kind.roundTripSize points, ∃ re im,
        let samples := (transforms c.precision).realInverse c.extents grids.output.cells
        samples[2 * j]? = some re ∧ samples[2 * j + 1]? = some im ∧
          (b.operate accelerator c .inverse grids).1.input.cells[j]?
            = some ⟨c.precision.store re, c.precision.store im⟩ := by
  intro points after
  have hpoints : c.points = c.extents.volume := points_eq (volume_lt_of_openGrids hopened)
  refine ⟨⟨isFor_of_openGrids hopened, ?_⟩, ?_, ?_, ?_, ?_⟩
  · intro operations grids h
    exact isFor_gridsAfter hengine hkind operations h
  · intro grids h
    refine ⟨operate_transforms_ok hengine hkind hpoints hshaped h, ?_, ?_, ?_⟩
    · rw [grids_forward hengine hkind]
    · rw [grids_inverse hengine hkind]
    · exact sameOn_inverse hengine hkind hshaped h
  · intro operations grids h
    exact sameOn_gridsAfter_uploads hengine hkind hshaped operations h h (SameOn.refl _ _)
  · intro operations operations' grids grids' h h' hoperations houtput hinput
    exact sameOn_gridsAfter hengine hkind hpoints hshaped hoperations h h' houtput hinput
  · intro grids h j hj
    exact getElem?_inverse hengine hkind hshaped h hj

/-- The round trip of three real samples does not depend on the fourth component, and does not
change it. -/
theorem realGrids_apart_oddCase :
    ∃ opened : GridPair Float, hostBackend.openGrids none oddCase = .ok opened ∧
      let after (values : Volume Float) :=
        hostBackend.gridsAfter none oddCase [.uploadInput values, .forward, .inverse] opened
      SameOn (Set.Iio 3) (after #[⟨1, 2⟩, ⟨3, 4⟩]).input.cells
          (after #[⟨1, 2⟩, ⟨3, 0⟩]).input.cells ∧
        (components (after #[⟨1, 2⟩, ⟨3, 4⟩]).input.cells)[3]? = some 4 := by
  have hopened := openGrids_of_supported hostBackend_checkSupported (.inl rfl)
    (show oddCase.extents.volume < 2 ^ 63 by decide)
  rw [if_pos (by decide)] at hopened
  obtain ⟨⟨hfor, -⟩, -, hbehind, hagree, -⟩ :=
    realGrids_apart rfl (fastTransforms_shaped _) rfl hopened
  refine ⟨_, hopened, ?_, ?_⟩
  · refine (hagree _ _ _ _ hfor hfor ?_ rfl (SameOn.refl _ _)).2
    refine .cons (.uploadInput rfl ?_) (.cons .forward (.cons .inverse .nil))
    intro i hi
    have hi : i < 3 := hi
    obtain rfl | rfl | rfl : i = 0 ∨ i = 1 ∨ i = 2 := by omega
    all_goals rfl
  · rw [hbehind _ _ hfor 3 (by decide)]
    rfl

end Backend

end FourierAudit
