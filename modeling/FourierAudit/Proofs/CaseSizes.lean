/-
The sizes of the arrays of a case.

How many elements an array of a case has is worked out in many places: from the extents as a
machine word counts them and exactly, from the stored extents, from the components of a grid. On a
backend for array libraries all of them agree, so no check of a size fails:

* `Course` — the arrays of a case from its grids to the second comparison, with `Course.Follows`
  for how they come about and `Course.Sized` for their sizes;
* `exists_course` — a supported case has such a course;
* `verify_sizes` — up to a ceiling of `2 ^ 20` points to an axis, a verification ends with a report
  or with a failed comparison, unless no array can hold the stimulus.
-/
import FourierAudit.Proofs.BackendLimits
import FourierAudit.Proofs.ReportedLocations
import FourierAudit.Proofs.TransformShapes
import FourierAudit.Proofs.Verdict

namespace FourierAudit

variable {R : Type} [Scalar R]

/-! ### Grids of a fixed size -/

theorem Buffer.exists_upload {grid : Buffer R} {values : Volume R}
    (h : values.size = grid.cells.size) :
    ∃ filled, grid.upload values = .ok filled ∧ filled.cells.size = grid.cells.size := by
  refine ⟨_, if_neg (by omega), ?_⟩
  rw [Array.size_append, size_storeVolume, Array.size_extract]
  omega

theorem Buffer.exists_fill {grid : Buffer R} {values : Volume R}
    (h : values.size = grid.cells.size) :
    ∃ filled, grid.fill values = .ok filled ∧ filled.cells.size = grid.cells.size :=
  ⟨_, if_pos h, (size_storeVolume _ _).trans h⟩

section Transforms

variable {transforms : Precision → ArrayTransforms R} {c : TransformCase R}

/-- The transform forward reads one sample for each grid point and fills the output grid. -/
theorem forward_sized (hshaped : (transforms c.precision).Shaped)
    (hpoints : c.points = c.extents.volume) (grids : GridPair R)
    (hinput : grids.input.cells.size = c.extents.volume)
    (houtput : grids.output.cells.size = c.outputPoints) :
    ∃ output, ((Engine.ofTransforms transforms).forward c).result grids
        = .ok { grids with output } ∧ output.cells.size = c.outputPoints := by
  cases hkind : c.kind with
  | complexToComplex =>
    have hsize : ((transforms c.precision).complexForward c.extents grids.input.cells).size
        = grids.output.cells.size := by
      rw [hshaped.complexForward (volume_pos c) hinput, houtput, TransformCase.outputPoints, hkind]
      rfl
    obtain ⟨output, hfill, hcells⟩ := Buffer.exists_fill hsize
    refine ⟨output, ?_, hcells.trans houtput⟩
    simp only [Engine.ofTransforms, GridAction.result_ofExcept, hkind, hfill]
    rfl
  | realToComplex =>
    have hvalues : (realInput c.points grids.input.cells).size = c.extents.volume := by
      rw [hpoints, size_realInput (by omega)]
    have hsize : ((transforms c.precision).realForward c.extents
        (realInput c.points grids.input.cells)).size = grids.output.cells.size := by
      rw [hshaped.realForward (volume_pos c) hvalues, houtput, TransformCase.outputPoints, hkind]
    obtain ⟨output, hfill, hcells⟩ := Buffer.exists_fill hsize
    refine ⟨output, ?_, hcells.trans houtput⟩
    simp only [Engine.ofTransforms, GridAction.result_ofExcept, hkind, hfill]
    rfl

/-- The transform back reads the stored spectrum and leaves the input grid as large as it is. -/
theorem inverse_sized (hshaped : (transforms c.precision).Shaped) (grids : GridPair R)
    (hinput : grids.input.cells.size = c.extents.volume)
    (houtput : grids.output.cells.size = c.outputPoints) :
    ∃ input, ((Engine.ofTransforms transforms).inverse c).result grids
        = .ok { grids with input } ∧ input.cells.size = c.extents.volume := by
  cases hkind : c.kind with
  | complexToComplex =>
    have hstored : grids.output.cells.size = c.extents.volume := by
      rw [houtput, TransformCase.outputPoints, hkind]
      rfl
    have hsize : ((transforms c.precision).complexInverse c.extents grids.output.cells).size
        = grids.input.cells.size := by
      rw [hshaped.complexInverse (volume_pos c) hstored, hinput]
    obtain ⟨input, hfill, hcells⟩ := Buffer.exists_fill hsize
    refine ⟨input, ?_, hcells.trans hinput⟩
    simp only [Engine.ofTransforms, GridAction.result_ofExcept, hkind, hfill]
    rfl
  | realToComplex =>
    refine ⟨grids.input.writeComponents
      ((transforms c.precision).realInverse c.extents grids.output.cells), ?_, ?_⟩
    · simp only [Engine.ofTransforms, GridAction.result_ofExcept, hkind]
      rfl
    · rw [Buffer.size_writeComponents, hinput]

end Transforms

/-! ### Comparisons and locations -/

/-- The places that a comparison names. -/
def Comparison.Names (result : Comparison R) (place : ℕ) : Prop :=
  result.firstMismatch = some place ∨ result.worst = some place

theorem lt_of_findIdx? {α : Type} {items : Array α} {p : α → Bool} {i : ℕ}
    (h : items.findIdx? p = some i) : i < items.size := by
  rw [Array.findIdx?_eq_some_iff_findIdx_eq] at h
  exact h.1

/-- Volumes of one size can be compared, and the places that the comparison names are in them. -/
theorem exists_compare {expected found : Volume R} (h : expected.size = found.size) (tolerance : R)
    (shape : Option (List ℤ)) :
    ∃ result, compare expected found tolerance shape = .ok result ∧ result.shape = shape ∧
      ∀ place, result.Names place → place < expected.size := by
  have hsize : (Array.zipWith elementError expected found).size = expected.size := size_errors h
  rw [compare, compare?, if_pos h]
  refine ⟨_, rfl, rfl, ?_⟩
  rintro place (hfirst | hworst)
  · exact hsize ▸ lt_of_findIdx? hfirst
  · simp only [worstPlace?] at hworst
    split at hworst
    case h_1 i hi =>
      cases hworst
      exact hsize ▸ lt_of_findIdx? hi
    case h_2 => exact hsize ▸ lt_of_findIdx? hworst

theorem locate_flat {result : Comparison R} (h : result.shape = none) (place : ℤ) :
    result.locate place = .ok (.flat place) :=
  locate_of_location (by rw [Comparison.location?, h])

/-- A place inside a shape whose places a machine word can count has a location. -/
theorem exists_locate {result : Comparison R} {extents : Triple ℕ}
    (hshape : result.shape = some (extents.toList.map Int.ofNat))
    (hvolume : extents.volume < 2 ^ 63) {place : ℕ} (hplace : place < extents.volume) :
    ∃ location, result.locate place = .ok location := by
  obtain ⟨p, -, hlocate⟩ := exists_locate_point hshape hplace
  rw [if_pos hvolume] at hlocate
  exact ⟨_, hlocate⟩

/-! ### The course of a case -/

/-- The arrays of a case from its grids to the second comparison. -/
structure Course (R : Type) [Scalar R] where
  opened : GridPair R
  uploaded : GridPair R
  transformed : GridPair R
  restored : GridPair R
  /-- The whole spectrum, by the reference transform. -/
  full : Volume R
  /-- What is stored of it. -/
  expected : Volume R
  forward : Comparison R
  roundTrip : Comparison R

namespace Course

/-- Nothing fails on the way through a case. -/
structure Follows (course : Course R) (candidate : Candidate R) (c : TransformCase R)
    (stimulus : Volume R) : Prop where
  opened : candidate.openGrids c = .ok course.opened
  uploaded : (candidate.upload c stimulus).result course.opened = .ok course.uploaded
  transformed : (candidate.forward c).result course.uploaded = .ok course.transformed
  full : IsReference c stimulus course.full
  expected : extractPacked c.kind c.extents course.full = .ok course.expected
  forward : compareSpectrum c course.expected course.transformed.output.cells = .ok course.forward
  restored : (candidate.inverse c).result course.transformed = .ok course.restored
  roundTrip : compareRoundTrip c stimulus course.restored.input.cells = .ok course.roundTrip

/-- All arrays of a case have the size that whatever reads them expects. -/
structure Sized (course : Course R) (c : TransformCase R) (stimulus : Volume R) : Prop where
  input : course.opened.input.cells.size = c.extents.volume
  output : course.opened.output.cells.size = c.outputPoints
  /-- The samples that the transform forward reads, complex or real. -/
  samples : course.uploaded.input.cells.size = c.extents.volume ∧
    (realInput c.points course.uploaded.input.cells).size = c.extents.volume
  drawn : stimulus.size = c.extents.volume
  reference : (referenceInput c stimulus).size = c.extents.volume
  full : course.full.size = c.extents.volume
  places : ∀ i ∈ packedToFull c.kind c.extents, i < course.full.size
  expected : course.expected.size = c.outputPoints
  spectrum : course.transformed.output.cells.size = c.outputPoints
  shape : ∃ dims : List ℕ, course.forward.shape = some (dims.map Int.ofNat) ∧
    dims.prod = c.outputPoints
  recovered : course.restored.input.cells.size = c.extents.volume
  slices : (upTo (c.kind.roundTripSize c.points) stimulus).size
    = (upTo (c.kind.roundTripSize c.points) course.restored.input.cells).size
  located : ∀ result ∈ [course.forward, course.roundTrip], ∀ place, result.Names place →
    ∃ location, result.locate place = .ok location

end Course

section Backend

variable {b : Backend R} {transforms : Precision → ArrayTransforms R}
  {accelerator : Option Accelerator} {c : TransformCase R} {stimulus : Volume R}

/-- The grids of a supported case: as they are opened, with the stimulus, with its spectrum and with
what is recovered from that. -/
theorem exists_grids (hengine : b.engine = .ofTransforms transforms)
    (hshaped : (transforms c.precision).Shaped)
    (hsupported : b.checkSupported accelerator c = .ok ())
    (hlocation : Buffer.IsReachable accelerator b.location) (hrep : Representable c.dims)
    (hdrawn : stimulus.size = c.extents.volume) :
    ∃ opened uploaded transformed restored,
      ((b.candidate accelerator).openGrids c = .ok opened ∧
        ((b.candidate accelerator).upload c stimulus).result opened = .ok uploaded ∧
        ((b.candidate accelerator).forward c).result uploaded = .ok transformed ∧
        ((b.candidate accelerator).inverse c).result transformed = .ok restored) ∧
      opened.input.cells.size = c.extents.volume ∧ opened.output.cells.size = c.outputPoints ∧
      uploaded.input.cells.size = c.extents.volume ∧
      transformed.output.cells.size = c.outputPoints ∧
      restored.input.cells.size = c.extents.volume := by
  have hvolume : c.extents.volume < 2 ^ 63 := volumeSize_dims c ▸ hrep.volumeSize_lt
  have hpoints := points_eq hvolume
  have hopened := Backend.openGrids_of_supported hsupported hlocation hvolume
  rw [if_pos hrep.elementSize_mul_volume_lt] at hopened
  set opened : GridPair R :=
    ⟨⟨"grid1", c.precision, b.location, Array.replicate c.extents.volume Sample.zero⟩,
      ⟨"grid2", c.precision, b.location, Array.replicate c.outputPoints Sample.zero⟩⟩
  have hinput : opened.input.cells.size = c.extents.volume := Array.size_replicate
  have houtput : opened.output.cells.size = c.outputPoints := Array.size_replicate
  obtain ⟨input, hupload, huploaded⟩ := Buffer.exists_upload (hdrawn.trans hinput.symm)
  rw [hinput] at huploaded
  obtain ⟨output, hforward, hspectrum⟩ :=
    forward_sized hshaped hpoints { opened with input } huploaded houtput
  obtain ⟨recovered, hinverse, hrecovered⟩ :=
    inverse_sized hshaped { opened with input, output } huploaded hspectrum
  rw [← hengine] at hforward hinverse
  exact ⟨opened, _, _, _, ⟨hopened, Backend.result_upload hupload, hforward, hinverse⟩, hinput,
    houtput, huploaded, hspectrum, hrecovered⟩

/-- The comparison of a spectrum that has the stored size. -/
theorem exists_compareSpectrum (hrep : Representable c.dims)
    (hdrawn : stimulus.size = c.extents.volume) {spectrum : Volume R}
    (hspectrum : spectrum.size = c.outputPoints) :
    ∃ full expected forward, IsReference c stimulus full ∧
      extractPacked c.kind c.extents full = .ok expected ∧ expected.size = c.outputPoints ∧
      compareSpectrum c expected spectrum = .ok forward ∧
      forward.shape = some ((c.kind.packed c.extents).toList.map Int.ofNat) ∧
      ∀ place, forward.Names place → ∃ location, forward.locate place = .ok location := by
  have hvolume : c.extents.volume < 2 ^ 63 := volumeSize_dims c ▸ hrep.volumeSize_lt
  obtain ⟨full, hF⟩ : ∃ full, IsReference c stimulus full :=
    ⟨_, isReference_iff.mpr ⟨hrep, size_referenceInput (points_eq hvolume) hdrawn, rfl⟩⟩
  obtain ⟨expected, hstored, hexpected⟩ : ∃ expected,
      extractPacked c.kind c.extents full = .ok expected ∧ expected.size = c.outputPoints := by
    refine ⟨_, extractPacked_eq c.extents_pos.2.2 hF.size_eq, ?_⟩
    rw [Array.size_map, size_packedToFull]
    rfl
  obtain ⟨forward, hforward, hshape, hplaces⟩ := exists_compare (hexpected.trans hspectrum.symm)
    (c.tolerance .forward) (some ((c.kind.packed c.extents).toList.map Int.ofNat))
  refine ⟨full, expected, forward, hF, hstored, hexpected, hforward, hshape, ?_⟩
  intro place hnames
  exact exists_locate hshape ((outputPoints_le c).trans_lt hvolume)
    ((hplaces place hnames).trans_eq hexpected)

/-- The comparison of samples with one element for each grid point. -/
theorem exists_compareRoundTrip (hpoints : c.points = c.extents.volume)
    (hdrawn : stimulus.size = c.extents.volume) {recovered : Volume R}
    (hrecovered : recovered.size = c.extents.volume) :
    (upTo (c.kind.roundTripSize c.points) stimulus).size
        = (upTo (c.kind.roundTripSize c.points) recovered).size ∧
      ∃ roundTrip, compareRoundTrip c stimulus recovered = .ok roundTrip ∧
        ∀ place : ℕ, ∃ location, roundTrip.locate place = .ok location := by
  have hslices : (upTo (c.kind.roundTripSize c.points) stimulus).size
      = (upTo (c.kind.roundTripSize c.points) recovered).size := by
    rw [upTo_roundTripSize hpoints, upTo_roundTripSize hpoints, size_extract_roundTripSize hdrawn,
      size_extract_roundTripSize hrecovered]
  obtain ⟨roundTrip, hroundTrip, hflat, -⟩ := exists_compare
    (hslices.trans (Array.size_map (f := Sample.scale _)).symm) (c.tolerance .roundTrip) none
  exact ⟨hslices, roundTrip, hroundTrip, fun place => ⟨_, locate_flat hflat place⟩⟩

/-- A supported case whose arrays can be held runs through all transforms and comparisons. -/
theorem exists_course (hengine : b.engine = .ofTransforms transforms)
    (hshaped : (transforms c.precision).Shaped)
    (hsupported : b.checkSupported accelerator c = .ok ())
    (hlocation : Buffer.IsReachable accelerator b.location) (hrep : Representable c.dims)
    (hdrawn : stimulus.size = c.extents.volume) :
    ∃ course : Course R,
      course.Follows (b.candidate accelerator) c stimulus ∧ course.Sized c stimulus := by
  have hpoints : c.points = c.extents.volume := points_eq (volumeSize_dims c ▸ hrep.volumeSize_lt)
  obtain ⟨opened, uploaded, transformed, restored, ⟨hopened, hupload, hforward, hinverse⟩, hinput,
    houtput, huploaded, hspectrum, hrecovered⟩ :=
      exists_grids hengine hshaped hsupported hlocation hrep hdrawn
  obtain ⟨full, expected, forward, hF, hstored, hexpected, hcompared, hshape, hlocated⟩ :=
    exists_compareSpectrum hrep hdrawn hspectrum
  obtain ⟨hslices, roundTrip, hcompared', hlocated'⟩ :=
    exists_compareRoundTrip hpoints hdrawn hrecovered
  refine ⟨⟨opened, uploaded, transformed, restored, full, expected, forward, roundTrip⟩,
    ⟨hopened, hupload, hforward, hF, hstored, hcompared, hinverse, hcompared'⟩,
    { input := hinput
      output := houtput
      samples := ⟨huploaded, ?_⟩
      drawn := hdrawn
      reference := size_referenceInput hpoints hdrawn
      full := hF.size_eq
      places := ?_
      expected := hexpected
      spectrum := hspectrum
      shape := ⟨_, hshape, Triple.list_prod_toList _⟩
      recovered := hrecovered
      slices := hslices
      located := ?_ }⟩
  · show (realInput c.points uploaded.input.cells).size = c.extents.volume
    rw [hpoints, size_realInput (by omega)]
  · intro i hi
    rw [hF.size_eq]
    exact packedToFull_lt c.extents_pos.2.2 hi
  · simp only [List.forall_mem_cons, List.not_mem_nil]
    exact ⟨hlocated, fun place _ => hlocated' place, nofun⟩

/-- A case that runs through all transforms and comparisons is decided by the comparisons. -/
theorem Course.Follows.result {course : Course R} {candidate : Candidate R}
    {draw : TransformCase R → Except (Failure R) (Thunk (Volume R))} {ceiling : ℤ}
    {requested : TransformCase R} {drawn : Thunk (Volume R)}
    (h : course.Follows candidate c drawn.get)
    (hc : candidate.normalise requested ceiling = .ok c) (hdraw : draw c = .ok drawn)
    (clock : ℕ → R) (s : Session R) :
    let result := ((verifyWith draw clock ceiling candidate requested).run.run s).1
    result = .ok ⟨candidate.name, c, course.forward, course.roundTrip⟩ ∨
      result = .error (.mismatch .forward c course.forward) ∨
      result = .error (.mismatch .roundTrip c course.roundTrip) := by
  intro result
  have hrun := run_verifyWith hc hdraw h.opened h.uploaded h.transformed
    (h.full.expectedSpectrum_eq.trans h.expected) h.forward clock s
  rcases hf : course.forward.passed with _ | _
  · rw [run_settleForward_of_failed hf] at hrun
    exact .inr (.inl (congrArg Prod.fst hrun))
  · rw [run_settleForward_of_passed hf h.restored h.roundTrip] at hrun
    split at hrun
    · exact .inl (congrArg Prod.fst hrun)
    · exact .inr (.inr (congrArg Prod.fst hrun))

end Backend

/-! ### Under the ceiling -/

section Ceiling

variable {c : TransformCase R}

theorem volume_le_of_dims_le {n : ℕ} (h : ∀ m ∈ c.dims, m ≤ n) : c.extents.volume ≤ n ^ 3 := by
  simp only [TransformCase.dims, Triple.toList, List.forall_mem_cons] at h
  calc c.extents.x * c.extents.y * c.extents.z
      ≤ n * n * n := Nat.mul_le_mul (Nat.mul_le_mul h.1 h.2.1) h.2.2.1
    _ = n ^ 3 := by ring

/-- With short axes, arrays can hold what a transform needs if they can hold a volume. -/
theorem representable_of_dims_le (h : ∀ n ∈ c.dims, n ≤ 2 ^ 20)
    (hvolume : 16 * c.extents.volume < 2 ^ 63) : Representable c.dims where
  axes := by
    show 3 ≤ 64
    omega
  volume := by
    have hprod : c.dims.prod = c.extents.volume := c.extents.list_prod_toList
    rwa [filter_pos_of_prod_pos (hprod.symm ▸ volume_pos c), hprod]
  kernels n hn := by
    have := Nat.mul_le_mul (h n hn) (h n hn)
    omega

/-- The stimulus of a seed in range has as many samples as are asked for, if an array can. -/
theorem prepare_natural {seed : ℤ} (hseed : 0 ≤ seed) (hword : seed < 2 ^ 32) {count : ℕ}
    (hcount : 0 < count) (p : Precision) :
    (16 * count < 2 ^ 63 ∧ ∃ stimulus : Thunk (Volume R),
        Stimulus.prepare seed count p = .ok stimulus ∧ stimulus.get.size = count) ∨
      (2 ^ 63 ≤ 16 * count ∧
        (Stimulus.prepare seed count p : Except (Failure R) (Thunk (Volume R)))
          = .error (.invalid .arrayTooLong)) := by
  have hrange : ¬(seed < 0 ∨ 0x100000000 ≤ seed) := by omega
  have hnot : ¬(count : ℤ) < 0 := by omega
  have haddr := isAddressable_elementSize .double hcount
  rw [Stimulus.prepare, if_neg hrange, if_neg hnot]
  rcases h : isAddressable Precision.double.elementSize [(count : ℤ)] with _ | _
  · rw [h] at haddr
    exact .inr ⟨not_lt.mp fun hlt => Bool.noConfusion (haddr.mpr hlt), rfl⟩
  · exact .inl ⟨haddr.mp h, _, rfl, Array.size_ofFn⟩

end Ceiling

/-- **All sizes agree along a case.** Let a backend run an array library that keeps the promise
about shapes, and let it support a case once its extents are legal. With a ceiling of at most
`2 ^ 20` and a seed that is a word of 32 bits, the points are counted exactly, and there is at least
one. If arrays can have as many samples, the case runs through all transforms and comparisons on
arrays of matching sizes, and ends with a report or a failed comparison; otherwise there is no
stimulus for it. -/
theorem verify_sizes {b : Backend R} {transforms : Precision → ArrayTransforms R}
    {accelerator : Option Accelerator} {configuration : Configuration} {seed : ℤ}
    {requested c : TransformCase R} (hengine : b.engine = .ofTransforms transforms)
    (hshaped : ∀ p, (transforms p).Shaped) (hceiling : configuration.ceiling ≤ 2 ^ 20)
    (hconfigured : configuration.seed = some seed) (hseed : 0 ≤ seed) (hword : seed < 2 ^ 32)
    (hc : b.normalise requested configuration.ceiling = .ok c)
    (hsupported : b.checkSupported accelerator c = .ok ())
    (hlocation : Buffer.IsReachable accelerator b.location) (clock : ℕ → R) (s : Session R) :
    let result :=
      ((verify clock configuration (b.candidate accelerator) requested).run.run s).1
    c.points = c.extents.volume ∧ 1 ≤ c.points ∧
      (16 * c.extents.volume < 2 ^ 63 → ∃ (stimulus : Thunk (Volume R)) (course : Course R),
        Stimulus.prepare seed c.points c.precision = .ok stimulus ∧
        course.Follows (b.candidate accelerator) c stimulus.get ∧ course.Sized c stimulus.get ∧
        (result = .ok ⟨b.name, c, course.forward, course.roundTrip⟩ ∨
          result = .error (.mismatch .forward c course.forward) ∨
          result = .error (.mismatch .roundTrip c course.roundTrip))) ∧
      (2 ^ 63 ≤ 16 * c.extents.volume → result = .error (.invalid .arrayTooLong)) := by
  intro result
  obtain ⟨extents, hpos, hextents, hlegal⟩ := Backend.exists_of_normalise hc
  have hdims : ∀ n ∈ c.dims, n ≤ 2 ^ 20 := by
    intro n hn
    have := (hlegal n hn).2
    omega
  have hvolume := volume_le_of_dims_le hdims
  have hpoints : c.points = c.extents.volume := points_eq (by omega)
  have hone := volume_pos c
  have hprepared := prepare_natural (R := R) hseed hword hone c.precision
  rw [← hpoints] at hprepared
  refine ⟨hpoints, by omega, fun hmemory => ?_, fun hlong => ?_⟩
  · obtain ⟨-, stimulus, hstimulus, hsize⟩ := hprepared.resolve_right fun h => by omega
    obtain ⟨course, hfollows, hsized⟩ := exists_course hengine (hshaped c.precision) hsupported
      hlocation (representable_of_dims_le hdims hmemory) hsize
    refine ⟨stimulus, course, hstimulus, hfollows, hsized, hfollows.result hc ?_ clock s⟩
    simp only [hconfigured]
    exact hstimulus
  · obtain ⟨-, hstimulus⟩ := hprepared.resolve_left fun h => by omega
    refine run_verifyWith_of_draw_error hc ?_ clock s
    simp only [hconfigured]
    exact hstimulus

/-- Three real samples in double precision. -/
def oddCase : TransformCase Float :=
  ⟨⟨1, 1, 3⟩, .realToComplex, .double, Scalar.one, by decide, zero_lt_one_float⟩

theorem hostBackend_checkSupported : hostBackend.checkSupported none oddCase = .ok () := by
  have hall : (hostBackend : Backend Float).allLegal oddCase.dims = .ok true := rfl
  simp only [Backend.checkSupported, hall]
  rfl

/-- On the host, three real samples run through with two elements of spectrum. -/
theorem verify_sizes_oddCase :
    ∃ (stimulus : Thunk (Volume Float)) (course : Course Float),
      Stimulus.prepare 0 oddCase.points oddCase.precision = .ok stimulus ∧
      course.Follows (hostBackend.candidate none) oddCase stimulus.get ∧
      course.Sized oddCase stimulus.get ∧ course.transformed.output.cells.size = 2 := by
  have hlegal := Backend.legal_of_checkSupported hostBackend_checkSupported
  have hc : hostBackend.normalise oddCase ({} : Configuration).ceiling = .ok oddCase :=
    Backend.normalise_of_legal hlegal (by decide)
  obtain ⟨-, -, hcourse, -⟩ := verify_sizes rfl fastTransforms_shaped (by decide) rfl (by decide)
    (by decide) hc hostBackend_checkSupported (.inl rfl) (fun _ => 0) Session.start
  obtain ⟨stimulus, course, hstimulus, hfollows, hsized, -⟩ := hcourse (by decide)
  exact ⟨stimulus, course, hstimulus, hfollows, hsized, hsized.spectrum⟩

end FourierAudit
