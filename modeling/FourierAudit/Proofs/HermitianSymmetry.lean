/-
Half the spectrum of real samples is all of it.

The spectrum of real samples is conjugate at opposite frequencies, so the half that is stored
determines it:

* `spectrum_conj_opposite` — the symmetry, with three axes;
* `completion_of_stored` — a volume with the symmetry behind its stored half is completed from
  that half, and from no other one;
* `completion_real_spectrum` — this holds of the spectrum of all real samples.
-/
import FourierAudit.Proofs.HermitianCompletion
import FourierAudit.Proofs.ReferenceTransform

namespace FourierAudit

theorem entry_complexEmbedding (values : Array ℝ) (i : ℕ) :
    entry (complexEmbedding values) i = (values.getD i 0 : ℝ) := by
  rcases Nat.lt_or_ge i values.size with h | h
  · rw [complexEmbedding, entry_of_lt (by simpa using h), Array.getElem_map,
      Sample.toComplex_ofReal, Array.getD_eq_getD_getElem?, Array.getElem?_eq_getElem h,
      Option.getD_some]
  · rw [complexEmbedding, entry_of_le (by simpa using h), Array.getD_eq_getD_getElem?,
      Array.getElem?_eq_none h, Option.getD_none, Complex.ofReal_zero]

theorem Triple.position_opposite {extents p : Triple ℕ} (h : extents.Within p)
    (ho : extents.Within (extents.opposite p)) :
    (Triple.position h).opposite = Triple.position ho := by
  funext i
  -- one axis after the other
  refine Fin.cases rfl (fun i => Fin.cases rfl (fun i => Fin.cases rfl (fun i => i.elim0) i) i) i

/-- The transform of real samples is conjugate at opposite frequencies. -/
theorem spectrum_conj_opposite {d : Direction} {extents : Triple ℕ} {values : Array ℝ}
    {F : Volume ℝ} (hF : IsTransform d extents.toList (complexEmbedding values) F)
    {p : Triple ℕ} (hp : extents.Within p) (ho : extents.Within (extents.opposite p)) :
    entry F (extents.index (extents.opposite p))
      = (starRingEnd ℂ) (entry F (extents.index p)) := by
  have hreal : ∀ i, (starRingEnd ℂ) (entry (complexEmbedding values) i)
      = entry (complexEmbedding values) i := by
    intro i
    rw [entry_complexEmbedding, Complex.conj_ofReal]
  have h := hF.conj_opposite hreal (Triple.position hp)
  rwa [Triple.position_opposite hp ho, Triple.place_position, Triple.place_position] at h

/-- A full volume that is conjugate behind its stored half is completed from that half, and from
no other one. -/
theorem completion_of_stored {extents : Triple ℕ} (hz : 0 < extents.z) {full half : Volume ℝ}
    (hfull : full.size = extents.volume)
    (hsym : ∀ p, extents.Within p → ¬p.z < (TransformKind.realToComplex.packed extents).z →
      entry full (extents.index (extents.opposite p))
        = (starRingEnd ℂ) (entry full (extents.index p))) :
    hermitianCompletion extents half = .ok full ↔
      extractPacked .realToComplex extents full = .ok half := by
  rw [hermitianCompletion_eq_ok_iff hz hfull]
  refine and_iff_left ?_
  intro p hp hpz
  apply Sample.toComplex_injective
  rw [Sample.toComplex_conj]
  exact hsym p hp hpz

/-- The stored half of the transform of real samples determines all of it. -/
theorem completion_iff_of_isTransform {d : Direction} {extents : Triple ℕ} (hz : 0 < extents.z)
    {values : Array ℝ} {F half : Volume ℝ}
    (hF : IsTransform d extents.toList (complexEmbedding values) F) :
    hermitianCompletion extents half = .ok F ↔
      extractPacked .realToComplex extents F = .ok half :=
  completion_of_stored hz hF.size_extents fun _ hp hpz =>
    spectrum_conj_opposite hF hp (TransformKind.within_of_packed hz (Triple.opposite_within hp hpz))

/-- A call of the reference transform on real samples: it returns their spectrum, unless it needs an
array that cannot be held. -/
theorem transform_complexEmbedding {extents : Triple ℕ} {values : Array ℝ}
    (hvalues : values.size = extents.volume) :
    Representable extents.toList ∧
        ((Reference.ofDims (extents.toList.map Int.ofNat)).transform .forward
          (complexEmbedding values)).1
            = .ok (spectrum .forward extents.toList (complexEmbedding values)) ∨
      ¬Representable extents.toList ∧
        ∃ cause, ((Reference.ofDims (extents.toList.map Int.ofNat)).transform .forward
          (complexEmbedding values)).1 = .error (.invalid cause) := by
  have hsize : (complexEmbedding values).size = volumeSize extents.toList := by
    rw [size_complexEmbedding, hvalues, Triple.volumeSize_toList]
  rcases Reference.transform_eq (Reference.sound_ofDims _) rfl .forward (complexEmbedding values)
    with ⟨hrep, -, hok⟩ | ⟨hnot, hrefused⟩
  · exact .inl ⟨hrep, hok⟩
  · exact .inr ⟨fun hrep => hnot ⟨hrep, hsize⟩, hrefused⟩

/-- **Storing half the spectrum of real samples loses nothing.** Let `F` be the spectrum of real
samples, which is what a call of the reference transform returns. Completing its stored half gives
`F`; every element that is not stored is the conjugate of the one stored at the opposite frequency;
and another volume that is completed from its own stored half is `F` if and only if the stored
halves are the same. -/
theorem completion_real_spectrum {extents : Triple ℕ}
    (hpos : 0 < extents.x ∧ 0 < extents.y ∧ 0 < extents.z) {values : Array ℝ}
    (hvalues : values.size = extents.volume) :
    ∃ F half,
      (Representable extents.toList ∧
          ((Reference.ofDims (extents.toList.map Int.ofNat)).transform .forward
            (complexEmbedding values)).1 = .ok F ∨
        ¬Representable extents.toList ∧ F = spectrum .forward extents.toList
            (complexEmbedding values) ∧
          ∃ cause, ((Reference.ofDims (extents.toList.map Int.ofNat)).transform .forward
            (complexEmbedding values)).1 = .error (.invalid cause)) ∧
      extractPacked .realToComplex extents F = .ok half ∧
      hermitianCompletion extents half = .ok F ∧
      (∀ x y z, x < extents.x → y < extents.y → z < extents.z → extents.z / 2 < z →
        entry F (extents.index ⟨x, y, z⟩)
          = (starRingEnd ℂ) (entry half ((TransformKind.realToComplex.packed extents).index
              ⟨(extents.x - x) % extents.x, (extents.y - y) % extents.y, extents.z - z⟩))) ∧
      ∀ other, (extractPacked .realToComplex extents other >>= hermitianCompletion extents)
          = .ok other →
        (extractPacked .realToComplex extents other = .ok half ↔ other = F) := by
  have hcall := transform_complexEmbedding hvalues
  have hsize := (size_complexEmbedding values).trans hvalues
  have htrans := isTransform_spectrum_extents .forward hsize
  set F : Volume ℝ := spectrum .forward extents.toList (complexEmbedding values) with hF
  have hFsize : F.size = extents.volume := htrans.size_eq.trans extents.volumeSize_toList
  obtain ⟨half, hhalf⟩ : ∃ half, extractPacked .realToComplex extents F = .ok half :=
    ⟨_, extractPacked_eq hpos.2.2 hFsize⟩
  have hcompleted := (completion_iff_of_isTransform hpos.2.2 htrans).mpr hhalf
  -- completing the stored half writes the mirrored elements, so what is left is where they are
  refine ⟨F, half, hcall.imp_right fun h => ⟨h.1, rfl, h.2⟩, hhalf, hcompleted, ?_, ?_⟩
  · intro x y z hx hy hz hbehind
    have hp : extents.Within ⟨x, y, z⟩ := ⟨hx, hy, hz⟩
    have hpz : ¬z < (TransformKind.realToComplex.packed extents).z := by
      show ¬z < extents.z / 2 + 1
      omega
    have hopp : extents.opposite ⟨x, y, z⟩
        = ⟨(extents.x - x) % extents.x, (extents.y - y) % extents.y, extents.z - z⟩ := by
      simp only [Triple.opposite, Triple.mk.injEq, true_and]
      exact Nat.mod_eq_of_lt (by omega)
    have hmirror := (hermitianCompletion_iff.mp hcompleted).2.2 _ hp
    rw [if_neg hpz, hopp] at hmirror
    rw [entry, hmirror, Sample.toComplex_conj, ← entry]
  · intro other hother
    constructor
    · intro hsame
      rw [hsame] at hother
      exact Except.ok.inj (hother.symm.trans hcompleted)
    · rintro rfl
      exact hhalf

/-- Three samples on a line are completed from the two elements that are stored. -/
theorem completion_line_of_three :
    (#[1, 2, 3] : Array ℝ).size = (⟨1, 1, 3⟩ : Triple ℕ).volume ∧
      ∃ F half : Volume ℝ, extractPacked .realToComplex ⟨1, 1, 3⟩ F = .ok half ∧
        hermitianCompletion ⟨1, 1, 3⟩ half = .ok F ∧
        ((Reference.ofDims [1, 1, 3]).transform .forward (complexEmbedding #[1, 2, 3])).1
          = .ok F := by
  have hpos : 0 < (⟨1, 1, 3⟩ : Triple ℕ).x ∧ 0 < (⟨1, 1, 3⟩ : Triple ℕ).y ∧
      0 < (⟨1, 1, 3⟩ : Triple ℕ).z := by
    decide
  have hrep : Representable [1, 1, 3] := by
    rw [representable_iff]
    decide
  have hsize : (#[1, 2, 3] : Array ℝ).size = (⟨1, 1, 3⟩ : Triple ℕ).volume := rfl
  obtain ⟨F, half, hcall, hhalf, hfull, -⟩ := completion_real_spectrum hpos hsize
  exact ⟨hsize, F, half, hhalf, hfull, (hcall.resolve_right fun h => h.1 hrep).2⟩

end FourierAudit
