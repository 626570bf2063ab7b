/-
Cases with legal extents.

Before a backend runs a case, every extent of the case is replaced by the least legal one from there
up to a ceiling. What comes out is a case that the backend leaves alone and does not refuse for its
extents:

* `FirstWithoutLegal` — the first extent for which there is no legal one;
* `normalise_eq_ok_iff`, `normalise_eq_error_iff` — the case with legal extents, or why there is
  none;
* `Backend.Exceeds` — the limits of a backend other than legal extents, with what is said about
  them;
* `normalise_least_legal` — these together.

Design notes: the test of an extent is any that always answers, so that what is said here holds for
a test of the backend's own as well as for its radices.
-/
import FourierAudit.Proofs.CapabilityLimits

namespace FourierAudit

variable {R : Type} [Scalar R]

/-! ### The extents of a grid -/

/-- The first extent of a grid for which there is no legal one up to the ceiling. -/
def FirstWithoutLegal (legal : Legality R) (ceiling : ℤ) (dims : List ℕ) (n : ℕ) : Prop :=
  ∃ before after, dims = before ++ n :: after ∧
    (∀ m ∈ before, (legal.extents m ceiling).Nonempty) ∧ legal.extents n ceiling = ∅

section Extents

variable {legal : Legality R} {ceiling : ℤ} {dims : List ℕ}

theorem exists_firstWithoutLegal_iff :
    (∃ n, FirstWithoutLegal legal ceiling dims n) ↔ ∃ n ∈ dims, legal.extents n ceiling = ∅ := by
  constructor
  · rintro ⟨n, before, after, rfl, -, hempty⟩
    exact ⟨n, by simp, hempty⟩
  · rintro ⟨n, hn, hempty⟩
    induction dims with
    | nil => exact absurd hn List.not_mem_nil
    | cons m rest ih =>
      by_cases hm : legal.extents m ceiling = ∅
      · exact ⟨m, [], rest, rfl, by simp, hm⟩
      · have hrest : n ∈ rest := by
          rcases List.mem_cons.mp hn with rfl | hrest
          · exact absurd hempty hm
          · exact hrest
        obtain ⟨k, before, after, rfl, hbefore, hk⟩ := ih hrest
        refine ⟨k, m :: before, after, rfl, ?_, hk⟩
        exact List.forall_mem_cons.mpr ⟨Set.nonempty_iff_ne_empty.mpr hm, hbefore⟩

variable (htotal : legal.Total)

include htotal

theorem leastLegalExtents_eq_ok_iff {results : List ℤ} :
    leastLegalExtents legal ceiling (dims.map fun (n : ℕ) => .whole n) = .ok results ↔
      List.Forall₂ (fun (n : ℕ) m => IsLeast (legal.extents n ceiling) m) dims results := by
  rw [leastLegalExtents, mapM_eq_ok_iff, List.forall₂_map_left_iff]
  simp only [leastLegalExtent_eq_ok_iff htotal]

theorem exists_leastLegalExtent_iff (n : ℤ) :
    (∃ m, leastLegalExtent legal ceiling (.whole n) = .ok m) ↔
      (legal.extents n ceiling).Nonempty := by
  simp only [leastLegalExtent_eq_ok_iff htotal]
  constructor
  · rintro ⟨m, hm⟩
    exact ⟨m, hm.1⟩
  · exact Legality.exists_isLeast

theorem leastLegalExtents_eq_error_iff {e : Failure R} :
    leastLegalExtents legal ceiling (dims.map fun (n : ℕ) => .whole n) = .error e ↔
      ∃ n, FirstWithoutLegal legal ceiling dims n ∧
        e = .misconfigured (.noLegalExtent (.whole n) ceiling) := by
  rw [leastLegalExtents, mapM_eq_error_iff]
  constructor
  · rintro ⟨before, q, after, hsplit, hbefore, hq⟩
    obtain ⟨before, rest, rfl, rfl, hrest⟩ := List.map_eq_append_iff.mp hsplit
    obtain ⟨n, after, rfl, rfl, rfl⟩ := List.map_eq_cons_iff.mp hrest
    obtain ⟨hempty, rfl⟩ := (leastLegalExtent_eq_error_iff htotal).mp hq
    refine ⟨n, ⟨before, after, rfl, ?_, hempty⟩, rfl⟩
    intro m hm
    exact (exists_leastLegalExtent_iff htotal m).mp (hbefore _ (List.mem_map_of_mem hm))
  · rintro ⟨n, ⟨before, after, rfl, hbefore, hempty⟩, rfl⟩
    refine ⟨before.map fun (m : ℕ) => .whole m, .whole n, after.map fun (m : ℕ) => .whole m,
      by simp, ?_, (leastLegalExtent_eq_error_iff htotal).mpr ⟨hempty, rfl⟩⟩
    -- the extents before are the ones that the search finds legal ones for
    intro q hq
    obtain ⟨m, hm, rfl⟩ := List.mem_map.mp hq
    exact (exists_leastLegalExtent_iff htotal m).mpr (hbefore m hm)

end Extents

/-! ### The case -/

namespace Backend

section Normalise

variable {b : Backend R} {c c' : TransformCase R} {ceiling : ℤ}

variable (htotal : b.legal.Total)

include htotal

/-- A backend makes a case legal by taking the least legal extent for every one; nothing else
changes. -/
theorem normalise_eq_ok_iff :
    b.normalise c ceiling = .ok c' ↔
      (c'.kind = c.kind ∧ c'.precision = c.precision ∧ c'.toleranceScale = c.toleranceScale) ∧
        List.Forall₂ (fun (n n' : ℕ) => IsLeast (b.legal.extents n ceiling) n') c.dims c'.dims := by
  constructor
  · intro h
    obtain ⟨results, hresults, -⟩ := exists_of_bind_eq_ok h
    have hleast := (leastLegalExtents_eq_ok_iff htotal).mp hresults
    obtain ⟨found, hpos, rfl, -⟩ := exists_extents hresults
    rw [normalise_of_extents hpos hresults] at h
    cases h
    exact ⟨⟨rfl, rfl, rfl⟩, List.forall₂_map_right_iff.mp hleast⟩
  · rintro ⟨⟨hkind, hprecision, hscale⟩, hleast⟩
    rw [normalise_of_extents c'.extents_pos
      ((leastLegalExtents_eq_ok_iff htotal).mpr (List.forall₂_map_right_iff.mpr hleast))]
    obtain ⟨extents', kind', precision', scale', hpos', hscalePos'⟩ := c'
    obtain ⟨extents, kind, precision, scale, hpos, hscalePos⟩ := c
    simp only at hkind hprecision hscale
    subst hkind hprecision hscale
    rfl

/-- A case is not made legal because of the first extent for which there is no legal one. -/
theorem normalise_eq_error_iff {e : Failure R} :
    b.normalise c ceiling = .error e ↔
      ∃ n, FirstWithoutLegal b.legal ceiling c.dims n ∧
        e = .misconfigured (.noLegalExtent (.whole n) ceiling) := by
  rw [← leastLegalExtents_eq_error_iff htotal]
  constructor
  · intro h
    rcases eq_error_or_of_bind h with herror | ⟨results, hresults, -⟩
    · exact herror
    · -- with all extents found there is a case
      obtain ⟨found, hpos, rfl, -⟩ := exists_extents hresults
      rw [normalise_of_extents hpos hresults] at h
      cases h
  · intro h
    rw [normalise, h, error_bind]

end Normalise

/-! ### The other limits -/

/-- The limits of a backend that a case with legal extents can exceed, each with its failure. -/
inductive Exceeds (b : Backend R) (accelerator : Option Accelerator) (c : TransformCase R) :
    Failure R → Prop where
  | precision (h : c.precision ∉ b.precisions) :
      Exceeds b accelerator c (.unsupported (.precision (nameText b.name) c.precision))
  | volume {limit : ℤ} (hlimit : b.maxPoints = some limit) (h : limit < c.points) :
      Exceeds b accelerator c (.unsupported (.volume (nameText b.name) limit c.points))
  | memory {a : Accelerator} (hneeds : b.needsDeviceMemory = true) (ha : accelerator = some a)
      (h : a.freeBytes < requiredBytes c) :
      Exceeds b accelerator c
        (.unsupported (.memory (nameText b.name) (requiredBytes c) a.freeBytes))
  /-- There is no device memory at all without the library for it. -/
  | noMemory (hneeds : b.needsDeviceMemory = true) (h : accelerator = none) :
      Exceeds b accelerator c .deviceLibraryMissing

section Limits

variable {b : Backend R} {accelerator : Option Accelerator} {c : TransformCase R}

/-- A case with legal extents is supported or refused for one of the other limits. -/
theorem exceeds_or_supported (hlegal : ∀ n ∈ c.dims, b.legal n = .ok true) :
    (∃ e, b.Exceeds accelerator c e ∧ b.checkSupported accelerator c = .error e) ∨
      (∀ e, ¬b.Exceeds accelerator c e) ∧ b.checkSupported accelerator c = .ok () := by
  -- the limits are looked at in this order, and the first one that is exceeded is named
  by_cases hprecision : c.precision ∈ b.precisions
  swap
  · exact .inl ⟨_, .precision hprecision, checkSupported_of_precision hprecision⟩
  by_cases hvolume : ∃ limit, b.maxPoints = some limit ∧ limit < c.points
  · obtain ⟨limit, hlimit, hpoints⟩ := hvolume
    exact .inl ⟨_, .volume hlimit hpoints, checkSupported_of_volume hprecision hlimit hpoints⟩
  push Not at hvolume
  rw [checkSupported_of_points_le hprecision hvolume, allLegal_iff.mpr hlegal, ok_bind, if_pos rfl]
  unfold checkMemory
  by_cases hneeds : b.needsDeviceMemory = true
  swap
  · refine .inr ⟨?_, if_neg hneeds⟩
    rintro e (h | ⟨hlimit, h⟩ | ⟨h, -, -⟩ | ⟨h, -⟩)
    · exact h hprecision
    · exact absurd (hvolume _ hlimit) (not_le.mpr h)
    · exact hneeds h
    · exact hneeds h
  rw [if_pos hneeds]
  cases accelerator with
  | none => exact .inl ⟨_, .noMemory hneeds rfl, rfl⟩
  | some a =>
    by_cases hmemory : a.freeBytes < requiredBytes c
    · exact .inl ⟨_, .memory hneeds rfl hmemory, if_pos hmemory⟩
    · refine .inr ⟨?_, if_neg hmemory⟩
      rintro e (h | ⟨hlimit, h⟩ | ⟨-, ha, h⟩ | ⟨-, h⟩)
      · exact h hprecision
      · exact absurd (hvolume _ hlimit) (not_le.mpr h)
      · cases ha
        exact hmemory h
      · cases h

end Limits

/-! ### Legal cases -/

/-- **A backend makes a case legal or says which extent cannot be.** For any test of extents that
always answers: there is no legal case if and only if some extent has no legal one up to the
ceiling, and the first such extent is named. Otherwise the case keeps its kind, its precision and
its factor on the tolerances, and each extent becomes the least legal one from there up. The backend
leaves the new case as it is, and supports it unless it exceeds another limit, in which case that is
what it is refused for. A case stays as it is if and only if its extents are legal and not above the
ceiling. -/
theorem normalise_least_legal {b : Backend R} (htotal : b.legal.Total) (c : TransformCase R)
    (ceiling : ℤ) :
    ((∃ e, b.normalise c ceiling = .error e) ↔
        ∃ n ∈ c.dims, b.legal.extents n ceiling = ∅) ∧
      (∀ e, b.normalise c ceiling = .error e ↔
        ∃ n, FirstWithoutLegal b.legal ceiling c.dims n ∧
          e = .misconfigured (.noLegalExtent (.whole n) ceiling)) ∧
      (∀ c', b.normalise c ceiling = .ok c' →
        (c'.kind = c.kind ∧ c'.precision = c.precision ∧ c'.toleranceScale = c.toleranceScale) ∧
          List.Forall₂ (fun n n' : ℕ => IsLeast (b.legal.extents n ceiling) n') c.dims c'.dims ∧
          b.normalise c' ceiling = .ok c' ∧
          ∀ accelerator,
            (∃ e, b.Exceeds accelerator c' e ∧ b.checkSupported accelerator c' = .error e) ∨
              (∀ e, ¬b.Exceeds accelerator c' e) ∧ b.checkSupported accelerator c' = .ok ()) ∧
      (b.normalise c ceiling = .ok c ↔
        ∀ n ∈ c.dims, b.legal n = .ok true ∧ (n : ℤ) ≤ ceiling) := by
  refine ⟨?_, fun e => normalise_eq_error_iff htotal, ?_, ?_⟩
  · rw [← exists_firstWithoutLegal_iff]
    simp only [normalise_eq_error_iff htotal]
    constructor
    · rintro ⟨e, n, hn, -⟩
      exact ⟨n, hn⟩
    · rintro ⟨n, hn⟩
      exact ⟨_, n, hn, rfl⟩
  · intro c' h
    obtain ⟨hsame, hleast⟩ := (normalise_eq_ok_iff htotal).mp h
    obtain ⟨-, -, -, hlegal⟩ := exists_of_normalise h
    have hstays := normalise_of_legal (fun n hn => (hlegal n hn).1) fun n hn => (hlegal n hn).2
    exact ⟨hsame, hleast, hstays, fun _ => exceeds_or_supported fun n hn => (hlegal n hn).1⟩
  · constructor
    · intro h
      obtain ⟨-, -, -, hlegal⟩ := exists_of_normalise h
      exact hlegal
    · intro hlegal
      exact normalise_of_legal (fun n hn => (hlegal n hn).1) fun n hn => (hlegal n hn).2

/-- The host backend for even extents only. -/
def evenBackend : Backend Float :=
  { (hostBackend : Backend Float) with extentTest := some fun n => n % 2 == 0 }

/-- What becomes of two lines of eleven samples if every extent has to be even. -/
def evenLines : TransformCase Float :=
  { twoLines 11 (by decide) with extents := ⟨2, 2, 12⟩, extents_pos := by decide }

theorem evenBackend_legal_iff (n : ℤ) : evenBackend.legal n = .ok true ↔ n % 2 = 0 := by
  simp [legal, evenBackend]

/-- The least even extent is the requested one or the next one. -/
theorem isLeast_even {n m : ℕ} {ceiling : ℤ} (hn : 1 ≤ n ∧ n ≤ m ∧ m ≤ n + 1) (heven : m % 2 = 0)
    (hceiling : m ≤ ceiling) : IsLeast (evenBackend.legal.extents n ceiling) m := by
  refine ⟨⟨by omega, hceiling, (evenBackend_legal_iff m).mpr (by omega)⟩, ?_⟩
  rintro k ⟨hk, -, hkeven⟩
  rw [evenBackend_legal_iff] at hkeven
  omega

/-- Of the extents two, one and eleven the first can stay and the second becomes two. For the third
there is no even one up to eleven, but up to twelve there is. -/
theorem normalise_least_legal_evenBackend :
    evenBackend.legal.Total ∧
      evenBackend.normalise (twoLines 11 (by decide)) 11
        = .error (.misconfigured (.noLegalExtent (.whole 11) 11)) ∧
      evenBackend.normalise (twoLines 11 (by decide)) 12 = .ok evenLines ∧
      evenBackend.normalise evenLines 12 = .ok evenLines := by
  have htotal : evenBackend.legal.Total := legal_total (.inl rfl)
  have hnone : evenBackend.legal.extents (11 : ℕ) 11 = ∅ := by
    rw [Set.eq_empty_iff_forall_notMem]
    rintro m ⟨hm, hceiling, heven⟩
    rw [evenBackend_legal_iff] at heven
    omega
  have hfirst : FirstWithoutLegal evenBackend.legal 11 (twoLines 11 (by decide)).dims 11 := by
    refine ⟨[2, 1], [], rfl, ?_, hnone⟩
    simp only [List.forall_mem_cons, List.not_mem_nil, false_imp_iff, implies_true, and_true]
    exact ⟨⟨2, (isLeast_even (by decide) rfl (by decide)).1⟩,
      ⟨2, (isLeast_even (by decide) rfl (by decide)).1⟩⟩
  have hlines : evenBackend.normalise (twoLines 11 (by decide)) 12 = .ok evenLines := by
    refine (normalise_eq_ok_iff htotal).mpr ⟨⟨rfl, rfl, rfl⟩, ?_⟩
    exact .cons (isLeast_even (by decide) rfl (by decide))
      (.cons (isLeast_even (by decide) rfl (by decide))
        (.cons (isLeast_even (by decide) rfl (by decide)) .nil))
  obtain ⟨-, herror, -⟩ := normalise_least_legal htotal (twoLines 11 (by decide)) 11
  obtain ⟨-, -, hagain, -⟩ := normalise_least_legal htotal (twoLines 11 (by decide)) 12
  exact ⟨htotal, (herror _).mpr ⟨11, hfirst, rfl⟩, hlines, (hagain evenLines hlines).2.2.1⟩

end Backend

end FourierAudit
