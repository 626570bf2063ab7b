/-
The stream that stimuli are drawn from.

The words of the generator are one sequence without end, and so are the components that are made of
them, two words to a component. A stimulus is the beginning of that stream, however many samples are
asked for:

* `Twister.sequence` — the recurrence, without any array;
* `Twister.states_eq` — the array that is grown word by word holds the first words of it;
* `Stimulus.stream` — the components, one after the other;
* `Stimulus.generate_stream` — what a stimulus and its real samples hold.

Design notes: the recurrence looks back 624 words, so it is a definition by course-of-values
recursion. Its first 624 words come from the seed, and none of them is handed out.
-/
import FourierAudit.Proofs.BackendLimits
import FourierAudit.Proofs.GridComponents
import FourierAudit.Stimulus

namespace FourierAudit

namespace Twister

/-- The words of the recurrence as one sequence without end. -/
def sequence (seed : UInt32) : ℕ → UInt32
  | 0 => seed
  | k + 1 =>
    if degree ≤ k + 1 then
      let j := k + 1 - degree
      sequence seed (j + middle) ^^^ twist (sequence seed j) (sequence seed (j + 1))
    else seededAfter (sequence seed k) (k + 1)
  decreasing_by all_goals simp only [degree, middle] at *; omega

theorem sequence_succ_of_lt (seed : UInt32) {k : ℕ} (h : k + 1 < degree) :
    sequence seed (k + 1) = seededAfter (sequence seed k) (k + 1) := by
  rw [sequence, if_neg (not_le.mpr h)]

theorem sequence_degree_add (seed : UInt32) (j : ℕ) : sequence seed (degree + j)
    = sequence seed (j + middle) ^^^ twist (sequence seed j) (sequence seed (j + 1)) := by
  obtain ⟨k, hk⟩ : ∃ k, degree + j = k + 1 := ⟨623 + j, by rw [degree]; omega⟩
  have hj : k + 1 - degree = j := by omega
  rw [hk, sequence, if_pos (by omega), hj]

/-- The words that the seed alone determines, each from the one before. -/
theorem sequence_eq_fold (seed : UInt32) {k : ℕ} (h : k < degree) :
    sequence seed k = k.fold (fun i _ last => seededAfter last (i + 1)) seed := by
  induction k with
  | zero => rw [sequence, Nat.fold_zero]
  | succ k ih => rw [sequence_succ_of_lt seed h, ih (by omega), Nat.fold_succ]

/-! ### The array of words -/

/-- The first words of the sequence. -/
def firstWords (seed : UInt32) (count : ℕ) : Array UInt32 :=
  (Array.range count).map (sequence seed)

theorem size_firstWords (seed : UInt32) (count : ℕ) : (firstWords seed count).size = count := by
  rw [firstWords, Array.size_map, Array.size_range]

theorem getD_firstWords (seed : UInt32) {count k : ℕ} (h : k < count) :
    (firstWords seed count).getD k 0 = sequence seed k := by
  rw [Array.getD_eq_getD_getElem?, firstWords, Array.getElem?_map, Array.getElem?_range, if_pos h]
  rfl

theorem push_firstWords (seed : UInt32) (count : ℕ) :
    (firstWords seed count).push (sequence seed count) = firstWords seed (count + 1) := by
  simp [firstWords, Array.range_succ]

theorem seeded_eq (seed : UInt32) : seeded seed = firstWords seed degree := by
  have hfold (n : ℕ) (hn : n < degree) :
      n.fold (fun i _ states => states.push (seededAfter (states.getD i 0) (i + 1))) #[seed]
        = firstWords seed (n + 1) := by
    induction n with
    | zero =>
      have hempty : firstWords seed 0 = #[] := Array.map_empty
      rw [Nat.fold_zero, ← push_firstWords, hempty, sequence]
      rfl
    | succ n ih =>
      rw [Nat.fold_succ, ih (by omega), getD_firstWords seed (by omega),
        ← sequence_succ_of_lt seed hn, push_firstWords]
  exact hfold (degree - 1) (by decide)

theorem following_firstWords (seed : UInt32) (count : ℕ) :
    following (firstWords seed (degree + count)) = sequence seed (degree + count) := by
  have hsize : degree + count - degree = count := by omega
  have hmiddle : middle < degree := by decide
  have hone : 1 < degree := by decide
  rw [following, size_firstWords, hsize, getD_firstWords seed (by omega),
    getD_firstWords seed (by omega), getD_firstWords seed (by omega), sequence_degree_add]

/-- The words that are computed for a stimulus are the first ones of the sequence, however many
there are. -/
theorem states_eq (seed : UInt32) (count : ℕ) :
    states seed count = firstWords seed (degree + count) := by
  rw [states]
  induction count with
  | zero => exact seeded_eq seed
  | succ count ih => rw [Nat.fold_succ, ih, following_firstWords, push_firstWords, ← add_assoc]

theorem word_states (seed : UInt32) {count k : ℕ} (h : k < count) :
    word (states seed count) k = temper (sequence seed (degree + k)) := by
  rw [word, states_eq, getD_firstWords seed (by omega)]

end Twister

namespace Stimulus

variable {R : Type} [Scalar R]

/-! ### The samples -/

/-- The components as one stream without end: component `i` is made of the words `2 * i` and
`2 * i + 1` that are handed out. -/
def stream (seed : UInt32) (i : ℕ) : R :=
  Twister.uniform (Twister.temper (Twister.sequence seed (Twister.degree + 2 * i)))
    (Twister.temper (Twister.sequence seed (Twister.degree + (2 * i + 1))))

theorem draw_states (seed : UInt32) {count i : ℕ} (h : 2 * i + 1 < count) :
    (draw (Twister.states seed count) i : R) = stream seed i := by
  rw [draw, Twister.word_states seed (by omega), Twister.word_states seed h, stream]

theorem size_samples (seed : UInt32) (count : ℕ) (p : Precision) :
    (samples seed count p : Volume R).size = count :=
  Array.size_ofFn

theorem getElem?_samples (seed : UInt32) (count : ℕ) (p : Precision) (i : ℕ) :
    (samples seed count p : Volume R)[i]? =
      if i < count then some ⟨p.store (stream seed (2 * i)), p.store (stream seed (2 * i + 1))⟩
      else none := by
  rw [samples, Array.getElem?_ofFn]
  split_ifs with h
  · rw [Precision.storeSample, draw_states seed (by omega), draw_states seed (by omega)]
  · rfl

/-- Fewer samples are the first ones of more. -/
theorem extract_samples (seed : UInt32) {n m : ℕ} (h : n ≤ m) (p : Precision) :
    (samples seed m p : Volume R).extract 0 n = samples seed n p := by
  apply Array.ext_getElem?
  intro i
  rw [Array.getElem?_extract, size_samples, getElem?_samples, getElem?_samples, Nat.zero_add]
  split_ifs with h h' h' <;> first | rfl | omega

theorem storeVolume_samples (seed : UInt32) (count : ℕ) (p : Precision) :
    p.storeVolume (samples seed count .double : Volume R) = samples seed count p := by
  apply Array.ext_getElem?
  intro i
  rw [getElem?_storeVolume, getElem?_samples, getElem?_samples]
  split_ifs <;> rfl

/-- The components are the stream, as those of a sample stand next to each other. -/
theorem getElem?_components_samples (seed : UInt32) {count i : ℕ} (h : i < 2 * count)
    (p : Precision) :
    (components (samples seed count p : Volume R))[i]? = some (p.store (stream seed i)) := by
  rw [getElem?_components, getElem?_samples, if_pos (by omega), Option.map_some, Sample.component]
  split_ifs with hparity
  · have heven : 2 * (i / 2) = i := by omega
    rw [heven]
  · have hodd : 2 * (i / 2) + 1 = i := by omega
    rw [hodd]

/-- The real samples are the beginning of the stream. -/
theorem realInput_samples (seed : UInt32) {count k : ℕ} (h : k ≤ 2 * count) (p : Precision) :
    realInput k (samples seed count p : Volume R)
      = (Array.range k).map fun j => p.store (stream seed j) := by
  apply Array.ext_getElem?
  intro j
  rw [getElem?_realInput_components, Array.getElem?_map, Array.getElem?_range]
  split_ifs with hj
  · exact getElem?_components_samples seed (by omega) p
  · rfl

/-! ### The stimulus of a seed -/

theorem isAddressable_samples (n : ℕ) :
    isAddressable Precision.double.elementSize [(n : ℤ)] = true ↔ 16 * n < 2 ^ 63 := by
  rcases Nat.eq_zero_or_pos n with rfl | hn
  · decide
  · exact isAddressable_elementSize .double hn

/-- A word of 32 bits is a seed, and there are as many samples as an array can hold. -/
theorem generate_natural {seed : ℤ} (hseed : 0 ≤ seed ∧ seed < 2 ^ 32) (n : ℕ) (p : Precision) :
    (generate seed n p : Except (Failure R) (Volume R)) =
      if 16 * n < 2 ^ 63 then .ok (samples (UInt32.ofNat seed.toNat) n p)
      else .error (.invalid .arrayTooLong) := by
  have hrange : ¬(seed < 0 ∨ 0x100000000 ≤ seed) := by omega
  have hnot : ¬(n : ℤ) < 0 := by omega
  rw [generate, prepare, if_neg hrange, if_neg hnot]
  by_cases h : 16 * n < 2 ^ 63
  · rw [(isAddressable_samples n).mpr h, if_pos h]
    rfl
  · have haddr : isAddressable Precision.double.elementSize [(n : ℤ)] = false := by
      rwa [← Bool.not_eq_true, isAddressable_samples]
    rw [haddr, if_neg h]
    rfl

/-- **Stimuli are beginnings of one stream.** For every seed there is one stream of components.
Sample `i` of a stimulus consists of the components `2 * i` and `2 * i + 1` of it, as a grid of the
precision holds them. So a stimulus begins with every shorter one, that of single precision is the
one of double precision stored in single precision, and the first `k` real samples are the first `k`
components of the stream. This is so for every number of samples whose components an array can
hold; any other number is refused. -/
theorem generate_stream {seed : ℤ} (hseed : 0 ≤ seed ∧ seed < 2 ^ 32) (n : ℕ) :
    (16 * n < 2 ^ 63 ∧
        (∀ p, ∃ v : Volume R, generate seed n p = .ok v ∧ v.size = n ∧
          (∀ i < n, v[i]? = some ⟨p.store (stream (UInt32.ofNat seed.toNat) (2 * i)),
            p.store (stream (UInt32.ofNat seed.toNat) (2 * i + 1))⟩) ∧
          (∀ m w, n ≤ m → generate seed m p = .ok w → w.extract 0 n = v) ∧
          ∀ k ≤ 2 * n, realInput k v =
            (Array.range k).map fun j => p.store (stream (UInt32.ofNat seed.toNat) j)) ∧
        (generate seed n .single : Except (Failure R) (Volume R))
          = (generate seed n .double).map Precision.single.storeVolume) ∨
      2 ^ 63 ≤ 16 * n ∧ ∀ p, (generate seed n p : Except (Failure R) (Volume R))
        = .error (.invalid .arrayTooLong) := by
  simp only [generate_natural hseed]
  rcases Nat.lt_or_ge (16 * n) (2 ^ 63) with h | h
  · refine .inl ⟨h, fun p => ⟨_, if_pos h, size_samples _ n p, ?_, ?_, ?_⟩, ?_⟩
    · intro i hi
      rw [getElem?_samples, if_pos hi]
    · intro m w hle hw
      split_ifs at hw
      rw [← Except.ok.inj hw]
      exact extract_samples _ hle p
    · exact fun k hk => realInput_samples _ hk p
    · rw [if_pos h, if_pos h, Except.map, storeVolume_samples]
  · exact .inr ⟨h, fun p => if_neg (not_lt.mpr h)⟩

/-- Two samples in single precision, of which a transform of three real samples reads the first one
and a half. -/
theorem generate_stream_two_samples :
    ((0 : ℤ) ≤ 0 ∧ (0 : ℤ) < 2 ^ 32) ∧ ∃ v : Volume Float, generate 0 2 .single = .ok v ∧
      v.size = 2 ∧ v[1]? = some ⟨Binary32.nearest (stream 0 2), Binary32.nearest (stream 0 3)⟩ ∧
      realInput 3 v = (Array.range 3).map fun j => Binary32.nearest (stream 0 j) := by
  have hseed : (0 : ℤ) ≤ 0 ∧ (0 : ℤ) < 2 ^ 32 := by decide
  rcases generate_stream (R := Float) hseed 2 with ⟨-, h, -⟩ | ⟨h, -⟩
  · obtain ⟨v, hv, hsize, hsample, -, hreal⟩ := h .single
    exact ⟨hseed, v, hv, hsize, hsample 1 (by decide), hreal 3 (by decide)⟩
  · omega

/-- `2 ^ 60` components in double precision take `2 ^ 63` bytes, so there is no stimulus of half as
many samples. -/
theorem not_generate_of_many_samples :
    ¬∃ v : Volume Float, generate 0 576460752303423488 .double = .ok v := by
  rintro ⟨v, hv⟩
  have hseed : (0 : ℤ) ≤ 0 ∧ (0 : ℤ) < 2 ^ 32 := by decide
  have hnatural := generate_natural (R := Float) hseed 576460752303423488 .double
  rw [if_neg (by decide)] at hnatural
  cases hnatural.symm.trans hv

end Stimulus

end FourierAudit
