/-
What a buffer holds after any use of it.

A buffer is written to by uploads and element by element. What is downloaded from it are arrays of
their own, that anyone may change afterwards:

* `Action`, `InUse.after` — a buffer with the arrays downloaded from it, after any sequence of
  actions, each of which may fail without changing anything;
* `getElem?_act` — what one action does to an element;
* `getElem?_after` — an element holds the last value written to it;
* `getElem?_copies_after` — a download holds what the buffer held, changed as a download only;
* `after_allocate` — these for a buffer of zeros.

Design notes: the value that an action writes to an element is data (`Action.written`), so that the
last one is the last in a list of values, whatever was done in between.
-/
import FourierAudit.Proofs.RealGrids

namespace FourierAudit

theorem place?_lt {size place : ℕ} {i : ℤ} (h : place? size i = some place) : place < size := by
  rw [place?] at h
  split_ifs at h <;> grind

namespace Buffer

variable {R : Type}

/-- Something done to a buffer or to an array downloaded from it. -/
inductive Action (R : Type) where
  | upload (values : Volume R)
  | write (i : ℤ) (value : Sample R)
  | download
  /-- Any change to the array of an earlier download, that download number `copy` returned. -/
  | alter (copy : ℕ) (change : Volume R → Volume R)

namespace Action

def isDownload : Action R → Bool
  | .download => true
  | _ => false

/-- Whether an action is one that writes to the buffer. -/
def isWrite : Action R → Bool
  | .upload _ | .write _ _ => true
  | .download | .alter _ _ => false

/-- The value that an action writes to element `i` of a buffer of `n` elements, if it does. An
upload of more than `n` elements writes none. -/
def written (n i : ℕ) : Action R → Option (Sample R)
  | .upload values => if values.size ≤ n then values[i]? else none
  | .write j value => if place? n j = some i then some value else none
  | .download | .alter _ _ => none

/-- What an action does to the array of download number `k`, if it does anything. -/
def changeOf (k : ℕ) : Action R → Option (Volume R → Volume R)
  | .alter copy change => if copy = k then some change else none
  | .upload _ | .write _ _ | .download => none

end Action

/-- The last value that was written to element `i` of a buffer of `n` elements. -/
def lastWritten (n i : ℕ) (actions : List (Action R)) : Option (Sample R) :=
  (actions.filterMap (Action.written n i)).getLast?

theorem lastWritten_concat (n i : ℕ) (actions : List (Action R)) (action : Action R) :
    lastWritten n i (actions ++ [action]) =
      (action.written n i).or (lastWritten n i actions) := by
  rw [lastWritten, lastWritten, List.filterMap_append, List.getLast?_append]
  cases h : action.written n i <;> simp [h]

/-- A buffer and the arrays that were downloaded from it, in order. -/
structure InUse (R : Type) where
  buffer : Buffer R
  copies : List (Volume R)

variable [Scalar R]

/-- The buffer after an attempt to replace one element. -/
def afterWrite (b : Buffer R) (i : ℤ) (value : Sample R) : Buffer R :=
  (b.write i value).toOption.getD b

theorem afterWrite_eq (b : Buffer R) (i : ℤ) (value : Sample R) :
    b.afterWrite i value =
      match place? b.cells.size i with
      | some place =>
        { b with cells := b.cells.setIfInBounds place (b.precision.storeSample value) }
      | none => b := by
  rw [afterWrite, write, placeIn]
  cases place? b.cells.size i <;> rfl

namespace InUse

/-- The outcome of an action. -/
def attempt (u : InUse R) : Action R → Except (Failure R) (InUse R)
  | .upload values => (u.buffer.upload values).map fun b => { u with buffer := b }
  | .write i value => (u.buffer.write i value).map fun b => { u with buffer := b }
  | .download => .ok { u with copies := u.copies ++ [u.buffer.cells] }
  | .alter copy change => .ok { u with copies := u.copies.modify copy change }

/-- What an action leaves behind, which is everything as it was where it fails. -/
def act (u : InUse R) (action : Action R) : InUse R := (u.attempt action).toOption.getD u

def after (u : InUse R) (actions : List (Action R)) : InUse R := actions.foldl act u

section Act

variable (u : InUse R)

theorem act_upload (values : Volume R) :
    u.act (.upload values) = { u with buffer := u.buffer.afterUpload values } := by
  rw [act, attempt, afterUpload]
  cases u.buffer.upload values <;> rfl

theorem act_write (i : ℤ) (value : Sample R) :
    u.act (.write i value) = { u with buffer := u.buffer.afterWrite i value } := by
  rw [act, attempt, afterWrite]
  cases u.buffer.write i value <;> rfl

theorem act_download : u.act .download = { u with copies := u.copies ++ [u.buffer.cells] } := rfl

theorem act_alter (copy : ℕ) (change : Volume R → Volume R) :
    u.act (.alter copy change) = { u with copies := u.copies.modify copy change } := rfl

theorem after_concat (actions : List (Action R)) (action : Action R) :
    u.after (actions ++ [action]) = (u.after actions).act action := by
  rw [after, after, List.foldl_append]
  rfl

end Act

/-! ### Failing uploads -/

theorem attempt_upload (u : InUse R) (values : Volume R) :
    u.attempt (.upload values) =
      if u.buffer.cells.size < values.size then
        .error (.invalid (.upload values.size u.buffer.name u.buffer.cells.size))
      else .ok (u.act (.upload values)) := by
  rw [act_upload, attempt, upload, afterUpload_eq]
  split_ifs <;> rfl

theorem attempt_upload_eq_error_iff {u : InUse R} {values : Volume R} {e : Failure R} :
    u.attempt (.upload values) = .error e ↔ u.buffer.cells.size < values.size ∧
      e = .invalid (.upload values.size u.buffer.name u.buffer.cells.size) := by
  rw [attempt_upload]
  split_ifs with hlong
  · rw [Except.error.injEq, eq_comm]
    exact (and_iff_right hlong).symm
  · exact iff_of_false (by rintro ⟨⟩) fun hboth => hlong hboth.1

theorem act_upload_of_lt {u : InUse R} {values : Volume R}
    (h : u.buffer.cells.size < values.size) : u.act (.upload values) = u := by
  rw [act, attempt_upload, if_pos h]
  rfl

/-! ### What the buffer holds -/

/-- An action leaves a buffer of the same kind. -/
theorem buffer_act (u : InUse R) (action : Action R) :
    (u.act action).buffer = { u.buffer with cells := (u.act action).buffer.cells } := by
  cases action with
  | upload values =>
    rw [act_upload, afterUpload_eq]
    split_ifs <;> rfl
  | write i value =>
    rw [act_write, afterWrite_eq]
    split <;> rfl
  | download => rfl
  | alter copy change => rfl

theorem size_act (u : InUse R) (action : Action R) :
    (u.act action).buffer.cells.size = u.buffer.cells.size := by
  cases action with
  | upload values => rw [act_upload, size_afterUpload]
  | write i value =>
    rw [act_write, afterWrite_eq]
    split
    · exact Array.size_setIfInBounds
    · rfl
  | download => rfl
  | alter copy change => rfl

/-- An element holds what the action writes to it, and else what it held. -/
theorem getElem?_act (u : InUse R) (action : Action R) (i : ℕ) :
    (u.act action).buffer.cells[i]? =
      ((action.written u.buffer.cells.size i).map u.buffer.precision.storeSample).or
        u.buffer.cells[i]? := by
  cases action with
  | upload values =>
    rw [act_upload, afterUpload_eq, Action.written]
    by_cases hlong : u.buffer.cells.size < values.size
    · rw [if_pos hlong, if_neg (by omega)]
      rfl
    · rw [if_neg hlong, if_pos (by omega), Array.getElem?_append, size_storeVolume,
        getElem?_storeVolume]
      split_ifs with hi
      · rw [Array.getElem?_eq_getElem hi]
        rfl
      · -- behind what is uploaded, the elements of the buffer are where they were
        have hvalue : values[i]? = none := Array.getElem?_eq_none (by omega)
        rw [hvalue, Array.getElem?_extract]
        split_ifs with hin
        · rw [show values.size + (i - values.size) = i by omega]
          rfl
        · exact (Array.getElem?_eq_none (by omega)).symm
  | write j value =>
    rw [act_write, afterWrite_eq, Action.written]
    cases hplace : place? u.buffer.cells.size j with
    | none => rfl
    | some place =>
      have hlt : place < u.buffer.cells.size := place?_lt hplace
      change (u.buffer.cells.setIfInBounds place _)[i]? = _
      rw [Array.getElem?_setIfInBounds]
      by_cases hi : place = i
      · subst hi
        rw [if_pos rfl, if_pos hlt, if_pos rfl]
        rfl
      · rw [if_neg hi, if_neg fun heq => hi (Option.some.inj heq)]
        rfl
  | download => rfl
  | alter copy change => rfl

theorem buffer_after (u : InUse R) (actions : List (Action R)) :
    (u.after actions).buffer = { u.buffer with cells := (u.after actions).buffer.cells } := by
  induction actions using List.reverseRecOn with
  | nil => rfl
  | append_singleton actions action ih =>
    rw [after_concat, buffer_act, ih]

theorem size_after (u : InUse R) (actions : List (Action R)) :
    (u.after actions).buffer.cells.size = u.buffer.cells.size := by
  induction actions using List.reverseRecOn with
  | nil => rfl
  | append_singleton actions action ih => rw [after_concat, size_act, ih]

/-- An element holds the last value written to it, and what it held at first where none was. -/
theorem getElem?_after (u : InUse R) (actions : List (Action R)) (i : ℕ) :
    (u.after actions).buffer.cells[i]? =
      ((lastWritten u.buffer.cells.size i actions).map u.buffer.precision.storeSample).or
        u.buffer.cells[i]? := by
  induction actions using List.reverseRecOn with
  | nil => rfl
  | append_singleton actions action ih =>
    rw [after_concat, getElem?_act, size_after, ih, buffer_after, lastWritten_concat]
    cases action.written u.buffer.cells.size i <;> rfl

/-- Downloads and changes to them leave no trace in the buffer. -/
theorem buffer_after_filter (u : InUse R) (actions : List (Action R)) :
    (u.after (actions.filter Action.isWrite)).buffer = (u.after actions).buffer := by
  induction actions using List.reverseRecOn with
  | nil => rfl
  | append_singleton actions action ih =>
    rw [after_concat, List.filter_append]
    cases action with
    | upload values =>
      change (u.after (_ ++ [_])).buffer = _
      rw [after_concat, act_upload, act_upload, ih]
    | write i value =>
      change (u.after (_ ++ [_])).buffer = _
      rw [after_concat, act_write, act_write, ih]
    | download | alter =>
      change (u.after (_ ++ [])).buffer = _
      rw [List.append_nil, ih]
      rfl

/-! ### What the downloads hold -/

theorem length_copies_act (u : InUse R) (action : Action R) :
    (u.act action).copies.length = u.copies.length + if action.isDownload then 1 else 0 := by
  cases action with
  | upload values => rw [act_upload]; rfl
  | write i value => rw [act_write]; rfl
  | download => rw [act_download]; exact List.length_append
  | alter copy change => rw [act_alter]; exact List.length_modify ..

theorem length_copies_after (u : InUse R) (actions : List (Action R)) :
    (u.after actions).copies.length = u.copies.length + actions.countP Action.isDownload := by
  induction actions using List.reverseRecOn with
  | nil => rfl
  | append_singleton actions action ih =>
    rw [after_concat, length_copies_act, ih, List.countP_append, List.countP_singleton,
      Nat.add_assoc]

/-- A download that is there is changed by what is done to it, and by nothing else. -/
theorem getElem?_copies_act {u : InUse R} {k : ℕ} {copy : Volume R}
    (h : u.copies[k]? = some copy) (action : Action R) :
    (u.act action).copies[k]? = some ((action.changeOf k).elim copy fun change => change copy) := by
  cases action with
  | upload values => rw [act_upload]; exact h
  | write i value => rw [act_write]; exact h
  | download =>
    rw [act_download]
    exact List.getElem?_append_left (List.getElem?_eq_some_iff.mp h).1 ▸ h
  | alter j change =>
    change (u.copies.modify j change)[k]? = _
    rw [List.getElem?_modify, h, Action.changeOf]
    split_ifs <;> rfl

theorem getElem?_copies_after {u : InUse R} {k : ℕ} {copy : Volume R}
    (h : u.copies[k]? = some copy) (actions : List (Action R)) :
    (u.after actions).copies[k]? =
      some ((actions.filterMap (Action.changeOf k)).foldl (fun v change => change v) copy) := by
  induction actions using List.reverseRecOn with
  | nil => exact h
  | append_singleton actions action ih =>
    rw [after_concat, getElem?_copies_act ih, List.filterMap_append, List.foldl_append]
    cases hchange : action.changeOf k <;> simp [hchange]

/-- A download holds what the buffer held at the time, but for what is done to the download. -/
theorem getElem?_copies_download (u : InUse R) (before later : List (Action R)) :
    let k := u.copies.length + before.countP Action.isDownload
    (u.after (before ++ .download :: later)).copies[k]? =
      some ((later.filterMap (Action.changeOf k)).foldl (fun v change => change v)
        (u.after before).buffer.cells) := by
  intro k
  have hfirst : ((u.after before).act .download).copies[k]? =
      some (u.after before).buffer.cells := by
    rw [act_download, show k = (u.after before).copies.length from
      (length_copies_after u before).symm]
    exact List.getElem?_concat_length
  have hrun : u.after (before ++ .download :: later) =
      ((u.after before).act .download).after later := by
    rw [after, List.foldl_append]
    rfl
  rw [hrun]
  exact getElem?_copies_after hfirst later

end InUse

/-! ### A buffer of zeros -/

theorem eq_of_allocate {accelerator : Option Accelerator} {n : ℕ} {elementSize : ℤ}
    {name location : String} {b : Buffer R}
    (h : allocate accelerator n elementSize name location = .ok b) :
    Precision.ofElementSize? elementSize = some b.precision ∧
      b = ⟨name, b.precision, location, Array.replicate n Sample.zero⟩ := by
  refine ⟨(of_allocate h).2.1, ?_⟩
  rw [allocate] at h
  cases hsize : Precision.ofElementSize? elementSize with
  | none =>
    rw [hsize] at h
    cases h
  | some p =>
    simp only [hsize] at h
    repeat' split at h
    all_goals cases h
    all_goals rfl

/-- A buffer of zeros after any use. An upload fails if it has more elements than the buffer, and
only then. Each element holds the last value written to it, as far as the precision goes, and zero
where there was none. A download holds what the buffer held at the time, but for what is done to the
download, which the buffer knows nothing of. -/
theorem after_allocate {accelerator : Option Accelerator} {n : ℕ} {elementSize : ℤ}
    {name location : String} {b : Buffer R}
    (h : allocate accelerator n elementSize name location = .ok b) (actions : List (Action R)) :
    let u := InUse.after ⟨b, []⟩ actions
    (∀ values e, u.attempt (.upload values) = .error e ↔
      n < values.size ∧ e = .invalid (.upload values.size name n)) ∧
    (∀ values : Volume R, n < values.size → u.act (.upload values) = u) ∧
    Precision.ofElementSize? elementSize = some u.buffer.precision ∧
    u.buffer.cells.size = n ∧
    (∀ i < n, u.buffer.cells[i]? =
      some (((lastWritten n i actions).map u.buffer.precision.storeSample).getD Sample.zero)) ∧
    u.copies.length = actions.countP Action.isDownload ∧
    (∀ before later, actions = before ++ .download :: later →
      let k := before.countP Action.isDownload
      u.copies[k]? = some ((later.filterMap (Action.changeOf k)).foldl (fun v change => change v)
        (InUse.after ⟨b, []⟩ before).buffer.cells)) ∧
    u.buffer = (InUse.after ⟨b, []⟩ (actions.filter Action.isWrite)).buffer := by
  obtain ⟨hprecision, hb⟩ := eq_of_allocate h
  intro u
  have hcells : b.cells.size = n := by
    rw [hb]
    exact Array.size_replicate
  have hsize : u.buffer.cells.size = n := (InUse.size_after _ _).trans hcells
  have hkind : u.buffer = { b with cells := u.buffer.cells } := InUse.buffer_after _ _
  have hname : u.buffer.name = name := by rw [hkind, hb]
  refine ⟨fun values e => ?_, fun values hlong => ?_, by rw [hkind]; exact hprecision, hsize,
    fun i hi => ?_, ?_, ?_, (InUse.buffer_after_filter _ _).symm⟩
  · rw [InUse.attempt_upload_eq_error_iff, hsize, hname]
  · exact InUse.act_upload_of_lt (hsize ▸ hlong)
  · have hzero : b.cells[i]? = some Sample.zero := by
      rw [hb]
      exact Array.getElem?_replicate.trans (if_pos hi)
    rw [InUse.getElem?_after, hzero, hcells, hkind]
    cases lastWritten n i actions <;> rfl
  · exact (InUse.length_copies_after _ _).trans (Nat.zero_add _)
  · rintro before later rfl k
    have hcopy := InUse.getElem?_copies_download ⟨b, []⟩ before later
    rwa [show ([] : List (Volume R)).length + before.countP Action.isDownload = k from
      Nat.zero_add _] at hcopy

/-- Ten elements, four of them uploaded, the last one written on its own, and an upload that is too
long. The download keeps what it had, and one change to it, when two elements are uploaded again. -/
theorem after_allocate_ten :
    ∃ b : Buffer ℝ, allocate none (10 : ℕ) 8 "grid1" "host" = .ok b ∧
      let before : List (Action ℝ) := [.upload #[⟨0, 1⟩, ⟨1, 1⟩, ⟨2, 1⟩, ⟨3, 1⟩],
        .write (-1) ⟨7, 8⟩, .upload (Array.replicate 11 ⟨5, 5⟩)]
      let later : List (Action ℝ) :=
        [.alter 0 (·.setIfInBounds 0 ⟨42, 0⟩), .upload #[⟨9, 9⟩, ⟨8, 8⟩]]
      let u := InUse.after ⟨b, []⟩ (before ++ .download :: later)
      u.buffer.cells[0]? = some ⟨9, 9⟩ ∧ u.buffer.cells[3]? = some ⟨3, 1⟩ ∧
      u.buffer.cells[4]? = some ⟨0, 0⟩ ∧ u.buffer.cells[9]? = some ⟨7, 8⟩ ∧
      u.copies[0]? =
        some ((InUse.after ⟨b, []⟩ before).buffer.cells.setIfInBounds 0 ⟨42, 0⟩) := by
  have hb : (allocate none (10 : ℕ) 8 "grid1" "host" : Except (Failure ℝ) (Buffer ℝ)) =
      .ok ⟨"grid1", .single, "host", Array.replicate 10 Sample.zero⟩ :=
    (allocate_natural (.inl rfl) 10 .single "grid1").trans (if_pos (by decide))
  refine ⟨_, hb, ?_⟩
  intro before later u
  obtain ⟨-, -, -, -, hcells, -, hcopies, -⟩ :=
    after_allocate hb (before ++ .download :: later)
  refine ⟨(hcells 0 (by decide)).trans ?_, (hcells 3 (by decide)).trans ?_,
    (hcells 4 (by decide)).trans ?_, (hcells 9 (by decide)).trans ?_, hcopies before later rfl⟩
  · rw [show lastWritten 10 0 (before ++ .download :: later) = some ⟨9, 9⟩ from rfl]
    simp
  · rw [show lastWritten 10 3 (before ++ .download :: later) = some ⟨3, 1⟩ from rfl]
    simp
  · rw [show lastWritten 10 4 (before ++ .download :: later) = none from rfl]
    simp [Sample.zero]
  · rw [show lastWritten 10 9 (before ++ .download :: later) = some ⟨7, 8⟩ from rfl]
    simp

end Buffer

end FourierAudit
