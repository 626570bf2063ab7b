/-
Row-major order.

A volume with any number of axes is stored with its last axis running fastest.

* `Position` — a point of a grid, one place on each axis;
* `place` — where a position stands in storage, each axis weighted with the size of what follows
  it; every place of the volume is that of some position (`exists_place`);
* `sum_position_cons` — a sum over all positions, taken along the first axis last.

For three axes these are the points and places of the library (`Triple.place_position`), which
are inverse to each other (`Triple.point_index`, `Triple.index_point`).
-/
import Mathlib
import FourierAudit.Spectrum

namespace FourierAudit

theorem mul_add_div_of_lt {a b c : ℕ} (h : c < b) : (a * b + c) / b = a := by
  rw [Nat.mul_comm, Nat.mul_add_div (by omega), Nat.div_eq_of_lt h, Nat.add_zero]

/-- A point of a grid with any number of axes: a place on each axis. -/
abbrev Position (dims : List ℕ) : Type := (i : Fin dims.length) → Fin (dims.get i)

/-- The place of a position in row-major order. -/
def place (dims : List ℕ) (x : Position dims) : ℕ :=
  ∑ i, (x i : ℕ) * volumeSize (dims.drop (i + 1))

namespace Position

variable {n : ℕ} {rest : List ℕ}

/-- Without axes there is one position. -/
instance : Unique (Position []) where
  default := fun i => i.elim0
  uniq _ := funext fun i => i.elim0

/-- The position with a given place on the first axis. -/
def cons (j : Fin n) (x : Position rest) : Position (n :: rest) :=
  @Fin.cons rest.length (fun i => Fin ((n :: rest).get i)) j x

theorem exists_cons (x : Position (n :: rest)) : ∃ j y, x = cons j y :=
  ⟨x 0, fun i => x i.succ, (Fin.cons_self_tail x).symm⟩

end Position

theorem sum_position_cons {M : Type*} [AddCommMonoid M] {n : ℕ} {rest : List ℕ}
    (f : Position (n :: rest) → M) :
    ∑ x, f x = ∑ j : Fin n, ∑ x : Position rest, f (Position.cons j x) := by
  calc ∑ x, f x
      = ∑ p : Fin n × Position rest, f (Position.cons p.1 p.2) :=
        ((Fin.consEquiv fun i => Fin ((n :: rest).get i)).sum_comp f).symm
    _ = _ := Fintype.sum_prod_type _

theorem prod_position_cons {M : Type*} [CommMonoid M] {n : ℕ} {rest : List ℕ}
    (f : Fin (n :: rest).length → M) :
    ∏ i, f i = f 0 * ∏ i : Fin rest.length, f i.succ :=
  Fin.prod_univ_succ f

theorem place_cons {n : ℕ} {rest : List ℕ} (j : Fin n) (x : Position rest) :
    place (n :: rest) (Position.cons j x) = j * volumeSize rest + place rest x := by
  rw [place, place]
  exact Fin.sum_univ_succ _

theorem place_lt {dims : List ℕ} (x : Position dims) : place dims x < volumeSize dims := by
  induction dims with
  | nil => exact Nat.one_pos
  | cons n rest ih =>
    obtain ⟨j, y, rfl⟩ := x.exists_cons
    rw [place_cons, volumeSize]
    calc j * volumeSize rest + place rest y
        < j * volumeSize rest + volumeSize rest := Nat.add_lt_add_left (ih y) _
      _ = (j + 1) * volumeSize rest := by ring
      _ ≤ n * volumeSize rest := Nat.mul_le_mul_right _ j.isLt

theorem exists_place {dims : List ℕ} {i : ℕ} (h : i < volumeSize dims) :
    ∃ x, place dims x = i := by
  induction dims generalizing i with
  | nil => exact ⟨default, (Nat.lt_one_iff.mp h).symm⟩
  | cons n rest ih =>
    rw [volumeSize] at h
    have hpos : 0 < volumeSize rest := Nat.pos_of_mul_pos_left (Nat.zero_lt_of_lt h)
    obtain ⟨y, hy⟩ := ih (Nat.mod_lt i hpos)
    have hj : i / volumeSize rest < n := Nat.div_lt_of_lt_mul (by rwa [Nat.mul_comm] at h)
    refine ⟨Position.cons ⟨_, hj⟩ y, ?_⟩
    rw [place_cons, hy, Nat.mul_comm]
    exact Nat.div_add_mod i _

/-! ### Three axes -/

namespace Triple

/-- Whether a point lies in the grid with these extents. -/
def Within (extents p : Triple ℕ) : Prop :=
  p.x < extents.x ∧ p.y < extents.y ∧ p.z < extents.z

theorem volumeSize_toList (extents : Triple ℕ) : volumeSize extents.toList = extents.volume := by
  simp only [toList, volumeSize, volume]
  ring

theorem index_lt {extents p : Triple ℕ} (h : extents.Within p) :
    extents.index p < extents.volume := by
  obtain ⟨hx, hy, hz⟩ := h
  have h₁ : p.x * extents.y + p.y < extents.x * extents.y :=
    calc p.x * extents.y + p.y < p.x * extents.y + extents.y := Nat.add_lt_add_left hy _
      _ = (p.x + 1) * extents.y := by ring
      _ ≤ extents.x * extents.y := Nat.mul_le_mul_right _ hx
  calc (p.x * extents.y + p.y) * extents.z + p.z
      < (p.x * extents.y + p.y) * extents.z + extents.z := Nat.add_lt_add_left hz _
    _ = (p.x * extents.y + p.y + 1) * extents.z := by ring
    _ ≤ extents.x * extents.y * extents.z := Nat.mul_le_mul_right _ h₁

theorem within_point {extents : Triple ℕ} {i : ℕ} (h : i < extents.volume) :
    extents.Within (extents.point i) := by
  have hz : 0 < extents.z := Nat.pos_of_mul_pos_left (Nat.zero_lt_of_lt h)
  have hxy : i / extents.z < extents.x * extents.y :=
    Nat.div_lt_of_lt_mul (by rwa [Nat.mul_comm])
  have hy : 0 < extents.y := Nat.pos_of_mul_pos_left (Nat.zero_lt_of_lt hxy)
  exact ⟨Nat.div_lt_of_lt_mul (by rwa [Nat.mul_comm]), Nat.mod_lt _ hy, Nat.mod_lt _ hz⟩

@[simp] theorem index_point (extents : Triple ℕ) (i : ℕ) : extents.index (extents.point i) = i := by
  simp only [index, point]
  rw [Nat.div_add_mod', Nat.div_add_mod']

theorem point_index {extents p : Triple ℕ} (h : extents.Within p) :
    extents.point (extents.index p) = p := by
  obtain ⟨hx, hy, hz⟩ := h
  simp only [index, point, mul_add_div_of_lt hz, mul_add_div_of_lt hy, Nat.mul_add_mod_of_lt hz,
    Nat.mul_add_mod_of_lt hy]

/-- A point of a grid with three axes as a position. -/
def position {extents p : Triple ℕ} (h : extents.Within p) : Position extents.toList :=
  .cons ⟨p.x, h.1⟩ (.cons ⟨p.y, h.2.1⟩ (.cons ⟨p.z, h.2.2⟩ fun i => i.elim0))

theorem place_position {extents p : Triple ℕ} (h : extents.Within p) :
    place extents.toList (position h) = extents.index p := by
  simp only [toList, position]
  rw [place_cons, place_cons, place_cons]
  simp only [place, volumeSize, index]
  simp
  ring

end Triple

end FourierAudit
