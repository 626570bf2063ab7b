/-
Steps that can fail.

A computation that can fail goes through its steps until one of them fails. What it ends with says
how far it got:

* `exists_of_bind_eq_ok`, `eq_error_or_of_bind` — a step with the rest of the computation;
* `mapM_eq_ok_iff`, `mapM_eq_error_iff` — a step for each element of a list, and
  `first_failure_unique`, the one that fails first;
* `exists_mapM_ok`, `exists_mapM_error`, `exists_of_mem_mapM` — whether all of these succeed.
-/
import Mathlib

namespace FourierAudit

variable {ε α β : Type} {x : Except ε α} {f : α → Except ε β}

/-! ### One step after another -/

theorem ok_bind (a : α) (f : α → Except ε β) : (.ok a : Except ε α) >>= f = f a := rfl

theorem error_bind (e : ε) (f : α → Except ε β) : (.error e : Except ε α) >>= f = .error e := rfl

theorem exists_of_bind_eq_ok {b : β} (h : x >>= f = .ok b) : ∃ a, x = .ok a ∧ f a = .ok b := by
  cases x with
  | error e => cases h
  | ok a => exact ⟨a, rfl, h⟩

theorem eq_error_or_of_bind {e : ε} (h : x >>= f = .error e) :
    x = .error e ∨ ∃ a, x = .ok a ∧ f a = .error e := by
  cases x with
  | error e =>
    cases h
    exact .inl rfl
  | ok a => exact .inr ⟨a, rfl, h⟩

/-! ### A step for each element of a list -/

section MapM

variable {items : List α}

/-- A list of computations succeeds with the list of their results. -/
theorem mapM_eq_ok_iff {results : List β} :
    items.mapM f = .ok results ↔ List.Forall₂ (fun a b => f a = .ok b) items results := by
  induction items generalizing results with
  | nil => simp [pure, Except.pure, eq_comm]
  | cons a rest ih =>
    rw [List.mapM_cons, List.forall₂_cons_left_iff]
    constructor
    · intro h
      obtain ⟨b, hb, h⟩ := exists_of_bind_eq_ok h
      obtain ⟨others, hrest, h⟩ := exists_of_bind_eq_ok h
      cases h
      exact ⟨b, others, hb, ih.mp hrest, rfl⟩
    · rintro ⟨b, others, hb, hrest, rfl⟩
      rw [hb, ok_bind, ih.mpr hrest, ok_bind]
      rfl

/-- A list of computations fails with the first of them that does. -/
theorem mapM_eq_error_iff {e : ε} :
    items.mapM f = .error e ↔ ∃ before a after, items = before ++ a :: after ∧
      (∀ b ∈ before, ∃ result, f b = .ok result) ∧ f a = .error e := by
  induction items with
  | nil =>
    constructor
    · exact nofun
    · rintro ⟨before, a, after, h, -⟩
      simp at h
  | cons a rest ih =>
    rw [List.mapM_cons]
    constructor
    · intro h
      rcases eq_error_or_of_bind h with ha | ⟨b, hb, h⟩
      · exact ⟨[], a, rest, rfl, by simp, ha⟩
      · rcases eq_error_or_of_bind h with hrest | ⟨results, -, h⟩
        · obtain ⟨before, a', after, rfl, hbefore, ha'⟩ := ih.mp hrest
          refine ⟨a :: before, a', after, rfl, ?_, ha'⟩
          exact List.forall_mem_cons.mpr ⟨⟨b, hb⟩, hbefore⟩
        · cases h
    · rintro ⟨before, a', after, h, hbefore, ha'⟩
      cases before with
      | nil =>
        obtain ⟨rfl, rfl⟩ := List.cons.inj h
        rw [ha', error_bind]
      | cons b before =>
        obtain ⟨rfl, rfl⟩ := List.cons.inj h
        obtain ⟨⟨result, hresult⟩, hbefore⟩ := List.forall_mem_cons.mp hbefore
        rw [hresult, ok_bind, ih.mpr ⟨before, a', after, rfl, hbefore, ha'⟩, error_bind]

/-- A list has one first element whose computation fails. -/
theorem first_failure_unique {before before' after after' : List α} {a a' : α} {e e' : ε}
    (h : before ++ a :: after = before' ++ a' :: after')
    (hbefore : ∀ b ∈ before, ∃ result, f b = .ok result) (ha : f a = .error e)
    (hbefore' : ∀ b ∈ before', ∃ result, f b = .ok result) (ha' : f a' = .error e') :
    before = before' ∧ a = a' := by
  induction before generalizing before' with
  | nil =>
    cases before' with
    | nil => exact ⟨rfl, (List.cons.inj h).1⟩
    | cons b rest =>
      obtain ⟨rfl, -⟩ := List.cons.inj h
      obtain ⟨result, hresult⟩ := hbefore' a List.mem_cons_self
      cases ha.symm.trans hresult
  | cons b rest ih =>
    rw [List.forall_mem_cons] at hbefore
    cases before' with
    | nil =>
      obtain ⟨rfl, -⟩ := List.cons.inj h
      obtain ⟨result, hresult⟩ := hbefore.1
      cases ha'.symm.trans hresult
    | cons b' rest' =>
      obtain ⟨rfl, htail⟩ := List.cons.inj h
      obtain ⟨rfl, rfl⟩ := ih htail hbefore.2 (List.forall_mem_cons.mp hbefore').2
      exact ⟨rfl, rfl⟩

/-- A list of computations succeeds if each of them does. -/
theorem exists_mapM_ok (h : ∀ a ∈ items, ∃ b, f a = .ok b) :
    ∃ results, items.mapM f = .ok results := by
  rcases hmap : items.mapM f with e | results
  · obtain ⟨before, a, after, rfl, -, ha⟩ := mapM_eq_error_iff.mp hmap
    obtain ⟨b, hb⟩ := h a (by simp)
    cases ha.symm.trans hb
  · exact ⟨results, rfl⟩

theorem exists_of_forall₂ {r : α → β → Prop} {results : List β} (h : List.Forall₂ r items results)
    {b : β} (hb : b ∈ results) : ∃ a ∈ items, r a b := by
  induction h with
  | nil => cases hb
  | @cons a b' rest others hab _ ih =>
    rcases List.mem_cons.mp hb with rfl | hb
    · exact ⟨a, List.mem_cons_self, hab⟩
    · obtain ⟨a', ha', hrel⟩ := ih hb
      exact ⟨a', List.mem_cons_of_mem a ha', hrel⟩

theorem exists_of_mem_mapM {results : List β} (h : items.mapM f = .ok results) {b : β}
    (hb : b ∈ results) : ∃ a ∈ items, f a = .ok b :=
  exists_of_forall₂ (mapM_eq_ok_iff.mp h) hb

/-- A list of computations fails if one of them does. -/
theorem exists_mapM_error {a : α} {e : ε} (ha : a ∈ items) (he : f a = .error e) :
    ∃ e, items.mapM f = .error e := by
  rcases hmap : items.mapM f with e' | results
  · exact ⟨e', rfl⟩
  · obtain ⟨b, -, hb⟩ := exists_of_forall₂ (mapM_eq_ok_iff.mp hmap).flip ha
    cases he.symm.trans hb

end MapM

end FourierAudit
