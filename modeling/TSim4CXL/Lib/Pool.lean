/-
  Pools of numbered cells: cells given back are taken again, last in first out, and new ones are
  made when none is left.

  Cells are let to tenants, whatever these are. `Holds` is what a pool keeps: every tenant has a
  cell of its own, and none of them is free. A cell taken is nobody's (`Holds.take`), a cell given
  back by its tenant is free again and nobody else's (`Holds.give`).
-/
import Mathlib.Data.List.Nodup
import Mathlib.Logic.Function.Basic

/-- The free cells, the next one to take first, and the number of cells made. -/
structure Pool where
  free : List ℕ
  made : ℕ

namespace Pool

def empty : Pool := ⟨[], 0⟩

def take (c : Pool) : ℕ × Pool :=
  match c.free with
  | i :: rest => (i, { c with free := rest })
  | [] => (c.made, { c with made := c.made + 1 })

def give (c : Pool) (i : ℕ) : Pool := { c with free := i :: c.free }

/-- The tenants have made cells, each its own, and no free one. -/
structure Holds {ν : Type*} (c : Pool) (tenant : ν → Prop) (cell : ν → ℕ) : Prop where
  nodup : c.free.Nodup
  free_lt : ∀ i ∈ c.free, i < c.made
  lt : ∀ n, tenant n → cell n < c.made
  not_free : ∀ n, tenant n → cell n ∉ c.free
  inj : ∀ m n, tenant m → tenant n → cell m = cell n → m = n

namespace Holds

variable {ν : Type*} {c : Pool} {tenant tenant' : ν → Prop} {cell cell' : ν → ℕ}

theorem empty (tenant : ν → Prop) (cell : ν → ℕ) (h : ∀ n, ¬ tenant n) :
    Holds .empty tenant cell where
  nodup := List.nodup_nil
  free_lt i hi := by cases hi
  lt n hn := absurd hn (h n)
  not_free n hn := absurd hn (h n)
  inj m n hm := absurd hm (h m)

/-- Fewer tenants with the same cells. -/
theorem mono (h : Holds c tenant cell) (ht : ∀ n, tenant' n → tenant n)
    (hc : ∀ n, tenant' n → cell' n = cell n) : Holds c tenant' cell' where
  nodup := h.nodup
  free_lt := h.free_lt
  lt n hn := hc n hn ▸ h.lt n (ht n hn)
  not_free n hn := hc n hn ▸ h.not_free n (ht n hn)
  inj m n hm hn he := h.inj m n (ht m hm) (ht n hn) (by rw [← hc m hm, ← hc n hn, he])

/-- A cell taken is no tenant's. -/
theorem take_fresh (h : Holds c tenant cell) {n : ν} (hn : tenant n) : cell n ≠ c.take.1 := by
  have hlt := h.lt n hn
  have hfree := h.not_free n hn
  unfold Pool.take
  split
  · rename_i i rest hc
    rintro rfl
    exact hfree (hc ▸ List.mem_cons_self)
  · omega

/-- A cell taken is not free any more. -/
theorem take_not_free (h : Holds c tenant cell) :
    c.take.1 < c.take.2.made ∧ c.take.1 ∉ c.take.2.free := by
  have hnodup := h.nodup
  have hlt := h.free_lt
  unfold Pool.take
  split
  · rename_i i rest hc
    rw [hc, List.nodup_cons] at hnodup
    exact ⟨hlt i (hc ▸ List.mem_cons_self), hnodup.1⟩
  · rename_i hc
    exact ⟨Nat.lt_succ_self _, by simp [hc]⟩

/-- The tenants keep their cells when one is taken. -/
theorem take_rest (h : Holds c tenant cell) : Holds c.take.2 tenant cell := by
  unfold Pool.take
  split
  · rename_i i rest hc
    have hsub : ∀ j ∈ rest, j ∈ c.free := fun j hj => hc ▸ List.mem_cons_of_mem _ hj
    exact ⟨(hc ▸ h.nodup).of_cons, fun j hj => h.free_lt j (hsub j hj), h.lt,
      fun n hn hmem => h.not_free n hn (hsub _ hmem), h.inj⟩
  · exact ⟨h.nodup, fun i hi => Nat.lt_succ_of_lt (h.free_lt i hi),
      fun n hn => Nat.lt_succ_of_lt (h.lt n hn), h.not_free, h.inj⟩

/-- A new tenant with the cell taken. -/
theorem take (h : Holds c tenant cell) {new : ν} (hnew : cell' new = c.take.1)
    (ht : ∀ n, tenant' n → n = new ∨ tenant n) (hc : ∀ n, n ≠ new → cell' n = cell n) :
    Holds c.take.2 tenant' cell' := by
  have hrest := h.take_rest
  have hfresh := h.take_not_free
  have hother : ∀ n, tenant' n → n ≠ new → tenant n := fun n hn hne => (ht n hn).resolve_left hne
  refine ⟨hrest.nodup, hrest.free_lt, fun n hn => ?_, fun n hn => ?_, fun m n hm hn he => ?_⟩
  · by_cases hne : n = new
    · rw [hne, hnew]
      exact hfresh.1
    · rw [hc n hne]
      exact hrest.lt n (hother n hn hne)
  · by_cases hne : n = new
    · rw [hne, hnew]
      exact hfresh.2
    · rw [hc n hne]
      exact hrest.not_free n (hother n hn hne)
  · by_cases hmn : m = new <;> by_cases hnn : n = new
    · rw [hmn, hnn]
    · rw [hmn, hnew, hc n hnn] at he
      exact absurd he.symm (h.take_fresh (hother n hn hnn))
    · rw [hnn, hnew, hc m hmn] at he
      exact absurd he (h.take_fresh (hother m hm hmn))
    · rw [hc m hmn, hc n hnn] at he
      exact h.inj m n (hother m hm hmn) (hother n hn hnn) he

/-- A tenant that leaves gives its cell back. -/
theorem give (h : Holds c tenant cell) {n : ν} (hn : tenant n)
    (ht : ∀ m, tenant' m → tenant m ∧ m ≠ n) : Holds (c.give (cell n)) tenant' cell where
  nodup := List.nodup_cons.mpr ⟨h.not_free n hn, h.nodup⟩
  free_lt i hi := by
    rcases List.mem_cons.mp hi with rfl | hi
    · exact h.lt n hn
    · exact h.free_lt i hi
  lt m hm := h.lt m (ht m hm).1
  not_free m hm hmem := by
    rcases List.mem_cons.mp hmem with he | hmem
    · exact (ht m hm).2 (h.inj m n (ht m hm).1 hn he)
    · exact h.not_free m (ht m hm).1 hmem
  inj l m hl hm := h.inj l m (ht l hl).1 (ht m hm).1

end Holds

end Pool
