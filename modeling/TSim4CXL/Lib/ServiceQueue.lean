/-
  Queues with one server: at each tick of the clock the front leaves if its time has come,
  so at most one leaves a tick and none before its time.

  `dues` computes, from the clock and the queue, when each of its elements leaves. The
  times do not change with what happens afterwards: a tick at which nobody leaves keeps
  them (`dues_wait`), one at which the front leaves drops the first (`dues_leave`), and
  what enters at the end comes after them (`dues_append`).
-/
import Mathlib.Data.List.Basic

namespace ServiceQueue

variable {α : Type*} {ready : α → Int}

/-- When the elements of a queue leave, the clock being at `t`. -/
def dues (ready : α → Int) : Int → List α → List Int
  | _, [] => []
  | t, x :: xs => max (ready x) (t + 1) :: dues ready (max (ready x) (t + 1)) xs

variable {t bound : Int} {x : α} {xs : List α}

@[simp] theorem length_dues : (dues ready t xs).length = xs.length := by
  induction xs generalizing t with
  | nil => rfl
  | cons x xs ih => simp [dues, ih]

theorem dues_wait (h : t + 1 < ready x) :
    dues ready (t + 1) (x :: xs) = dues ready t (x :: xs) := by
  have hmax : max (ready x) (t + 1 + 1) = max (ready x) (t + 1) := by omega
  simp only [dues, hmax]

theorem dues_leave (h : ready x ≤ t + 1) :
    dues ready t (x :: xs) = (t + 1) :: dues ready (t + 1) xs := by
  simp only [dues, Int.max_eq_right h]

/-- What enters leaves after the rest and does not delay it. -/
theorem dues_append (ready : α → Int) (t : Int) (xs ys : List α) :
    ∃ t', dues ready t (xs ++ ys) = dues ready t xs ++ dues ready t' ys := by
  induction xs generalizing t with
  | nil => exact ⟨t, rfl⟩
  | cons x xs ih =>
      obtain ⟨t', ht'⟩ := ih (max (ready x) (t + 1))
      exact ⟨t', by simp only [List.cons_append, dues, ht']⟩

/-- Nobody is overdue. -/
theorem lt_of_mem_dues {d : Int} (h : d ∈ dues ready t xs) : t < d := by
  induction xs generalizing t with
  | nil => cases h
  | cons x xs ih =>
      rcases List.mem_cons.mp h with rfl | h
      · omega
      · have := ih h
        omega

/-- One a tick, once everybody is ready. -/
theorem dues_le (ht : t + 1 ≤ bound) (hr : ∀ x ∈ xs, ready x ≤ bound) {i : Nat} {d : Int}
    (h : (dues ready t xs)[i]? = some d) : d ≤ bound + i := by
  induction xs generalizing t bound i with
  | nil => simp [dues] at h
  | cons x xs ih =>
      have hx : max (ready x) (t + 1) ≤ bound := Int.max_le.mpr ⟨hr x List.mem_cons_self, ht⟩
      cases i with
      | zero =>
          obtain rfl : max (ready x) (t + 1) = d := by simpa [dues] using h
          simpa using hx
      | succ i =>
          have hd : d ≤ bound + 1 + i := ih (by omega)
            (fun y hy => Int.le_trans (hr y (List.mem_cons_of_mem x hy)) (by omega)) h
          push_cast
          omega

end ServiceQueue
