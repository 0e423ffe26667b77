/-
  Progress under fair schedules.

  A system works off a task when every allowed step either changes nothing or lowers a measure of
  the work that is left (`Working`). Then no schedule can keep it busy for ever, and a schedule that
  goes round and round comes, after at most as many rounds as there is work, to a round in which
  nobody has anything to do (`Working.settles`). What such a state looks like is the system's
  business.
-/
import TSim4CXL.Lib.Transition

namespace Transition

variable {σ α φ : Type*} {step : σ → α → Except φ σ} {ok : σ → α → Prop} {P : σ → Prop}
    {work : σ → Nat}

/-- Allowed steps keep `P`; they change nothing or leave less work. -/
structure Working (step : σ → α → Except φ σ) (ok : σ → α → Prop) (P : σ → Prop) (work : σ → Nat) :
    Prop where
  keeps : ∀ s a t, P s → ok s a → step s a = .ok t → P t
  lowers : ∀ s a t, P s → ok s a → step s a = .ok t → t = s ∨ work t < work s

/-- The label `a` has nothing to do in `s`. -/
def Idle (step : σ → α → Except φ σ) (ok : σ → α → Prop) (s : σ) (a : α) : Prop :=
  ∀ t, ok s a → step s a = .ok t → t = s

variable [∀ s a, Decidable (ok s a)]

theorem runSkip_append (s : σ) (as bs : List α) :
    runSkip step ok s (as ++ bs) = runSkip step ok (runSkip step ok s as) bs := by
  induction as generalizing s with
  | nil => rfl
  | cons a as ih =>
      simp only [List.cons_append, runSkip]
      split
      · split <;> exact ih _
      · exact ih _

namespace Working

theorem runSkip_le (hw : Working step ok P work) {s : σ} (as : List α) (hs : P s) :
    P (runSkip step ok s as) ∧ work (runSkip step ok s as) ≤ work s := by
  induction as generalizing s with
  | nil => exact ⟨hs, Nat.le_refl _⟩
  | cons a as ih =>
      simp only [runSkip]
      split
      · rename_i ha
        split
        · rename_i t ht
          obtain ⟨hP, hle⟩ := ih (hw.keeps s a t hs ha ht)
          refine ⟨hP, Nat.le_trans hle ?_⟩
          rcases hw.lowers s a t hs ha ht with rfl | hlt
          · exact Nat.le_refl _
          · exact Nat.le_of_lt hlt
        · exact ih hs
      · exact ih hs

/-- One label with something to do is enough: it still has when its turn comes, or another one has
    lowered the work by then. -/
theorem runSkip_lt (hw : Working step ok P work) {s : σ} {as : List α} {a : α} (hs : P s)
    (ha : a ∈ as) (hbusy : ¬ Idle step ok s a) : work (runSkip step ok s as) < work s := by
  induction as with
  | nil => cases ha
  | cons b as ih =>
      simp only [runSkip]
      split
      · rename_i hb
        split
        · rename_i t ht
          rcases hw.lowers s b t hs hb ht with rfl | hlt
          · -- `b` changed nothing, so it is not `a`
            rcases List.mem_cons.mp ha with rfl | ha
            · exact absurd (fun u _ hu => Except.ok.inj (hu.symm.trans ht)) hbusy
            · exact ih ha
          · exact Nat.lt_of_le_of_lt (hw.runSkip_le as (hw.keeps s b t hs hb ht)).2 hlt
        · rename_i e he
          rcases List.mem_cons.mp ha with rfl | ha
          · exact absurd (fun u _ hu => by rw [he] at hu; cases hu) hbusy
          · exact ih ha
      · rename_i hb
        rcases List.mem_cons.mp ha with rfl | ha
        · exact absurd (fun _ ha => absurd ha hb) hbusy
        · exact ih ha

/-- Among more rounds than there is work, there is one that finds nothing to do. -/
theorem settles (hw : Working step ok P work) {s : σ} {rounds : List (List α)} (hs : P s)
    (hlen : work s < rounds.length) : ∃ before round after, rounds = before ++ round :: after ∧
      ∀ a ∈ round, Idle step ok (runSkip step ok s before.flatten) a := by
  induction rounds generalizing s with
  | nil => cases hlen
  | cons round rounds ih =>
      by_cases hidle : ∀ a ∈ round, Idle step ok s a
      · exact ⟨[], round, rounds, rfl, hidle⟩
      · obtain ⟨a, ha, hbusy⟩ : ∃ a ∈ round, ¬ Idle step ok s a := by
          simpa only [not_forall, exists_prop] using hidle
        have hlt := hw.runSkip_lt hs ha hbusy
        rw [List.length_cons] at hlen
        obtain ⟨before, last, after, hsplit, hidle⟩ := ih (hw.runSkip_le round hs).1
          (Nat.lt_of_lt_of_le hlt (Nat.le_of_lt_succ hlen))
        refine ⟨round :: before, last, after, by rw [hsplit, List.cons_append], ?_⟩
        rwa [List.flatten_cons, runSkip_append]

end Working

end Transition
