/-
  Members of groups of `N`, taken in some order, no member twice.

  A member is a pair of its group and its place in the group, `ks` the members taken, in
  rounds of `N`. `group_eq_of_le`: when no member is taken before the round of its group,
  every round takes one group. `complete_iff`: every group is complete by the end of its
  round exactly when every round takes one group. `filter_round`: then the members of a
  group are those of its round.
-/
import Mathlib.Data.Finset.Prod
import Mathlib.Data.Finset.Card
import Mathlib.Data.List.Nodup
import Mathlib.Data.List.NodupEquivFin

namespace Groups

/-- No member is taken twice, and every place is below `N`. -/
structure Taken (N : Nat) (ks : List (Nat × Nat)) : Prop where
  nodup : ks.Nodup
  place : ∀ k ∈ ks, k.2 < N

variable {N : Nat} {ks : List (Nat × Nat)}

theorem Taken.sublist (h : Taken N ks) {ks' : List (Nat × Nat)} (hs : ks'.Sublist ks) :
    Taken N ks' where
  nodup := h.nodup.sublist hs
  place k hk := h.place k (hs.subset hk)

theorem Taken.take (h : Taken N ks) (m : Nat) : Taken N (ks.take m) :=
  h.sublist (List.take_sublist m ks)

/-- The members of the groups below `m`. -/
def below (N m : Nat) : Finset (Nat × Nat) := Finset.range m ×ˢ Finset.range N

theorem card_below (m : Nat) : (below N m).card = N * m := by
  rw [below, Finset.card_product, Finset.card_range, Finset.card_range, Nat.mul_comm]

/-- Members of groups below `m` are no more than there are. -/
theorem Taken.length_le (h : Taken N ks) {m : Nat} (hm : ∀ k ∈ ks, k.1 < m) :
    ks.length ≤ N * m := by
  rw [← List.toFinset_card_of_nodup h.nodup, ← card_below m]
  refine Finset.card_le_card fun k hk => ?_
  have hk := List.mem_toFinset.mp hk
  exact Finset.mem_product.mpr
    ⟨Finset.mem_range.mpr (hm k hk), Finset.mem_range.mpr (h.place k hk)⟩

/-- One group has `N` members at most. -/
theorem Taken.length_le_of_group (h : Taken N ks) {n : Nat} (hn : ∀ k ∈ ks, k.1 = n) :
    ks.length ≤ N := by
  have hcard : ((Finset.range N).map ⟨fun i => (n, i), Prod.mk_right_injective n⟩).card = N := by
    rw [Finset.card_map, Finset.card_range]
  rw [← hcard, ← List.toFinset_card_of_nodup h.nodup]
  refine Finset.card_le_card fun k hk => ?_
  have hk := List.mem_toFinset.mp hk
  rw [Finset.mem_map]
  exact ⟨k.2, Finset.mem_range.mpr (h.place k hk), Prod.ext (hn k hk).symm rfl⟩

/-- As many members of groups below `m` as there are is all of them. -/
theorem Taken.mem_of_length (h : Taken N ks) {m : Nat} (hm : ∀ k ∈ ks, k.1 < m)
    (hlen : ks.length = N * m) {k : Nat × Nat} (h1 : k.1 < m) (h2 : k.2 < N) : k ∈ ks := by
  have hsub : ks.toFinset ⊆ below N m := fun x hx => by
    have hx := List.mem_toFinset.mp hx
    exact Finset.mem_product.mpr
      ⟨Finset.mem_range.mpr (hm x hx), Finset.mem_range.mpr (h.place x hx)⟩
  have heq := Finset.eq_of_subset_of_card_le hsub
    (by rw [card_below, List.toFinset_card_of_nodup h.nodup, hlen])
  rw [← List.mem_toFinset, heq]
  exact Finset.mem_product.mpr ⟨Finset.mem_range.mpr h1, Finset.mem_range.mpr h2⟩

/-- Members that contain all groups below `m`, and are no more, are of these groups. -/
theorem Taken.lt_of_length (h : Taken N ks) {m : Nat} (hlen : ks.length = N * m)
    (hall : ∀ k ∈ below N m, k ∈ ks) : ∀ k ∈ ks, k.1 < m := by
  have hsub : below N m ⊆ ks.toFinset := fun x hx => List.mem_toFinset.mpr (hall x hx)
  have heq := Finset.eq_of_subset_of_card_le hsub
    (by rw [card_below, List.toFinset_card_of_nodup h.nodup, hlen])
  intro k hk
  rw [← List.mem_toFinset, ← heq] at hk
  exact Finset.mem_range.mp (Finset.mem_product.mp hk).1

/-- A list of members nobody takes before the round of their group takes one group a round. -/
theorem Taken.group_eq_of_le (h : Taken N ks) (hle : ∀ j, ∀ hj : j < ks.length, ks[j].1 ≤ j / N) :
    ∀ j, ∀ hj : j < ks.length, ks[j].1 = j / N := by
  intro j hj
  refine Nat.le_antisymm (hle j hj) (Nat.le_of_not_lt fun hlt => ?_)
  -- the rounds up to that of its group are full without it
  have hround : N * (ks[j].1 + 1) ≤ j :=
    Nat.le_trans (Nat.mul_le_mul_left N hlt) (Nat.mul_div_le j N)
  have hlen : (ks.take (N * (ks[j].1 + 1))).length = N * (ks[j].1 + 1) := by
    rw [List.length_take]
    omega
  have hgroups : ∀ k ∈ ks.take (N * (ks[j].1 + 1)), k.1 < ks[j].1 + 1 := by
    intro k hk
    obtain ⟨i, hi, rfl⟩ := List.mem_iff_getElem.mp hk
    rw [List.getElem_take]
    rw [hlen] at hi
    have := hle i (by omega)
    have := Nat.div_lt_of_lt_mul hi
    omega
  have hmem := (h.take _).mem_of_length hgroups hlen (Nat.lt_succ_self ks[j].1)
    (h.place _ (List.getElem_mem hj))
  obtain ⟨i, hi, he⟩ := List.mem_iff_getElem.mp hmem
  rw [List.getElem_take] at he
  rw [hlen] at hi
  have := (List.Nodup.getElem_inj_iff h.nodup).mp he
  omega

/-- A group is complete by the end of its round when every round up to it takes one group. -/
theorem Taken.complete_of_eq (h : Taken N ks) {n : Nat} (hlen : N * (n + 1) ≤ ks.length)
    (heq : ∀ j, ∀ hj : j < ks.length, j < N * (n + 1) → ks[j].1 = j / N) {i : Nat} (hi : i < N) :
    (n, i) ∈ ks.take (N * (n + 1)) := by
  have hlen' : (ks.take (N * (n + 1))).length = N * (n + 1) := by
    rw [List.length_take]
    omega
  refine (h.take _).mem_of_length (fun k hk => ?_) hlen' (Nat.lt_succ_self n) hi
  obtain ⟨j, hj, rfl⟩ := List.mem_iff_getElem.mp hk
  rw [List.getElem_take]
  rw [hlen'] at hj
  rw [heq j (by omega) hj]
  exact Nat.div_lt_of_lt_mul hj

/-- Every one of the first `S` groups is complete by the end of its round if and only if every one
    of the first `S` rounds takes one group. -/
theorem Taken.complete_iff (h : Taken N ks) {S : Nat} (hlen : N * S ≤ ks.length) :
    (∀ n < S, ∀ i < N, (n, i) ∈ ks.take (N * (n + 1))) ↔
      ∀ j, ∀ hj : j < ks.length, j < N * S → ks[j].1 = j / N := by
  constructor
  · intro hall
    have htake : (ks.take (N * S)).length = N * S := by
      rw [List.length_take]
      omega
    have hle : ∀ j, ∀ hj : j < (ks.take (N * S)).length, (ks.take (N * S))[j].1 ≤ j / N := by
      intro j hj
      rw [htake] at hj
      have hN : 0 < N := Nat.pos_of_ne_zero (by rintro rfl; simp at hj)
      have hdiv : j / N < S := Nat.div_lt_of_lt_mul hj
      have hround : N * (j / N + 1) ≤ N * S := Nat.mul_le_mul_left N hdiv
      have hjr : j < N * (j / N + 1) := by
        have := Nat.div_add_mod j N
        have := Nat.mod_lt j hN
        rw [Nat.mul_succ]
        omega
      -- by the end of round `j / N` all groups up to it are complete, so nothing else is in
      have hlt := (h.take (N * (j / N + 1))).lt_of_length
        (m := j / N + 1) (by rw [List.length_take]; omega) (fun k hk => by
          obtain ⟨h1, h2⟩ := Finset.mem_product.mp hk
          rw [Finset.mem_range] at h1 h2
          have hm := hall k.1 (by omega) k.2 h2
          have hmono : N * (k.1 + 1) ≤ N * (j / N + 1) := Nat.mul_le_mul_left N h1
          exact (List.take_subset_take_left ks hmono) hm)
      have hmem : ks[j] ∈ ks.take (N * (j / N + 1)) :=
        List.mem_iff_getElem.mpr ⟨j, by rw [List.length_take]; omega, by rw [List.getElem_take]⟩
      rw [List.getElem_take]
      exact Nat.le_of_lt_succ (hlt _ hmem)
    intro j hj hjS
    have := (h.take (N * S)).group_eq_of_le hle j (by omega)
    rwa [List.getElem_take] at this
  · intro heq n hn i hi
    have hround : N * (n + 1) ≤ N * S := Nat.mul_le_mul_left N hn
    exact h.complete_of_eq (by omega) (fun j hj hjn => heq j hj (by omega)) hi

/-- A list that takes one group a round: the members of a group are those of its round. -/
theorem filter_round {α : Type*} (group : α → Nat) {l : List α} {n : Nat} (h0 : 0 < N)
    (hround : ∀ j, ∀ hj : j < l.length, group l[j] = j / N) :
    l.filter (fun x => group x = n) = (l.drop (N * n)).take N := by
  have hbefore : (l.take (N * n)).filter (fun x => group x = n) = [] := by
    refine List.filter_eq_nil_iff.mpr fun x hx => ?_
    obtain ⟨j, hj, rfl⟩ := List.mem_iff_getElem.mp hx
    rw [List.length_take] at hj
    have := Nat.div_lt_of_lt_mul (show j < N * n by omega)
    rw [List.getElem_take, hround, decide_eq_true_eq]
    omega
  have hself : ((l.drop (N * n)).take N).filter (fun x => group x = n) =
      (l.drop (N * n)).take N := by
    refine List.filter_eq_self.mpr fun x hx => ?_
    obtain ⟨j, hj, rfl⟩ := List.mem_iff_getElem.mp hx
    rw [List.length_take] at hj
    rw [List.getElem_take, List.getElem_drop, hround, decide_eq_true_eq, Nat.mul_add_div h0,
      Nat.div_eq_of_lt (by omega), Nat.add_zero]
  have hafter : ((l.drop (N * n)).drop N).filter (fun x => group x = n) = [] := by
    refine List.filter_eq_nil_iff.mpr fun x hx => ?_
    obtain ⟨j, hj, rfl⟩ := List.mem_iff_getElem.mp hx
    have := Nat.le_add_right 1 (j / N)
    rw [List.getElem_drop, List.getElem_drop, hround, decide_eq_true_eq,
      Nat.mul_add_div h0, Nat.add_div_left _ h0]
    omega
  calc l.filter (fun x => group x = n)
      = (l.take (N * n) ++ ((l.drop (N * n)).take N ++ (l.drop (N * n)).drop N)).filter
          (fun x => group x = n) := by rw [List.take_append_drop, List.take_append_drop]
    _ = (l.drop (N * n)).take N := by
        rw [List.filter_append, List.filter_append, hbefore, hself, hafter, List.nil_append,
          List.append_nil]
end Groups
