/-
  Stores that are overwritten block by block, `memcpy` by `memcpy`.

  A store is a function from cells to values; `write` puts a block down at an address,
  `writeAll` one block after the other. `writeAll_apply`: a block that none of the other
  blocks overlaps is found unchanged afterwards, wherever in the order it was written.
  `writeAll_eq_write`: the parts of one block that cover it are that block, in any order.
-/
import Mathlib.Data.List.Induction

namespace Store

variable {β : Type*}

/-- The store with the block `bs` put down at address `a`. -/
def write (mem : Nat → β) (a : Nat) (bs : List β) : Nat → β :=
  fun k => if a ≤ k then bs.getD (k - a) (mem k) else mem k

theorem write_add (mem : Nat → β) (a : Nat) {bs : List β} {j : Nat} (hj : j < bs.length) :
    write mem a bs (a + j) = bs[j] := by
  simp [write, hj]

/-- Cells outside the block keep their value. -/
theorem write_of_outside (mem : Nat → β) {a k : Nat} {bs : List β}
    (hk : k < a ∨ a + bs.length ≤ k) : write mem a bs k = mem k := by
  unfold write
  split
  · have hlen : bs.length ≤ k - a := by omega
    simp [hlen]
  · rfl

/-- The first cells up to the end of the block. -/
theorem range_map_write (mem : Nat → β) (a : Nat) (bs : List β) :
    (List.range (a + bs.length)).map (write mem a bs) = (List.range a).map mem ++ bs := by
  refine List.ext_getElem (by simp) fun j hj _ => ?_
  rw [List.getElem_map, List.getElem_range]
  by_cases hja : j < a
  · rw [write_of_outside _ (.inl hja), List.getElem_append_left (by simpa using hja)]
    simp
  · have hsum : a + (j - a) = j := by omega
    have hlt : j - a < bs.length := by
      simp only [List.length_map, List.length_range] at hj
      omega
    rw [List.getElem_append_right (by simpa using hja)]
    simp only [List.length_map, List.length_range]
    rw [← write_add mem a hlt, hsum]

/-- Blocks with their addresses, the first one written first. -/
def writeAll (mem : Nat → β) (ws : List (Nat × List β)) : Nat → β :=
  ws.foldl (fun mem w => write mem w.1 w.2) mem

@[simp] theorem writeAll_nil (mem : Nat → β) : writeAll mem [] = mem := rfl

@[simp] theorem writeAll_concat (mem : Nat → β) (ws : List (Nat × List β)) (w : Nat × List β) :
    writeAll mem (ws ++ [w]) = write (writeAll mem ws) w.1 w.2 := by
  simp [writeAll]

/-- Two blocks share no cell. -/
def Apart (v w : Nat × List β) : Prop := v.1 + v.2.length ≤ w.1 ∨ w.1 + w.2.length ≤ v.1

/-- A block apart from all others is what one reads at its address in the end. -/
theorem writeAll_apply (mem : Nat → β) {ws : List (Nat × List β)} {w : Nat × List β} (hw : w ∈ ws)
    (hapart : ∀ v ∈ ws, v ≠ w → Apart v w) {j : Nat} (hj : j < w.2.length) :
    writeAll mem ws (w.1 + j) = w.2[j] := by
  induction ws using List.reverseRecOn with
  | nil => cases hw
  | append_singleton ws v ih =>
      rw [writeAll_concat]
      by_cases hv : v = w
      · rw [hv]
        exact write_add _ _ hj
      · -- the last block is another one, and does not reach here
        have hap := hapart v (by simp) hv
        have hw' : w ∈ ws := by
          rcases List.mem_append.mp hw with h | h
          · exact h
          · exact absurd (List.mem_singleton.mp h).symm hv
        rw [write_of_outside _ (by unfold Apart at hap; omega)]
        exact ih hw' fun u hu => hapart u (List.mem_append_left _ hu)

/-- Blocks that agree with one store leave its values behind wherever one of them lies. -/
theorem writeAll_of_agree {mem target : Nat → β} {ws : List (Nat × List β)}
    (hagree : ∀ w ∈ ws, ∀ k, ∀ hk : k < w.2.length, w.2[k] = target (w.1 + k)) {c : Nat}
    (hc : mem c = target c ∨ ∃ w ∈ ws, w.1 ≤ c ∧ c < w.1 + w.2.length) :
    writeAll mem ws c = target c := by
  induction ws using List.reverseRecOn with
  | nil =>
      obtain h | ⟨w, hw, -⟩ := hc
      · exact h
      · cases hw
  | append_singleton ws v ih =>
      rw [writeAll_concat]
      by_cases hv : v.1 ≤ c ∧ c < v.1 + v.2.length
      · -- the last block is there
        obtain ⟨k, rfl⟩ := Nat.exists_eq_add_of_le hv.1
        rw [write_add _ _ (by omega)]
        exact hagree v (by simp) k _
      · rw [write_of_outside _ (by omega)]
        refine ih (fun w hw => hagree w (List.mem_append_left _ hw)) (hc.imp_right ?_)
        rintro ⟨w, hw, hin⟩
        rcases List.mem_append.mp hw with h | h
        · exact ⟨w, h, hin⟩
        · exact absurd (List.mem_singleton.mp h ▸ hin) hv

/-- The parts of a block that cover it, in any order. -/
theorem writeAll_eq_write {mem : Nat → β} {a : Nat} {bs : List β} {ws : List (Nat × List β)}
    (hpart : ∀ w ∈ ws, ∀ k, ∀ hk : k < w.2.length, w.2[k] = write mem a bs (w.1 + k))
    (hcover : ∀ j < bs.length, ∃ w ∈ ws, w.1 ≤ a + j ∧ a + j < w.1 + w.2.length) :
    writeAll mem ws = write mem a bs := by
  funext c
  refine writeAll_of_agree hpart ?_
  by_cases hc : a ≤ c ∧ c < a + bs.length
  · obtain ⟨j, rfl⟩ := Nat.exists_eq_add_of_le hc.1
    exact .inr (hcover j (by omega))
  · exact .inl (write_of_outside _ (by omega)).symm

/-! ### What reaches a cell -/

theorem writeAll_append (mem : Nat → β) (ws vs : List (Nat × List β)) :
    writeAll mem (ws ++ vs) = writeAll (writeAll mem ws) vs := List.foldl_append

/-- The value of a cell does not depend on blocks that end before it or begin after it. -/
theorem writeAll_filter {α : Type*} (mem : Nat → β) (f : α → Nat × List β) {keep : α → Bool}
    {l : List α} {c : Nat}
    (h : ∀ x ∈ l, keep x = false → c < (f x).1 ∨ (f x).1 + (f x).2.length ≤ c) :
    writeAll mem ((l.filter keep).map f) c = writeAll mem (l.map f) c := by
  induction l using List.reverseRecOn with
  | nil => rfl
  | append_singleton l x ih =>
      have ih := ih fun y hy => h y (List.mem_append_left _ hy)
      rw [List.filter_append, List.map_append, List.map_append, List.map_singleton, writeAll_concat]
      cases hx : keep x with
      | true =>
          rw [List.filter_cons_of_pos hx, List.filter_nil, List.map_singleton, writeAll_concat,
            write, write, ih]
      | false =>
          rw [List.filter_cons_of_neg (by simp [hx]), List.filter_nil, List.map_nil,
            List.append_nil, write_of_outside _ (h x (by simp) hx), ih]

/-- A block cut into `n` pieces of `d` cells. -/
theorem writeAll_pieces (mem : Nat → β) (a : Nat) {bs : List β} {d n : Nat}
    (hlen : bs.length = d * n) :
    writeAll mem ((List.range n).map fun i => (a + d * i, (bs.drop (d * i)).take d)) =
      write mem a bs := by
  have hend {i : Nat} (hi : i < n) : d * i + d ≤ bs.length := by
    rw [hlen, ← Nat.mul_succ]
    exact Nat.mul_le_mul_left d hi
  refine writeAll_eq_write ?_ ?_
  · intro w hw k hk
    obtain ⟨i, hi, rfl⟩ := List.mem_map.mp hw
    have hi := hend (List.mem_range.mp hi)
    simp only [List.length_take, List.length_drop] at hk ⊢
    rw [Nat.add_assoc, write_add _ _ (by omega), List.getElem_take, List.getElem_drop]
  · intro j hj
    have hd : 0 < d := by
      rcases Nat.eq_zero_or_pos d with rfl | hd
      · omega
      · exact hd
    have hdiv := Nat.div_add_mod j d
    have hmod := Nat.mod_lt j hd
    have hi : j / d < n := Nat.div_lt_of_lt_mul (by omega)
    have hend := hend hi
    refine ⟨_, List.mem_map_of_mem (List.mem_range.mpr hi), ?_, ?_⟩
    · dsimp only
      omega
    · simp only [List.length_take, List.length_drop]
      omega

/-- The pieces of a list, one after the other. -/
theorem flatMap_pieces (bs : List β) (d n : Nat) :
    ((List.range n).flatMap fun i => (bs.drop (d * i)).take d) = bs.take (d * n) := by
  induction n with
  | zero => simp
  | succ n ih => rw [List.range_succ, List.flatMap_append, ih, List.flatMap_singleton, Nat.mul_succ,
        List.take_add]

end Store
