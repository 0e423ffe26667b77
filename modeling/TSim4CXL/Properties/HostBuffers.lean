/-
  The data buffer of a host's read or write.

  `host` allocates `size` bytes, `trcWrite` and `trcRead` round the size up and copy whole packets.
  `replay_inside_iff` says for which sizes they stay inside: below 2^24 for the multiples of
  packet_size and no other (`sizeFits_small`). From 2^24 on the rounding up is itself rounded, to
  the 24 digits of a `float`, and `SizeFits` says what has to come out of it. The first write of
  the lmps trace reads past its buffer (`lmps_write_overruns`).
-/
import TSim4CXL.Model.Host

namespace TSim4CXL

/-- The copies that touch the data buffer of the call stay inside its `size` bytes. -/
def HostAct.InBuffer (size : Nat) : HostAct → Prop
  | .send _ none => True
  | .send _ (some copy) => Inside copy.src copy.length size
  | .store copy => Inside copy.dst copy.length size

/-- The sizes for which whole packets fit the buffer. A rounded size of 2^31 or more makes the
    loop variable negative, so that nothing is copied. -/
def SizeFits (packetSize size : Nat) : Prop :=
  if size < 16777216 ∧ packetSize < 16777216 then packetSize ∣ size
  else ∃ rounded, roundUp packetSize size = some rounded ∧
    (2147483648 ≤ rounded ∨ rounded ≤ packetSize * (size / packetSize))

theorem sizeFits_small {packetSize size : Nat} (hp : packetSize < 16777216) (hs : size < 16777216) :
    SizeFits packetSize size ↔ packetSize ∣ size := by
  rw [SizeFits, if_pos ⟨hs, hp⟩]

/-! ## The rounds -/

/-- The rounds stay inside when the last one does. -/
theorem rounds_inside_iff {packetSize size rounds : Nat} (hp : 0 < packetSize) :
    (∀ j < rounds, Inside (j * packetSize) packetSize size) ↔ rounds * packetSize ≤ size := by
  constructor
  · intro h
    cases rounds with
    | zero => omega
    | succ n =>
        have hlast := (inside_iff hp).mp (h n (Nat.lt_succ_self n))
        rwa [Nat.succ_mul]
  · intro h j hj
    rw [inside_iff hp, ← Nat.succ_mul]
    exact (Nat.mul_le_mul_right _ hj).trans h

theorem loopRounds_le_iff {packetSize size rounded : Nat} (hp : 0 < packetSize) :
    loopRounds packetSize rounded * packetSize ≤ size ↔
      2147483648 ≤ rounded ∨ rounded ≤ packetSize * (size / packetSize) := by
  rw [← Nat.le_div_iff_mul_le hp, loopRounds]
  split
  · rw [← Nat.lt_succ_iff, Nat.div_lt_iff_lt_mul hp, Nat.succ_mul, Nat.mul_comm]
    omega
  · exact iff_of_true (Nat.zero_le _) (.inl (by omega))

/-- What a call does to its buffer depends on the rounded size only. -/
theorem call_inside_iff {packetSize size : Nat} (hp : 0 < packetSize)
    {body : Nat → Nat → List HostAct}
    (hbody : ∀ rounded j, (∀ act ∈ body rounded j, act.InBuffer size) ↔
      Inside (j * packetSize) packetSize size) :
    (∃ acts, (roundUp packetSize size).map
      (fun rounded => packetLoop packetSize rounded (body rounded)) =
        some acts ∧
        ∀ act ∈ acts, act.InBuffer size) ↔
      ∃ rounded, roundUp packetSize size = some rounded ∧
        (2147483648 ≤ rounded ∨ rounded ≤ packetSize * (size / packetSize)) := by
  have hrounds : ∀ rounded, roundUp packetSize size = some rounded →
      ((∀ act ∈ packetLoop packetSize rounded (body rounded), act.InBuffer size) ↔
        2147483648 ≤ rounded ∨ rounded ≤ packetSize * (size / packetSize)) := by
    intro rounded hr
    rw [packetLoop_eq hp (roundUp_lt hr), ← loopRounds_le_iff hp, ← rounds_inside_iff hp]
    simp only [List.mem_flatMap, List.mem_range]
    constructor
    · intro h j hj
      exact (hbody rounded j).mp fun act hact => h act ⟨j, hj, hact⟩
    · rintro h act ⟨j, hj, hact⟩
      exact (hbody rounded j).mpr (h j hj) act hact
  cases hr : roundUp packetSize size with
  | none => simp
  | some rounded => simpa using hrounds rounded hr

/-! ## Small and large sizes -/

theorem sizeFits_iff {packetSize size : Nat} (hp : 0 < packetSize) :
    (∃ rounded, roundUp packetSize size = some rounded ∧
      (2147483648 ≤ rounded ∨ rounded ≤ packetSize * (size / packetSize))) ↔
    SizeFits packetSize size := by
  unfold SizeFits
  split
  · rename_i hsmall
    by_cases hd : packetSize ∣ size
    · have hr := roundUp_of_dvd hp hsmall.1 hd hsmall.2
      exact iff_of_true ⟨size, hr, .inr (Nat.mul_div_cancel' hd).ge⟩ hd
    · refine iff_of_false ?_ hd
      rintro ⟨rounded, hr, h⟩
      -- the next multiple is above `size`, so the last round is not inside
      obtain ⟨rounded', hr', hlt, hle⟩ := lt_roundUp hp hsmall.1 hsmall.2 hd
      obtain rfl : rounded = rounded' := by simpa [hr] using hr'
      have := Nat.mul_div_le size packetSize
      omega
  · exact Iff.rfl

/-! ## The records -/

/-- Replaying a record stays inside its data buffer exactly for the sizes that fit. -/
theorem replay_inside_iff {packetSize : Nat} (hp : 0 < packetSize) (r : TraceRecord) :
    (∃ acts, replay packetSize r = some acts ∧ ∀ act ∈ acts, act.InBuffer r.size) ↔
      r.api = .other ∨ SizeFits packetSize r.size := by
  obtain ⟨api, address, size, delta⟩ := r
  cases api with
  | write =>
      simp only [replay, trcWrite, reduceCtorEq, false_or]
      rw [← sizeFits_iff hp]
      refine call_inside_iff hp fun rounded j => ?_
      rw [List.forall_mem_singleton]
      rfl
  | read =>
      simp only [replay, trcRead, reduceCtorEq, false_or]
      rw [← sizeFits_iff hp]
      refine call_inside_iff hp fun rounded j => ?_
      rw [List.forall_mem_cons, List.forall_mem_singleton]
      exact and_iff_right trivial
  | other =>
      refine iff_of_true ⟨_, rfl, ?_⟩ (.inl rfl)
      rw [trcTerminate, List.forall_mem_singleton]
      trivial

/-- A read of two whole packets. -/
theorem replay_inside_of_whole : ∃ acts, replay 1024 ⟨.read, 0, 2048, 0⟩ = some acts ∧
    ∀ act ∈ acts, act.InBuffer 2048 :=
  (replay_inside_iff (by decide) ⟨.read, 0, 2048, 0⟩).mpr
    (.inr ((sizeFits_small (by decide) (by decide)).mpr (by decide)))

/-- The first record of the lmps trace with the packet size of system.json: the last of 29 packets
    takes bytes 28672 to 29695 of a buffer of 28800. -/
theorem lmps_write_overruns : ¬ ∃ acts, replay 1024 ⟨.write, 38797312, 28800, 46222042⟩ =
      some acts ∧
    ∀ act ∈ acts, act.InBuffer 28800 := by
  rintro ⟨acts, hacts, hin⟩
  have hr : roundUp 1024 28800 = some 29696 := by decide +kernel
  have hlast : writeRequest 1024 (u32 (38797312 + 28 * 1024)) uintArray (28 * 1024) 29696 0 0 ∈
      acts := by
    simp only [replay, trcWrite, hr, Option.map_some, Option.some.injEq] at hacts
    rw [← hacts, packetLoop_eq (by decide) (by decide), List.mem_flatMap]
    exact ⟨28, by decide, List.mem_singleton.mpr rfl⟩
  exact absurd (hin _ hlast 1023 (by decide)) (by decide)

end TSim4CXL
