/-
  How many packets a request is sent as.

  `trcWrite` and `trcRead` compute `ceil(float(size)/packet_size)`, in a format of 24 digits. For
  packet sizes that are powers of two the division, the rounding up and the multiplication are
  exact, so all depends on `float(size)`. `requestCovered_iff`: there are as many packets as the
  size takes exactly when rounding the size does not leave the range of its last packet
  (`FloatKeeps`), and the rounded size is below 2^31: from there on the loop variable starts
  negative and nothing is sent. `one_byte_lost`: a size whose last byte is never sent.
-/
import TSim4CXL.Model.Host

namespace TSim4CXL

open Rounding

/-- The packets a size takes. -/
def packetsNeeded (packetSize size : Nat) : Nat := (size + packetSize - 1) / packetSize

/-- The distance of the numbers a `float` of the magnitude of `size` can hold, 1 for small sizes. -/
def floatUnit (size : Nat) : Nat := 2 ^ (size.log2 - 23)

/-- `float(size)` ends in the last packet of `size`. Where a packet is not shorter than the unit,
    the last packet may not be so short that it is rounded away; else the last packet has to end
    where the `float` does. -/
def FloatKeeps (packetSize size : Nat) : Prop :=
  if floatUnit size ≤ packetSize then
    size % packetSize = 0 ∨ floatUnit size < 2 * (size % packetSize) ∨
      floatUnit size = 2 * (size % packetSize) ∧ size / floatUnit size % 2 = 1
  else floatUnit size ∣ packetsNeeded packetSize size * packetSize

instance (packetSize size : Nat) : Decidable (FloatKeeps packetSize size) := by
  unfold FloatKeeps
  infer_instance

/-! ## Whole packets of a rounded number -/

theorem packetsNeeded_mul_add {packetSize : Nat} (hp : 0 < packetSize) (q r : Nat) :
    packetsNeeded packetSize (packetSize * q + r) = q + packetsNeeded packetSize r := by
  unfold packetsNeeded
  rw [show packetSize * q + r + packetSize - 1 = r + packetSize - 1 + packetSize * q by omega,
    Nat.add_mul_div_left _ _ hp, Nat.add_comm]

theorem packetsNeeded_of_le {packetSize r : Nat} (hr : 0 < r) (hle : r ≤ packetSize) :
    packetsNeeded packetSize r = 1 := by
  unfold packetsNeeded
  rw [Nat.div_eq_iff (by omega)]
  omega

theorem packetsNeeded_zero {packetSize : Nat} (hp : 0 < packetSize) :
    packetsNeeded packetSize 0 = 0 :=
  Nat.div_eq_of_lt (by omega)

/-- `roundDiv` goes down, or up. -/
theorem roundDiv_cases (n u : Nat) : roundDiv n u = n / u ∧
      ¬ (u < 2 * (n % u) ∨ u = 2 * (n % u) ∧ n / u % 2 = 1) ∨
    roundDiv n u = n / u + 1 ∧ (u < 2 * (n % u) ∨ u = 2 * (n % u) ∧ n / u % 2 = 1) := by
  unfold roundDiv
  split
  · exact .inl ⟨rfl, by omega⟩
  · split
    · exact .inr ⟨rfl, by omega⟩
    · rcases Nat.mod_two_eq_zero_or_one (n / u) with h | h
      · exact .inl ⟨by omega, by omega⟩
      · exact .inr ⟨by omega, by omega⟩

/-- Packets of `w` units. -/
theorem packetsNeeded_round_short {n u w : Nat} (hu : 0 < u) (hw : 0 < w) :
    packetsNeeded (u * w) (roundDiv n u * u) = packetsNeeded (u * w) n ↔
      n % (u * w) = 0 ∨ u < 2 * (n % (u * w)) ∨ u = 2 * (n % (u * w)) ∧ n / u % 2 = 1 := by
  have hp : 0 < u * w := Nat.mul_pos hu hw
  -- `q` packets, then `s` units and `b`
  have hn := Nat.div_add_mod n u
  have ha := Nat.div_add_mod (n / u) w
  have hs := Nat.mod_lt (n / u) hw
  have hb := Nat.mod_lt n hu
  have hmod : n % (u * w) = u * (n / u % w) + n % u := by
    rw [Nat.mod_mul, Nat.add_comm]
  generalize hq : n / u / w = q at ha
  generalize hse : n / u % w = s at ha hs hmod
  generalize hbe : n % u = b at hn hb hmod
  have hsu : s = 0 ∨ u ≤ u * s := by
    rcases Nat.eq_zero_or_pos s with h | h
    · exact .inl h
    · exact .inr (Nat.le_mul_of_pos_right _ h)
  have hsw : u * s + u ≤ u * w := by
    rw [← Nat.mul_succ]
    exact Nat.mul_le_mul_left u hs
  have hsplit : n = u * w * q + (u * s + b) := by
    rw [Nat.mul_assoc, ← Nat.add_assoc, ← Nat.mul_add, ha, hn]
  have hround : ∀ i, (n / u + i) * u = u * w * q + (u * s + i * u) := by
    intro i
    rw [← ha, Nat.add_mul, Nat.mul_comm _ u, Nat.mul_add, ← Nat.mul_assoc, Nat.add_assoc]
  have hr := roundDiv_cases n u
  rw [hbe] at hr
  rw [hmod]
  conv_lhs => rhs; rw [hsplit, packetsNeeded_mul_add hp]
  rcases hr with ⟨hr, hdown⟩ | ⟨hr, hup⟩
  · have h0 := hround 0
    rw [Nat.add_zero, Nat.zero_mul, Nat.add_zero] at h0
    rw [hr, h0, packetsNeeded_mul_add hp]
    rcases hsu with rfl | hsu
    · rw [Nat.mul_zero, packetsNeeded_zero hp, Nat.zero_add]
      rcases Nat.eq_zero_or_pos b with rfl | hb0
      · simp [packetsNeeded_zero hp]
      · rw [packetsNeeded_of_le hb0 (by omega)]
        omega
    · rw [packetsNeeded_of_le (by omega) (by omega), packetsNeeded_of_le (by omega) (by omega)]
      omega
  · have h1 := hround 1
    rw [Nat.one_mul] at h1
    rw [hr, h1, packetsNeeded_mul_add hp, packetsNeeded_of_le (by omega) (by omega),
      packetsNeeded_of_le (by omega) (by omega)]
    omega

/-- Units of `v` packets. -/
theorem packetsNeeded_round_long {n p v : Nat} (hp : 0 < p) (hv : 2 ≤ v) :
    packetsNeeded p (roundDiv n (p * v) * (p * v)) = packetsNeeded p n ↔
      p * v ∣ packetsNeeded p n * p := by
  have hu : 0 < p * v := Nat.mul_pos hp (by omega)
  have hmul : ∀ i, packetsNeeded p (i * (p * v)) = i * v := by
    intro i
    have := packetsNeeded_mul_add hp (i * v) 0
    rwa [packetsNeeded_zero hp, Nat.add_zero, Nat.add_zero, Nat.mul_left_comm] at this
  rw [hmul, Nat.mul_comm _ p, Nat.mul_dvd_mul_iff_left hp]
  constructor
  · rintro h
    exact ⟨_, h.symm.trans (Nat.mul_comm _ _)⟩
  · intro hd
    have hn := Nat.div_add_mod n (p * v)
    have hb := Nat.mod_lt n hu
    generalize hbe : n % (p * v) = b at hn hb
    generalize hae : n / (p * v) = a at hn
    have hcount : packetsNeeded p n = v * a + packetsNeeded p b := by
      rw [← hn, Nat.mul_assoc, packetsNeeded_mul_add hp]
    rw [hcount] at hd ⊢
    have hcv : packetsNeeded p b ≤ v := by
      unfold packetsNeeded
      rw [← Nat.lt_succ_iff, Nat.div_lt_iff_lt_mul hp, Nat.succ_mul, Nat.mul_comm v p]
      omega
    obtain ⟨c, hc⟩ := (Nat.dvd_add_right ⟨a, rfl⟩).mp hd
    have hpv : p * 2 ≤ p * v := Nat.mul_le_mul_left p hv
    have hr := roundDiv_cases n (p * v)
    rw [hbe, hae] at hr
    have hlow : b ≤ packetsNeeded p b * p := by
      have h1 := Nat.div_add_mod (b + p - 1) p
      have h2 := Nat.mod_lt (b + p - 1) hp
      rw [Nat.mul_comm]
      unfold packetsNeeded
      omega
    -- no packet of the last unit, or all of them
    rcases Nat.eq_zero_or_pos c with rfl | hc0
    · rw [hc, Nat.mul_zero, Nat.zero_mul] at hlow
      rw [hc, Nat.mul_zero, Nat.add_zero, Nat.mul_comm]
      rcases hr with ⟨hr, -⟩ | ⟨-, hup⟩
      · rw [hr]
      · omega
    · have hcv' : packetsNeeded p b = v := Nat.le_antisymm hcv (hc ▸ Nat.le_mul_of_pos_right v hc0)
      have hbig : p * v < b + p := by
        have h1 : v ≤ (b + p - 1) / p := hcv'.ge
        have h2 := (Nat.le_div_iff_mul_le hp).mp h1
        rw [Nat.mul_comm] at h2
        omega
      rw [hcv', ← Nat.mul_succ, Nat.mul_comm]
      rcases hr with ⟨-, hdown⟩ | ⟨hr, -⟩
      · omega
      · rw [hr]

/-! ## float(size) -/

/-- `float(size)`. -/
def floatSize (size : Nat) : Nat := roundDiv size (floatUnit size) * floatUnit size

theorem log2_bounds {size : Nat} (h : 0 < size) :
    2 ^ size.log2 ≤ size ∧ size < 2 ^ (size.log2 + 1) :=
  ⟨Nat.log2_self_le h.ne', Nat.lt_log2_self⟩

theorem float_size {size : Nat} (h : 0 < size) : float size = floatSize size := by
  obtain ⟨hlo, hhi⟩ := log2_bounds h
  unfold floatSize floatUnit
  rcases Nat.lt_or_ge 23 size.log2 with hlog | hlog
  · obtain ⟨k, hk⟩ := Nat.exists_eq_add_of_le hlog.le
    rw [hk] at hlo hhi ⊢
    rw [Nat.add_sub_cancel_left]
    refine roundTo_natCast ?_ ?_
    · rw [show 24 + k = 23 + k + 1 by omega, Nat.pow_succ]
      omega
    · rwa [show 24 + k = 23 + k + 1 by omega]
  · have hsmall : size < 16777216 :=
      hhi.trans_le (Nat.pow_le_pow_right (by decide) (Nat.succ_le_succ hlog))
    rw [Nat.sub_eq_zero_of_le hlog, float_natCast hsmall.le]
    simp [roundDiv, Nat.mod_one]

/-- It has 24 digits. -/
theorem roundDiv_floatUnit_le {size : Nat} (h : 0 < size) :
    roundDiv size (floatUnit size) ≤ 2 ^ 24 := by
  obtain ⟨-, hhi⟩ := log2_bounds h
  have hlt : size / floatUnit size < 2 ^ 24 := by
    rw [floatUnit, Nat.div_lt_iff_lt_mul (Nat.two_pow_pos _), ← Nat.pow_add]
    exact hhi.trans_le (Nat.pow_le_pow_right (by decide) (by omega))
  rcases roundDiv_cases size (floatUnit size) with ⟨hr, -⟩ | ⟨hr, -⟩ <;> omega

theorem ceil_natCast_div {n p : Nat} (hp : 0 < p) : ⌈(n : ℚ) / p⌉ = packetsNeeded p n := by
  have hpq : (0 : ℚ) < p := Nat.cast_pos.mpr hp
  have hdiv := Nat.div_add_mod (n + p - 1) p
  have hmod := Nat.mod_lt (n + p - 1) hp
  change p * packetsNeeded p n + _ = _ at hdiv
  rw [Int.ceil_eq_iff, Int.cast_natCast]
  constructor
  · rw [lt_div_iff₀ hpq, sub_one_mul, sub_lt_iff_lt_add]
    exact_mod_cast (show packetsNeeded p n * p < n + p by rw [Nat.mul_comm]; omega)
  · rw [div_le_iff₀ hpq]
    exact_mod_cast (show n ≤ packetsNeeded p n * p by rw [Nat.mul_comm]; omega)

/-- The quotient is exact. -/
theorem packetCeil_two_pow {t size : Nat} (ht : t ≤ 11) (h : 0 < size) :
    packetCeil (2 ^ t) size = packetsNeeded (2 ^ t) (floatSize size) := by
  have hp : (2 : Nat) ^ t ≤ 2 ^ 11 := Nat.pow_le_pow_right (by decide) ht
  have hquot : float (floatSize size / (2 ^ t : Nat)) = floatSize size / (2 ^ t : Nat) := by
    refine roundTo_eq_self ?_
    have hfits := fits_of_le (K := ℚ) (show 0 < 24 by decide) (roundDiv_floatUnit_le h)
      ((size.log2 - 23 : Nat) - (t : Nat))
    rwa [zpow_sub₀ two_ne_zero, ← mul_div_assoc, zpow_natCast, zpow_natCast,
      ← Nat.cast_ofNat (n := 2), ← Nat.cast_pow, ← Nat.cast_pow, ← Nat.cast_mul] at hfits
  rw [packetCeil, float_size h, float_natCast (hp.trans (by decide)), hquot,
    ceil_natCast_div (Nat.two_pow_pos t)]

/-- And so is the product. -/
theorem roundUp_two_pow {t size : Nat} (ht : t ≤ 11) (h : 0 < size) :
    roundUp (2 ^ t) size =
      if packetsNeeded (2 ^ t) (floatSize size) * 2 ^ t < 4294967296 then
        some (packetsNeeded (2 ^ t) (floatSize size) * 2 ^ t)
      else none := by
  have hp : (2 : Nat) ^ t ≤ 2 ^ 11 := Nat.pow_le_pow_right (by decide) ht
  have hfits : Fits 24 ((packetsNeeded (2 ^ t) (floatSize size) * 2 ^ t : Nat) : ℚ) := by
    rcases Nat.lt_or_ge (packetsNeeded (2 ^ t) (floatSize size)) (2 ^ 24 + 1) with hlt | hge
    · have := fits_of_le (K := ℚ) (show 0 < 24 by decide) (Nat.lt_succ_iff.mp hlt) (t : Nat)
      exact_mod_cast this
    · -- then the unit is a whole number of packets
      have hm := roundDiv_floatUnit_le h
      have hlong : t ≤ size.log2 - 23 := by
        by_contra hlt
        have h1 := (Nat.le_div_iff_mul_le (Nat.two_pow_pos t)).mp
          (show 2 ^ 24 + 1 ≤ (floatSize size + 2 ^ t - 1) / 2 ^ t from hge)
        have h2 : floatSize size ≤ 2 ^ 24 * 2 ^ t :=
          Nat.mul_le_mul hm (Nat.pow_le_pow_right (by decide) (by omega))
        have := Nat.two_pow_pos t
        omega
      obtain ⟨c, hc⟩ : 2 ^ t ∣ floatSize size :=
        (Nat.pow_dvd_pow 2 hlong).trans (Nat.dvd_mul_left _ _)
      have hcount : packetsNeeded (2 ^ t) (floatSize size) * 2 ^ t = floatSize size := by
        have := packetsNeeded_mul_add (Nat.two_pow_pos t) c 0
        rw [Nat.add_zero, packetsNeeded_zero (Nat.two_pow_pos t), Nat.add_zero, ← hc] at this
        rw [this, Nat.mul_comm, ← hc]
      rw [hcount]
      have := fits_of_le (K := ℚ) (show 0 < 24 by decide) hm (size.log2 - 23 : Nat)
      exact_mod_cast this
  rw [roundUp, packetCeil_two_pow ht h, float_natCast (hp.trans (by decide)), Int.cast_natCast,
    ← Nat.cast_mul, show float _ = _ from roundTo_eq_self hfits, Nat.floor_natCast]
  exact if_congr (by exact_mod_cast Iff.rfl) rfl rfl

/-- Rounding the size keeps the number of packets. -/
theorem packetsNeeded_floatSize_iff {t size : Nat} :
    packetsNeeded (2 ^ t) (floatSize size) = packetsNeeded (2 ^ t) size ↔
      FloatKeeps (2 ^ t) size := by
  unfold FloatKeeps floatSize
  split
  · rename_i hle
    obtain ⟨d, rfl⟩ := Nat.exists_eq_add_of_le ((Nat.pow_le_pow_iff_right (by decide)).mp hle)
    rw [Nat.pow_add]
    exact packetsNeeded_round_short (Nat.two_pow_pos _) (Nat.two_pow_pos _)
  · rename_i hgt
    have hlt : t < size.log2 - 23 := (Nat.pow_lt_pow_iff_right (by decide)).mp (not_le.mp hgt)
    have hunit : floatUnit size = 2 ^ t * 2 ^ (size.log2 - 23 - t) := by
      rw [← Nat.pow_add, Nat.add_sub_cancel' hlt.le, floatUnit]
    rw [hunit]
    refine packetsNeeded_round_long (Nat.two_pow_pos t) ?_
    calc 2 = 2 ^ 1 := rfl
      _ ≤ 2 ^ (size.log2 - 23 - t) := Nat.pow_le_pow_right (by decide) (by omega)

/-! ## The packets of a call -/

/-- A call sends as many packets as the size takes. -/
def Covers (packetSize size : Nat) (call : Option (List HostAct)) : Prop :=
  ∃ acts, call = some acts ∧ (packetsOf acts).length = packetsNeeded packetSize size ∧
    size ≤ (packetsOf acts).length * packetSize ∧
    (packetsOf acts).length * packetSize < size + packetSize

/-- The loop comes to an end: more rounds than `packetLoop` allows it do not change what it does. -/
def LoopEnds (packetSize size : Nat) : Prop :=
  ∃ rounded, roundUp packetSize size = some rounded ∧ ∀ (body : Nat → List HostAct) (fuel : Nat),
    (toInt rounded).toNat ≤ fuel →
      forDown packetSize body fuel (toInt rounded) 0 = packetLoop packetSize rounded body

theorem packetsNeeded_bounds {packetSize : Nat} (hp : 0 < packetSize) (size : Nat) :
    size ≤ packetsNeeded packetSize size * packetSize ∧
      packetsNeeded packetSize size * packetSize < size + packetSize := by
  have hdiv := Nat.div_add_mod (size + packetSize - 1) packetSize
  have hmod := Nat.mod_lt (size + packetSize - 1) hp
  rw [Nat.mul_comm]
  unfold packetsNeeded
  omega

theorem loopEnds_of_some {packetSize size rounded : Nat} (hp : 0 < packetSize)
    (h : roundUp packetSize size = some rounded) : LoopEnds packetSize size := by
  refine ⟨rounded, h, fun body fuel hfuel => ?_⟩
  by_cases hneg : toInt rounded ≤ 0
  · rw [packetLoop, Int.toNat_of_nonpos hneg]
    cases fuel with
    | zero => rfl
    | succ fuel =>
        change (if 0 < toInt rounded then _ else []) = []
        rw [if_neg (by omega)]
  · have hpos := not_le.mp hneg
    obtain ⟨i, hi⟩ := Int.eq_ofNat_of_zero_le hpos.le
    rw [packetLoop, hi]
    rw [hi, Int.toNat_natCast] at hfuel
    rw [forDown_eq hp body hfuel, Int.toNat_natCast, forDown_eq hp body (Nat.le_refl i)]

/-- What counts is the rounded size. -/
theorem covers_iff {packetSize size : Nat} (hp : 0 < packetSize) {call : Option (List HostAct)}
    {packet : Nat → Nat → Packet}
    (hcall : call.map packetsOf = (roundUp packetSize size).map fun rounded =>
      (List.range (loopRounds packetSize rounded)).map (packet rounded)) :
    Covers packetSize size call ↔ ∃ rounded, roundUp packetSize size = some rounded ∧
      loopRounds packetSize rounded = packetsNeeded packetSize size := by
  constructor
  · rintro ⟨acts, rfl, hlen, -⟩
    cases hr : roundUp packetSize size with
    | none => rw [hr] at hcall; cases hcall
    | some rounded =>
        rw [hr] at hcall
        refine ⟨rounded, rfl, ?_⟩
        rw [← hlen, Option.some.inj hcall, List.length_map, List.length_range]
  · rintro ⟨rounded, hr, hrounds⟩
    rw [hr] at hcall
    cases call with
    | none => cases hcall
    | some acts =>
        have hlen : (packetsOf acts).length = packetsNeeded packetSize size := by
          rw [Option.some.inj hcall, List.length_map, List.length_range, hrounds]
        exact ⟨acts, rfl, hlen, hlen ▸ packetsNeeded_bounds hp size⟩

theorem loopRounds_iff {t size : Nat} (ht : t ≤ 11) (h : 0 < size) :
    (∃ rounded, roundUp (2 ^ t) size = some rounded ∧
      loopRounds (2 ^ t) rounded = packetsNeeded (2 ^ t) size) ↔
    FloatKeeps (2 ^ t) size ∧ packetsNeeded (2 ^ t) size * 2 ^ t < 2147483648 := by
  have hp := Nat.two_pow_pos t
  have hcount : 0 < packetsNeeded (2 ^ t) size := by
    by_contra h0
    have := (packetsNeeded_bounds hp size).1
    rw [Nat.eq_zero_of_not_pos h0, Nat.zero_mul] at this
    omega
  rw [← packetsNeeded_floatSize_iff, roundUp_two_pow ht h]
  generalize packetsNeeded (2 ^ t) (floatSize size) = n
  constructor
  · rintro ⟨rounded, hr, hrounds⟩
    rw [Option.ite_none_right_eq_some] at hr
    obtain ⟨-, rfl⟩ : _ ∧ n * 2 ^ t = rounded := ⟨hr.1, Option.some.inj hr.2⟩
    rcases Nat.lt_or_ge (n * 2 ^ t) 2147483648 with hlt | hge
    · rw [loopRounds_mul hp hlt] at hrounds
      exact ⟨hrounds, hrounds ▸ hlt⟩
    · rw [loopRounds, if_neg (by omega)] at hrounds
      omega
  · rintro ⟨rfl, hlt⟩
    exact ⟨_, if_pos (by omega), loopRounds_mul hp hlt⟩

/-- A write and a read of `size` bytes are sent as the packets they take exactly when rounding the
    size keeps their number and the packets end below 2^31. -/
theorem requestCovered_iff {packetSize size : Nat} (hp : ∃ t ≤ 11, packetSize = 2 ^ t)
    (h1 : 1 ≤ size) (address : Nat) (data : Nat → UInt8) (device delta : Nat) :
    (Covers packetSize size (trcWrite packetSize address data size device delta) ∧
      Covers packetSize size (trcRead packetSize address size device delta) ∧
        LoopEnds packetSize size) ↔
      FloatKeeps packetSize size ∧ packetsNeeded packetSize size * packetSize < 2147483648 := by
  obtain ⟨t, ht, rfl⟩ := hp
  have hpos := Nat.two_pow_pos t
  rw [← loopRounds_iff ht h1,
    covers_iff hpos (packetsOf_trcWrite hpos address data size device delta),
    covers_iff hpos (packetsOf_trcRead hpos address size device delta)]
  constructor
  · exact fun h => h.1
  · rintro ⟨rounded, hr, hrounds⟩
    exact ⟨⟨rounded, hr, hrounds⟩, ⟨rounded, hr, hrounds⟩, loopEnds_of_some hpos hr⟩

/-- The first record of the lmps trace: 29 packets. -/
theorem requestCovered_of_lmps :
    Covers 1024 28800 (trcWrite 1024 38797312 uintArray 28800 0 0) ∧
      Covers 1024 28800 (trcRead 1024 38797312 28800 0 0) ∧ LoopEnds 1024 28800 :=
  (requestCovered_iff ⟨10, by decide, rfl⟩ (by decide) 38797312 uintArray 0 0).mpr (by decide)

/-- 2^25 + 1 bytes: `float(size)` is 2^25, and the last byte is never sent. From 2^31 on nothing
    is. -/
theorem one_byte_lost :
    (trcWrite 1024 0 uintArray 33554433 0 0).map
        (fun acts => (packetsOf acts).length) = some 32768 ∧
      ¬ Covers 1024 33554433 (trcWrite 1024 0 uintArray 33554433 0 0) ∧
      (trcRead 1024 0 2147483648 0 0).map (fun acts => (packetsOf acts).length) = some 0 ∧
      ¬ Covers 1024 2147483648 (trcRead 1024 0 2147483648 0 0) := by
  have hlength {call : Option (List HostAct)} {size rounded : Nat} {packet : Nat → Nat → Packet}
      (hr : roundUp 1024 size = some rounded)
      (hcall : call.map packetsOf = (roundUp 1024 size).map fun rounded =>
        (List.range (loopRounds 1024 rounded)).map (packet rounded))
      (hne : loopRounds 1024 rounded ≠ packetsNeeded 1024 size) :
      call.map (fun acts => (packetsOf acts).length) = some (loopRounds 1024 rounded) ∧
        ¬ Covers 1024 size call := by
    constructor
    · have := congrArg (Option.map List.length) hcall
      simpa [hr] using this
    · rw [covers_iff (by decide) hcall, hr]
      rintro ⟨_, he, hrounds⟩
      exact hne (Option.some.inj he ▸ hrounds)
  have hwrite := hlength (show roundUp 1024 33554433 = some 33554432 by decide +kernel)
    (packetsOf_trcWrite (by decide) 0 uintArray 33554433 0 0) (by decide)
  have hread := hlength (show roundUp 1024 2147483648 = some 2147483648 by decide +kernel)
    (packetsOf_trcRead (by decide) 0 2147483648 0 0) (by decide)
  exact ⟨hwrite.1, hwrite.2, hread.1, hread.2⟩

end TSim4CXL
