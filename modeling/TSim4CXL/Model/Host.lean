/-
  The host process: traceGenerator.cpp, packetManager.cpp and main.cpp.

  A call of a `traceGenerator` is a list of `HostAct`s, one after the other: packets sent and
  responses stored, each with the `memcpy` it makes. `Copy` is one `memcpy`, as offsets into the two
  buffers; the model copies the bytes that are there and leaves out what it would write past a
  buffer. A trace is a list of records here; `TraceFile` has the files.
-/
import TSim4CXL.Lib.Rounding
import TSim4CXL.Model.Shmem
import Mathlib.Data.Rat.Floor

namespace TSim4CXL

/-! ## memcpy -/

/-- `memcpy(to + dst, from + src, length)`. -/
structure Copy where
  dst : Nat
  src : Nat
  length : Nat
deriving DecidableEq, Repr

/-- All bytes from `offset` on are inside a buffer of `size` bytes. -/
def Inside (offset length size : Nat) : Prop := ∀ k < length, offset + k < size

theorem inside_iff {offset length size : Nat} (h : 0 < length) :
    Inside offset length size ↔ offset + length ≤ size := by
  constructor
  · intro hin
    have := hin (length - 1) (by omega)
    omega
  · intro hle k hk
    omega

/-! ## packetManager -/

/-- What a host does that others can see. The copy of a `send` is from the data buffer of the
    call to `packet->data`, that of a `store` from the data of the response to the data buffer. -/
inductive HostAct
  | send (packet : Packet) (copy : Option Copy)
  | store (copy : Copy)

/-- `makePacket`; `data` is the byte at each offset from the data pointer. -/
def makePacket (packetSize : Nat) (type : PacketType) (address : Nat) (data : Option (Nat → UInt8))
    (size device delta : Nat) : Packet where
  type := type
  size := size
  delta := delta
  address := address
  deviceId := device
  data := (List.range maxDataSize).map fun k =>
    match data with
    | none => 0
    | some data => if k < packetSize then data k else 0
  data_length := by rw [List.length_map, List.length_range]

def readRequest (packetSize address size device delta : Nat) : HostAct :=
  .send (makePacket packetSize .read address none size device delta) none

/-- `writeRequest` with the data pointer `offset` bytes into its buffer. -/
def writeRequest (packetSize address : Nat) (data : Nat → UInt8) (offset size device delta : Nat) :
    HostAct :=
  .send (makePacket packetSize .write address (some fun k => data (offset + k)) size device delta)
    (some ⟨0, offset, packetSize⟩)

def signalRequest (packetSize signalID : Nat) : HostAct :=
  .send (makePacket packetSize .barSignal signalID none 0 0 0) none

def waitRequest (packetSize waitID : Nat) : HostAct :=
  .send (makePacket packetSize .barWait waitID none 0 0 0) none

def terminateRequest (packetSize delta : Nat) : HostAct :=
  .send (makePacket packetSize .terminated 0 none 0 0 delta) none

/-! ## traceGenerator -/

/-- The nearest `float`. Operands here are below 2^32 and quotients of such, so its exponent range
    is not left. -/
def float (x : ℚ) : ℚ := Rounding.roundTo 24 x

/-- `ceil(float(size)/packet_size)`. -/
def packetCeil (packetSize size : Nat) : Int := ⌈float (float size / float packetSize)⌉

/-- `size = ceil(float(size)/packet_size) * packet_size`. Converting a `float` of 2^32 or more to
    `uint32_t` is undefined. -/
def roundUp (packetSize size : Nat) : Option Nat :=
  let rounded := float (packetCeil packetSize size * float packetSize)
  if rounded < 4294967296 then some ⌊rounded⌋₊ else none

/-- `int i = size`. -/
def toInt (size : Nat) : Int := Int.bmod size 4294967296

/-- What the rounds of `for (; i > 0; i -= packet_size)` do, `j` counting them. A round takes at
    least 1 off `i`, so `i` rounds are enough fuel. `packet_size` comes out of `stoi` and is below
    2^31, so that the subtraction does not wrap. -/
def forDown {α : Type} (packetSize : Nat) (body : Nat → List α) : Nat → Int → Nat → List α
  | 0, _, _ => []
  | fuel + 1, i, j =>
      if 0 < i then body j ++ forDown packetSize body fuel (i - packetSize) (j + 1) else []

/-- The loop of `trcWrite` and `trcRead`. -/
def packetLoop {α : Type} (packetSize size : Nat) (body : Nat → List α) : List α :=
  forDown packetSize body (toInt size).toNat (toInt size) 0

def trcWrite (packetSize address : Nat) (data : Nat → UInt8) (size device delta : Nat) :
    Option (List HostAct) :=
  (roundUp packetSize size).map fun size =>
    packetLoop packetSize size fun j =>
      [writeRequest packetSize (u32 (address + j * packetSize)) data (j * packetSize) size device
        (if 0 < j then 0 else delta)]

/-- Each round waits for the response in `readPacketData`. -/
def trcRead (packetSize address size device delta : Nat) : Option (List HostAct) :=
  (roundUp packetSize size).map fun size =>
    packetLoop packetSize size fun j =>
      [readRequest packetSize (u32 (address + j * packetSize)) size device
        (if 0 < j then 0 else delta),
        .store ⟨j * packetSize, 0, packetSize⟩]

def trcSignal (packetSize signalID : Nat) : List HostAct := [signalRequest packetSize signalID]

def trcWait (packetSize waitID : Nat) : List HostAct := [waitRequest packetSize waitID]

def trcTerminate (packetSize delta : Nat) : List HostAct := [terminateRequest packetSize delta]

/-- The packets of a list of acts. -/
def packetsOf (acts : List HostAct) : List Packet :=
  acts.filterMap fun
    | .send packet _ => some packet
    | .store _ => none

/-! ## host -/

/-- The first field of a trace line: `W`, `R` or anything else. -/
inductive Api
  | write
  | read
  | other
deriving DecidableEq, Repr

/-- One line of the trace with its delta. -/
structure TraceRecord where
  api : Api
  address : Nat
  size : Nat
  delta : Nat

/-- `uint_array[i] = i`. -/
def uintArray (i : Nat) : UInt8 := UInt8.ofNat i

/-- One round of the loop of `host`. The data buffer of a write or read has `size` bytes. -/
def replay (packetSize : Nat) (r : TraceRecord) : Option (List HostAct) :=
  match r.api with
  | .write => trcWrite packetSize r.address uintArray r.size 0 r.delta
  | .read => trcRead packetSize r.address r.size 0 r.delta
  | .other => some (trcTerminate packetSize r.delta)

/-! ## The loop -/

/-- The rounds of the loop: none from 2^31 on, where `i` starts negative. -/
def loopRounds (packetSize size : Nat) : Nat :=
  if size < 2147483648 then (size + packetSize - 1) / packetSize else 0

theorem ceil_mul {packetSize : Nat} (hp : 0 < packetSize) (count : Nat) :
    (count * packetSize + packetSize - 1) / packetSize = count := by
  rw [Nat.div_eq_iff hp]
  constructor <;> omega

theorem loopRounds_mul {packetSize count : Nat} (hp : 0 < packetSize)
    (h : count * packetSize < 2147483648) : loopRounds packetSize (count * packetSize) = count := by
  rw [loopRounds, if_pos h, ceil_mul hp]

theorem forDown_eq {α : Type} {packetSize : Nat} (hp : 0 < packetSize) (body : Nat → List α)
    {fuel i : Nat} (hi : i ≤ fuel) (j : Nat) : forDown packetSize body fuel i j =
      (List.range' j ((i + packetSize - 1) / packetSize)).flatMap body := by
  induction fuel generalizing i j with
  | zero =>
      obtain rfl : i = 0 := by omega
      rw [Nat.zero_add, Nat.div_eq_of_lt (by omega)]
      rfl
  | succ fuel ih =>
      rw [forDown]
      by_cases h0 : i = 0
      · rw [h0, Nat.zero_add, Nat.div_eq_of_lt (by omega)]
        rfl
      rw [if_pos (by omega)]
      rcases Nat.lt_or_ge i packetSize with hlt | hge
      · -- the last round
        have hone : (i + packetSize - 1) / packetSize = 1 := by
          rw [Nat.div_eq_iff hp]
          omega
        have hrest : forDown packetSize body fuel ((i : Int) - packetSize) (j + 1) = [] := by
          cases fuel with
          | zero => rfl
          | succ n => rw [forDown, if_neg (by omega)]
        rw [hone, hrest]
        rfl
      · have hstep : (i + packetSize - 1) / packetSize =
            (i - packetSize + packetSize - 1) / packetSize + 1 := by
          rw [← Nat.add_div_right _ hp]
          congr 1
          omega
        rw [hstep, List.range'_succ, List.flatMap_cons,
          ← ih (i := i - packetSize) (by omega) (j + 1)]
        rw [Int.ofNat_sub hge]

theorem mem_forDown {α : Type} {packetSize fuel j : Nat} {body : Nat → List α} {i : Int} {x : α}
    (h : x ∈ forDown packetSize body fuel i j) : ∃ k, x ∈ body k := by
  induction fuel generalizing i j with
  | zero => cases h
  | succ fuel ih =>
      rw [forDown] at h
      split at h
      · rcases List.mem_append.mp h with h | h
        · exact ⟨j, h⟩
        · exact ih h
      · cases h

theorem packetLoop_eq {α : Type} {packetSize size : Nat} (hp : 0 < packetSize)
    (hs : size < 4294967296) (body : Nat → List α) : packetLoop packetSize size body =
      (List.range (loopRounds packetSize size)).flatMap body := by
  unfold packetLoop loopRounds toInt
  split
  · rename_i hlt
    have hmod : Int.bmod size 4294967296 = size := by
      rw [Int.bmod_eq_of_le] <;> omega
    rw [hmod, Int.toNat_natCast, forDown_eq hp body (Nat.le_refl _), List.range_eq_range']
  · have hneg : Int.bmod size 4294967296 < 0 := by
      rw [Int.bmod_def, if_neg (by omega)]
      omega
    rw [Int.toNat_of_nonpos (by omega)]
    rfl

/-! ## Rounding up -/

theorem float_natCast {n : Nat} (h : n ≤ 16777216) : float n = n := by
  apply Rounding.roundTo_eq_self
  simpa using Rounding.fits_of_le (K := ℚ) (show 0 < 24 by decide) h 0

theorem float_mono {x y : ℚ} (hx : 0 ≤ x) (h : x ≤ y) : float x ≤ float y :=
  Rounding.roundTo_mono (by decide) hx h

theorem roundUp_lt {packetSize size rounded : Nat} (h : roundUp packetSize size = some rounded) :
    rounded < 4294967296 := by
  simp only [roundUp, Option.ite_none_right_eq_some] at h
  obtain ⟨hlt, heq⟩ := h
  rw [← Option.some.inj heq, Nat.floor_lt' (by omega)]
  exact_mod_cast hlt

/-- Below 2^24 the quotient is off by less than what it lacks to the next integer. -/
theorem packetCeil_eq {packetSize size : Nat} (hp : 0 < packetSize) (hp24 : packetSize < 16777216)
    (hs : size < 16777216) : packetCeil packetSize size =
      ((size + packetSize - 1) / packetSize : Nat) := by
  rw [packetCeil, float_natCast hs.le, float_natCast hp24.le]
  rcases Nat.eq_zero_or_pos size with rfl | hpos
  · rw [Nat.cast_zero, zero_div, float, Rounding.roundTo_zero, Nat.zero_add,
      Nat.div_eq_of_lt (by omega)]
    rfl
  generalize hk : (size + packetSize - 1) / packetSize = k
  have hpq : (0 : ℚ) < packetSize := Nat.cast_pos.mpr hp
  have hdiv := Nat.div_add_mod (size + packetSize - 1) packetSize
  have hmod := Nat.mod_lt (size + packetSize - 1) hp
  rw [hk] at hdiv
  have hkle : k ≤ size := by
    by_contra hlt
    have h1 := Nat.mul_le_mul_left packetSize (show size + 1 ≤ k by omega)
    have h2 := Nat.le_mul_of_pos_left size hp
    rw [Nat.mul_add] at h1
    omega
  have hup : (size : ℚ) / packetSize ≤ k := by
    rw [div_le_iff₀ hpq, mul_comm]
    exact_mod_cast (show size ≤ packetSize * k by omega)
  have hlow : (k : ℚ) - 1 + 1 / packetSize ≤ size / packetSize := by
    rw [← sub_nonneg]
    have h : (packetSize : ℚ) * k + 1 ≤ size + packetSize := by
      exact_mod_cast (show packetSize * k + 1 ≤ size + packetSize by omega)
    have heq : (size : ℚ) / packetSize - (k - 1 + 1 / packetSize) =
        (size + packetSize - (packetSize * k + 1)) / packetSize := by
      field_simp
      ring
    rw [heq]
    exact div_nonneg (by linarith) hpq.le
  rw [Int.ceil_eq_iff]
  constructor
  · have hquot : (0 : ℚ) < size / packetSize := div_pos (Nat.cast_pos.mpr hpos) hpq
    have herr : |Rounding.roundTo 24 ((size : ℚ) / packetSize) - size / packetSize| * 2 ^ 24 ≤
        size / packetSize := Rounding.roundTo_error hquot
    have hsmall : (size : ℚ) / packetSize < 1 / packetSize * 2 ^ 24 := by
      rw [div_mul_eq_mul_div, one_mul]
      exact div_lt_div_of_pos_right (by exact_mod_cast hs) hpq
    have habs := neg_abs_le (Rounding.roundTo 24 ((size : ℚ) / packetSize) - size / packetSize)
    have hlt : |Rounding.roundTo 24 ((size : ℚ) / packetSize) - size / packetSize| <
        1 / packetSize := by
      refine lt_of_mul_lt_mul_right (herr.trans_lt hsmall) (by positivity)
    unfold float
    push_cast
    linarith
  · have h := float_mono (div_nonneg (Nat.cast_nonneg size) hpq.le) hup
    rw [float_natCast (by omega)] at h
    exact_mod_cast h

/-- A rounded size of at most 2^24 is exact. -/
theorem roundUp_eq {packetSize size : Nat} (hp : 0 < packetSize) (hp24 : packetSize < 16777216)
    (hs : size < 16777216) (hle : (size + packetSize - 1) / packetSize * packetSize ≤ 16777216) :
    roundUp packetSize size = some ((size + packetSize - 1) / packetSize * packetSize) := by
  unfold roundUp
  rw [packetCeil_eq hp hp24 hs, float_natCast hp24.le, Int.cast_natCast, ← Nat.cast_mul,
    float_natCast hle, if_pos (by exact_mod_cast (by omega)), Nat.floor_natCast]

theorem roundUp_of_dvd {packetSize size : Nat} (hp : 0 < packetSize) (hs : size < 16777216)
    (hd : packetSize ∣ size) (hp24 : packetSize < 16777216) :
      roundUp packetSize size = some size := by
  obtain ⟨k, rfl⟩ := hd
  rw [Nat.mul_comm] at hs ⊢
  rw [roundUp_eq hp hp24 hs (by rw [ceil_mul hp]; exact hs.le), ceil_mul hp]

theorem lt_roundUp {packetSize size : Nat} (hp : 0 < packetSize) (hs : size < 16777216)
    (hp24 : packetSize < 16777216) (hd : ¬ packetSize ∣ size) :
    ∃ rounded, roundUp packetSize size = some rounded ∧ size < rounded ∧ rounded ≤ 33554432 := by
  have hdiv := Nat.div_add_mod (size + packetSize - 1) packetSize
  have hmod := Nat.mod_lt (size + packetSize - 1) hp
  generalize hk : (size + packetSize - 1) / packetSize = k at hdiv
  have hlow : size + 1 ≤ k * packetSize := by
    rcases Nat.lt_or_ge size (k * packetSize) with h | h
    · exact h
    · exact absurd ⟨k, by rw [Nat.mul_comm] at h; omega⟩ hd
  have hup : k * packetSize ≤ 33554432 := by
    rw [Nat.mul_comm]
    omega
  have hfl : ((size + 1 : Nat) : ℚ) ≤ float ((k * packetSize : Nat) : ℚ) := by
    rw [← float_natCast (n := size + 1) (by omega)]
    exact float_mono (Nat.cast_nonneg _) (by exact_mod_cast hlow)
  have hfu : float ((k * packetSize : Nat) : ℚ) ≤ (33554432 : Nat) := by
    refine Rounding.roundTo_le (by decide) (Nat.cast_nonneg _) ⟨1, 25, by decide, by norm_num⟩ ?_
    exact_mod_cast hup
  refine ⟨_, ?_, Nat.le_floor hfl, Nat.floor_le_of_le hfu⟩
  unfold roundUp
  rw [packetCeil_eq hp hp24 hs, hk, float_natCast hp24.le, Int.cast_natCast, ← Nat.cast_mul, if_pos]
  exact hfu.trans_lt (by norm_num)

/-! ## The packets of a call -/

@[simp] theorem packetsOf_nil : packetsOf [] = [] := rfl

@[simp] theorem packetsOf_send (packet : Packet) (copy : Option Copy) (acts : List HostAct) :
    packetsOf (.send packet copy :: acts) = packet :: packetsOf acts := rfl

@[simp] theorem packetsOf_store (copy : Copy) (acts : List HostAct) :
    packetsOf (.store copy :: acts) = packetsOf acts := rfl

@[simp] theorem packetsOf_append (acts acts' : List HostAct) :
    packetsOf (acts ++ acts') = packetsOf acts ++ packetsOf acts' := List.filterMap_append

theorem mem_packetsOf {acts : List HostAct} {q : Packet} :
    q ∈ packetsOf acts ↔ ∃ copy, HostAct.send q copy ∈ acts := by
  unfold packetsOf
  rw [List.mem_filterMap]
  constructor
  · rintro ⟨act, hact, h⟩
    cases act with
    | send packet copy => exact ⟨copy, Option.some.inj h ▸ hact⟩
    | store copy => cases h
  · rintro ⟨copy, h⟩
    exact ⟨_, h, rfl⟩

/-- One packet in each round. -/
theorem packetsOf_flatMap {packet : Nat → Packet} {body : Nat → List HostAct}
    (h : ∀ j, packetsOf (body j) = [packet j]) (js : List Nat) :
    packetsOf (js.flatMap body) = js.map packet := by
  induction js with
  | nil => rfl
  | cons j js ih =>
      rw [List.flatMap_cons, packetsOf_append, h, ih, List.map_cons, List.singleton_append]

/-- Packet `j` of a write. -/
def writePacketAt (packetSize address : Nat) (data : Nat → UInt8) (size device delta j : Nat) :
    Packet :=
  makePacket packetSize .write (u32 (address + j * packetSize))
    (some fun k => data (j * packetSize + k)) size device (if 0 < j then 0 else delta)

/-- Packet `j` of a read. -/
def readPacketAt (packetSize address size device delta j : Nat) : Packet :=
  makePacket packetSize .read (u32 (address + j * packetSize)) none size device
    (if 0 < j then 0 else delta)

theorem packetsOf_trcWrite {packetSize : Nat} (hp : 0 < packetSize) (address : Nat)
    (data : Nat → UInt8) (size device delta : Nat) :
    (trcWrite packetSize address data size device delta).map packetsOf =
      (roundUp packetSize size).map fun rounded => (List.range (loopRounds packetSize rounded)).map
        (writePacketAt packetSize address data rounded device delta) := by
  rw [trcWrite, Option.map_map]
  refine Option.map_congr fun rounded hr => ?_
  rw [Function.comp_apply, packetLoop_eq hp (roundUp_lt hr)]
  exact packetsOf_flatMap (fun j => rfl) _

theorem packetsOf_trcRead {packetSize : Nat} (hp : 0 < packetSize)
    (address size device delta : Nat) :
    (trcRead packetSize address size device delta).map packetsOf =
      (roundUp packetSize size).map fun rounded => (List.range (loopRounds packetSize rounded)).map
        (readPacketAt packetSize address rounded device delta) := by
  rw [trcRead, Option.map_map]
  refine Option.map_congr fun rounded hr => ?_
  rw [Function.comp_apply, packetLoop_eq hp (roundUp_lt hr)]
  exact packetsOf_flatMap (fun j => rfl) _

/-- Packet `j` of the request of a record. -/
def requestPacket (packetSize : Nat) (r : TraceRecord) (rounded j : Nat) : Packet :=
  match r.api with
  | .write => writePacketAt packetSize r.address uintArray rounded 0 r.delta j
  | _ => readPacketAt packetSize r.address rounded 0 r.delta j

theorem packetsOf_replay {packetSize : Nat} (hp : 0 < packetSize) {r : TraceRecord}
    (hapi : r.api ≠ .other) :
    (replay packetSize r).map packetsOf = (roundUp packetSize r.size).map fun rounded =>
      (List.range (loopRounds packetSize rounded)).map (requestPacket packetSize r rounded) := by
  obtain ⟨api, address, size, delta⟩ := r
  cases api with
  | write => exact packetsOf_trcWrite hp address uintArray size 0 delta
  | read => exact packetsOf_trcRead hp address size 0 delta
  | other => exact absurd rfl hapi

end TSim4CXL
