/-
  The trace files: replaying them, and writing one and parsing it again.

  `host` takes the delta of record `i` with `delta_trace[i]` and does not compare the lengths of
  the two files. `host_replays_iff`: every record is replayed with its delta exactly when there
  are at least as many deltas as records, and each size can be converted back.
  `parse_print`: a printed trace is parsed to what was printed, with addresses and sizes modulo
  2^32, as the tuple has `uint32_t` for them.
-/
import TSim4CXL.Model.TraceFile
import Mathlib.Data.List.TakeWhile

namespace TSim4CXL

/-! ## Replaying -/

/-- The first packet carries the delta, the others 0. -/
def FirstDelta (delta : Nat) (packets : List Packet) : Prop :=
  ∀ j q, packets[j]? = some q → q.delta = if j = 0 then delta else 0

/-- The run gets to the end of the trace, and round `i` makes the call of record `i` with delta
    `i`, which is the delta of its first packet. -/
def Replays (packetSize : Nat) (records : List TraceTuple) (deltas : List Nat)
    (run : Except HostFault (List (List HostAct))) : Prop :=
  ∃ rounds : List (List HostAct), run = .ok rounds ∧ rounds.length = records.length ∧
    ∀ (i : Nat) (r : TraceTuple), records[i]? = some r → ∃ delta acts, deltas[i]? = some delta ∧
      rounds[i]? = some acts ∧ replay packetSize (r.record delta) = some acts ∧
      FirstDelta delta (packetsOf acts)

/-- The size of a request converts back to `uint32_t` after rounding. -/
def Convertible (packetSize : Nat) (r : TraceTuple) : Prop :=
  apiOf r.api ≠ .other → roundUp packetSize r.size ≠ none

theorem replay_isSome_iff (packetSize : Nat) (r : TraceTuple) (delta : Nat) :
    (∃ acts, replay packetSize (r.record delta) = some acts) ↔ Convertible packetSize r := by
  unfold Convertible replay TraceTuple.record
  cases apiOf r.api <;> simp [trcWrite, trcRead, Option.ne_none_iff_exists']

theorem requestPacket_delta (packetSize : Nat) (r : TraceRecord) (rounded j : Nat) :
    (requestPacket packetSize r rounded j).delta = if j = 0 then r.delta else 0 := by
  have hpos : (if 0 < j then 0 else r.delta) = if j = 0 then r.delta else 0 := by
    cases j <;> rfl
  unfold requestPacket
  split <;> exact hpos

/-- The packets of a replayed record. -/
theorem replay_firstDelta {packetSize : Nat} (hp : 0 < packetSize) {r : TraceRecord}
    {acts : List HostAct} (h : replay packetSize r = some acts) :
      FirstDelta r.delta (packetsOf acts) := by
  intro j q hq
  by_cases hapi : r.api = .other
  · simp only [replay, hapi, Option.some.injEq] at h
    subst h
    cases j with
    | zero => cases hq; rfl
    | succ j => cases hq
  · have hpackets := packetsOf_replay hp hapi
    rw [h, Option.map_some] at hpackets
    obtain ⟨rounded, -, hmap⟩ := Option.map_eq_some_iff.mp hpackets.symm
    rw [← hmap, List.getElem?_map] at hq
    obtain ⟨k, hk, rfl⟩ := Option.map_eq_some_iff.mp hq
    obtain ⟨-, rfl⟩ := List.getElem?_eq_some_iff.mp hk
    rw [List.getElem_range]
    exact requestPacket_delta ..

/-- The loop gets through the rest of the trace if the deltas do not run out. -/
theorem hostLoop_ok {packetSize : Nat} {deltas : List Nat} {i : Nat} {records : List TraceTuple}
    (hlen : i + records.length ≤ deltas.length) (hconv : ∀ r ∈ records, Convertible packetSize r) :
    ∃ rounds, hostLoop packetSize deltas i records = .ok rounds ∧ rounds.length = records.length ∧
      ∀ j r, records[j]? = some r → ∃ delta acts, deltas[i + j]? = some delta ∧
      rounds[j]? = some acts ∧
        replay packetSize (r.record delta) = some acts := by
  induction records generalizing i with
  | nil => exact ⟨[], rfl, rfl, nofun⟩
  | cons r records ih =>
      rw [List.length_cons] at hlen
      obtain ⟨rounds, hloop, hrounds, hall⟩ :=
        ih (i := i + 1) (by omega) fun r hr => hconv r (.tail _ hr)
      have hi : i < deltas.length := by omega
      obtain ⟨acts, hacts⟩ := (replay_isSome_iff packetSize r deltas[i]).mpr (hconv r (.head _))
      refine ⟨acts :: rounds, ?_,
        by rw [List.length_cons, hrounds, List.length_cons], fun j r' hr => ?_⟩
      · rw [hostLoop, List.getElem?_eq_getElem hi]
        simp only [hacts, hloop]
      · cases j with
        | zero =>
            cases hr
            exact ⟨_, acts, List.getElem?_eq_getElem hi, rfl, hacts⟩
        | succ j =>
            obtain ⟨delta, acts', hdelta, hact, hreplay⟩ := hall j r' hr
            exact ⟨delta, acts', by rw [← hdelta]; congr 1; omega, hact, hreplay⟩

/-- Every record is replayed with its delta exactly when there are enough deltas and each size
    converts back. -/
theorem host_replays_iff {packetSize : Nat} (hp : 0 < packetSize) {traceText deltaText : List Char}
    {records : List TraceTuple} {deltas : List Nat} (ht : parseTrace traceText = .ok records)
    (hd : parseDeltaTrace deltaText = .ok deltas) :
    Replays packetSize records deltas (host packetSize traceText deltaText) ↔
      records.length ≤ deltas.length ∧ ∀ r ∈ records, Convertible packetSize r := by
  simp only [host, ht, hd]
  constructor
  · rintro ⟨rounds, -, -, hall⟩
    refine ⟨Nat.le_of_not_lt fun hlt => ?_, fun r hr => ?_⟩
    · obtain ⟨delta, -, hdelta, -⟩ := hall deltas.length _ (List.getElem?_eq_getElem hlt)
      rw [List.getElem?_eq_none (Nat.le_refl _)] at hdelta
      cases hdelta
    · obtain ⟨i, hi⟩ := List.getElem?_of_mem hr
      obtain ⟨delta, acts, -, -, hreplay, -⟩ := hall i r hi
      exact (replay_isSome_iff packetSize r delta).mp ⟨acts, hreplay⟩
  · rintro ⟨hlen, hconv⟩
    have hlen0 : 0 + records.length ≤ deltas.length := by rwa [Nat.zero_add]
    obtain ⟨rounds, hloop, hrounds, hall⟩ := hostLoop_ok hlen0 hconv
    refine ⟨rounds, hloop, hrounds, fun i r hr => ?_⟩
    obtain ⟨delta, acts, hdelta, hact, hreplay⟩ := hall i r hr
    rw [Nat.zero_add] at hdelta
    exact ⟨delta, acts, hdelta, hact, hreplay, replay_firstDelta hp hreplay⟩

/-- A read, and the end of the trace. -/
def readAndTerminate : List TraceTuple := [⟨['R'], 0, 64, []⟩, ⟨"Terminate".toList, 0, 0, []⟩]

theorem parse_readAndTerminate :
    parseTrace "R:0:64:\nTerminate:0:0:\n".toList = .ok readAndTerminate := by
  decide +kernel

theorem readAndTerminate_convertible : ∀ r ∈ readAndTerminate, Convertible 64 r := by
  intro r hr hapi
  simp only [readAndTerminate, List.mem_cons, List.not_mem_nil, or_false] at hr
  rcases hr with rfl | rfl
  · rw [roundUp_of_dvd (by decide) (by decide) (by decide) (by decide)]
    exact Option.some_ne_none _
  · exact absurd rfl hapi

theorem host_replays_of_two : Replays 64 readAndTerminate [5, 7]
    (host 64 "R:0:64:\nTerminate:0:0:\n".toList "5\n7".toList) :=
  (host_replays_iff (by decide) parse_readAndTerminate (by decide +kernel)).mpr
    ⟨by decide, readAndTerminate_convertible⟩

/-- Two records and one delta: `delta_trace[1]` is behind the end. -/
theorem delta_missing : parseTrace "R:0:64:\nTerminate:0:0:\n".toList = .ok readAndTerminate ∧
    parseDeltaTrace "5\n".toList = .ok [5] ∧
    host 64 "R:0:64:\nTerminate:0:0:\n".toList "5\n".toList = .error (.deltaIndex 1) ∧
    ¬ Replays 64 readAndTerminate [5]
    (host 64 "R:0:64:\nTerminate:0:0:\n".toList "5\n".toList) := by
  have hdelta : parseDeltaTrace "5\n".toList = .ok [5] := by decide +kernel
  obtain ⟨acts, hacts⟩ := (replay_isSome_iff 64 ⟨['R'], 0, 64, []⟩ 5).mpr
    (readAndTerminate_convertible _ (.head _))
  have hhost : host 64 "R:0:64:\nTerminate:0:0:\n".toList "5\n".toList =
      .error (.deltaIndex 1) := by
    simp only [host, parse_readAndTerminate, hdelta, readAndTerminate, hostLoop,
      List.getElem?_cons_zero, hacts]
    rfl
  refine ⟨parse_readAndTerminate, hdelta, hhost, fun h => ?_⟩
  obtain ⟨rounds, hrounds, -⟩ := h
  rw [hhost] at hrounds
  cases hrounds

/-! ## Printing and parsing -/

/-- A record as it can be written: any address and size that `stoul` accepts. -/
structure TraceLine where
  api : List Char
  address : Nat
  size : Nat
  data : List Char
  api_ok : ':' ∉ api ∧ '\n' ∉ api
  address_lt : address < 18446744073709551616
  size_lt : size < 18446744073709551616
  data_ok : '\n' ∉ data

namespace TraceLine

/-- `api:address:size:data`. -/
def print (r : TraceLine) : List Char :=
  r.api ++ ':' :: (Nat.toDigits 10 r.address ++ ':' :: (Nat.toDigits 10 r.size ++ ':' :: r.data))

/-- The tuple with the address and the size as `uint32_t`. -/
def tuple (r : TraceLine) : TraceTuple := ⟨r.api, u32 r.address, u32 r.size, r.data⟩

end TraceLine

/-- A file with one record a line. -/
def printTrace (rs : List TraceLine) : List Char := rs.flatMap fun r => r.print ++ ['\n']

/-- A string up to the delimiter. -/
theorem getline_delim {delim : Char} {str : List Char} (h : delim ∉ str) (rest : List Char) :
    getline delim ⟨str ++ delim :: rest, true⟩ = (str, true, ⟨rest, true⟩) := by
  have hall : ∀ c ∈ str, decide (c ≠ delim) = true := fun c hc =>
    decide_eq_true fun he => h (he ▸ hc)
  simp only [getline, if_true, List.takeWhile_append_of_pos hall, List.dropWhile_append_of_pos hall]
  simp

/-- The end of the stream. -/
theorem getline_end {delim : Char} {str : List Char} (h : delim ∉ str) :
    (getline delim ⟨str, true⟩).1 = str := by
  have hall : ∀ c ∈ str, decide (c ≠ delim) = true := fun c hc =>
    decide_eq_true fun he => h (he ▸ hc)
  have htake : str.takeWhile (fun c => decide (c ≠ delim)) = str :=
    List.takeWhile_eq_self_iff.mpr hall
  have hdrop : str.dropWhile (fun c => decide (c ≠ delim)) = [] :=
    List.dropWhile_eq_nil_iff.mpr hall
  simp only [getline, if_true, hdrop, htake]

/-- A digit is no blank and no sign. -/
theorem digit_front {c : Char} (h : c.isDigit = true) : isSpace c = false ∧ c ≠ '-' ∧ c ≠ '+' := by
  have h48 : 48 ≤ c.toNat := by
    simp only [Char.isDigit, Bool.and_eq_true, decide_eq_true_eq] at h
    exact h.1
  refine ⟨?_, ?_, ?_⟩
  · have hblank : c ≠ ' ' := by
      rintro rfl
      exact absurd h48 (by decide)
    have hrange : ¬ c.toNat ≤ 13 := by omega
    simp [isSpace, hblank, hrange]
  · rintro rfl
    exact absurd h48 (by decide)
  · rintro rfl
    exact absurd h48 (by decide)

/-- The digits of a number are read as the number. -/
theorem stoul_toDigits {n : Nat} (h : n < 18446744073709551616) :
    stoul (Nat.toDigits 10 n) = .ok n := by
  have hdigit : ∀ c ∈ Nat.toDigits 10 n, c.isDigit = true := fun c hc =>
    Nat.isDigit_of_mem_toDigits (by decide) (by decide) hc
  have htake : (Nat.toDigits 10 n).takeWhile Char.isDigit = Nat.toDigits 10 n :=
    List.takeWhile_eq_self_iff.mpr hdigit
  have hfront : takeSign ((Nat.toDigits 10 n).dropWhile isSpace) = (false, Nat.toDigits 10 n) := by
    cases hd : Nat.toDigits 10 n with
    | nil => rfl
    | cons c cs =>
        rw [hd] at hdigit
        obtain ⟨hspace, hminus, hplus⟩ := digit_front (hdigit c (.head _))
        rw [List.dropWhile_cons, hspace]
        unfold takeSign
        split <;> simp_all
  simp only [stoul, hfront, htake, Nat.toDigits_ne_nil, if_false, Nat.ofDigitChars_ten_toDigits, h,
    if_true]
  rfl

theorem not_mem_toDigits {c : Char} (hc : c.isDigit = false) (n : Nat) : c ∉ Nat.toDigits 10 n :=
  fun h =>
    Bool.false_ne_true (hc.symm.trans (Nat.isDigit_of_mem_toDigits (by decide) (by decide) h))

theorem TraceLine.newline_not_mem (r : TraceLine) : '\n' ∉ r.print := by
  have haddress := not_mem_toDigits (c := '\n') (by decide) r.address
  have hsize := not_mem_toDigits (c := '\n') (by decide) r.size
  simp only [TraceLine.print, List.mem_append, List.mem_cons, not_or]
  exact ⟨r.api_ok.2, by decide, haddress, by decide, hsize, by decide, r.data_ok⟩

theorem parseLine_print (r : TraceLine) : parseLine r.print = .ok r.tuple := by
  have hapi := getline_delim r.api_ok.1
    (Nat.toDigits 10 r.address ++ ':' :: (Nat.toDigits 10 r.size ++ ':' :: r.data))
  have haddress := getline_delim (not_mem_toDigits (c := ':') (by decide) r.address)
    (Nat.toDigits 10 r.size ++ ':' :: r.data)
  have hsize := getline_delim (not_mem_toDigits (c := ':') (by decide) r.size) r.data
  have hdata := getline_end r.data_ok
  simp only [parseLine, TraceLine.print, hapi, haddress, hsize, hdata, stoul_toDigits r.address_lt,
    stoul_toDigits r.size_lt]
  rfl

/-- The lines of a printed trace. -/
theorem readLines_printTrace {rs : List TraceLine} {fuel : Nat} (h : rs.length < fuel) :
    readLines fuel ⟨printTrace rs, true⟩ = rs.map TraceLine.print := by
  induction rs generalizing fuel with
  | nil =>
      cases fuel with
      | zero => rfl
      | succ fuel => rfl
  | cons r rs ih =>
      cases fuel with
      | zero => exact absurd h (Nat.not_lt_zero _)
      | succ fuel =>
          have htext : printTrace (r :: rs) = r.print ++ '\n' :: printTrace rs := by
            simp [printTrace]
          rw [htext, readLines, getline_delim r.newline_not_mem]
          simp only [ih (Nat.lt_of_succ_lt_succ h), List.map_cons]

theorem fileLines_printTrace (rs : List TraceLine) :
    fileLines (printTrace rs) = rs.map TraceLine.print := by
  refine readLines_printTrace (Nat.lt_succ_of_le ?_)
  induction rs with
  | nil => exact Nat.le_refl _
  | cons r rs ih =>
      simp only [printTrace, List.flatMap_cons, List.length_append, List.length_cons] at ih ⊢
      omega

theorem mapM_parseLine (rs : List TraceLine) :
    (rs.map TraceLine.print).mapM parseLine = .ok (rs.map TraceLine.tuple) := by
  induction rs with
  | nil => rfl
  | cons r rs ih =>
      rw [List.map_cons, List.mapM_cons, parseLine_print, ih]
      rfl

/-- A trace that is printed and parsed comes back with its addresses and sizes modulo 2^32: the
    same trace exactly when they are below 2^32. -/
theorem parse_print (rs : List TraceLine) :
    parseTrace (printTrace rs) = .ok (rs.map TraceLine.tuple) ∧
    (parseTrace (printTrace rs) = .ok (rs.map fun r => ⟨r.api, r.address, r.size, r.data⟩) ↔
      ∀ r ∈ rs, r.address < 4294967296 ∧ r.size < 4294967296) := by
  have hparse : parseTrace (printTrace rs) = .ok (rs.map TraceLine.tuple) := by
    rw [parseTrace, fileLines_printTrace, mapM_parseLine]
  have hu32 {n : Nat} : u32 n = n ↔ n < 4294967296 := by
    unfold u32
    omega
  refine ⟨hparse, ?_⟩
  rw [hparse, Except.ok.injEq, List.map_inj_left]
  refine forall₂_congr fun r _ => ?_
  simp only [TraceLine.tuple, TraceTuple.mk.injEq, true_and, and_true, hu32]

/-- A read at address 2^32. -/
def farRead : TraceLine where
  api := ['R']
  address := 4294967296
  size := 64
  data := []
  api_ok := by decide
  address_lt := by decide
  size_lt := by decide
  data_ok := by decide

/-- It comes back as a read at address 0. -/
theorem far_address_wraps : parseTrace (printTrace [farRead]) = .ok [⟨['R'], 0, 64, []⟩] ∧
    ¬ ∀ rs, parseTrace (printTrace rs) =
      .ok (rs.map fun r => ⟨r.api, r.address, r.size, r.data⟩) := by
  have hfar : parseTrace (printTrace [farRead]) = .ok [⟨['R'], 0, 64, []⟩] := by decide +kernel
  refine ⟨hfar, fun hall => ?_⟩
  have := hfar.symm.trans (hall [farRead])
  exact absurd this (by decide)

end TSim4CXL
