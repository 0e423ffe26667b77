/-
  How a SIMWrapper puts a response together.

  Each read ack brings along the bytes its pointer leads to when it is consumed. `Assembled`: every
  response is the blocks of the acks of its round, in the order in which they were consumed, and
  `packet_data` begins with those of the round in progress. What the block of an ack is does not
  matter here (`block`), as long as the acks point at them when they are consumed (`Points`).
-/
import TSim4CXL.Trace.SimWrapper

namespace TSim4CXL

open Transition

namespace SimWrapper

variable {cfg : Config} {h : Nat} {block : Payload → List UInt8} {w w' : SimWrapper}
    {l es : List Event}

/-- The ack consumed, if it is one for a read, leads to its block. -/
def Points (cfg : Config) (h : Nat) (env : SimEnv) (block : Payload → List UInt8)
    (e : Event) : Prop :=
  ∀ p, e = .call (.endResp h) p → p.command = .read →
    env.load p.dataPtr p.dataLength = block p ∧ (block p).length = cfg.dramReqSize

/-- A SIMWrapper whose acks lead to their blocks. -/
def pointedComponent (cfg : Config) (h : Nat) (block : Payload → List UInt8) :
    Component SimWrapper Event where
  hear := hear h
  foreign e := e.source ≠ .sim h
  move w es w' := ∃ env, Move cfg h env w es w' ∧ ∀ e ∈ es, Points cfg h env block e

/-- The read acks consumed. -/
def consumed (h : Nat) (l : List Event) : List Payload := ofCmd .read (sent (.endResp h) l)

@[simp] theorem consumed_append (h : Nat) (l l' : List Event) :
    consumed h (l ++ l') = consumed h l ++ consumed h l' := by
  rw [consumed, sent_append, ofCmd_append, ← consumed, ← consumed]

/-- The data of the packet in progress and of every response are the blocks of their acks. -/
def Assembled (cfg : Config) (h : Nat) (block : Payload → List UInt8) (w : SimWrapper)
    (l : List Event) : Prop :=
  (List.range (cfg.dramReqSize * w.rackNum)).map w.packetData =
      ((consumed h l).drop (cfg.payloadNum * (responsesOf h l).length)).flatMap block ∧
    ∀ n < (responsesOf h l).length, (responsesOf h l)[n]? =
      some ((((consumed h l).drop (cfg.payloadNum * n)).take cfg.payloadNum).flatMap block)

theorem Assembled.keep (ha : Assembled cfg h block w l)
    (hw : w'.rackNum = w.rackNum ∧ w'.packetData = w.packetData) (hr : responsesOf h es = [])
    (hs : consumed h es = []) : Assembled cfg h block w' (l ++ es) := by
  unfold Assembled
  rw [consumed_append, hs, responsesOf_append, hr, List.append_nil, List.append_nil, hw.1, hw.2]
  exact ha

/-- One more ack does not change a round that is complete. -/
theorem round_append {α : Type} {N n : Nat} {ps : List α} (hn : N * (n + 1) ≤ ps.length) (p : α) :
    ((ps ++ [p]).drop (N * n)).take N = (ps.drop (N * n)).take N := by
  rw [Nat.mul_succ] at hn
  rw [List.drop_append_of_le_length (by omega), List.take_append_of_le_length]
  rw [List.length_drop]
  omega

/-- The block of one more ack goes behind those of the packet in progress. -/
theorem Assembled.block_append {env : SimEnv} (hc : cfg.WellSized) (ha : Assembled cfg h block w l)
    (hr : ReadRounds cfg h w l) {p : Payload}
    (hp : env.load p.dataPtr p.dataLength = block p ∧ (block p).length = cfg.dramReqSize) :
    (List.range (cfg.dramReqSize * (w.rackNum + 1))).map
        (memcpy w.packetData (u32 (cfg.dramReqSize * w.rackNum))
          (env.load p.dataPtr p.dataLength)) =
      ((consumed h l ++ [p]).drop (cfg.payloadNum * (responsesOf h l).length)).flatMap block := by
  obtain ⟨hlt, hround⟩ := hr
  have hpos : u32 (cfg.dramReqSize * w.rackNum) = cfg.dramReqSize * w.rackNum := by
    have hle := hc.chunk_le hlt
    have hmax := hc.le
    simp only [u32, maxDataSize] at hmax ⊢
    omega
  have hwrite := Store.range_map_write w.packetData (cfg.dramReqSize * w.rackNum) (block p)
  rw [hp.2, ← Nat.mul_succ, ha.1] at hwrite
  have hdrop : cfg.payloadNum * (responsesOf h l).length ≤ (consumed h l).length := by
    rw [consumed]
    omega
  rw [hpos, hp.1, List.drop_append_of_le_length hdrop, List.flatMap_append, List.flatMap_singleton]
  exact hwrite

theorem assembled_closed (hc : cfg.WellSized) (h0 : 0 < cfg.payloadNum) :
    (pointedComponent cfg h block).Closed
      fun w l => (Acks h w l ∧ ReadRounds cfg h w l) ∧ Assembled cfg h block w l := by
  have hN : cfg.payloadNum < 4294967296 := Nat.lt_of_le_of_lt hc.payloadNum_le (by decide)
  have hbase : (pointedComponent cfg h block).Closed fun w l => Acks h w l ∧ ReadRounds cfg h w l :=
    (simReadRounds_closed h0 hN).transfer (fun _ _ => rfl) (fun _ he => he)
      fun _ _ _ ⟨env, hm, _⟩ => .single ⟨env, hm⟩
  refine hbase.and_of ?_ ?_
  · intro w l e he _ ha
    refine ha.keep ?_ (foreign_responses he) (by rw [consumed, foreign_sent he rfl, ofCmd_nil])
    show (w.hear h e).rackNum = _ ∧ (w.hear h e).packetData = _
    rcases hear_cases (h := h) w e with ⟨hw, -⟩ | ⟨p, -, hw⟩ <;> rw [hw] <;> exact ⟨rfl, rfl⟩
  · intro w l es w' hm hbase ha
    obtain ⟨hacks, hr⟩ := hbase
    have hround : cfg.payloadNum * (responsesOf h l).length + w.rackNum = (consumed h l).length :=
      hr.2
    have hold {n : Nat} (hn : n < (responsesOf h l).length) :
        cfg.payloadNum * (n + 1) ≤ (consumed h l).length :=
      Nat.le_trans (Nat.mul_le_mul_left cfg.payloadNum hn) (by omega)
    have hlt := hr.1
    obtain ⟨env, hm, hpoints⟩ := hm
    cases hm with
    | control _ _ _ _ _ _ hes _ =>
        exact ha.keep ⟨rfl, rfl⟩ (responsesOf_quiet h hes)
          (by rw [consumed, sent_quiet _ hes, ofCmd_nil])
    | createRead packet =>
        exact ha.keep ⟨rfl, rfl⟩ (by simp [handleReadPacket]) (by simp [consumed, handleReadPacket])
    | createWrite packet =>
        exact ha.keep ⟨rfl, rfl⟩ (by simp [handleWritePacket])
          (by simp [consumed, handleWritePacket])
    | @rack p q hq hn =>
        have hcmd := hacks.rackQueue_command p (hq ▸ List.mem_cons_self)
        have hp := hpoints _ List.mem_cons_self p rfl hcmd
        have hnew : consumed h (l ++ [.call (.endResp h) p]) = consumed h l ++ [p] := by
          simp [consumed, ofCmd_cons, hcmd]
        have hresp : responsesOf h (l ++ [.call (.endResp h) p]) = responsesOf h l := by simp
        unfold Assembled
        rw [hnew, hresp]
        refine ⟨?_, fun n hn => ?_⟩
        · rw [show u32 (w.rackNum + 1) = w.rackNum + 1 from Nat.mod_eq_of_lt (by omega)]
          exact ha.block_append hc hr hp
        · rw [round_append (hold hn)]
          exact ha.2 n hn
    | @respond p q data hq hn hdata =>
        have hcmd := hacks.rackQueue_command p (hq ▸ List.mem_cons_self)
        have hp := hpoints _ List.mem_cons_self p rfl hcmd
        rw [show u32 (w.rackNum + 1) = w.rackNum + 1 from Nat.mod_eq_of_lt (by omega)] at hn
        have hnew : consumed h (l ++ [.call (.endResp h) p,
            .respond h ((List.range cfg.packetSize).map data)]) = consumed h l ++ [p] := by
          simp [consumed, ofCmd_cons, hcmd]
        have hresp : responsesOf h (l ++ [.call (.endResp h) p,
            .respond h ((List.range cfg.packetSize).map data)]) =
              responsesOf h l ++ [(List.range cfg.packetSize).map data] := by simp
        have hlen : (consumed h l ++ [p]).length =
            cfg.payloadNum * ((responsesOf h l).length + 1) := by
          rw [List.length_append, List.length_singleton, Nat.mul_succ]
          omega
        unfold Assembled
        rw [hnew, hresp]
        refine ⟨?_, fun n hn' => ?_⟩
        · rw [List.length_append, List.length_singleton, ← hlen, List.drop_length]
          rfl
        · rw [List.length_append, List.length_singleton] at hn'
          rcases Nat.lt_or_eq_of_le (Nat.le_of_lt_succ hn') with hlt' | rfl
          · rw [round_append (hold hlt'), List.getElem?_append_left hlt']
            exact ha.2 n hlt'
          · -- the response itself: the packet in progress is complete with `p`
            have hdata : (List.range (cfg.dramReqSize * (w.rackNum + 1))).map data = _ :=
              hdata ▸ ha.block_append hc hr hp
            rw [hn, hc.mul_payloadNum] at hdata
            rw [List.getElem?_append_right (Nat.le_refl _), Nat.sub_self,
              List.getElem?_cons_zero, hdata, List.take_of_length_le]
            rw [List.length_drop, hlen, Nat.mul_succ]
            omega
    | @wack p q hq =>
        have hcmd := hacks.wackQueue_command p (hq ▸ List.mem_cons_self)
        exact ha.keep ⟨rfl, rfl⟩ (by simp) (by simp [consumed, ofCmd_cons, hcmd])
    | @signal p q _ _ hq =>
        have hcmd := hacks.wackQueue_command p (hq ▸ List.mem_cons_self)
        exact ha.keep ⟨rfl, rfl⟩ (by simp) (by simp [consumed, ofCmd_cons, hcmd])
    | _ => exact ha.keep ⟨rfl, rfl⟩ (by simp) (by simp [consumed])

end SimWrapper

end TSim4CXL
