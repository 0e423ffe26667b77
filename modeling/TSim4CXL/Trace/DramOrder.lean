/-
  The order of the requests of one command in a device.

  A MEMWrapper keeps them in the order in which they came up to the DRAM, and again from the
  callbacks of the DRAM on (`memOrdered_closed`). What happens in between is Ramulator's.
-/
import TSim4CXL.Trace.Top

namespace TSim4CXL

open Transition

namespace MemWrapper

variable {d : Nat} {m m' : MemWrapper} {l : List Event} {c : Command}

/-- The requests of a command on their way to the DRAM, oldest first. -/
def backlog (m : MemWrapper) (c : Command) : List Payload :=
  ofCmd c m.inQueue ++ ofCmd c m.memRequest ++
    match c with
    | .read => m.rQueue
    | .write => m.wQueue

/-- Those the DRAM has called back, oldest first. -/
def finished (m : MemWrapper) (c : Command) : List Payload :=
  (match c with
    | .read => m.rackQueue
    | .write => m.wackQueue) ++ ofCmd c m.outQueue

/-- Requests taken in are those the DRAM has accepted and then the backlog, requests called back
    those answered and then the finished ones. -/
def Ordered (d : Nat) (m : MemWrapper) (l : List Event) (c : Command) : Prop :=
  (ofCmd c (sent (.peqCb d) l)).map Payload.bare =
      (ofCmd c (sent (.accept d) l)).map Payload.bare ++ (m.backlog c).map Payload.bare ∧
    (ofCmd c (sent (.complete d) l)).map Payload.bare =
      (ofCmd c (sent (.ctrlBw d) l)).map Payload.bare ++ (m.finished c).map Payload.bare

/-- A read behind the write of a tick is no write. -/
theorem backlog_posedge (hc : Commands m) : m.clockPosedge.backlog c = m.backlog c := by
  have hr : ∀ p ∈ m.rQueue, p.command = .read := fun p hp => hc.1 p (List.mem_append_left _ hp)
  have hw : ∀ p ∈ m.wQueue, p.command = .write := fun p hp => hc.2 p (List.mem_append_left _ hp)
  have hrt : ∀ p ∈ m.rQueue.take 1, p.command = .read := fun p hp => hr p (List.mem_of_mem_take hp)
  have hwt : ∀ p ∈ m.wQueue.take 1, p.command = .write := fun p hp => hw p (List.mem_of_mem_take hp)
  cases c with
  | read =>
      simp only [backlog, clockPosedge, ofCmd_append, ofCmd_eq_self hrt,
        ofCmd_eq_nil (c := .read) (by decide) hwt, List.append_nil, List.append_assoc,
        List.take_append_drop]
  | write =>
      simp only [backlog, clockPosedge, ofCmd_append, ofCmd_eq_self hwt,
        ofCmd_eq_nil (c := .write) (by decide) hrt, List.nil_append, List.append_assoc,
        List.take_append_drop]

theorem memOrdered_closed : (component d).Closed fun m l => Commands m ∧ Ordered d m l c := by
  refine memCommands_closed.and_of ?_ ?_
  · intro m l e he _ ho
    have hs {k : Chan} (hk : k.source = .mem d) : sent k [e] = [] := foreign_sent he hk
    show Ordered d (m.hear d e) _ c
    unfold Ordered
    rw [sent_append, sent_append, sent_append, sent_append, hs rfl, hs rfl, hs rfl, hs rfl]
    simp only [List.append_nil]
    rcases hear_cases (d := d) m e with ⟨hm, -⟩ | ⟨p, -, hm⟩ <;> rw [hm] <;> exact ho
  · intro m l es m' hm hc ho
    unfold Ordered at ho ⊢
    obtain ⟨h1, h2⟩ := ho
    simp only [sent_append, ofCmd_append, List.map_append, h1, h2]
    cases hm with
    | @peqRead p q hq hp => cases c <;> simp [backlog, finished, ofCmd_cons, hp]
    | @peqWrite p q _ hq hp => cases c <;> simp [backlog, finished, ofCmd_cons, hp]
    | posedge =>
        rw [backlog_posedge hc]
        simp [finished, clockPosedge]
    | @collectRead p q _ hq hp => cases c <;> simp [backlog, finished, hq, ofCmd_cons, hp]
    | @collectWrite p q _ hq hp => cases c <;> simp [backlog, finished, hq, ofCmd_cons, hp]
    | @send p q _ _ _ hq =>
        cases hp : p.command <;> cases c <;> simp [backlog, finished, hq, ofCmd_cons, hp]
    | @accept p q hq =>
        cases hp : p.command <;> cases c <;> simp [backlog, finished, hq, ofCmd_cons, hp]
    | @complete i p hi =>
        cases hp : p.command <;> cases c <;> simp [backlog, finished, ofCmd_cons, hp]
    | @ackRead p q hq =>
        have hp := hc.1 p (List.mem_append_right _ (hq ▸ List.mem_cons_self))
        cases c <;> simp [backlog, finished, hq, ofCmd_cons, hp]
    | @ackWrite p q hq =>
        have hp := hc.2 p (List.mem_append_right _ (hq ▸ List.mem_cons_self))
        cases c <;> simp [backlog, finished, hq, ofCmd_cons, hp]
    | idle => simp [backlog, finished]

end MemWrapper

namespace Sys

variable {cfg : Config} {s : Sys} {ok : Sys → Action → Prop}

theorem ReachableBy.memOrdered (hr : ReachableBy cfg ok s) (d : Nat) (c : Command) :
    MemWrapper.Ordered d (s.mem d) s.log c :=
  ((memView cfg d).always MemWrapper.memOrdered_closed
    (by exact ⟨⟨fun _ => (absurd · List.not_mem_nil), fun _ => (absurd · List.not_mem_nil)⟩,
      by cases c <;> exact ⟨rfl, rfl⟩⟩) hr).2

end Sys

end TSim4CXL
