/-
  GenericDRAMController (generic_dram_controller.cpp) with its requests and request buffers
  (request.h).

  The scheduler, the refresh manager and the DRAM model are Ramulator's and not part of the
  sources. What they answer in one tick is an argument of the tick (`Parts`): the scheduler
  writes the commands of a buffer and picks any position of it, or none, and the refresh
  manager makes its requests of an address vector and a type, so without a callback. Clock
  cycles are integers, a `std::list` iterator is a position, and a watermark is the rational
  number the float is. An address vector reaches to the row level. No plugin is configured,
  and the row statistics are never read: both are left out.
-/
import Mathlib.Data.Rat.Defs
import Mathlib.Data.List.Basic

namespace TSim4CXL.Ramulator

/-! ### Requests and their buffers -/

/-- `Request`. The callback is a number, the closure it stands for; none is the empty
    `std::function`. -/
structure Request where
  addr : Int := -1
  addrVec : List Int := []
  typeId : Int := -1
  command : Int := -1
  finalCommand : Int := -1
  arrive : Int := -1
  depart : Int := -1
  callback : Option Nat := none

/-- `Request::Type`. The device defines the other numbers. -/
def Request.Read : Int := 0

def Request.Write : Int := 1

/-- `Request(AddrVec_t addr_vec, int type)`. -/
def Request.ofAddrVec (addrVec : List Int) (type : Int) : Request :=
  { addrVec := addrVec, typeId := type }

/-- `ReqBuffer`. -/
structure ReqBuffer where
  buffer : List Request := []
  maxSize : Nat := 32

namespace ReqBuffer

def size (b : ReqBuffer) : Nat := b.buffer.length

def enqueue (b : ReqBuffer) (request : Request) : ReqBuffer × Bool :=
  if b.size ≤ b.maxSize then ({ b with buffer := b.buffer ++ [request] }, true) else (b, false)

def remove (b : ReqBuffer) (it : Nat) : ReqBuffer := { b with buffer := b.buffer.eraseIdx it }

end ReqBuffer

/-! ### The controller -/

/-- The four request buffers, as what a `ReqBuffer *` points to. -/
inductive Buf
  | active
  | priority
  | read
  | write
  deriving DecidableEq

/-- What `m_scheduler->get_best_request` does to a buffer: the command it writes into each
    request, and the position it returns, which is `end()` when there is no such request. -/
structure Best where
  commands : Nat → Int
  it : Nat

/-- The answers of Ramulator's parts in one tick: address vector and type of the refresh
    manager's requests, the scheduler's choice in each buffer and the DRAM model's functions. -/
structure Parts where
  refresh : List (List Int × Int)
  best : Buf → List Request → Best
  checkReady : Int → List Int → Bool
  preqCommand : Int → List Int → Int
  isOpening : Int → Bool
  isClosing : Int → Bool
  readLatency : Int

/-- What does not change: the watermarks, the row level and the translation of request types
    to final commands. -/
structure DramConfig where
  wrLowWatermark : Rat
  wrHighWatermark : Rat
  rowAddrIdx : Nat
  requestTranslations : Int → Int

structure DramController where
  clk : Int
  pending : List Request
  active : ReqBuffer
  priority : ReqBuffer
  read : ReqBuffer
  write : ReqBuffer
  isWriteMode : Bool

/-- The request a call to `schedule_request` finds: the buffer, the iterator and the request
    there. -/
structure Found where
  buf : Buf
  it : Nat
  req : Request

inductive DramError
  /-- `std::runtime_error("Invalid request type!")`. -/
  | invalidRequestType
  /-- `std::bad_function_call`. -/
  | badFunctionCall
  deriving DecidableEq

namespace DramController

/-- After `setup`. -/
def init : DramController where
  clk := 0
  pending := []
  active := {}
  priority := { maxSize := 512 * 3 + 32 }
  read := {}
  write := {}
  isWriteMode := false

def get (c : DramController) : Buf → ReqBuffer
  | .active => c.active
  | .priority => c.priority
  | .read => c.read
  | .write => c.write

def set (c : DramController) (b : Buf) (r : ReqBuffer) : DramController :=
  match b with
  | .active => { c with active := r }
  | .priority => { c with priority := r }
  | .read => { c with read := r }
  | .write => { c with write := r }

def enqueue (c : DramController) (b : Buf) (req : Request) : DramController × Bool :=
  (c.set b ((c.get b).enqueue req).1, ((c.get b).enqueue req).2)

def remove (c : DramController) (b : Buf) (it : Nat) : DramController :=
  c.set b ((c.get b).remove it)

/-- The end of `send`: a request that cannot be enqueued has not arrived. -/
def enqueueSent (c : DramController) (b : Buf) (req : Request) :
    DramController × Request × Bool :=
  let req := { req with arrive := c.clk }
  match c.enqueue b req with
  | (c, true) => (c, req, true)
  | (c, false) => (c, { req with arrive := -1 }, false)

/-- `send`, with the caller's request as the call leaves it. -/
def send (C : DramConfig) (c : DramController) (req : Request) :
    Except DramError (DramController × Request × Bool) :=
  let req := { req with finalCommand := C.requestTranslations req.typeId }
  if req.typeId = Request.Read ∧ c.write.buffer.any (fun wreq => wreq.addr = req.addr) then
    let req := { req with depart := c.clk + 1 }
    .ok ({ c with pending := c.pending ++ [req] }, req, true)
  else if req.typeId = Request.Read then .ok (c.enqueueSent .read req)
  else if req.typeId = Request.Write then .ok (c.enqueueSent .write req)
  else .error .invalidRequestType

/-- `priority_send`. -/
def prioritySend (C : DramConfig) (c : DramController) (req : Request) : DramController × Bool :=
  c.enqueue .priority { req with finalCommand := C.requestTranslations req.typeId }

/-- `serve_completed_reads`, with the callback it invokes. -/
def serveCompletedReads (c : DramController) : DramController × List Nat :=
  match c.pending with
  | [] => (c, [])
  | req :: pending =>
      if req.depart ≤ c.clk then ({ c with pending := pending }, req.callback.toList) else (c, [])

/-- `set_write_mode`. -/
def setWriteMode (C : DramConfig) (c : DramController) : DramController :=
  if c.isWriteMode = false then
    if (c.write.size : Rat) > C.wrHighWatermark * c.write.maxSize ∨ c.read.size = 0 then
      { c with isWriteMode := true }
    else c
  else
    if (c.write.size : Rat) < C.wrLowWatermark * c.write.maxSize ∧ c.read.size ≠ 0 then
      { c with isWriteMode := false }
    else c

/-- `get_best_request` on a buffer, and `check_ready` on the request it returns. -/
def bestReady (P : Parts) (c : DramController) (b : Buf) : DramController × Option Found :=
  let best := P.best b (c.get b).buffer
  let reqs := (c.get b).buffer.mapIdx fun i req => { req with command := best.commands i }
  let c := c.set b { c.get b with buffer := reqs }
  match reqs[best.it]? with
  | some req => (c, if P.checkReady req.command req.addrVec then some ⟨b, best.it, req⟩ else none)
  | none => (c, none)

/-- Steps 2.1 and 2.2 of `schedule_request`. -/
def findRequest (C : DramConfig) (P : Parts) (c : DramController) :
    DramController × Option Found :=
  match c.bestReady P .active with
  | (c, some f) => (c, some f)
  | (c, none) =>
      match c.priority.buffer with
      | req :: rest =>
          let req := { req with command := P.preqCommand req.finalCommand req.addrVec }
          ({ c with priority := { c.priority with buffer := req :: rest } },
            if P.checkReady req.command req.addrVec then some ⟨.priority, 0, req⟩ else none)
      | [] =>
          let c := c.setWriteMode C
          c.bestReady P (if c.isWriteMode then .write else .read)

/-- The levels of an address up to the row, or up to the first wildcard. -/
def rowGroupEnd (C : DramConfig) (addrVec : List Int) : Nat :=
  if -1 ∈ addrVec then addrVec.idxOf (-1) else C.rowAddrIdx

/-- Step 2.3: a request in the active buffer is to the rows that this one closes. -/
def interrupts (C : DramConfig) (c : DramController) (req : Request) : Bool :=
  let e := rowGroupEnd C req.addrVec
  c.active.buffer.any fun it => it.addrVec.take e = req.addrVec.take e

/-- `schedule_request`. -/
def scheduleRequest (C : DramConfig) (P : Parts) (c : DramController) :
    DramController × Option Found :=
  match c.findRequest C P with
  | (c, some f) =>
      (c, if P.isClosing f.req.command && c.interrupts C f.req then none else some f)
  | (c, none) => (c, none)

/-- Steps 1 and 2 of `tick`: the clock, the completed reads, the refresh manager and the
    scheduler. -/
def schedule (C : DramConfig) (P : Parts) (c : DramController) :
    (DramController × Option Found) × List Nat :=
  let (c, calls) := { c with clk := c.clk + 1 }.serveCompletedReads
  let c := P.refresh.foldl (fun c (vec, type) => (c.prioritySend C (.ofAddrVec vec type)).1) c
  (c.scheduleRequest C P, calls)

/-- Step 4 of `tick`: the command is issued and the request moved, with the callback that is
    invoked. The result of `m_active_buffer.enqueue` is not looked at. -/
def issue (P : Parts) (c : DramController) (f : Found) :
    Except DramError (DramController × List Nat) :=
  if f.req.command = f.req.finalCommand then
    if f.req.typeId = Request.Read then
      let req := { f.req with depart := c.clk + P.readLatency }
      .ok ({ c with pending := c.pending ++ [req] }.remove f.buf f.it, [])
    else if f.req.typeId = Request.Write then
      match f.req.callback with
      | some n => .ok (c.remove f.buf f.it, [n])
      | none => .error .badFunctionCall
    else .ok (c.remove f.buf f.it, [])
  else if P.isOpening f.req.command then
    .ok ((c.enqueue .active f.req).1.remove f.buf f.it, [])
  else .ok (c, [])

/-- `tick`, with the callbacks it invokes. -/
def tick (C : DramConfig) (P : Parts) (c : DramController) :
    Except DramError (DramController × List Nat) :=
  match c.schedule C P with
  | ((c, none), calls) => .ok (c, calls)
  | ((c, some f), calls) =>
      match c.issue P f with
      | .ok (c, more) => .ok (c, calls ++ more)
      | .error e => .error e

end DramController

/-! ### Runs of `send` and `tick` -/

/-- The controller with the number of the next call of `send`, the numbers of those that
    returned true and false, and the callbacks invoked. -/
structure DramRun where
  ctrl : DramController
  next : Nat
  accepted : List Nat
  refused : List Nat
  called : List Nat

inductive DramCall
  | send (req : Request)
  | tick (P : Parts)

namespace DramRun

def init : DramRun := ⟨.init, 0, [], [], []⟩

/-- The callback of a request is the number of the call that sent it. -/
def step (C : DramConfig) (s : DramRun) : DramCall → Except DramError DramRun
  | .send req =>
      match s.ctrl.send C { req with callback := some s.next } with
      | .ok (c, _, true) =>
          .ok { s with ctrl := c, next := s.next + 1, accepted := s.accepted ++ [s.next] }
      | .ok (c, _, false) =>
          .ok { s with ctrl := c, next := s.next + 1, refused := s.refused ++ [s.next] }
      | .error e => .error e
  | .tick P =>
      match s.ctrl.tick C P with
      | .ok (c, calls) => .ok { s with ctrl := c, called := s.called ++ calls }
      | .error e => .error e

end DramRun

end TSim4CXL.Ramulator
