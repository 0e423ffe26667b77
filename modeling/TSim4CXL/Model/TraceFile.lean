/-
  The trace files of a host, as text: `parse_trace`, `parse_delta_trace` and the loop of `host`
  (main.cpp).

  A file is the list of its characters; one that cannot be opened is empty. `stoul` and `getline`
  are those of the C++ library, `unsigned long` having 64 bits. An exception of `stoul` is not
  caught anywhere.
-/
import TSim4CXL.Model.Host

namespace TSim4CXL

/-! ## Streams -/

/-- What is left of the text of an `istream`; `good` is gone with the first `eofbit` or
    `failbit`. -/
structure Stream where
  rest : List Char
  good : Bool

/-- `getline` into an empty string: the string, whether `failbit` stays clear, and the stream. It
    fails if the stream is not good, or if it ends without a character or a delimiter. -/
def getline (delim : Char) (s : Stream) : List Char × Bool × Stream :=
  if s.good then
    let str := s.rest.takeWhile (· ≠ delim)
    match s.rest.dropWhile (· ≠ delim) with
    | [] => (str, str ≠ [], ⟨[], false⟩)
    | _ :: rest => (str, true, ⟨rest, true⟩)
  else ([], false, s)

/-- The lines of `while (getline(input, line))`. Each round takes a character or ends the stream. -/
def readLines : Nat → Stream → List (List Char)
  | 0, _ => []
  | fuel + 1, s =>
      match getline '\n' s with
      | (line, true, s) => line :: readLines fuel s
      | (_, false, _) => []

def fileLines (text : List Char) : List (List Char) := readLines (text.length + 1) ⟨text, true⟩

/-! ## stoul -/

inductive StdException
  | invalidArgument
  | outOfRange
deriving DecidableEq

/-- `isspace`. -/
def isSpace (c : Char) : Bool := c = ' ' || (9 ≤ c.toNat && c.toNat ≤ 13)

/-- The sign `strtoul` takes, and what follows it. -/
def takeSign : List Char → Bool × List Char
  | '-' :: s => (true, s)
  | '+' :: s => (false, s)
  | s => (false, s)

/-- `stoul`: blanks, a sign, digits; what follows them is ignored. A negative number wraps. -/
def stoul (s : List Char) : Except StdException Nat :=
  let (negative, s) := takeSign (s.dropWhile isSpace)
  let digits := s.takeWhile Char.isDigit
  if digits = [] then .error .invalidArgument
  else
    let n := Nat.ofDigitChars 10 digits 0
    if n < 18446744073709551616 then
      .ok (if negative then (18446744073709551616 - n) % 18446744073709551616 else n)
    else .error .outOfRange

/-! ## The two parsers -/

/-- `tuple<string, uint32_t, uint32_t, string>`. -/
structure TraceTuple where
  api : List Char
  address : Nat
  size : Nat
  data : List Char
deriving DecidableEq

def parseLine (line : List Char) : Except StdException TraceTuple := do
  let (api, _, iss) := getline ':' ⟨line, true⟩
  let (address, _, iss) := getline ':' iss
  let (size, _, iss) := getline ':' iss
  let (data, _, _) := getline '\n' iss
  let address ← stoul address
  let size ← stoul size
  return ⟨api, u32 address, u32 size, data⟩

def parseTrace (text : List Char) : Except StdException (List TraceTuple) :=
  (fileLines text).mapM parseLine

def parseDeltaLine (line : List Char) : Except StdException Nat :=
  stoul (getline '\n' ⟨line, true⟩).1

def parseDeltaTrace (text : List Char) : Except StdException (List Nat) :=
  (fileLines text).mapM parseDeltaLine

/-! ## host -/

/-- `api == "W"`, `api == "R"` or anything else. -/
def apiOf (api : List Char) : Api :=
  if api = ['W'] then .write else if api = ['R'] then .read else .other

/-- A tuple of the trace with its delta. -/
def TraceTuple.record (r : TraceTuple) (delta : Nat) : TraceRecord :=
  ⟨apiOf r.api, r.address, r.size, delta⟩

/-- Why a host does not get to the end of its trace: an exception while parsing, `delta_trace[i]`
    behind the end, or a size that `trcWrite` or `trcRead` cannot convert back. -/
inductive HostFault
  | exception (e : StdException)
  | deltaIndex (i : Nat)
  | conversion
deriving DecidableEq

/-- The loop of `host` from record `i` on: what each round does. -/
def hostLoop (packetSize : Nat) (deltaTrace : List Nat) :
    Nat → List TraceTuple → Except HostFault (List (List HostAct))
  | _, [] => .ok []
  | i, r :: trace =>
      match deltaTrace[i]? with
      | none => .error (.deltaIndex i)
      | some delta =>
          match replay packetSize (r.record delta) with
          | none => .error .conversion
          | some acts =>
              match hostLoop packetSize deltaTrace (i + 1) trace with
              | .ok rounds => .ok (acts :: rounds)
              | .error e => .error e

/-- `host` with the texts of its two files. -/
def host (packetSize : Nat) (traceText deltaText : List Char) :
    Except HostFault (List (List HostAct)) :=
  match parseTrace traceText with
  | .error e => .error (.exception e)
  | .ok trace =>
      match parseDeltaTrace deltaText with
      | .error e => .error (.exception e)
      | .ok deltaTrace => hostLoop packetSize deltaTrace 0 trace

end TSim4CXL
