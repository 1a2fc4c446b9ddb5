import SayFirst.Lib.Chunked
import SayFirst.Lib.Pattern

/-!
# The body a request frames (`adapters/http_surface.py`)

`_consume_body`, `_refuse_framing` and `_skip_chunked` of the surface, over the stream that is left
behind the head of a request. The base handler reads the head: its fields are text of one byte a
character, in their order, and a value has its leading blanks and its line end taken off.

* `consumeBody` — what is read of the stream, and whether the request is refused.
* `handle` — one request, and what is left of the stream where the connection is kept.
* `Run` — the requests of one connection.
-/

namespace SayFirst.Plane

open Py
open Http (strip isHex hexValue lower fieldValues)

def maxFramingLine : ℕ := 65536

def maxBodyBytes : ℕ := 65536

/-! ## Python's text -/

/-- `str.isspace` of a character below 256. -/
def isSpace (c : ℕ) : Bool := (9 ≤ c && c ≤ 13) || (28 ≤ c && c ≤ 32) || c == 133 || c == 160

/-- `bytes.isspace` -/
def isSpaceByte (c : UInt8) : Bool := c == 32 || (9 ≤ c && c ≤ 13)

/-- Digits, with single underscores between them: the digits. -/
def plainDigits : Str → Option Str
  | [] => none
  | [c] => if 48 ≤ c ∧ c ≤ 57 then some [c] else none
  | c :: 95 :: s => if 48 ≤ c ∧ c ≤ 57 then (plainDigits s).map (c :: ·) else none
  | c :: d :: s => if 48 ≤ c ∧ c ≤ 57 then (plainDigits (d :: s)).map (c :: ·) else none

/-- `int` of digits: past 4300 of them it raises `ValueError`. -/
def intOfDigits (s : Str) : Option ℕ :=
  match plainDigits s with
  | none => none
  | some digits => if digits.length > 4300 then none else some (Http.decimalValue 0 digits)

/-- `int(text)`; none where it raises `ValueError`. -/
def intOfText (s : Str) : Option ℤ :=
  match strip isSpace s with
  | 43 :: digits => (intOfDigits digits).map fun n : ℕ => (n : ℤ)
  | 45 :: digits => (intOfDigits digits).map fun n : ℕ => -(n : ℤ)
  | digits => (intOfDigits digits).map fun n : ℕ => (n : ℤ)

/-- `headers.get(name)`: the first field of the name. -/
def headerGet (fields : List (Str × Str)) (name : String) : Option Str :=
  (fields.find? fun field => lower field.1 == lit name).map (·.2)

/-! ## The chunked body -/

/-- `rfile.readline(limit)` -/
def readLine : ℕ → Bytes → Bytes × Bytes
  | 0, s => ([], s)
  | _ + 1, [] => ([], [])
  | limit + 1, c :: s =>
    if c = 10 then ([c], s) else (c :: (readLine limit s).1, (readLine limit s).2)

/-- `line.split(b";", 1)[0].strip()` as hexadecimal digits and nothing else. -/
def sizeOf (line : Bytes) : Option ℕ :=
  let digits := strip isSpaceByte (line.takeWhile (· ≠ 59))
  if digits.isEmpty then none
  else if digits.all isHex then some (hexValue 0 digits) else none

/-- `if not line or len(line) > _MAX_FRAMING_LINE` -/
def overlong (line : Bytes) : Bool := line.isEmpty || line.length > maxFramingLine

/-- The trailer section, ended by an empty line. -/
def skipTrailer : ℕ → Bytes → Option Bytes
  | 0, _ => none
  | fuel + 1, s =>
    let (line, rest) := readLine (maxFramingLine + 1) s
    if overlong line then none
    else if line = [13, 10] ∨ line = [10] then some rest
    else skipTrailer fuel rest

/-- The chunks, then the trailer section. A chunk is read in blocks until it is whole, or the stream
ends in it. -/
def skipChunks : ℕ → ℕ → Bytes → Option Bytes
  | 0, _, _ => none
  | fuel + 1, skipped, s =>
    let (line, rest) := readLine (maxFramingLine + 1) s
    if overlong line then none
    else
      match sizeOf line with
      | none => none
      | some 0 => skipTrailer fuel rest
      | some size =>
        if skipped + size > maxBodyBytes then none
        else if rest.length < size then none
        else
          match rest.drop size with
          | 13 :: 10 :: rest => skipChunks fuel (skipped + size) rest
          | _ => none

/-- `_skip_chunked`: what is left of the stream behind the body, when it was framed. -/
def skipChunked (s : Bytes) : Option Bytes := skipChunks (s.length + 2) 0 s

/-! ## One request -/

inductive Version where
  | http10
  | http11
  | other
  deriving DecidableEq, Repr

/-- The head of a request, as the base handler parsed it. -/
structure Head where
  version : Version
  fields : List (Str × Str)
  /-- `close_connection`, from `Connection` and the version. -/
  close : Bool
  deriving DecidableEq

/-- What `_consume_body` did. -/
inductive Consumption where
  | body (raw rest : Bytes)
  /-- Refused, with the body skipped. -/
  | skipped (message : Str) (rest : Bytes)
  /-- Refused, and the connection closed. -/
  | refused (message : Str)

variable (repr : Str → Str)

/-- `_refuse_framing` -/
def refuseFraming (fields : List (Str × Str)) (encoding : Str) (after : Bytes) : Consumption :=
  let message := lit "this daemon reads a body framed by Content-Length; Transfer-Encoding: " ++
    encoding ++ lit " is not read"
  if (headerGet fields "content-length").isNone ∧
      lower (strip isSpace encoding) = lit "chunked" then
    match skipChunked after with
    | some rest => .skipped message rest
    | none => .refused message
  else .refused message

/-- `_consume_body` -/
def consumeBody (fields : List (Str × Str)) (after : Bytes) : Consumption :=
  match headerGet fields "transfer-encoding" with
  | some encoding => refuseFraming fields encoding after
  | none =>
    match headerGet fields "content-length" with
    | none => .body [] after
    | some declared =>
      match intOfText declared with
      | none => .refused (lit "Content-Length " ++ repr declared ++ lit " is not a length")
      | some n =>
        if n < 0 then .refused (lit "Content-Length " ++ repr declared ++ lit " is not a length")
        else if n > maxBodyBytes then
          .refused (lit "Content-Length " ++ repr declared ++ lit " is past the " ++
            decimal maxBodyBytes ++ lit " bytes this daemon reads")
        else .body (after.take n.toNat) (after.drop n.toNat)

/-- The rest of the surface, for one request. -/
structure Serving where
  /-- `_guard`: the request may be served at all. -/
  admitted : Bool
  /-- The route streamed its answer, or raised: either ends the connection. -/
  ends : Bytes → Bool

/-- One request was answered: by a refusal of its framing or not, and with what is left of the
stream, where the connection is kept. -/
structure Handled where
  refused : Bool
  rest : Option Bytes

/-- What becomes of the connection. Skipping sets `close_connection` flat: it is kept whatever the
request asked for. -/
def answer (serving : Serving) (head : Head) : Consumption → Handled
  | .refused _ => ⟨true, none⟩
  | .skipped _ rest => ⟨true, some rest⟩
  | .body raw rest => ⟨false, if head.close || serving.ends raw then none else some rest⟩

/-- `parse_request`, then `do_<METHOD>` -/
def handle (serving : Serving) (head : Head) (after : Bytes) : Handled :=
  if head.version = .other ∨ serving.admitted = false then ⟨true, none⟩
  else answer serving head (consumeBody repr head.fields after)

/-- The base handler's parser of heads: no head is read of a stream that has ended. -/
structure HeadReader where
  head : Bytes → Option (Head × Bytes)
  ended : head [] = none

/-- A request, with the stream behind its head. -/
structure Exchange where
  head : Head
  after : Bytes
  serving : Serving

def Exchange.handled (e : Exchange) : Handled := handle repr e.serving e.head e.after

/-- The requests of a connection, up to one that closes it or to where they are looked at. -/
inductive Run (reader : HeadReader) : Bytes → List Exchange → Prop
  | idle {s} : Run reader s []
  | closed {s e} : reader.head s = some (e.head, e.after) → (e.handled repr).rest = none →
      Run reader s [e]
  | kept {s e rest more} : reader.head s = some (e.head, e.after) →
      (e.handled repr).rest = some rest → Run reader rest more → Run reader s (e :: more)

end SayFirst.Plane
