import Mathlib.Data.Int.Init
import ShunyaKV.Resp.Writer

/-!
Extracting requests from the bytes of a connection.

The processor keeps its place in the buffer between calls: the state of the machine, the
position, the start of the command and the slices of the arguments seen so far. A call goes
round until it has a request, an error or too few bytes.
-/

namespace ShunyaKV.Resp

open ShunyaKV.Lib.Decimal ShunyaKV.Shard

inductive St
  | needStar | needArgc | needDollar | needBulkLen | needBulkData | needBulkCrlf
  deriving DecidableEq, Repr

structure Slice where
  off : ℕ
  len : ℕ
  deriving DecidableEq, Repr

structure Processor where
  st : St := .needStar
  pos : ℕ := 0
  cmdStart : ℕ := 0
  argc : ℤ := 0
  argi : ℤ := 0
  bulkLen : ℤ := 0
  slices : List Slice := []
  deriving DecidableEq, Repr

structure ParsedRequest where
  frame : Bytes
  argv : List Bytes
  deriving DecidableEq, Repr

/-- What a call returns; `substr` throws on an offset past the end. -/
inductive Extracted
  | nullopt
  | request (r : ParsedRequest)
  | outOfRange
  deriving DecidableEq, Repr

def kMaxArgs : ℕ := 1024
def kMaxBulk : ℕ := 64 * 1024 * 1024

def errorRequest (msg : String) : Extracted := .request ⟨ascii msg, []⟩

def compactIfNeeded (buf : Bytes) (pos : ℕ) : Bytes × ℕ :=
  if pos = 0 then (buf, pos)
  else if buf.length ≤ pos then ([], 0)
  else if 4096 ≤ pos ∨ buf.length ≤ pos * 2 then (buf.drop pos, 0)
  else (buf, pos)

/-- The processor moves to `pos` between two commands. -/
def Processor.compact (p : Processor) (buf : Bytes) (pos : ℕ) : Processor × Bytes :=
  let r := compactIfNeeded buf pos
  ({ p with pos := r.2 }, r.1)

/-- On to the next `*`, or to the end of the buffer if there is none. -/
def Processor.resetAndResync (p : Processor) (buf : Bytes) : Processor × Bytes :=
  let p := { p with st := .needStar }
  if buf.length ≤ p.pos then p.compact buf p.pos
  else p.compact buf (p.pos + ((buf.drop p.pos).takeWhile (· ≠ 42)).length)

def wrap64 (v : ℤ) : ℤ := v.bmod (2 ^ 64)

def readDigits : ℤ → Bytes → Option ℤ
  | v, [] => some v
  | v, b :: l => if IsDigit b then readDigits (wrap64 (v * 10 + digit b)) l else none

inductive IntParse
  | ok (v : ℤ) (pos : ℕ)
  | needMore
  | invalid
  deriving DecidableEq

/-- A signed number and its CRLF at `pos`, and the position after them. -/
def parseIntCrlf (buf : Bytes) (pos : ℕ) : IntParse :=
  let rest := buf.drop pos
  -- the bytes before the first newline, or all of them
  let line := rest.takeWhile (· ≠ 10)
  if line.length = rest.length then .needMore
  else if line = [] then .invalid
  else if line.getLast? ≠ some 13 then .invalid
  else
    let body := line.dropLast
    let neg := body.head? = some 45
    let digits := if neg then body.tail else body
    if digits = [] then .invalid
    else
      match readDigits 0 digits with
      | none => .invalid
      | some v => .ok (if neg then wrap64 (-v) else v) (pos + line.length + 1)

def substr (b : Bytes) (off len : ℕ) : Option Bytes :=
  if b.length < off then none else some ((b.drop off).take len)

def Processor.cut (p : Processor) (buf : Bytes) : Option ParsedRequest := do
  let frame ← substr buf p.cmdStart (p.pos - p.cmdStart)
  let argv ← p.slices.mapM fun sl => substr frame ((sl.off + 2 ^ 64 - p.cmdStart) % 2 ^ 64) sl.len
  return ⟨frame, argv⟩

inductive Turn
  | go (p : Processor)
  | done (p : Processor) (buf : Bytes) (r : Extracted)

def Processor.fail (p : Processor) (buf : Bytes) (msg : String) : Turn :=
  let r := p.resetAndResync buf
  .done r.1 r.2 (errorRequest msg)

def turn (buf : Bytes) (p : Processor) : Turn :=
  match p.st with
  | .needStar =>
    match buf[p.pos]? with
    | none =>
      let r := p.compact buf p.pos
      .done r.1 r.2 .nullopt
    | some b =>
      if b ≠ 42 then
        -- the rest of the line is skipped
        let line := (buf.drop p.pos).takeWhile (· ≠ 10)
        let r := p.compact buf (min buf.length (p.pos + line.length + 1))
        .done r.1 r.2 (errorRequest "-ERR protocol error\r\n")
      else .go { p with cmdStart := p.pos, pos := p.pos + 1, st := .needArgc }
  | .needArgc =>
    match parseIntCrlf buf p.pos with
    | .needMore => .done p buf .nullopt
    | .invalid => p.fail buf "-ERR protocol error\r\n"
    | .ok argc pos =>
      let p := { p with pos := pos }
      if argc ≤ 0 ∨ (kMaxArgs : ℤ) < argc then p.fail buf "-ERR invalid argc\r\n"
      else .go { p with argc := argc, argi := 0, slices := [], st := .needDollar }
  | .needDollar =>
    match buf[p.pos]? with
    | none => .done p buf .nullopt
    | some b =>
      if b ≠ 36 then p.fail buf "-ERR protocol error\r\n"
      else .go { p with pos := p.pos + 1, st := .needBulkLen }
  | .needBulkLen =>
    match parseIntCrlf buf p.pos with
    | .needMore => .done p buf .nullopt
    | .invalid => p.fail buf "-ERR protocol error\r\n"
    | .ok bl pos =>
      let p := { p with pos := pos }
      if bl < 0 ∨ (kMaxBulk : ℤ) < bl then p.fail buf "-ERR invalid bulk length\r\n"
      else .go { p with bulkLen := bl, st := .needBulkData }
  | .needBulkData =>
    let bl := p.bulkLen.toNat
    if buf.length < p.pos + bl then .done p buf .nullopt
    else .go { p with slices := p.slices ++ [⟨p.pos % 2 ^ 32, bl % 2 ^ 32⟩], pos := p.pos + bl,
                      st := .needBulkCrlf }
  | .needBulkCrlf =>
    if buf.length < p.pos + 2 then .done p buf .nullopt
    else if buf[p.pos]? ≠ some 13 ∨ buf[p.pos + 1]? ≠ some 10 then
      p.fail buf "-ERR protocol error\r\n"
    else
      let p := { p with pos := p.pos + 2, argi := p.argi + 1 }
      if p.argi = p.argc then
        match p.cut buf with
        | none => .done p buf .outOfRange
        | some out =>
          let r := { p with st := .needStar }.compact buf p.pos
          .done r.1 r.2 (.request out)
      else .go { p with st := .needDollar }

/-- The loop. A round consumes a byte or leaves `needBulkData`, so that twice the length of
the buffer is fuel enough. -/
def extractLoop : ℕ → Bytes → Processor → Processor × Bytes × Extracted
  | 0, buf, p => (p, buf, .nullopt)
  | fuel + 1, buf, p =>
    match turn buf p with
    | .go p => extractLoop fuel buf p
    | .done p buf r => (p, buf, r)

def tryExtractRequest (p : Processor) (buf : Bytes) : Processor × Bytes × Extracted :=
  let p := if buf.length < p.pos then { p with pos := buf.length } else p
  extractLoop (2 * buf.length + 2) buf p

/-- The inner loop of `read_loop_impl`: requests are taken until there is none. An exception
ends the loop without a result. -/
def drain : ℕ → Processor → Bytes → Option (List ParsedRequest × Processor × Bytes)
  | 0, _, _ => none
  | fuel + 1, p, buf =>
    match tryExtractRequest p buf with
    | (p, buf, .nullopt) => some ([], p, buf)
    | (p, buf, .request r) => do
      let (rs, q) ← drain fuel p buf
      return (r :: rs, q)
    | (_, _, .outOfRange) => none

def readChunk (p : Processor) (buf chunk : Bytes) :
    Option (List ParsedRequest × Processor × Bytes) :=
  drain ((buf ++ chunk).length + 1) p (buf ++ chunk)

/-- The outer loop of `read_loop_impl`. -/
def readLoop : List Bytes → Processor → Bytes → Option (List ParsedRequest × Processor × Bytes)
  | [], p, buf => some ([], p, buf)
  | chunk :: chunks, p, buf => do
    let (rs, p, buf) ← readChunk p buf chunk
    let (rs', q) ← readLoop chunks p buf
    return (rs ++ rs', q)

end ShunyaKV.Resp
