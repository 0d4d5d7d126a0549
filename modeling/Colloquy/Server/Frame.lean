import Colloquy.Text.Quoted
import Colloquy.Text.Space
import Colloquy.Word

/-! # Frames

Messages travel in a byte stream, each behind headers of which one gives its length. Header lines end
with a line feed, and an empty line ends the headers.
-/

namespace Colloquy.Frame

/-- Why no further message can be read. -/
inductive Stop
  /-- The stream ended between messages, in the headers or right behind them. -/
  | finished
  /-- The stream ended inside a message. -/
  | cutShort
  /-- The headers do not give a length. -/
  | missingLength
  /-- The length is no number, negative or too large; the reason is its wording. -/
  | invalidLength (reason : Bytes)
  deriving Repr, DecidableEq

def Stop.message : Stop → Bytes
  | .finished => utf8 "EOF"
  | .cutShort => utf8 "unexpected EOF"
  | .missingLength => utf8 "missing Content-Length header"
  | .invalidLength reason => reason

def maxLength : Nat := 67108864

/-- The digits of a header value behind a sign, and whether the sign is a minus. -/
def signed (t : Bytes) : Bool × Bytes :=
  match t with
  | 0x2D :: digits => (true, digits)
  | 0x2B :: digits => (false, digits)
  | digits => (false, digits)

/-- The 64-bit number of a header value, or what is wrong with it. -/
def number (t : Bytes) : Except String Int :=
  let (isNegative, digits) := signed t
  let leading := digits.takeWhile Bytes.isDigit
  let size := (Bytes.toNat? leading).getD 0
  if size ≥ wordCount then .error "value out of range"
  else if digits.isEmpty || leading != digits then .error "invalid syntax"
  else
    let n : Int := if isNegative then -size else size
    if fitsSigned n then .ok n else .error "value out of range"

def invalidFront : Bytes := utf8 "invalid Content-Length: "

/-- The length that a header line gives, if it is the header for it. -/
def lengthOf (line : Bytes) : Except Stop (Option Nat) :=
  match Bytes.cut? line 0x3A with
  | none => .ok none
  | some (name, value) =>
    if Bytes.lowerAscii (Bytes.trim name) != utf8 "content-length" then .ok none
    else
      let value := Bytes.trim value
      match number value with
      | .error problem =>
        .error (.invalidLength
          (invalidFront ++ utf8 "strconv.Atoi: parsing " ++ Quoted.encode value ++ utf8 ": " ++ utf8 problem))
      | .ok n =>
        if n < 0 || n > maxLength then .error (.invalidLength (invalidFront ++ Bytes.ofInt n))
        else .ok (some n.toNat)

/-- The length that the headers give, the last one counting, and what follows them. Each step reads a
    line. -/
def headers : (fuel : Nat) → (length : Option Nat) → Bytes → Except Stop (Option Nat × Bytes)
  | 0, _, _ => .error .finished
  | fuel + 1, length, t =>
    match Bytes.cut? t Bytes.lf with
    | none => .error .finished
    | some (line, rest) =>
      let line := Bytes.trimEndWhile line (· == Bytes.cr)
      if line.isEmpty then .ok (length, rest)
      else do
        let given ← lengthOf line
        headers fuel (given.or length) rest

/-- The first message of a stream and what follows it. -/
def read (t : Bytes) : Except Stop (Bytes × Bytes) := do
  match ← headers (t.length + 1) none t with
  | (none, _) => .error .missingLength
  | (some n, rest) =>
    if rest.length ≥ n then return (rest.take n, rest.drop n)
    else if rest.isEmpty then .error .finished
    else .error .cutShort

/-- All messages of a stream, and why there are no more. Each step reads a byte at least. -/
def readAll : (fuel : Nat) → Bytes → List Bytes × Stop
  | 0, _ => ([], .finished)
  | fuel + 1, t =>
    match read t with
    | .error stop => ([], stop)
    | .ok (message, rest) =>
      let (messages, stop) := readAll fuel rest
      (message :: messages, stop)

/-- A message behind its header. -/
def write (message : Bytes) : Bytes :=
  utf8 "Content-Length: " ++ Bytes.ofNat message.length ++ utf8 "\r\n\r\n" ++ message

end Colloquy.Frame
