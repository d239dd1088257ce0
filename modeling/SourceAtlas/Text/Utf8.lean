/-!
# UTF-8

Encoding of characters, and two decoders of one grammar: the strict one stops at the first
malformed sequence and says where it lies, the replacing one puts U+FFFD for each maximal
malformed sequence.
-/

namespace SourceAtlas.Text.Utf8

def byte (n : Nat) : UInt8 := UInt8.ofNat n

def encodeChar (c : Char) : List UInt8 :=
  let n := c.toNat
  if n < 0x80 then [byte n]
  else if n < 0x800 then [byte (0xC0 + n / 64), byte (0x80 + n % 64)]
  else if n < 0x10000 then
    [byte (0xE0 + n / 4096), byte (0x80 + n / 64 % 64), byte (0x80 + n % 64)]
  else
    [byte (0xF0 + n / 262144), byte (0x80 + n / 4096 % 64), byte (0x80 + n / 64 % 64),
      byte (0x80 + n % 64)]

def encode (text : List Char) : List UInt8 := text.flatMap encodeChar

inductive Fault
  | invalidStart
  | invalidContinuation
  | truncated
  deriving DecidableEq, Repr

/-- What stands at the head of a byte sequence. In both cases `extra` more bytes after the first
belong to it. -/
inductive Head
  | char (c : Char) (extra : Nat)
  | malformed (fault : Fault) (extra : Nat)
  deriving DecidableEq, Repr

def isContinuation (b : UInt8) : Bool := 0x80 ≤ b && b < 0xC0

/-- The second byte that may follow a leading byte: the ranges exclude overlong forms, surrogates
and values above U+10FFFF. -/
def isSecond (lead second : UInt8) : Bool :=
  if lead = 0xE0 then 0xA0 ≤ second && second < 0xC0
  else if lead = 0xED then 0x80 ≤ second && second < 0xA0
  else if lead = 0xF0 then 0x90 ≤ second && second < 0xC0
  else if lead = 0xF4 then 0x80 ≤ second && second < 0x90
  else isContinuation second

/-- The six low bits of a continuation byte. -/
def payload (b : UInt8) : Nat := b.toNat % 64

def headOfTwo (lead : UInt8) : List UInt8 → Head
  | [] => .malformed .truncated 0
  | b :: _ =>
      if isSecond lead b then .char (Char.ofNat (lead.toNat % 32 * 64 + payload b)) 1
      else .malformed .invalidContinuation 0

def headOfThree (lead : UInt8) : List UInt8 → Head
  | [] => .malformed .truncated 0
  | b :: rest =>
      if isSecond lead b then
        match rest with
        | [] => .malformed .truncated 1
        | c :: _ =>
            if isContinuation c then
              .char (Char.ofNat (lead.toNat % 16 * 4096 + payload b * 64 + payload c)) 2
            else .malformed .invalidContinuation 1
      else .malformed .invalidContinuation 0

def headOfFour (lead : UInt8) : List UInt8 → Head
  | [] => .malformed .truncated 0
  | b :: rest =>
      if isSecond lead b then
        match rest with
        | [] => .malformed .truncated 1
        | c :: rest =>
            if isContinuation c then
              match rest with
              | [] => .malformed .truncated 2
              | d :: _ =>
                  if isContinuation d then
                    .char (Char.ofNat (lead.toNat % 8 * 262144 + payload b * 4096 + payload c * 64
                      + payload d)) 3
                  else .malformed .invalidContinuation 2
            else .malformed .invalidContinuation 1
      else .malformed .invalidContinuation 0

def head (lead : UInt8) (rest : List UInt8) : Head :=
  if lead < 0x80 then .char (Char.ofNat lead.toNat) 0
  else if lead < 0xC2 then .malformed .invalidStart 0
  else if lead < 0xE0 then headOfTwo lead rest
  else if lead < 0xF0 then headOfThree lead rest
  else if lead < 0xF5 then headOfFour lead rest
  else .malformed .invalidStart 0

/-- Read all bytes, with U+FFFD for each maximal malformed sequence. -/
def decodeReplacing : List UInt8 → List Char
  | [] => []
  | lead :: rest =>
      match head lead rest with
      | .char c extra => c :: decodeReplacing (rest.drop extra)
      | .malformed _ extra => Char.ofNat 0xFFFD :: decodeReplacing (rest.drop extra)
termination_by bytes => bytes.length
decreasing_by all_goals simp only [List.length_drop, List.length_cons]; omega

/-- A malformed sequence in a byte string. -/
structure DecodeError where
  fault : Fault
  /-- The first byte of the sequence. -/
  lead : UInt8
  /-- Where the sequence starts. -/
  position : Nat
  /-- How many bytes after the first belong to it. -/
  extra : Nat
  deriving DecidableEq, Repr

/-- Read bytes that start at a position of the whole, or name the first malformed sequence. -/
def decodeFrom (position : Nat) : List UInt8 → Except DecodeError (List Char)
  | [] => .ok []
  | lead :: rest =>
      match head lead rest with
      | .char c extra => (decodeFrom (position + 1 + extra) (rest.drop extra)).map (c :: ·)
      | .malformed fault extra => .error ⟨fault, lead, position, extra⟩
termination_by bytes => bytes.length
decreasing_by simp only [List.length_drop, List.length_cons]; omega

def decode (bytes : List UInt8) : Except DecodeError (List Char) := decodeFrom 0 bytes

def Fault.message : Fault → String
  | .invalidStart => "invalid start byte"
  | .invalidContinuation => "invalid continuation byte"
  | .truncated => "unexpected end of data"

def hexByte (b : UInt8) : String :=
  String.ofList [Nat.digitChar (b.toNat / 16), Nat.digitChar (b.toNat % 16)]

def DecodeError.message (e : DecodeError) : String :=
  let place :=
    if e.extra = 0 then s!"byte 0x{hexByte e.lead} in position {e.position}"
    else s!"bytes in position {e.position}-{e.position + e.extra}"
  s!"'utf-8' codec can't decode {place}: {e.fault.message}"

end SourceAtlas.Text.Utf8
