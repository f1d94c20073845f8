import AsdPre.Firmware
import AsdPre.Tokens

/-! The command server, up to the bytes that `tcp_write` is given. A received
segment is a chain of pbufs; `server_recv` copies the first of them, takes two
tokens from it and acknowledges the whole chain. A call that passes a NULL pointer
to `strcmp` or `strtol` has no result. -/
namespace AsdPre.CommandServer

open ByteMemory Firmware

/-- The delimiters `" \t\n\r"`. -/
def separators : List Byte := [0x20, 0x09, 0x0a, 0x0d]

def isSep (c : Byte) : Bool := separators.contains c

section Strtol

/-- `isspace` in the C locale. -/
def isSpace (c : Byte) : Bool := c = 0x20#8 || 0x09#8 ≤ c && c ≤ 0x0d#8

def digitValue (c : Byte) : Option Nat :=
  if 0x30#8 ≤ c ∧ c ≤ 0x39#8 then some (c.toNat - 0x30)
  else if 0x41#8 ≤ c ∧ c ≤ 0x5a#8 then some (c.toNat - 0x41 + 10)
  else if 0x61#8 ≤ c ∧ c ≤ 0x7a#8 then some (c.toNat - 0x61 + 10)
  else none

/-- The number that the leading digits of a base add to what was read before. -/
def digitsValue (base : Nat) (value : Nat) : List Byte → Nat
  | [] => value
  | c :: rest =>
    match digitValue c with
    | some digit => if digit < base then digitsValue base (value * base + digit) rest else value
    | none => value

/-- The base that a number without one given announces, and the digits after its mark. -/
def announcedBase (s : List Byte) : Nat × List Byte :=
  if s.take 2 = [0x30, 0x78] ∨ s.take 2 = [0x30, 0x58] then (16, s.drop 2)
  else if s.head? = some 0x30 then (8, s)
  else (10, s)

/-- `strtol` with base 0 and a `long` of 32 bits: it saturates. -/
def strtol (s : List Byte) : BitVec 32 :=
  let s := s.dropWhile isSpace
  let negative := s.head? = some 0x2d
  let s := if negative ∨ s.head? = some 0x2b then s.drop 1 else s
  let (base, digits) := announcedBase s
  let magnitude : Int := digitsValue base 0 digits
  let value := if negative then -magnitude else magnitude
  BitVec.ofInt 32 (max (-2 ^ 31) (min value (2 ^ 31 - 1)))

end Strtol

/-- `%d` -/
def decimal (n : Int) : List Byte :=
  (if n < 0 then [0x2d] else []) ++ (Nat.toDigits 10 n.natAbs).map fun c => BitVec.ofNat 8 c.toNat

/-- The commands, in the order in which they are compared. -/
inductive Verb where
  | setVol
  | getVol
  | getVolMax
  | getVolMin
  | setSource
  | getSource
  | getSources
  | setGain
  | getGain
  | getMaxGain
  | setMute
  | getMute
  | save
  deriving DecidableEq, Repr

def Verb.all : List Verb :=
  [.setVol, .getVol, .getVolMax, .getVolMin, .setSource, .getSource, .getSources,
    .setGain, .getGain, .getMaxGain, .setMute, .getMute, .save]

def Verb.name : Verb → List Byte
  | .setVol => ascii "SET_VOL"
  | .getVol => ascii "GET_VOL"
  | .getVolMax => ascii "GET_VOL_MAX"
  | .getVolMin => ascii "GET_VOL_MIN"
  | .setSource => ascii "SET_SOURCE"
  | .getSource => ascii "GET_SOURCE"
  | .getSources => ascii "GET_SOURCES"
  | .setGain => ascii "SET_GAIN"
  | .getGain => ascii "GET_GAIN"
  | .getMaxGain => ascii "GET_MAX_GAIN"
  | .setMute => ascii "SET_MUTE"
  | .getMute => ascii "GET_MUTE"
  | .save => ascii "SAVE"

/-- The chain of `strcmp`s. -/
def Verb.ofToken (cmd : List Byte) : Option Verb := Verb.all.find? fun verb => verb.name = cmd

def Verb.takesArg : Verb → Bool
  | .setVol | .setSource | .setGain | .setMute => true
  | _ => false

def okReply : List Byte := ascii "OK\n"
def errReply : List Byte := ascii "ERR\n"

/-- `sprintf` of a name, a space, a number and a newline. -/
def number (name : String) (n : Int) : List Byte := ascii name ++ [0x20] ++ decimal n ++ [0x0a]

/-- A branch that hands its argument to `strtol`. -/
def setter (arg : Option (List Byte)) (change : BitVec 32 → Device) : Option (Device × List Byte) :=
  arg.map fun text => (change (strtol text), okReply)

/-- The branch of a command: the device after it and the reply. -/
def execute (d : Device) (arg : Option (List Byte)) : Verb → Option (Device × List Byte)
  | .setVol => setter arg fun n => setVol d (n.setWidth 16)
  | .getVol => some (d, number "VOL" d.volume.toInt)
  | .getVolMax => some (d, number "VOL_MAX" volMin)
  | .getVolMin => some (d, number "VOL_MIN" volMax)
  | .setSource => setter arg fun n => setSource d n.toInt
  | .getSource => some (d, number "SOURCE" d.source)
  | .getSources => some (d, number "SOURCES" sources)
  | .setGain => setter arg fun n => setGain d n.toInt
  | .getGain => some (d, number "GAIN" d.gain)
  | .getMaxGain => some (d, number "MAX_GAIN" maxGain)
  | .setMute => setter arg fun n => setMute d (n ≠ 0)
  | .getMute => some (d, number "MUTE" (if d.mute then 1 else 0))
  | .save => some ({ d with saveSettings := true }, okReply)

/-- What one call did: the command it executed, with the argument it used, and its reply. -/
structure Served where
  command : Option (Verb × Option (List Byte))
  reply : List Byte
  deriving DecidableEq, Repr

/-- The string in `recbuf`, which ends at the first NUL. -/
def recText (payload : List Byte) : List Byte := payload.takeWhile (· ≠ 0#8)

/-- `server_recv` without an error, on the payload of the first pbuf. -/
def serverRecv (d : Device) (payload : List Byte) : Option (Device × Served) :=
  match Tokens.tokenPair isSep (recText payload) with
  | none => none
  | some (cmd, arg) =>
    match Verb.ofToken cmd with
    | none => some (d, ⟨none, errReply⟩)
    | some verb => (execute d arg verb).map fun (d', reply) =>
        (d', ⟨some (verb, if verb.takesArg then arg else none), reply⟩)

/-- A received chain of pbufs; there is always a first one. -/
structure Segment where
  first : List Byte
  more : List (List Byte)
  deriving DecidableEq, Repr

def Segment.bytes (s : Segment) : List Byte := s.first ++ s.more.flatten

/-- The calls for the segments of a connection; after a fault nothing more happens. -/
def serve (d : Device) : List Segment → List (Option Served)
  | [] => []
  | segment :: rest =>
    match serverRecv d segment.first with
    | none => [none]
    | some (d', served) => some served :: serve d' rest

end AsdPre.CommandServer
