/-
NTP on the wire: the header of a packet and its timestamps.

* `Packet.encode`, `Packet.decode`: the header in its 48 bytes, each field written and read at the
  place the source names.
* `toNtp`, `fromNtp`: nanoseconds since the Unix epoch to and from an NTP timestamp, which has no
  era. The `u64` sums and products are checked: `none` is the panic of an overflow. A left shift
  drops the bits that leave the word.
* `parseReply`: a server's reply checked against the request's cookie.
-/
import Rtfsn.Checked
import Rtfsn.Lib.Bytes

namespace Rtfsn.Ntp

open Bytes

def packetLen : ℕ := 48

/-- Seconds from 1900-01-01 to 1970-01-01. -/
def unixToNtpS : UInt64 := 2208988800

def eraS : UInt64 := (1 : UInt64) <<< 32

def modeClient : UInt8 := 3

def modeServer : UInt8 := 4

def leapUnsynchronized : UInt8 := 3

structure Packet where
  leap : UInt8
  version : UInt8
  mode : UInt8
  stratum : UInt8
  poll : Int8
  precision : Int8
  rootDelay : UInt32
  rootDispersion : UInt32
  referenceId : Vector UInt8 4
  referenceTs : UInt64
  originTs : UInt64
  receiveTs : UInt64
  transmitTs : UInt64
deriving DecidableEq

/-- Why bytes were not an acceptable reply. -/
inductive NtpError where
  | short
  | notServer (mode : UInt8)
  | wrongOrigin
  | kissOfDeath (code : Vector UInt8 4)
  | unsynchronized
  | zeroTimestamp
deriving DecidableEq

namespace Packet

def encode (p : Packet) : List UInt8 :=
  let b := List.replicate packetLen (0 : UInt8)
  let b := overwrite b 0 [(p.leap &&& 3) <<< 6 ||| (p.version &&& 7) <<< 3 ||| (p.mode &&& 7)]
  let b := overwrite b 1 [p.stratum]
  let b := overwrite b 2 [p.poll.toUInt8]
  let b := overwrite b 3 [p.precision.toUInt8]
  let b := overwrite b 4 (beBytes 4 p.rootDelay.toNat)
  let b := overwrite b 8 (beBytes 4 p.rootDispersion.toNat)
  let b := overwrite b 12 p.referenceId.toList
  let b := overwrite b 16 (beBytes 8 p.referenceTs.toNat)
  let b := overwrite b 24 (beBytes 8 p.originTs.toNat)
  let b := overwrite b 32 (beBytes 8 p.receiveTs.toNat)
  overwrite b 40 (beBytes 8 p.transmitTs.toNat)

/-- Parse a header; what follows it is ignored. -/
def decode (b : List UInt8) : Except NtpError Packet :=
  if h : b.length < packetLen then .error .short
  else
    have long : 48 ≤ b.length := not_lt.mp h
    let u32At (i : ℕ) : UInt32 := UInt32.ofNat (beValue (slice b i (i + 4)))
    let u64At (i : ℕ) : UInt64 := UInt64.ofNat (beValue (slice b i (i + 8)))
    .ok
      { leap := b[0] >>> 6
        version := (b[0] >>> 3) &&& 7
        mode := b[0] &&& 7
        stratum := b[1]
        poll := b[2].toInt8
        precision := b[3].toInt8
        rootDelay := u32At 4
        rootDispersion := u32At 8
        referenceId := ⟨(slice b 12 16).toArray, by simp; omega⟩
        referenceTs := u64At 16
        originTs := u64At 24
        receiveTs := u64At 32
        transmitTs := u64At 40 }

end Packet

/-! ### Timestamps -/

def toNtp (unixNs : UInt64) : Option UInt64 := do
  let secs ← U64.checkedAdd (unixNs / 1000000000) unixToNtpS
  let frac := ((unixNs % 1000000000) <<< 32) / 1000000000
  return (secs % eraS) <<< 32 ||| frac

/-- `min_by_key`: the first of the smallest. -/
def minByKey (key : UInt64 → UInt64) : UInt64 → List UInt64 → UInt64
  | best, [] => best
  | best, s :: rest => minByKey key (if key s < key best then s else best) rest

/-- The seconds of a timestamp in era `e`. -/
def inEra (secs e : UInt64) : Option UInt64 := do
  U64.checkedAdd (← U64.checkedMul e eraS) secs

/-- The seconds of a timestamp in the era that puts them nearest `nearNtp`. -/
def nearestEra (secs nearNtp : UInt64) : Option UInt64 := do
  let era := nearNtp / eraS
  let before ← inEra secs (U64.saturatingSub era 1)
  let here ← inEra secs era
  let after ← inEra secs (← U64.checkedAdd era 1)
  return minByKey (fun s => U64.absDiff s nearNtp) before [here, after]

/-- The timestamp in nanoseconds since the Unix epoch, in the era nearest `nearUnixNs`. -/
def fromNtp (ts nearUnixNs : UInt64) : Option UInt64 := do
  let secs := ts >>> 32
  let scaled ← U64.checkedMul (ts &&& 0xFFFFFFFF) 1000000000
  let rounded ← U64.checkedAdd scaled ((1 : UInt64) <<< 31)
  let fracNs := rounded >>> 32
  let nearNtp ← U64.checkedAdd (nearUnixNs / 1000000000) unixToNtpS
  let best ← nearestEra secs nearNtp
  U64.checkedAdd (← U64.checkedMul (U64.saturatingSub best unixToNtpS) 1000000000) fracNs

/-- NTP short format as nanoseconds. -/
def shortToNs (v : UInt32) : UInt64 := (v.toUInt64 * 1000000000) >>> 16

/-! ### Requests and replies -/

/-- A client request whose transmit timestamp is `cookie`. -/
def request (cookie : UInt64) : List UInt8 :=
  Packet.encode
    { leap := 0
      version := 4
      mode := modeClient
      stratum := 0
      poll := 4
      precision := -20
      rootDelay := 0
      rootDispersion := 0
      referenceId := Vector.replicate 4 0
      referenceTs := 0
      originTs := 0
      receiveTs := 0
      transmitTs := cookie }

/-- What a server's reply says. -/
structure Reply where
  t2Ns : UInt64
  t3Ns : UInt64
  stratum : UInt8
  leap : UInt8
  referenceId : Vector UInt8 4
  rootDelayNs : UInt64
  rootDispersionNs : UInt64

/-- Check a reply against the cookie of the request it answers. -/
def parseReply (b : List UInt8) (cookie nearUnixNs : UInt64) : Option (Except NtpError Reply) :=
  match Packet.decode b with
  | .error e => some (.error e)
  | .ok p =>
    if p.mode ≠ modeServer then some (.error (.notServer p.mode))
    else if p.originTs ≠ cookie then some (.error .wrongOrigin)
    else if p.stratum = 0 then some (.error (.kissOfDeath p.referenceId))
    else if p.leap = leapUnsynchronized ∨ 16 ≤ p.stratum then some (.error .unsynchronized)
    else if p.receiveTs = 0 ∨ p.transmitTs = 0 then some (.error .zeroTimestamp)
    else do
      let t2Ns ← fromNtp p.receiveTs nearUnixNs
      let t3Ns ← fromNtp p.transmitTs nearUnixNs
      return .ok
        { t2Ns := t2Ns
          t3Ns := t3Ns
          stratum := p.stratum
          leap := p.leap
          referenceId := p.referenceId
          rootDelayNs := shortToNs p.rootDelay
          rootDispersionNs := shortToNs p.rootDispersion }

end Rtfsn.Ntp
