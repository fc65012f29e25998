import CS2200.Library.CInt
import CS2200.Library.StopAndWait
import Mathlib.Algebra.BigOperators.Group.List.Basic

/-!
# The reliable transport protocol

The packets of `rtp.h` and the functions of `rtp.c`. A `char` is a byte on the wire and signed in
arithmetic, an `int` has 32 bits. `none` stands for an access outside of an array. Memory that
`malloc` returns has contents that are given as parameters.
-/

namespace CS2200.Transport

open CInt StopAndWait

/-! ## Packets -/

/-- `MAX_PAYLOAD_LENGTH`. -/
abbrev maxPayloadLength : Nat := 10

/-- The packet types. -/
inductive PacketType where
  | data
  | lastData
  | ack
  | nack
  | term
  deriving DecidableEq, Repr

/-- The number of a packet type. -/
def PacketType.code : PacketType → Int
  | .data => 0
  | .lastData => 1
  | .ack => 2
  | .nack => 3
  | .term => 4

@[simp] theorem PacketType.code_inj {first second : PacketType} :
    first.code = second.code ↔ first = second := by
  cases first <;> cases second <;> decide

/-- `PACKET`. -/
structure Packet where
  /-- Kind of packet. -/
  type : Int
  /-- Sum over the payload. -/
  checksum : Int
  /-- Number of bytes of the payload that are used. -/
  payloadLength : Int
  /-- Payload. -/
  payload : Vector UInt8 maxPayloadLength
  deriving DecidableEq, Repr

/-- `MESSAGE`. -/
structure Message where
  /-- Length of the message. -/
  length : Int
  /-- Bytes of the message. -/
  buffer : List UInt8
  deriving DecidableEq, Repr

/-- The value of a `char`. -/
def char (byte : UInt8) : Int := byte.toInt8.toInt

/-- `checksum`. -/
def checksum (buffer : List UInt8) (length : Int) : Option Int :=
  if length ≤ buffer.length then some ((buffer.take length.toNat).map char).sum else none

/-! ## Sending -/

/-- The number of packets of a buffer, `packagenum`. -/
def packagenum (length : Nat) : Nat :=
  if length % maxPayloadLength = 0 then length / maxPayloadLength
  else length / maxPayloadLength + 1

/-- One iteration of the loop of `packetize`, from the contents that the packet has before. -/
def package (buffer : List UInt8) (i : Nat) (before : Packet) : Option Packet := do
  let more := wrap (maxPayloadLength * (i + 1)) < buffer.length
  let payloadLength : Int :=
    if more then maxPayloadLength else wrap (buffer.length - wrap (maxPayloadLength * i))
  let type := if more then PacketType.data else .lastData
  let bytes ← (List.range payloadLength.toNat).mapM fun (j : Nat) =>
    load buffer (wrap (wrap (maxPayloadLength * i) + j))
  let payload := Vector.ofFn fun j : Fin maxPayloadLength => bytes.getD j before.payload[j]
  let checksum ← checksum payload.toList payloadLength
  some { type := type.code, checksum, payloadLength, payload }

/-- `packetize` of a buffer, whose length is an `int`. `malloc` gives the contents of the array
before. -/
def packetize (buffer : List UInt8) (malloc : Nat → Packet) : Option (List Packet) :=
  (List.range (packagenum buffer.length)).mapM fun i => package buffer i (malloc i)

/-- The next index of the loop of `rtp_send_message`. -/
def nextIndex (i : Int) (response : Packet) : Int :=
  let i := if response.type = PacketType.nack.code then i - 1 else i
  i + 1

theorem nextIndex_ack {response : Packet} (type : response.type = PacketType.ack.code) (k : Nat) :
    nextIndex k response = ((k + 1 : Nat) : Int) := by
  simp [nextIndex, type]

theorem nextIndex_nack {response : Packet} (type : response.type = PacketType.nack.code) (k : Nat) :
    nextIndex k response = (k : Int) := by
  simp [nextIndex, type]

/-! ## Receiving -/

/-- A loop that copies `count` bytes of `source` to `part`, from the index `start` on. -/
def copyLoop (source : List UInt8) (start count : Int) (part : List UInt8) : Option (List UInt8) :=
  (List.range count.toNat).foldlM
    (fun part (i : Nat) => do store part (wrap (i + start)) (← source[i]?)) part

/-- One iteration of the loop of `rtp_receive_message`: the message, the response that is sent, and
whether the loop ends. `malloc` returns `NULL`, which has no bytes, for a negative size. -/
def receivePackage (malloc : (size : Nat) → Vector UInt8 size) (response : Packet)
    (message : Message) (package : Packet) : Option (Message × Packet × Bool) := do
  let sum ← checksum package.payload.toList package.payloadLength
  if sum = package.checksum then
    let response := { response with type := PacketType.ack.code }
    let part := (malloc (wrap (package.payloadLength + message.length)).toNat).toList
    let part ← copyLoop message.buffer 0 message.length part
    let part ← copyLoop package.payload.toList message.length package.payloadLength part
    let message := { buffer := part, length := wrap (message.length + package.payloadLength) }
    some (message, response,
      ¬ (response.type ≠ PacketType.ack.code ∨ package.type ≠ PacketType.lastData.code))
  else
    let response := { response with type := PacketType.nack.code }
    some (message, response,
      ¬ (response.type ≠ PacketType.ack.code ∨ package.type ≠ PacketType.lastData.code))

/-- The message before any packet. -/
def emptyMessage : Message := { length := 0, buffer := [] }

end CS2200.Transport
