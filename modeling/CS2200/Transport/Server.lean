import CS2200.Transport.Rtp
import Mathlib.Data.List.DropRight

/-!
# The server

The functions of `prj7-server.py` and the two loops of `runServer`. A string is a list of bytes,
`none` stands for a call of `exit`, and the outcomes of `random() < DROP_RATE` are given.
-/

namespace CS2200.Transport

namespace Server

/-- `checksum`. -/
def checksum (msg : List UInt8) : Int := (msg.map fun letter => (letter.toNat : Int)).sum

/-- The fields of a packet in the order of `PACKET_FMT`. -/
structure Fields where
  /-- Kind of packet. -/
  type : Int
  /-- Sum over the payload. -/
  checksum : Int
  /-- Number of bytes of the payload. -/
  length : Int
  /-- Payload. -/
  payload : List UInt8
  deriving DecidableEq, Repr

/-- `struct.pack`: the payload is cut to or filled up to ten bytes. -/
def Fields.pack (fields : Fields) : Packet where
  type := fields.type
  checksum := fields.checksum
  payloadLength := fields.length
  payload := Vector.ofFn fun j => fields.payload.getD j 0

/-- The slice `msg[start:stop]` with bounds that are not negative. -/
def slice (msg : List UInt8) (start stop : Nat) : List UInt8 := (msg.take stop).drop start

/-- The slice `msg[0:stop]`, where a negative bound counts from the end. -/
def sliceTo (msg : List UInt8) (stop : Int) : List UInt8 :=
  if 0 ≤ stop then msg.take stop.toNat else msg.take (msg.length + stop).toNat

/-- The characters of the string `'\0x00'`. -/
def stripped : List UInt8 := [0, 120, 48, 48]

/-- `msg.strip('\0x00')`. -/
def strip (msg : List UInt8) : List UInt8 :=
  (msg.rdropWhile (· ∈ stripped)).dropWhile (· ∈ stripped)

/-- `packetize`. -/
def packetize (msg : List UInt8) : List Fields :=
  let num := msg.length / maxPayloadLength + if msg.length % maxPayloadLength ≠ 0 then 1 else 0
  let packets := (List.range (num - 1)).map fun x =>
    let payload := slice msg (x * maxPayloadLength) (x * maxPayloadLength + maxPayloadLength)
    { type := PacketType.data.code, checksum := checksum payload, length := maxPayloadLength
      payload }
  let payload := msg.drop ((num - 1) * maxPayloadLength)
  packets ++ [{ type := PacketType.lastData.code, checksum := checksum payload
                length := payload.length, payload }]

/-- One iteration of the receiving loop: the message, the response, and whether the loop ends. -/
def receive (message : List UInt8) (msg : Packet) (corrupts : Bool) :
    Option (List UInt8 × Packet × Bool) :=
  if msg.type = PacketType.term.code then none
  else if msg.type ∉ [PacketType.data.code, PacketType.lastData.code] then none
  else
    let chksum := if corrupts then msg.checksum + 13 else msg.checksum
    let payload := sliceTo msg.payload.toList msg.payloadLength
    let retType := if chksum = checksum payload then PacketType.ack else .nack
    let payload := strip payload
    let message := message ++ if retType = .ack then payload else []
    let lastType :=
      if msg.type = PacketType.lastData.code ∧ retType = .ack then PacketType.lastData else .data
    let response : Fields := { type := retType.code, checksum := 0, length := 0, payload := [] }
    some (message, response.pack, lastType ≠ .data)

/-- The packet that the sending loop sends. -/
def currPkt (packet : Fields) (corrupts : Bool) : Packet :=
  let packet := if corrupts then { packet with checksum := packet.checksum + 13 } else packet
  packet.pack

/-- The next index of the sending loop. -/
def nextIndex (i : Int) (msg : Packet) : Option Int :=
  if msg.type = PacketType.term.code then none
  else if msg.type ≠ PacketType.ack.code ∧ msg.type ≠ PacketType.nack.code then none
  else some (i + if msg.type = PacketType.ack.code then 1 else 0)

/-! ## The response -/

/-- `msg.strip(characters)`. -/
def stripOf (characters msg : List UInt8) : List UInt8 :=
  (msg.rdropWhile (· ∈ characters)).dropWhile (· ∈ characters)

/-- The characters that `strip` removes without an argument: tab to carriage return, and space. -/
def whitespace : List UInt8 := [9, 10, 11, 12, 13, 32]

/-- The vowels of `makePigLatin`, with `y`. -/
def vowels : List UInt8 := [97, 101, 105, 111, 117, 121]

/-- `word.find(letter)`. -/
def find (word : List UInt8) (letter : UInt8) : Int :=
  match word.idxOf? letter with
  | some index => index
  | none => -1

/-- `makePigLatin`; the literals are `the`, `way` and `ay`. -/
def makePigLatin (word : List UInt8) : List UInt8 :=
  if word.length < 3 ∨ word = [116, 104, 101] then word
  else
    let m := vowels.foldl
      (fun m i => if find word i < m ∧ find word i ≠ -1 then find word i else m) (word.length : Int)
    if m = 0 then word ++ [119, 97, 121]
    else word.drop m.toNat ++ word.take m.toNat ++ [97, 121]

/-- `piglatinize`; the literals are a full stop and spaces. -/
def piglatinize (message : List UInt8) : List UInt8 :=
  let essagemay := ((stripOf [46] message).splitOn 32).foldl
    (fun essagemay word => essagemay ++ [32] ++ makePigLatin word) []
  stripOf whitespace essagemay ++ [46]

/-- What `runServer` sends back. -/
def reply (message : List UInt8) : List UInt8 := stripOf whitespace (piglatinize message)

end Server
end CS2200.Transport
