import CS2200.Transport.Packetize

/-!
# Framing

What a receiver sees of a sequence of packets: their types, their lengths and that many bytes. Both
implementations of `packetize` frame a message alike, except that an empty message has no packet in
`rtp.c` and one packet of length 0 in the server, and that the products of `rtp.c` overflow in the
longest messages.
-/

namespace CS2200.Transport

/-! ## Frames -/

/-- What a receiver sees of a packet. -/
structure Frame where
  /-- Kind of packet. -/
  type : Int
  /-- Number of bytes of the payload that are used. -/
  length : Int
  /-- These bytes. -/
  payload : List UInt8
  deriving DecidableEq, Repr

/-- The frame of a packet of `rtp.c`. -/
def Packet.frame (packet : Packet) : Frame where
  type := packet.type
  length := packet.payloadLength
  payload := packet.payload.toList.take packet.payloadLength.toNat

/-- The frame of a packet of the server. -/
def Server.Fields.frame (fields : Server.Fields) : Frame where
  type := fields.type
  length := fields.length
  payload := fields.payload

/-- The payloads concatenate to the message, all packets but the last are full and marked as data,
and the last and only the last is marked as the end. -/
structure Framed (message : List UInt8) (frames : List Frame) : Prop where
  /-- There is a last packet, and the others are full. -/
  marked : ∃ others last, frames = others ++ [last] ∧
    (∀ frame ∈ others,
      frame.type = PacketType.data.code ∧ frame.length = (maxPayloadLength : Int)) ∧
    last.type = PacketType.lastData.code
  /-- Every packet has as many bytes as it says. -/
  lengths : ∀ frame ∈ frames, frame.length = frame.payload.length
  /-- The packets carry the message. -/
  payloads : (frames.map Frame.payload).flatten = message

/-- Both implementations frame a message, and alike, whatever memory held before. -/
def FramesAlike (message : List UInt8) : Prop :=
  ∀ malloc, ∃ packets, packetize message malloc = some packets ∧
    packets.map Packet.frame = (Server.packetize message).map Server.Fields.frame ∧
      Framed message (packets.map Packet.frame)

/-! ## Frames of fragments -/

/-- The frame of a fragment. -/
def frameOf (fragment : List UInt8) (last : Bool) : Frame where
  type := (if last then PacketType.lastData else .data).code
  length := fragment.length
  payload := fragment

/-- The frames of a message that is not empty. -/
def framesOf (message : List UInt8) : List Frame :=
  (List.range (packagenum message.length)).map fun i =>
    frameOf (fragment message i) (decide (i + 1 = packagenum message.length))

section Frames

variable {message : List UInt8}

private theorem Carries.frame {packet : Packet} {fragment : List UInt8} {last : Bool}
    (carries : Carries packet fragment last) : packet.frame = frameOf fragment last := by
  obtain ⟨type, length, payload, -⟩ := carries
  rw [Packet.frame, frameOf, type, length, Int.toNat_natCast, payload]

private theorem flatten_fragments (message : List UInt8) :
    ((List.range (packagenum message.length)).map (fragment message)).flatten = message := by
  have parts : ∀ count, ((List.range count).map (fragment message)).flatten =
      message.take (maxPayloadLength * count) := by
    intro count
    induction count with
    | zero => simp
    | succ count ih =>
        rw [List.range_succ, List.map_append, List.flatten_append, ih, take_succ_fragment]
        simp
  rw [parts, take_packagenum]

private theorem framed_framesOf (nonempty : message ≠ []) : Framed message (framesOf message) := by
  obtain ⟨m, num⟩ := Nat.exists_eq_add_one.mpr (packagenum_pos nonempty)
  refine ⟨?_, ?_, ?_⟩
  · refine ⟨(List.range m).map fun i => frameOf (fragment message i) false,
      frameOf (fragment message m) true, ?_, ?_, rfl⟩
    · rw [framesOf, num, List.range_succ, List.map_append]
      congr 1
      · refine List.map_congr_left fun i member => ?_
        have before : ¬ i + 1 = m + 1 := by
          have := List.mem_range.mp member
          omega
        rw [decide_eq_false before]
      · simp
    · intro frame member
      obtain ⟨i, inside, rfl⟩ := List.mem_map.mp member
      have next : i + 1 < packagenum message.length := by
        have := List.mem_range.mp inside
        omega
      have more := lt_packagenum_iff.mp next
      have full := length_fragment message i
      refine ⟨rfl, ?_⟩
      unfold frameOf maxPayloadLength at *
      simp only [full]
      omega
  · intro frame member
    obtain ⟨i, -, rfl⟩ := List.mem_map.mp member
    rfl
  · rw [framesOf, List.map_map]
    exact flatten_fragments message

private theorem Server.frames_eq (nonempty : message ≠ []) :
    (packetize message).map Fields.frame = framesOf message := by
  rw [packetize_eq nonempty, List.map_map]
  rfl

private theorem frames_eq {packets : List Packet} {malloc : Nat → Packet}
    (made : packetize message malloc = some packets) :
    packets.map Packet.frame = framesOf message := by
  obtain ⟨others, same, length, carries⟩ := packetize_spec (fits_of_packetize made) malloc
  obtain rfl : packets = others := Option.some.inj (made.symm.trans same)
  refine List.ext_getElem (by simp [framesOf, length]) fun i inside _ => ?_
  rw [List.length_map] at inside
  rw [List.getElem_map, (carries i inside).frame]
  simp [framesOf]

/-! ## Both implementations -/

/-- The implementations frame a message alike exactly when it is not empty and no product overflows:
`rtp.c` makes no packet of an empty message. -/
theorem framesAlike_iff (message : List UInt8) :
    FramesAlike message ↔ 1 ≤ message.length ∧ message.length ≤ 2147483640 := by
  constructor
  · intro alike
    obtain ⟨packets, made, -, ⟨others, last, frames, -⟩, -⟩ := alike fun _ =>
      { type := 0, checksum := 0, payloadLength := 0, payload := Vector.replicate _ 0 }
    refine ⟨?_, fits_of_packetize made⟩
    by_contra empty
    obtain rfl : message = [] := List.eq_nil_of_length_eq_zero (by omega)
    rw [frames_eq made] at frames
    have none : framesOf [] = [] := rfl
    rw [none] at frames
    exact List.append_ne_nil_of_right_ne_nil others (List.cons_ne_nil last []) frames.symm
  · rintro ⟨positive, short⟩ malloc
    have nonempty : message ≠ [] := List.ne_nil_of_length_pos positive
    obtain ⟨packets, made, -⟩ := packetize_spec short malloc
    have frames := frames_eq made
    exact ⟨packets, made, frames.trans (Server.frames_eq nonempty).symm,
      frames ▸ framed_framesOf nonempty⟩

/-- An empty message has no packet in `rtp.c`, and one packet that marks its end in the server. -/
theorem empty_message_without_end :
    packetize [] (fun _ => { type := 0, checksum := 0, payloadLength := 0
                             payload := Vector.replicate _ 0 }) = some [] ∧
      (Server.packetize []).map Server.Fields.frame =
        [{ type := PacketType.lastData.code, length := 0, payload := [] }] ∧
      ¬ FramesAlike [] := by
  refine ⟨by decide, by decide, fun alike => ?_⟩
  obtain ⟨packets, made, same, -⟩ := alike fun _ =>
    { type := 0, checksum := 0, payloadLength := 0, payload := Vector.replicate _ 0 }
  obtain rfl : packets = [] := Option.some.inj (made.symm.trans (by decide))
  exact absurd same (by decide)

end Frames

end CS2200.Transport
