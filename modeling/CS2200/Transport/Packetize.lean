import CS2200.Transport.Server

/-!
# What packets carry

Both implementations of `packetize` cut a message into fragments of ten bytes, of which the last
may be shorter. A packet carries a fragment when the receiver can read the fragment from it; in
bytes below 128 the two checksums agree.
-/

namespace CS2200.Transport

open CInt

/-- Fragment `k` of a message. -/
def fragment (bytes : List UInt8) (k : Nat) : List UInt8 :=
  (bytes.drop (maxPayloadLength * k)).take maxPayloadLength

theorem lt_packagenum_iff {length k : Nat} :
    k < packagenum length ↔ maxPayloadLength * k < length := by
  unfold packagenum maxPayloadLength
  split <;> omega

theorem packagenum_pos {bytes : List UInt8} (nonempty : bytes ≠ []) :
    0 < packagenum bytes.length := by
  rw [lt_packagenum_iff, Nat.mul_zero]
  exact List.length_pos_iff.mpr nonempty

theorem mem_of_mem_fragment {bytes : List UInt8} {k : Nat} {byte : UInt8}
    (member : byte ∈ fragment bytes k) : byte ∈ bytes :=
  List.mem_of_mem_drop (List.mem_of_mem_take member)

theorem length_fragment (bytes : List UInt8) (k : Nat) :
    (fragment bytes k).length = min maxPayloadLength (bytes.length - maxPayloadLength * k) := by
  simp [fragment]

theorem length_fragment_le (bytes : List UInt8) (k : Nat) :
    (fragment bytes k).length ≤ maxPayloadLength := by
  rw [length_fragment]
  exact Nat.min_le_left _ _

theorem take_succ_fragment (bytes : List UInt8) (k : Nat) :
    bytes.take (maxPayloadLength * (k + 1)) =
      bytes.take (maxPayloadLength * k) ++ fragment bytes k := by
  rw [Nat.mul_succ, List.take_add, fragment]

theorem take_packagenum (bytes : List UInt8) :
    bytes.take (maxPayloadLength * packagenum bytes.length) = bytes := by
  refine List.take_of_length_le ?_
  have whole := not_congr (@lt_packagenum_iff bytes.length (packagenum bytes.length))
  simpa using whole

private theorem succ_eq_packagenum_iff {length k : Nat} (inside : k < packagenum length) :
    k + 1 = packagenum length ↔ ¬ maxPayloadLength * (k + 1) < length := by
  rw [← lt_packagenum_iff]
  omega

/-- A packet from which a fragment can be read. -/
structure Carries (packet : Packet) (fragment : List UInt8) (last : Bool) : Prop where
  /-- The last packet is marked. -/
  type : packet.type = (if last then PacketType.lastData else .data).code
  /-- Length of the fragment. -/
  length : packet.payloadLength = fragment.length
  /-- Fragment. -/
  payload : packet.payload.toList.take fragment.length = fragment
  /-- Sum over the fragment. -/
  checksum : packet.checksum = (fragment.map char).sum

theorem checksum_take {buffer : List UInt8} {length : Nat} (bounded : length ≤ buffer.length) :
    checksum buffer length = some ((buffer.take length).map char).sum := by
  simp [checksum, bounded]

/-- A fragment is read from a payload that begins with it. -/
theorem take_ofFn {payload : Fin maxPayloadLength → UInt8} {fragment : List UInt8}
    (short : fragment.length ≤ maxPayloadLength)
    (begins : ∀ j, (inside : j < fragment.length) →
      payload ⟨j, Nat.lt_of_lt_of_le inside short⟩ = fragment[j]) :
    (Vector.ofFn payload).toList.take fragment.length = fragment := by
  rw [Vector.toList_ofFn]
  refine List.ext_getElem (by simp [short]) fun j _ inside => ?_
  rw [List.getElem_take, List.getElem_ofFn]
  exact begins j inside

/-! ## The packets of `rtp.c` -/

section Rtp

variable {buffer : List UInt8} {i : Nat}

theorem wrap_product (fits : buffer.length ≤ 2147483640) (inside : i < packagenum buffer.length) :
    wrap (maxPayloadLength * i) = (maxPayloadLength * i : Nat) ∧
      wrap (maxPayloadLength * (i + 1)) = (maxPayloadLength * (i + 1) : Nat) := by
  have begun := lt_packagenum_iff.mp inside
  unfold maxPayloadLength at *
  constructor <;> exact wrap_eq ⟨by omega, by unfold intMax; omega⟩

private theorem payloadLength_eq (fits : buffer.length ≤ 2147483640)
    (inside : i < packagenum buffer.length) :
    (if wrap (maxPayloadLength * (i + 1)) < buffer.length then (maxPayloadLength : Int)
      else wrap (buffer.length - wrap (maxPayloadLength * i))) = (fragment buffer i).length := by
  have begun := lt_packagenum_iff.mp inside
  have length := length_fragment buffer i
  obtain ⟨start, next⟩ := wrap_product fits inside
  have rest : wrap (buffer.length - (maxPayloadLength * i : Nat)) =
      buffer.length - (maxPayloadLength * i : Nat) := by
    unfold maxPayloadLength at begun ⊢
    exact wrap_eq ⟨by omega, by unfold intMax; omega⟩
  rw [start, next, rest]
  unfold maxPayloadLength at begun length ⊢
  split <;> omega

private theorem mapM_load_fragment (fits : buffer.length ≤ 2147483640)
    (inside : i < packagenum buffer.length) :
    (List.range (fragment buffer i).length).mapM (fun j : Nat =>
      load buffer (wrap (wrap (maxPayloadLength * i) + j))) = some (fragment buffer i) := by
  have begun := lt_packagenum_iff.mp inside
  have length := length_fragment buffer i
  have begins : fragment buffer i <+: buffer.drop (maxPayloadLength * i) := List.take_prefix ..
  have bounds : maxPayloadLength * i + (fragment buffer i).length ≤ buffer.length := by
    unfold maxPayloadLength at *
    omega
  rw [(wrap_product fits inside).1, mapM_load bounds (by unfold intMax; omega),
    ← List.prefix_iff_eq_take.mp begins]

/-- An iteration of `packetize` makes a packet that carries its fragment. -/
theorem package_spec (fits : buffer.length ≤ 2147483640) (inside : i < packagenum buffer.length)
    (before : Packet) :
    ∃ packet, package buffer i before = some packet ∧
      Carries packet (fragment buffer i) (decide (i + 1 = packagenum buffer.length)) := by
  have short := length_fragment_le buffer i
  let payload := Vector.ofFn fun j : Fin maxPayloadLength =>
    (fragment buffer i).getD j before.payload[j]
  have read : payload.toList.take (fragment buffer i).length = fragment buffer i :=
    take_ofFn short fun j inside => by simp [inside]
  have sum : checksum payload.toList ((fragment buffer i).length : Int) =
      some ((fragment buffer i).map char).sum := by
    rw [checksum_take (by simpa using short), read]
  let type :=
    if wrap (maxPayloadLength * (i + 1)) < buffer.length then PacketType.data else .lastData
  refine ⟨{ type := type.code, checksum := ((fragment buffer i).map char).sum
            payloadLength := (fragment buffer i).length, payload }, ?_, ?_, rfl, read, rfl⟩
  · simp only [package, payloadLength_eq fits inside, Int.toNat_natCast,
      mapM_load_fragment fits inside, sum, payload, type, bind, Option.bind_some]
  · simp only [type, (wrap_product fits inside).2, succ_eq_packagenum_iff inside, Int.ofNat_lt]
    by_cases more : maxPayloadLength * (i + 1) < buffer.length <;> simp [more]

/-- In iteration 214748364 the product wraps around, so that it reads at a negative index. -/
theorem package_overflow (buffer : List UInt8) (before : Packet) :
    package buffer 214748364 before = none := by
  have more : wrap (maxPayloadLength * ((214748364 : Nat) + 1)) < buffer.length :=
    Int.lt_of_lt_of_le (by decide) (Int.natCast_nonneg buffer.length)
  have outside : (List.range maxPayloadLength).mapM (fun j : Nat =>
      load buffer (wrap (wrap (maxPayloadLength * (214748364 : Nat)) + j))) = none :=
    mapM_eq_none (List.mem_range.mpr (by decide : 8 < maxPayloadLength))
      (load_of_neg (by decide) buffer)
  simp only [package, more, if_true, Int.toNat_natCast, outside, bind, Option.bind_none]

private theorem mapM_forall₂ {α β : Type*} {f : α → Option β} {related : α → β → Prop} {as : List α}
    (results : ∀ a ∈ as, ∃ b, f a = some b ∧ related a b) :
    ∃ bs, as.mapM f = some bs ∧ List.Forall₂ related as bs := by
  induction as with
  | nil => exact ⟨[], rfl, .nil⟩
  | cons a as ih =>
      obtain ⟨b, result, first⟩ := results a List.mem_cons_self
      obtain ⟨bs, rest, others⟩ := ih fun a member => results a (List.mem_cons_of_mem _ member)
      exact ⟨b :: bs, by simp [List.mapM_cons, result, rest], .cons first others⟩

theorem packetize_spec (fits : buffer.length ≤ 2147483640) (malloc : Nat → Packet) :
    ∃ packets, packetize buffer malloc = some packets ∧
      packets.length = packagenum buffer.length ∧
      ∀ i (inside : i < packets.length), Carries packets[i] (fragment buffer i)
        (decide (i + 1 = packagenum buffer.length)) := by
  have made : ∀ i ∈ List.range (packagenum buffer.length), ∃ packet,
      package buffer i (malloc i) = some packet ∧
        Carries packet (fragment buffer i) (decide (i + 1 = packagenum buffer.length)) :=
    fun i member => package_spec fits (List.mem_range.mp member) (malloc i)
  obtain ⟨packets, result, carries⟩ := mapM_forall₂ made
  have length := carries.length_eq
  rw [List.length_range] at length
  refine ⟨packets, result, length.symm, fun i inside => ?_⟩
  have each := List.forall₂_iff_get.mp carries
  simpa using each.2 i (by simpa [length] using inside) inside

private theorem packetize_long (long : 2147483640 < buffer.length) (malloc : Nat → Packet) :
    packetize buffer malloc = none := by
  have begun : 214748364 < packagenum buffer.length := by
    rw [lt_packagenum_iff, maxPayloadLength]
    omega
  exact mapM_eq_none (List.mem_range.mpr begun) (package_overflow buffer _)

theorem fits_of_packetize {malloc : Nat → Packet} {packets : List Packet}
    (made : packetize buffer malloc = some packets) : buffer.length ≤ 2147483640 := by
  by_contra long
  cases (packetize_long (Nat.not_le.mp long) malloc).symm.trans made

theorem exists_packetize_iff (buffer : List UInt8) (malloc : Nat → Packet) :
    (∃ packets, packetize buffer malloc = some packets) ↔ buffer.length ≤ 2147483640 := by
  constructor
  · rintro ⟨packets, made⟩
    exact fits_of_packetize made
  · intro fits
    obtain ⟨packets, made, -⟩ := packetize_spec fits malloc
    exact ⟨packets, made⟩

end Rtp

/-! ## The packets of the server -/

namespace Server

theorem char_of_lt {byte : UInt8} (ascii : byte < 128) : char byte = byte.toNat := by
  have small : byte.toInt8.toBitVec.toNat < 128 := ascii
  exact BitVec.toInt_eq_toNat_of_lt (by omega)

/-- The checksums agree on bytes below 128. -/
theorem checksum_eq {msg : List UInt8} (ascii : ∀ byte ∈ msg, byte < 128) :
    checksum msg = (msg.map char).sum :=
  congrArg List.sum (List.map_congr_left fun byte member => (char_of_lt (ascii byte member)).symm)

theorem pack_carries {fields : Fields} {last : Bool}
    (type : fields.type = (if last then PacketType.lastData else .data).code)
    (sum : fields.checksum = checksum fields.payload)
    (length : fields.length = fields.payload.length)
    (short : fields.payload.length ≤ maxPayloadLength)
    (ascii : ∀ byte ∈ fields.payload, byte < 128) :
    Carries fields.pack fields.payload last where
  type := type
  length := length
  payload := take_ofFn short fun j inside => by simp [inside]
  checksum := sum.trans (checksum_eq ascii)

private theorem num_eq_packagenum (length : Nat) :
    (length / maxPayloadLength + if length % maxPayloadLength ≠ 0 then 1 else 0) =
      packagenum length := by
  unfold packagenum
  split <;> simp_all

private theorem slice_eq_fragment (msg : List UInt8) (x : Nat) :
    slice msg (x * maxPayloadLength) (x * maxPayloadLength + maxPayloadLength) =
      fragment msg x := by
  rw [slice, List.drop_take, fragment, Nat.mul_comm x, Nat.add_sub_cancel_left]

/-- The fields of the packet of a fragment. -/
def fieldsOf (payload : List UInt8) (last : Bool) : Fields where
  type := (if last then PacketType.lastData else .data).code
  checksum := checksum payload
  length := payload.length
  payload := payload

/-- The loop of `packetize` makes all packets but the last, for which the rest is left. -/
theorem packetize_eq {msg : List UInt8} (nonempty : msg ≠ []) :
    packetize msg = (List.range (packagenum msg.length)).map fun i =>
      fieldsOf (fragment msg i) (decide (i + 1 = packagenum msg.length)) := by
  have positive := packagenum_pos nonempty
  obtain ⟨m, num⟩ := Nat.exists_eq_succ_of_ne_zero (Nat.ne_of_gt positive)
  have cut : ∀ i ≤ m, maxPayloadLength * i < msg.length := fun i before =>
    lt_packagenum_iff.mp (num ▸ Nat.lt_succ_of_le before)
  have whole : msg.length ≤ maxPayloadLength * (m + 1) := by
    have beyond := not_congr (@lt_packagenum_iff msg.length (m + 1))
    rw [num] at beyond
    exact Nat.not_lt.mp (beyond.mp (Nat.lt_irrefl _))
  have rest : msg.drop (m * maxPayloadLength) = fragment msg m := by
    rw [fragment, Nat.mul_comm, List.take_of_length_le]
    rw [List.length_drop]
    unfold maxPayloadLength at whole ⊢
    omega
  unfold packetize
  simp only [num_eq_packagenum, num, Nat.succ_eq_add_one, Nat.add_sub_cancel, rest,
    List.range_succ, List.map_append, slice_eq_fragment]
  congr 1
  · refine List.map_congr_left fun x member => ?_
    have before := List.mem_range.mp member
    have notLast : ¬ x = m := Nat.ne_of_lt before
    have full := length_fragment msg x
    have more := cut (x + 1) before
    have length : ((fragment msg x).length : Int) = maxPayloadLength := by
      unfold maxPayloadLength at full more ⊢
      omega
    simp [fieldsOf, notLast, length]
  · simp [fieldsOf]

theorem packetize_spec {msg : List UInt8} (nonempty : msg ≠ [])
    (ascii : ∀ byte ∈ msg, byte < 128) :
    (packetize msg).length = packagenum msg.length ∧
      ∀ i (inside : i < (packetize msg).length), Carries (currPkt (packetize msg)[i] false)
        (fragment msg i) (decide (i + 1 = packagenum msg.length)) := by
  refine ⟨by simp [packetize_eq nonempty], fun i inside => ?_⟩
  have fields : (packetize msg)[i] =
      fieldsOf (fragment msg i) (decide (i + 1 = packagenum msg.length)) := by
    simp [packetize_eq nonempty]
  rw [fields]
  exact pack_carries rfl rfl rfl (length_fragment_le msg i) fun byte member =>
    ascii byte (mem_of_mem_fragment member)

end Server
end CS2200.Transport
