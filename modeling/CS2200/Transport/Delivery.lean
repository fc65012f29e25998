import CS2200.Transport.Receive

/-!
# Exact delivery

`rtp_receive_message` is composed with `rtp_send_message` and with the sending loop of the server.
The channel changes the checksum or one byte of the payload of finitely many packets, which the
receiver notices because one summand of the sum changes. Both compositions are instances of stop
and wait. They are exact as long as the products that `packetize` computes, and the length of the
message that is returned, are `int`s.
-/

namespace CS2200.Transport

open CInt StopAndWait

/-! ## The channel -/

/-- What the channel does to a packet. -/
inductive Disturbance where
  | none
  /-- The checksum is replaced. -/
  | checksum (value : Int)
  /-- One byte of the payload is replaced. -/
  | payload (index : Fin maxPayloadLength) (value : UInt8)
  deriving DecidableEq, Repr

/-- The packet that arrives. -/
def Disturbance.apply : Disturbance → Packet → Packet
  | .none, packet => packet
  | .checksum value, packet => { packet with checksum := value }
  | .payload index value, packet => { packet with payload := packet.payload.set index value index.isLt }

private theorem char_injective : Function.Injective char := by
  intro first second same
  have signed : first.toInt8 = second.toInt8 := Int8.toInt_inj.mp same
  simpa using congrArg Int8.toUInt8 signed

private theorem sum_set_ne {bytes : List UInt8} {index : Nat} (inside : index < bytes.length)
    {value : UInt8} (different : bytes[index] ≠ value) :
    ((bytes.set index value).map char).sum ≠ (bytes.map char).sum := by
  have change := List.sum_set' (bytes.map char) index (char value)
  rw [← List.map_set, dif_pos (by simpa using inside), List.getElem_map] at change
  have distinct := char_injective.ne different
  omega

/-- The receiver computes another sum than the packet has. -/
def Mismatched (packet : Packet) : Prop :=
  ∃ sum, checksum packet.payload.toList packet.payloadLength = some sum ∧ sum ≠ packet.checksum

section Channel

variable {packet : Packet} {fragment : List UInt8} {last : Bool}

theorem Carries.short (carries : Carries packet fragment last) :
    fragment.length ≤ maxPayloadLength := by
  have length := congrArg List.length carries.payload
  simp only [List.length_take, Vector.length_toList] at length
  omega

theorem Carries.sum (carries : Carries packet fragment last) (payload : Vector UInt8 10) :
    Transport.checksum payload.toList packet.payloadLength =
      some ((payload.toList.take fragment.length).map char).sum := by
  rw [carries.length, checksum_take (by simpa using carries.short)]

/-- A packet still carries its fragment after a disturbance, or the receiver notices. -/
theorem Carries.disturb (carries : Carries packet fragment last) (disturbance : Disturbance) :
    Carries (disturbance.apply packet) fragment last ∨ Mismatched (disturbance.apply packet) := by
  cases disturbance with
  | none => exact .inl carries
  | checksum value =>
      by_cases same : value = packet.checksum
      · subst same
        exact .inl carries
      · refine .inr ⟨_, carries.sum packet.payload, ?_⟩
        rw [carries.payload, ← carries.checksum]
        exact Ne.symm same
  | payload index value =>
      have bytes : ((Disturbance.payload index value).apply packet).payload.toList.take
          fragment.length = fragment.set index value := by
        rw [Disturbance.apply, Vector.toList_set, List.take_set, carries.payload]
      by_cases inside : index < fragment.length
      · by_cases same : fragment[index] = value
        · refine .inl ⟨carries.type, carries.length, ?_, carries.checksum⟩
          rw [bytes, ← same]
          simp
        · refine .inr ⟨_, carries.sum _, ?_⟩
          rw [bytes]
          exact fun equal => sum_set_ne inside same (equal.trans carries.checksum)
      · refine .inl ⟨carries.type, carries.length, ?_, carries.checksum⟩
        rw [bytes, List.set_eq_of_length_le (Nat.not_lt.mp inside)]

end Channel

/-! ## The receiver -/

section Receiver

variable {malloc : (size : Nat) → Vector UInt8 size} {response packet : Packet}
  {fragment : List UInt8} {last : Bool} {message : Message}

theorem Carries.accepted (carries : Carries packet fragment last) : packet.Accepted := by
  have sum := carries.sum packet.payload
  rwa [carries.payload, ← carries.checksum] at sum

theorem receivePackage_carries (carries : Carries packet fragment last) (whole : message.Whole)
    (fits : message.length + fragment.length ≤ intMax) :
    receivePackage malloc response message packet = some
      ({ buffer := message.buffer ++ fragment, length := message.length + fragment.length },
        { response with type := PacketType.ack.code }, last) := by
  have accepted := carries.accepted
  have short := carries.short
  have contents : packet.contents = fragment := by
    rw [Packet.contents, carries.length, Int.toNat_natCast, carries.payload]
  have ends : packet.Last ↔ last = true := by
    rw [Packet.Last, carries.type]
    cases last <;> simp [accepted]
  rw [receivePackage_accepted whole accepted (by rw [carries.length]; omega)
    (by rw [carries.length]; omega) (by rwa [carries.length])]
  simp [contents, carries.length, reply, accepted, ends]

theorem receivePackage_mismatched (mismatched : Mismatched packet) :
    receivePackage malloc response message packet =
      some (message, { response with type := PacketType.nack.code }, false) := by
  obtain ⟨sum, computed, different⟩ := mismatched
  simp [receivePackage, computed, different]

end Receiver

/-! ## The compositions -/

/-- `rtp_send_message`, the channel and `rtp_receive_message`. -/
def rtpParties (packets : List Packet) (malloc : (size : Nat) → Vector UInt8 size)
    (response : Packet) : Parties Packet Packet Packet Message Disturbance where
  packet i := if 0 ≤ i then packets[i.toNat]? else none
  transmit disturbance packet := disturbance.apply packet
  quiet := .none
  receive := receivePackage malloc response
  answer i response := some (nextIndex i response)

/-- What happens to a packet of the server: the server simulates a corruption, or the channel does
what it does. -/
inductive Server.Transmission where
  | corrupts
  | channel (disturbance : Disturbance)
  deriving DecidableEq, Repr

/-- The sending loop of the server, the channel and `rtp_receive_message`. -/
def Server.sendingParties (packets : List Server.Fields)
    (malloc : (size : Nat) → Vector UInt8 size) (response : Packet) :
    Parties Server.Fields Packet Packet Message Server.Transmission where
  packet i := if 0 ≤ i then packets[i.toNat]? else none
  transmit
    | .corrupts, packet => Server.currPkt packet true
    | .channel disturbance, packet => disturbance.apply (Server.currPkt packet false)
  quiet := .channel .none
  receive := receivePackage malloc response
  answer := Server.nextIndex

section Composition

variable {π δ : Type*} (parties : Parties π Packet Packet Message δ)

/-- The sender has ended, or the acknowledgement of its `LAST_DATA` is on its way. -/
def LastAcknowledged (state : State Packet Packet Message δ) : Prop :=
  parties.packet state.position = none ∨
    ∃ packet, parties.packet state.position = some packet ∧
      (parties.transmit parties.quiet packet).type = PacketType.lastData.code ∧
      ∃ response ∈ state.responses, response.type = PacketType.ack.code

/-- Both sides have ended. -/
def Terminated (state : State Packet Packet Message δ) : Prop :=
  parties.packet state.position = none ∧ state.awaiting = false ∧ state.stopped = true

/-- What delivery promises of a state that a run reaches. -/
structure Exact (sent : List UInt8) (disturbances : List δ) (labels : List Label)
    (state : State Packet Packet Message δ) : Prop where
  /-- No run is longer than a bound. -/
  bounded : labels.length ≤ 3 * (disturbances.length + packagenum sent.length)
  /-- A run that cannot go on has ended on both sides. -/
  progress : Terminated parties state ∨ ∃ label after, Step parties state label after
  /-- The message that is returned is the message that was sent. -/
  delivered : state.stopped = true → state.receiver = { length := sent.length, buffer := sent }
  /-- The receiver stops exactly when the sender has its `LAST_DATA` acknowledged. -/
  stopped : state.stopped = true ↔ LastAcknowledged parties state

section Delivers

variable {parties} {sent : List UInt8} {packets : List π}
  {malloc : (size : Nat) → Vector UInt8 size} {response : Packet}
  {disturbances : List δ} {labels : List Label} {state : State Packet Packet Message δ}

/-- The message after the first fragments. -/
def delivered (sent : List UInt8) (k : Nat) : Message where
  length := (sent.take (maxPayloadLength * k)).length
  buffer := sent.take (maxPayloadLength * k)

/-- A sender of the fragments of a message whose packets are disturbed by the channel only. -/
structure Sends (parties : Parties π Packet Packet Message δ) (sent : List UInt8)
    (packets : List π) (malloc : (size : Nat) → Vector UInt8 size) (response : Packet) :
    Prop where
  /-- The sender goes through its packets. -/
  packet : ∀ i, parties.packet i = if 0 ≤ i then packets[i.toNat]? else none
  /-- There is a packet for every fragment. -/
  length : packets.length = packagenum sent.length
  /-- The packets carry the fragments. -/
  carries : ∀ i (inside : i < packets.length),
    Carries (parties.transmit parties.quiet packets[i]) (fragment sent i)
      (decide (i + 1 = packagenum sent.length))
  /-- Disturbances are those of the channel. -/
  transmit : ∀ disturbance packet, ∃ change : Disturbance,
    parties.transmit disturbance packet = change.apply (parties.transmit parties.quiet packet)
  /-- The receiver is `rtp_receive_message`. -/
  receive : parties.receive = receivePackage malloc response
  /-- The sender goes on after an acknowledgement. -/
  acknowledged : ∀ k : Nat, parties.answer k { response with type := PacketType.ack.code } =
    some ((k + 1 : Nat) : Int)
  /-- The sender repeats a packet that is refused. -/
  refused : ∀ k : Nat, parties.answer k { response with type := PacketType.nack.code } =
    some (k : Int)

theorem length_delivered_le (sent : List UInt8) (k : Nat) :
    (delivered sent k).buffer.length ≤ sent.length :=
  List.length_take_le' ..

theorem delivered_whole (fits : sent.length ≤ intMax) (k : Nat) : (delivered sent k).Whole :=
  ⟨rfl, Int.le_trans (Int.ofNat_le.mpr (length_delivered_le sent k)) fits⟩

theorem delivered_succ (sent : List UInt8) (k : Nat) :
    delivered sent (k + 1) =
      { buffer := (delivered sent k).buffer ++ fragment sent k
        length := (delivered sent k).length + (fragment sent k).length } := by
  simp only [delivered, take_succ_fragment, List.length_append, Int.natCast_add]

/-- A packet that carries its fragment is accepted, and one that the receiver notices is refused. -/
theorem Sends.delivers (sends : Sends parties sent packets malloc response)
    (fits : sent.length ≤ intMax) :
    Delivers parties (fun response => response.type = PacketType.ack.code)
      (packagenum sent.length) (delivered sent) where
  packet k inside := by
    have present : k < packets.length := by rwa [sends.length]
    have accepts : ∀ arrived, Carries arrived (fragment sent k)
        (decide (k + 1 = packagenum sent.length)) →
        Accepted parties (fun response => response.type = PacketType.ack.code)
          (packagenum sent.length) (delivered sent) k arrived := by
      intro arrived carries
      refine ⟨_, ?_, rfl, sends.acknowledged k⟩
      have after := (delivered_whole fits (k + 1)).isInt
      rw [delivered_succ] at after
      rw [sends.receive, delivered_succ]
      exact receivePackage_carries carries (delivered_whole fits k) after
    refine ⟨packets[k], by simp [sends.packet, present], fun disturbance => ?_,
      accepts _ (sends.carries k present)⟩
    obtain ⟨change, arrives⟩ := sends.transmit disturbance packets[k]
    rw [arrives]
    rcases (sends.carries k present).disturb change with carries | mismatched
    · exact .inl (accepts _ carries)
    · refine .inr ⟨_, ?_, by simp, sends.refused k⟩
      rw [sends.receive]
      exact receivePackage_mismatched mismatched
  ends := by simp [sends.packet, sends.length]

/-- The packet of the last position is marked as `LAST_DATA`, and no other packet is. -/
theorem Sends.last_iff (sends : Sends parties sent packets malloc response) (position : Int) :
    position + 1 = packagenum sent.length ∧ 0 ≤ position ↔
      ∃ packet, parties.packet position = some packet ∧
        (parties.transmit parties.quiet packet).type = PacketType.lastData.code := by
  rw [sends.packet]
  by_cases negative : 0 ≤ position
  · obtain ⟨k, rfl⟩ := Int.eq_ofNat_of_zero_le negative
    by_cases present : k < packets.length
    · have type := (sends.carries k present).type
      have found : packets[k]? = some packets[k] := List.getElem?_eq_getElem present
      have cast : (k : Int) + 1 = packagenum sent.length ↔ k + 1 = packagenum sent.length := by
        omega
      simp only [negative, if_true, Int.toNat_natCast, found, Option.some.injEq, exists_eq_left',
        type, PacketType.code_inj, and_true, cast]
      by_cases last : k + 1 = packagenum sent.length <;> simp [last]
    · have absent : packets[k]? = none := List.getElem?_eq_none (Nat.not_lt.mp present)
      rw [sends.length] at present
      simp [absent]
      omega
  · simp [negative]

theorem Sends.exact (sends : Sends parties sent packets malloc response) (nonempty : sent ≠ [])
    (fits : sent.length ≤ intMax)
    (trace : Trace (Step parties) (start emptyMessage disturbances) labels state) :
    Exact parties sent disturbances labels state := by
  have positive := packagenum_pos nonempty
  have delivers := sends.delivers fits
  obtain ⟨left, bound, stage⟩ := stage_of_trace delivers positive trace
  have whole : delivered sent (packagenum sent.length) =
      { length := sent.length, buffer := sent } := by
    rw [delivered, take_packagenum]
  refine ⟨by omega, ?_, fun stopped => (stage.receiver_of_stopped stopped).trans whole, ?_⟩
  · refine (stage.progress delivers).imp_left fun final => ⟨?_, final.awaiting, final.stopped⟩
    rw [final.position]
    exact delivers.ends
  · rw [stage.stopped_iff delivers]
    refine or_congr_right ?_
    have last := sends.last_iff state.position
    constructor
    · rintro ⟨position, acknowledged⟩
      obtain ⟨packet, found, type⟩ := last.mp ⟨position, by omega⟩
      exact ⟨packet, found, type, acknowledged⟩
    · rintro ⟨packet, found, type, acknowledged⟩
      exact ⟨(last.mpr ⟨packet, found, type⟩).1, acknowledged⟩

end Delivers

end Composition

theorem rtpParties_sends {sent : List UInt8} {before : Nat → Packet} {packets : List Packet}
    (packetized : packetize sent before = some packets)
    (malloc : (size : Nat) → Vector UInt8 size) (response : Packet) :
    Sends (rtpParties packets malloc response) sent packets malloc response := by
  obtain ⟨made, result, length, carries⟩ := packetize_spec (fits_of_packetize packetized) before
  obtain rfl := Option.some.inj (result.symm.trans packetized)
  exact ⟨fun _ => rfl, length, carries, fun disturbance _ => ⟨disturbance, rfl⟩, rfl,
    fun k => congrArg some (nextIndex_ack rfl k),
    fun k => congrArg some (nextIndex_nack rfl k)⟩

section FromServer

variable {sent : List UInt8} {k : Nat}

theorem Server.sendingParties_sends (nonempty : sent ≠ []) (ascii : ∀ byte ∈ sent, byte < 128)
    (malloc : (size : Nat) → Vector UInt8 size) (response : Packet) :
    Sends (Server.sendingParties (Server.packetize sent) malloc response) sent
      (Server.packetize sent) malloc response := by
  obtain ⟨length, carries⟩ := Server.packetize_spec nonempty ascii
  refine ⟨fun _ => rfl, length, carries, fun disturbance packet => ?_, rfl, fun k => ?_, fun k => ?_⟩
  · cases disturbance with
    | corrupts => exact ⟨.checksum (packet.checksum + 13), rfl⟩
    | channel disturbance => exact ⟨disturbance, rfl⟩
  · simp [Server.sendingParties, Server.nextIndex]
  · simp [Server.sendingParties, Server.nextIndex]

theorem carries_fieldsOf {payload : List UInt8} {last : Bool}
    (short : payload.length ≤ maxPayloadLength) (ascii : ∀ byte ∈ payload, byte < 128) :
    Carries (Server.currPkt (Server.fieldsOf payload last) false) payload last :=
  Server.pack_carries rfl rfl rfl short ascii

/-- The server repeats the first packet that the client does not take. -/
theorem Server.sendingParties_confined (nonempty : sent ≠ [])
    (malloc : (size : Nat) → Vector UInt8 size) (answer : Packet)
    (inside : k < packagenum sent.length) (room : (delivered sent k).length ≤ intMax)
    (earlier : ∀ j < k, ∀ byte ∈ fragment sent j, byte < 128)
    (refuses : ∀ after response stops,
      receivePackage malloc answer (delivered sent k) (currPkt (fieldsOf (fragment sent k)
        (decide (k + 1 = packagenum sent.length))) false) = some (after, response, stops) →
      after = delivered sent k ∧ response = { answer with type := PacketType.nack.code } ∧
        stops = false) :
    Confined (sendingParties (packetize sent) malloc answer) (k + 1) (delivered sent) := by
  intro j bound
  have more : j < packagenum sent.length := by omega
  have packet : (sendingParties (packetize sent) malloc answer).packet (j : Int) =
      some (fieldsOf (fragment sent j) (decide (j + 1 = packagenum sent.length))) := by
    simp [sendingParties, packetize_eq nonempty, more]
  refine ⟨_, packet, fun after response stops receives => ?_⟩
  rcases Nat.lt_succ_iff_lt_or_eq.mp bound with before | rfl
  · have notLast : ¬j + 1 = packagenum sent.length := by omega
    rw [decide_eq_false notLast] at receives
    have grows : (delivered sent (j + 1)).length ≤ (delivered sent k).length :=
      Int.ofNat_le.mpr (List.IsPrefix.length_le
        (List.take_prefix_take_left (Nat.mul_le_mul_left _ before)))
    have next := Int.le_trans grows room
    have whole : (delivered sent j).Whole := by
      refine ⟨rfl, Int.le_trans ?_ next⟩
      rw [delivered_succ]
      exact Int.le_add_of_nonneg_right (Int.natCast_nonneg _)
    rw [delivered_succ] at next
    have carries : Carries _ _ false :=
      carries_fieldsOf (length_fragment_le sent j) (earlier j before)
    obtain ⟨rfl, rfl, rfl⟩ := by
      simpa using (receivePackage_carries carries whole next).symm.trans receives
    refine ⟨j + 1, by omega, (delivered_succ sent j).symm, rfl, ?_⟩
    simp [sendingParties, nextIndex]
  · obtain ⟨rfl, rfl, rfl⟩ := refuses after response stops receives
    exact ⟨j, by omega, rfl, rfl, by simp [sendingParties, nextIndex]⟩

/-- There is no room for the packet that makes a message longer than an `int`. -/
theorem receivePackage_delivered (long : intMax < sent.length)
    (ascii : ∀ byte ∈ fragment sent 214748364, byte < 128)
    (malloc : (size : Nat) → Vector UInt8 size) (answer : Packet) (last : Bool) :
    receivePackage malloc answer (delivered sent 214748364)
      (Server.currPkt (Server.fieldsOf (fragment sent 214748364) last) false) = none := by
  have carries : Carries _ _ last := carries_fieldsOf (length_fragment_le sent 214748364) ascii
  have length := length_fragment sent 214748364
  have size : (delivered sent 214748364).length = 2147483640 := by
    rw [delivered, List.length_take, Nat.min_eq_left (by unfold maxPayloadLength intMax at *; omega)]
    rfl
  have short := carries.short
  unfold maxPayloadLength intMax at *
  refine receivePackage_overflow ⟨rfl, ?_⟩ ?_ carries.accepted ?_ ?_ <;>
    simp only [size, carries.length, intMax, maxPayloadLength] <;> omega

/-- A response is not delivered if it is longer than an `int` and the client takes the packets before
the one for which there is no room. -/
theorem Server.not_terminates_of_long (long : intMax < sent.length)
    (ascii : ∀ j ≤ 214748364, ∀ byte ∈ fragment sent j, byte < 128)
    (malloc : (size : Nat) → Vector UInt8 size) (answer : Packet) :
    ¬Terminates (sendingParties (packetize sent) malloc answer) emptyMessage := by
  have nonempty : sent ≠ [] := by
    rintro rfl
    exact absurd long (by decide)
  have inside : 214748364 < packagenum sent.length := by
    rw [lt_packagenum_iff]
    unfold maxPayloadLength intMax at *
    omega
  have room : (delivered sent 214748364).length ≤ intMax :=
    Int.ofNat_le.mpr (Nat.le_trans (List.length_take_le _ _) (by decide))
  have confined := sendingParties_confined nonempty malloc answer inside room
    (fun j before => ascii j (Nat.le_of_lt before)) fun after response stops receives => by
      cases (receivePackage_delivered long (ascii _ (Nat.le_refl _)) malloc answer _).symm.trans
        receives
  exact confined.not_terminates (Nat.succ_pos _)

end FromServer

/-! ## Exact delivery -/

/-- All runs that transfer a buffer from `rtp_send_message` to `rtp_receive_message` are exact. -/
def ExactFromClient (sent : List UInt8) (before : Nat → Packet)
    (malloc : (size : Nat) → Vector UInt8 size) (response : Packet) : Prop :=
  ∃ packets, packetize sent before = some packets ∧ ∀ disturbances labels state,
    Trace (Step (rtpParties packets malloc response)) (start emptyMessage disturbances) labels
      state →
    Exact (rtpParties packets malloc response) sent disturbances labels state

/-- All runs that transfer a response from the server to `rtp_receive_message` are exact. -/
def ExactFromServer (sent : List UInt8) (malloc : (size : Nat) → Vector UInt8 size)
    (response : Packet) : Prop :=
  ∀ disturbances labels state,
    Trace (Step (Server.sendingParties (Server.packetize sent) malloc response))
      (start emptyMessage disturbances) labels state →
    Exact (Server.sendingParties (Server.packetize sent) malloc response) sent disturbances labels
      state

section Exactness

variable {sent : List UInt8} {malloc : (size : Nat) → Vector UInt8 size} {response : Packet}

private theorem exactFromClient_iff (nonempty : sent ≠ []) (before : Nat → Packet) :
    ExactFromClient sent before malloc response ↔ sent.length ≤ 2147483640 := by
  constructor
  · rintro ⟨packets, packetized, -⟩
    exact fits_of_packetize packetized
  · intro fits
    obtain ⟨packets, packetized, -⟩ := packetize_spec fits before
    refine ⟨packets, packetized, fun disturbances labels state trace => ?_⟩
    exact (rtpParties_sends packetized malloc response).exact nonempty
      (by unfold intMax; omega) trace

private theorem ExactFromServer.terminates (exact : ExactFromServer sent malloc response) :
    Terminates (Server.sendingParties (Server.packetize sent) malloc response) emptyMessage where
  bounded := ⟨_, fun labels state trace => (exact [] labels state trace).bounded⟩
  progress labels state trace := (exact [] labels state trace).progress

private theorem exactFromServer_iff (nonempty : sent ≠ []) (ascii : ∀ byte ∈ sent, byte < 128) :
    ExactFromServer sent malloc response ↔ sent.length ≤ 2147483647 := by
  constructor
  · intro exact
    by_contra long
    refine Server.not_terminates_of_long (by unfold intMax; omega) (fun j _ byte member => ?_)
      malloc response exact.terminates
    exact ascii byte (mem_of_mem_fragment member)
  · intro fits disturbances labels state trace
    exact (Server.sendingParties_sends nonempty ascii malloc response).exact nonempty
      (by unfold intMax; omega) trace

/-- Delivery to `rtp_receive_message` of a message that is not empty is exact if and only if, from
`rtp_send_message`, the products of `packetize` are `int`s, and, from the server, the length is one;
the response of the server is below 128. -/
theorem delivery_exact_iff (nonempty : sent ≠ []) (before : Nat → Packet)
    (malloc : (size : Nat) → Vector UInt8 size) (response : Packet) :
    (ExactFromClient sent before malloc response ↔ sent.length ≤ 2147483640) ∧
      ((∀ byte ∈ sent, byte < 128) →
        (ExactFromServer sent malloc response ↔ sent.length ≤ 2147483647)) :=
  ⟨exactFromClient_iff nonempty before, exactFromServer_iff nonempty⟩

/-- Memory that happens to hold zeros. -/
def blank : Packet where
  type := 0
  checksum := 0
  payloadLength := 0
  payload := .replicate maxPayloadLength 0

/-- The bytes of `Hello, world`. -/
def hello : List UInt8 := [72, 101, 108, 108, 111, 44, 32, 119, 111, 114, 108, 100]

theorem delivery_exact_iff_hello :
    (∃ packets, packetize hello (fun _ => blank) = some packets ∧
      ∃ labels state, Trace (Step (rtpParties packets zeroed blank))
          (start emptyMessage [.payload 0 7, .checksum 3]) labels state ∧
        state.stopped = true ∧ state.receiver = { length := 12, buffer := hello }) ∧
    ∃ labels state, Trace (Step (Server.sendingParties (Server.packetize hello) zeroed blank))
        (start emptyMessage [.corrupts, .channel (.payload 9 0)]) labels state ∧
      state.stopped = true ∧ state.receiver = { length := 12, buffer := hello } := by
  have nonempty : hello ≠ [] := by decide
  have ascii : ∀ byte ∈ hello, byte < 128 := by simp [hello]
  have fits : (hello.length : Int) ≤ intMax := by decide
  have positive : 0 < packagenum hello.length := by decide
  obtain ⟨fromClient, fromServer⟩ :=
    delivery_exact_iff nonempty (fun _ => blank) zeroed blank
  constructor
  · obtain ⟨packets, packetized, exact⟩ := fromClient.mpr (by decide)
    have sends := rtpParties_sends packetized zeroed blank
    obtain ⟨labels, state, trace, final⟩ := exists_final (sends.delivers fits) positive .nil
    exact ⟨packets, packetized, labels, state, trace, final.stopped,
      (exact _ _ _ trace).delivered final.stopped⟩
  · have exact := (fromServer ascii).mpr (by decide)
    have sends := Server.sendingParties_sends nonempty ascii zeroed blank
    obtain ⟨labels, state, trace, final⟩ := exists_final (sends.delivers fits) positive .nil
    exact ⟨labels, state, trace, final.stopped, (exact _ _ _ trace).delivered final.stopped⟩

/-- The products of `packetize` overflow in a buffer of 2147483641 bytes. -/
theorem overlong_not_delivered :
    List.replicate 2147483641 (65 : UInt8) ≠ [] ∧
      ¬ExactFromClient (.replicate 2147483641 65) (fun _ => blank) zeroed blank := by
  refine ⟨List.ne_nil_of_length_pos (by rw [List.length_replicate]; decide), ?_⟩
  rintro ⟨packets, packetized, -⟩
  have fits := fits_of_packetize packetized
  rw [List.length_replicate] at fits
  exact absurd fits (by decide)

end Exactness

end CS2200.Transport
