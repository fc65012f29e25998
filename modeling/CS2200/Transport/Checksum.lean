import CS2200.Transport.Delivery
import CS2200.Transport.Reassembly
import Mathlib.Data.Nat.Find

/-!
# Checksums of client and server

The client sums signed characters and the server unsigned ones. A byte from 128 on counts 256 less
for the client, so that the sums over a fragment agree exactly when all its bytes are below 128. A
packet with another byte is refused whenever it arrives, and the exchange never ends.
-/

namespace CS2200.Transport

open CInt StopAndWait

/-! ## The two sums -/

section Sums

variable {bytes : List UInt8}

private theorem char_of_ge {byte : UInt8} (large : 128 ≤ byte) : char byte = byte.toNat - 256 := by
  have sign : 2 * byte.toInt8.toBitVec.toNat ≥ 2 ^ 8 := by
    have bound : 128 ≤ byte.toInt8.toBitVec.toNat := large
    omega
  have value : byte.toInt8.toBitVec.toInt = (byte.toInt8.toBitVec.toNat : Int) - 2 ^ 8 :=
    BitVec.toInt_eq_toNat_cond _ ▸ if_neg (Nat.not_lt.mpr sign)
  exact value

/-- The client's sum is smaller by 256 for each byte from 128 on. -/
theorem sum_char (bytes : List UInt8) : (bytes.map char).sum =
    Server.checksum bytes - 256 * (bytes.countP fun byte => 128 ≤ byte : Nat) := by
  unfold Server.checksum
  induction bytes with
  | nil => rfl
  | cons byte bytes ih =>
      rw [List.countP_cons]
      by_cases large : 128 ≤ byte
      · simp only [List.map_cons, List.sum_cons, ih, char_of_ge large, large, decide_true, if_true]
        omega
      · have small := Server.char_of_lt (UInt8.not_le.mp large)
        simp only [List.map_cons, List.sum_cons, ih, small, large, decide_false, Bool.false_eq_true,
          if_false]
        omega

/-- The sums agree exactly on bytes below 128. -/
theorem checksum_eq_iff :
    Server.checksum bytes = (bytes.map char).sum ↔ ∀ byte ∈ bytes, byte < 128 := by
  rw [sum_char]
  have none : (bytes.countP fun byte => 128 ≤ byte) = 0 ↔ ∀ byte ∈ bytes, byte < 128 := by
    simp [List.countP_eq_zero]
  rw [← none]
  omega

end Sums

/-! ## Fragments -/

theorem forall_fragment_iff {property : UInt8 → Prop} (bytes : List UInt8) :
    (∀ byte ∈ bytes, property byte) ↔
      ∀ k < packagenum bytes.length, ∀ byte ∈ fragment bytes k, property byte := by
  have parts : ∀ count, (∀ byte ∈ bytes.take (maxPayloadLength * count), property byte) ↔
      ∀ k < count, ∀ byte ∈ fragment bytes k, property byte := by
    intro count
    induction count with
    | zero => simp
    | succ count ih =>
        rw [take_succ_fragment]
        simp only [List.mem_append, or_imp, forall_and, ih, Nat.lt_succ_iff_lt_or_eq,
          forall_eq]
  rw [← parts, take_packagenum]

/-! ## Acknowledgements -/

/-- The server acknowledges a packet that it does not corrupt. -/
def Server.Acknowledges (packet : Packet) : Prop :=
  ∀ message, ∃ after response stops,
    Server.receive message packet false = some (after, response, stops) ∧
      response.type = PacketType.ack.code

/-- `rtp_receive_message` acknowledges a packet whenever it has room for it. -/
def Acknowledges (packet : Packet) : Prop :=
  ∀ malloc response message, message.Whole → message.length + packet.payloadLength ≤ intMax →
    ∃ after answer stops,
      receivePackage malloc response message packet = some (after, answer, stops) ∧
        answer.type = PacketType.ack.code

section Acknowledgements

variable {packet : Packet} {payload fragment message : List UInt8} {last : Bool}

/-- The server refuses a packet whose sum it computes differently. -/
theorem Server.receive_refuses (carries : Carries packet fragment last)
    (differs : checksum fragment ≠ (fragment.map char).sum) :
    receive message packet false = some (message, response .nack, false) := by
  have payload := sliceTo_carries carries
  have sum : packet.checksum ≠ checksum fragment := by
    rw [carries.checksum]
    exact differs.symm
  simp only [receive, payload, carries.type]
  cases last <;> simp [response, sum]

private theorem Server.acknowledges_iff (carries : Carries packet fragment last) :
    Acknowledges packet ↔ ∀ byte ∈ fragment, byte < 128 := by
  constructor
  · intro acknowledges
    rw [← checksum_eq_iff]
    by_contra differs
    obtain ⟨after, answer, stops, receives, acknowledged⟩ := acknowledges []
    rw [receive_refuses carries differs] at receives
    obtain ⟨-, rfl, -⟩ := by simpa using receives
    simp [response, Fields.pack] at acknowledged
  · intro ascii message
    exact ⟨_, _, _, receive_carries carries ascii, rfl⟩

/-- The client acknowledges a packet whose sum it computes. -/
theorem acknowledges_of_carries (carries : Carries packet fragment last) :
    Acknowledges packet := by
  intro malloc response message whole fits
  rw [carries.length] at fits
  exact ⟨_, _, _, receivePackage_carries carries whole fits, rfl⟩

theorem mismatched_fieldsOf (short : payload.length ≤ maxPayloadLength)
    (differs : Server.checksum payload ≠ (payload.map char).sum) :
    Mismatched (Server.currPkt (Server.fieldsOf payload last) false) := by
  refine ⟨(payload.map char).sum, ?_, differs.symm⟩
  have read : (Server.fieldsOf payload last).pack.payload.toList.take payload.length = payload :=
    take_ofFn short fun j inside => by simp [Server.fieldsOf, inside]
  have inside : payload.length ≤ (Server.fieldsOf payload last).pack.payload.toList.length := by
    simpa using short
  have sum := checksum_take inside
  rwa [read] at sum

private theorem acknowledges_fieldsOf_iff (short : payload.length ≤ maxPayloadLength) :
    Acknowledges (Server.currPkt (Server.fieldsOf payload last) false) ↔
      ∀ byte ∈ payload, byte < 128 := by
  constructor
  · intro acknowledges
    rw [← checksum_eq_iff]
    by_contra differs
    have room : emptyMessage.length + (payload.length : Int) ≤ intMax :=
      Int.le_trans (Int.add_le_add_left (Int.ofNat_le.mpr short) 0) (by decide)
    obtain ⟨after, answer, stops, receives, acknowledged⟩ :=
      acknowledges zeroed (Server.response .nack) emptyMessage emptyMessage_whole room
    rw [receivePackage_mismatched (mismatched_fieldsOf short differs)] at receives
    obtain ⟨-, rfl, -⟩ := by simpa using receives
    simp at acknowledged
  · intro ascii
    exact acknowledges_of_carries (carries_fieldsOf short ascii)

end Acknowledgements

/-! ## The response of the server -/

namespace Server

section Reply

variable {message word : List UInt8}

private theorem mem_of_mem_stripOf {characters : List UInt8} {byte : UInt8}
    (member : byte ∈ stripOf characters message) : byte ∈ message :=
  (List.rdropWhile_prefix _ _).subset ((List.dropWhile_suffix _).subset member)

private theorem mem_of_mem_splitOn {separator byte : UInt8}
    (part : word ∈ message.splitOn separator) (member : byte ∈ word) : byte ∈ message := by
  induction message generalizing word with
  | nil => simp_all
  | cons head tail ih =>
      rw [List.splitOn_cons_eq_if_modifyHead] at part
      split at part
      · rcases List.mem_cons.mp part with rfl | part
        · cases member
        · exact List.mem_cons_of_mem _ (ih part member)
      · obtain ⟨first, rest, split⟩ := List.exists_cons_of_ne_nil (List.splitOn_ne_nil separator tail)
        rw [split] at part ih
        rcases List.mem_cons.mp part with rfl | part
        · rcases List.mem_cons.mp member with rfl | member
          · exact List.mem_cons_self
          · exact List.mem_cons_of_mem _ (ih List.mem_cons_self member)
        · exact List.mem_cons_of_mem _ (ih (List.mem_cons_of_mem _ part) member)

private theorem makePigLatin_forall {property : UInt8 → Prop}
    (letters : ∀ byte ∈ ([97, 119, 121] : List UInt8), property byte)
    (holds : ∀ byte ∈ word, property byte) : ∀ byte ∈ makePigLatin word, property byte := by
  have way : ([119, 97, 121] : List UInt8) ⊆ [97, 119, 121] := by decide
  have ay : ([97, 121] : List UInt8) ⊆ [97, 119, 121] := by decide
  unfold makePigLatin
  intro byte member
  split at member
  · exact holds byte member
  · simp only at member
    split at member
    · exact (List.mem_append.mp member).elim (holds byte) fun added => letters byte (way added)
    · rcases List.mem_append.mp member with moved | added
      · refine holds byte ((List.mem_append.mp moved).elim ?_ ?_)
        · exact fun later => List.mem_of_mem_drop later
        · exact fun earlier => List.mem_of_mem_take earlier
      · exact letters byte (ay added)

private theorem foldl_append_forall {property : UInt8 → Prop}
    (letters : ∀ byte ∈ ([32, 97, 119, 121] : List UInt8), property byte)
    (words : List (List UInt8)) (start : List UInt8) (starts : ∀ byte ∈ start, property byte)
    (holds : ∀ word ∈ words, ∀ byte ∈ word, property byte) :
    ∀ byte ∈ words.foldl (fun essagemay word => essagemay ++ [32] ++ makePigLatin word) start,
      property byte := by
  induction words generalizing start with
  | nil => exact starts
  | cons word words ih =>
      refine ih _ (fun byte member => ?_) fun other part => holds other (List.mem_cons_of_mem _ part)
      rcases List.mem_append.mp member with earlier | translated
      · rcases List.mem_append.mp earlier with earlier | space
        · exact starts byte earlier
        · obtain rfl := List.mem_singleton.mp space
          exact letters 32 List.mem_cons_self
      · exact makePigLatin_forall (List.forall_mem_cons.mp letters).2
          (holds word List.mem_cons_self) byte translated

theorem reply_forall {property : UInt8 → Prop}
    (letters : ∀ byte ∈ ([46, 32, 97, 119, 121] : List UInt8), property byte)
    (holds : ∀ byte ∈ message, property byte) : ∀ byte ∈ reply message, property byte := by
  intro byte member
  rcases List.mem_append.mp (mem_of_mem_stripOf member) with translated | stop
  · refine foldl_append_forall (List.forall_mem_cons.mp letters).2 _ [] (by simp)
      (fun word part byte member => ?_) byte (mem_of_mem_stripOf translated)
    exact holds byte (mem_of_mem_stripOf (mem_of_mem_splitOn part member))
  · obtain rfl := List.mem_singleton.mp stop
    exact letters 46 List.mem_cons_self

theorem reply_ascii (ascii : ∀ byte ∈ message, byte < 128) : ∀ byte ∈ reply message, byte < 128 :=
  reply_forall (by simp) ascii

theorem reply_ne_nil (message : List UInt8) : reply message ≠ [] := by
  intro empty
  rw [reply, stripOf, piglatinize, List.rdropWhile_concat_neg _ _ _ (by decide),
    List.dropWhile_eq_nil_iff] at empty
  have stop := empty 46 (by simp)
  simp [whitespace] at stop

end Reply

end Server

/-! ## Runs without disturbances -/

section Runs

variable {sent : List UInt8} {k : Nat}

theorem exists_first_bad (notAscii : ¬∀ byte ∈ sent, byte < 128) :
    ∃ k < packagenum sent.length, (∀ j < k, ∀ byte ∈ fragment sent j, byte < 128) ∧
      ¬∀ byte ∈ fragment sent k, byte < 128 := by
  classical
  rw [forall_fragment_iff] at notAscii
  have bad : ∃ k, k < packagenum sent.length ∧ ¬∀ byte ∈ fragment sent k, byte < 128 := by
    simpa using notAscii
  refine ⟨Nat.find bad, (Nat.find_spec bad).1, fun j earlier => ?_, (Nat.find_spec bad).2⟩
  by_contra badEarlier
  exact Nat.find_min bad earlier
    ⟨Nat.lt_trans earlier (Nat.find_spec bad).1, badEarlier⟩

/-- The client resends the first packet with a byte from 128 on for ever. -/
theorem Server.receivingParties_confined {before : Nat → Packet} {packets : List Packet}
    (packetized : Transport.packetize sent before = some packets)
    (inside : k < packagenum sent.length)
    (earlier : ∀ j < k, ∀ byte ∈ fragment sent j, byte < 128)
    (bad : ¬∀ byte ∈ fragment sent k, byte < 128) :
    Confined (receivingParties packets) (k + 1) (reassembled sent) := by
  obtain ⟨made, result, length, carries⟩ :=
    Transport.packetize_spec (fits_of_packetize packetized) before
  obtain rfl := Option.some.inj (result.symm.trans packetized)
  intro j bound
  have present : j < made.length := by omega
  have carriesHere := carries j present
  refine ⟨made[j], by simp [receivingParties, present], fun after answer stops receives => ?_⟩
  rcases Nat.lt_succ_iff_lt_or_eq.mp bound with earlierHere | rfl
  · have notLast : ¬j + 1 = packagenum sent.length := by omega
    rw [decide_eq_false notLast] at carriesHere
    have takes : receive (reassembled sent j) made[j] false = some _ :=
      receive_carries carriesHere (earlier j earlierHere)
    obtain ⟨rfl, rfl, rfl⟩ := by simpa using takes.symm.trans receives
    exact ⟨j + 1, by omega, (reassembled_succ sent j).symm, rfl,
      congrArg some (nextIndex_ack rfl j)⟩
  · have refuses : receive (reassembled sent j) made[j] false = some _ :=
      receive_refuses carriesHere fun same => bad (checksum_eq_iff.mp same)
    obtain ⟨rfl, rfl, rfl⟩ := by simpa using refuses.symm.trans receives
    exact ⟨j, by omega, rfl, rfl, congrArg some (nextIndex_nack rfl j)⟩

/-- What the server sends is not delivered if the client refuses a packet or has no room for it. -/
theorem Server.ascii_and_fits_of_terminates (nonempty : sent ≠ [])
    (malloc : (size : Nat) → Vector UInt8 size) (answer : Packet)
    (terminates : Terminates (sendingParties (packetize sent) malloc answer) emptyMessage) :
    (∀ byte ∈ sent, byte < 128) ∧ sent.length ≤ 2147483647 := by
  have ascii : ∀ byte ∈ sent, byte < 128 := by
    by_contra notAscii
    obtain ⟨k, inside, earlier, bad⟩ := exists_first_bad notAscii
    -- the packets before this one leave the client without room, or it is repeated for ever
    by_cases room : (delivered sent k).length ≤ intMax
    · refine (sendingParties_confined nonempty malloc answer inside room earlier
        fun after response stops receives => ?_).not_terminates (Nat.succ_pos k) terminates
      have mismatched : Mismatched (currPkt (fieldsOf (fragment sent k)
          (decide (k + 1 = packagenum sent.length))) false) :=
        mismatched_fieldsOf (length_fragment_le sent k) fun same => bad (checksum_eq_iff.mp same)
      rw [receivePackage_mismatched mismatched] at receives
      obtain ⟨rfl, rfl, rfl⟩ := by simpa using receives
      exact ⟨rfl, rfl, rfl⟩
    · have long : intMax < sent.length :=
        Int.lt_of_lt_of_le (Int.not_le.mp room) (Int.ofNat_le.mpr (length_delivered_le sent k))
      have later : 214748364 < k := by
        by_contra early
        have size : (delivered sent k).length ≤ (maxPayloadLength * k : Nat) :=
          Int.ofNat_le.mpr (List.length_take_le _ _)
        unfold maxPayloadLength intMax at *
        omega
      exact not_terminates_of_long long
        (fun j early => earlier j (Nat.lt_of_le_of_lt early later)) malloc answer terminates
  refine ⟨ascii, ?_⟩
  by_contra long
  exact not_terminates_of_long (by unfold intMax; omega)
    (fun j _ byte member => ascii byte (mem_of_mem_fragment member)) malloc answer terminates

end Runs

/-! ## The exchange -/

/-- Without corruption the client's message and then the server's response are transferred, each by
a run that ends. -/
def ExchangeTerminates (buffer : List UInt8) (before : Nat → Packet)
    (malloc : (size : Nat) → Vector UInt8 size) (answer : Packet) : Prop :=
  ∃ packets, packetize buffer before = some packets ∧
    Terminates (Server.receivingParties packets) [] ∧
    ∀ labels state, Trace (Step (Server.receivingParties packets)) (start [] []) labels state →
      state.stopped = true →
      Terminates (Server.sendingParties (Server.packetize (Server.reply state.receiver)) malloc
        answer) emptyMessage

section Agreement

variable {buffer : List UInt8} {before : Nat → Packet}
  {malloc : (size : Nat) → Vector UInt8 size} {answer : Packet}

theorem server_acknowledges_iff {packets : List Packet}
    (packetized : packetize buffer before = some packets) :
    (∀ packet ∈ packets, Server.Acknowledges packet) ↔ ∀ byte ∈ buffer, byte < 128 := by
  obtain ⟨made, result, length, carries⟩ := packetize_spec (fits_of_packetize packetized) before
  obtain rfl := Option.some.inj (result.symm.trans packetized)
  rw [forall_fragment_iff, ← length, List.forall_mem_iff_getElem]
  exact forall₂_congr fun i inside => Server.acknowledges_iff (carries i inside)

/-- All packets of a message are built and acknowledged. -/
theorem exists_acknowledged_iff (buffer : List UInt8) (before : Nat → Packet) :
    (∃ packets, packetize buffer before = some packets ∧
      ∀ packet ∈ packets, Server.Acknowledges packet) ↔
      (∀ byte ∈ buffer, byte < 128) ∧ buffer.length ≤ 2147483640 := by
  constructor
  · rintro ⟨packets, packetized, acknowledges⟩
    exact ⟨(server_acknowledges_iff packetized).mp acknowledges, fits_of_packetize packetized⟩
  · rintro ⟨ascii, fits⟩
    obtain ⟨packets, packetized, -⟩ := packetize_spec fits before
    exact ⟨packets, packetized, (server_acknowledges_iff packetized).mpr ascii⟩

theorem client_acknowledges_iff (msg : List UInt8) :
    (∀ fields ∈ Server.packetize msg, Acknowledges (Server.currPkt fields false)) ↔
      ∀ byte ∈ msg, byte < 128 := by
  by_cases empty : msg = []
  · subst empty
    have single : Server.packetize [] = [Server.fieldsOf [] true] := rfl
    rw [single]
    simpa using (acknowledges_fieldsOf_iff (Nat.zero_le _)).mpr (by simp)
  · rw [forall_fragment_iff, Server.packetize_eq empty]
    simp only [List.forall_mem_map, List.mem_range]
    exact forall₂_congr fun k _ => acknowledges_fieldsOf_iff (length_fragment_le msg k)

private theorem Server.receivingParties_terminates_iff {packets : List Packet}
    (nonempty : buffer ≠ []) (packetized : Transport.packetize buffer before = some packets) :
    Terminates (receivingParties packets) [] ↔ ∀ byte ∈ buffer, byte < 128 := by
  constructor
  · intro terminates
    by_contra notAscii
    obtain ⟨k, inside, earlier, bad⟩ := exists_first_bad notAscii
    exact (receivingParties_confined packetized inside earlier bad).not_terminates
      (Nat.succ_pos k) terminates
  · intro ascii
    exact (receivingParties_delivers packetized ascii).terminates (packagenum_pos nonempty)

/-- The transfer of a response to the client ends exactly when its bytes are below 128 and its length
is an `int`. -/
theorem Server.sendingParties_terminates_iff {msg : List UInt8} (nonempty : msg ≠ [])
    (malloc : (size : Nat) → Vector UInt8 size) (answer : Packet) :
    Terminates (sendingParties (packetize msg) malloc answer) emptyMessage ↔
      (∀ byte ∈ msg, byte < 128) ∧ msg.length ≤ 2147483647 := by
  refine ⟨ascii_and_fits_of_terminates nonempty malloc answer, fun ⟨ascii, fits⟩ => ?_⟩
  have delivers := (sendingParties_sends nonempty ascii malloc answer).delivers
    (by unfold intMax; omega)
  exact delivers.terminates (packagenum_pos nonempty)

private theorem Server.receiver_of_stopped {packets : List Packet} {labels : List Label}
    {state : State (Packet × Bool) Packet (List UInt8) Bool} (nonempty : buffer ≠ [])
    (packetized : Transport.packetize buffer before = some packets)
    (ascii : ∀ byte ∈ buffer, byte < 128)
    (trace : Trace (Step (receivingParties packets)) (start [] []) labels state)
    (stopped : state.stopped = true) :
    state.receiver = reassembled buffer (packagenum buffer.length) := by
  obtain ⟨left, -, stage⟩ := stage_of_trace (receivingParties_delivers packetized ascii)
    (packagenum_pos nonempty) trace
  exact stage.receiver_of_stopped stopped

/-- The transfer of the response to what the server holds. -/
theorem Server.reply_terminates_iff {k : Nat} (ascii : ∀ byte ∈ buffer, byte < 128) :
    Terminates (sendingParties (packetize (reply (reassembled buffer k))) malloc answer)
        emptyMessage ↔ (reply (reassembled buffer k)).length ≤ 2147483647 := by
  rw [sendingParties_terminates_iff (reply_ne_nil _)]
  exact and_iff_right (reply_ascii fun byte member => ascii byte (mem_of_mem_reassembled member))

/-- An exchange ends exactly when the message is below 128 and both the products of `packetize` and
the length of the response are `int`s. -/
theorem exchangeTerminates_iff (nonempty : buffer ≠ []) :
    ExchangeTerminates buffer before malloc answer ↔
      (∀ byte ∈ buffer, byte < 128) ∧ buffer.length ≤ 2147483640 ∧
        (Server.reply (Server.reassembled buffer (packagenum buffer.length))).length ≤
          2147483647 := by
  constructor
  · rintro ⟨packets, packetized, transferred, responds⟩
    have ascii := (Server.receivingParties_terminates_iff nonempty packetized).mp transferred
    obtain ⟨labels, state, trace, -, -, stopped⟩ := transferred.exists_ended
    have holds := Server.receiver_of_stopped nonempty packetized ascii trace stopped
    have terminates := responds labels state trace stopped
    rw [holds] at terminates
    exact ⟨ascii, fits_of_packetize packetized, (Server.reply_terminates_iff ascii).mp terminates⟩
  · rintro ⟨ascii, fits, short⟩
    obtain ⟨packets, packetized, -⟩ := packetize_spec fits before
    refine ⟨packets, packetized,
      (Server.receivingParties_terminates_iff nonempty packetized).mpr ascii,
      fun labels state trace stopped => ?_⟩
    rw [Server.receiver_of_stopped nonempty packetized ascii trace stopped]
    exact (Server.reply_terminates_iff ascii).mpr short

/-- The server acknowledges the packets of the client, the client those of the server, and both
transfers and an uncorrupted exchange end, if and only if the bytes that are sent are below 128 and
the messages are short enough for the `int`s of the client. -/
theorem checksums_agree_iff (nonempty : buffer ≠ []) (before : Nat → Packet)
    (malloc : (size : Nat) → Vector UInt8 size) (answer : Packet) (msg : List UInt8) :
    ((∃ packets, packetize buffer before = some packets ∧
      ∀ packet ∈ packets, Server.Acknowledges packet) ↔
        (∀ byte ∈ buffer, byte < 128) ∧ buffer.length ≤ 2147483640) ∧
    ((∀ fields ∈ Server.packetize msg, Acknowledges (Server.currPkt fields false)) ↔
      ∀ byte ∈ msg, byte < 128) ∧
    (msg ≠ [] →
      (Terminates (Server.sendingParties (Server.packetize msg) malloc answer) emptyMessage ↔
        (∀ byte ∈ msg, byte < 128) ∧ msg.length ≤ 2147483647)) ∧
    (ExchangeTerminates buffer before malloc answer ↔
      (∀ byte ∈ buffer, byte < 128) ∧ buffer.length ≤ 2147483640 ∧
        (Server.reply (Server.reassembled buffer (packagenum buffer.length))).length ≤
          2147483647) :=
  ⟨exists_acknowledged_iff buffer before, client_acknowledges_iff msg,
    fun replies => Server.sendingParties_terminates_iff replies malloc answer,
    exchangeTerminates_iff nonempty⟩

theorem checksums_agree_iff_hello :
    ExchangeTerminates hello (fun _ => blank) zeroed blank :=
  (checksums_agree_iff (by decide) (fun _ => blank) zeroed blank hello).2.2.2.mpr
    ⟨by simp [hello], by decide, by decide⟩

/-- A message of one byte 200 is refused by either side, and the exchange does not end. -/
theorem byte_200_refused :
    (∃ packets, packetize [200] (fun _ => blank) = some packets ∧
      ¬∀ packet ∈ packets, Server.Acknowledges packet) ∧
    (¬∀ fields ∈ Server.packetize [200], Acknowledges (Server.currPkt fields false)) ∧
    ¬ExchangeTerminates [200] (fun _ => blank) zeroed blank := by
  have large : ¬∀ byte ∈ ([200] : List UInt8), byte < 128 := by simp
  refine ⟨?_, fun acknowledges => large ((client_acknowledges_iff _).mp acknowledges),
    fun terminates => large ((exchangeTerminates_iff (by simp)).mp terminates).1⟩
  obtain ⟨packets, packetized, -⟩ :=
    packetize_spec (by decide : ([200] : List UInt8).length ≤ 2147483640) fun _ => blank
  exact ⟨packets, packetized, fun all => large ((server_acknowledges_iff packetized).mp all)⟩

end Agreement

end CS2200.Transport
