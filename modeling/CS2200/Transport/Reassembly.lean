import CS2200.Transport.Packetize

/-!
# What the server reassembles

`runServer` strips every acknowledged fragment of the characters of the string `'\0x00'`, which are
NUL, `x` and `0`. The message that it holds at the end is the text that was sent exactly when no
fragment of the text begins or ends with `x` or `0`.
-/

namespace CS2200.Transport

open StopAndWait

namespace Server

/-! ## Stripping -/

section Strip

variable {msg text : List UInt8}

theorem length_strip_le (msg : List UInt8) : (strip msg).length ≤ msg.length :=
  Nat.le_trans (List.length_dropWhile_le _ _) (List.rdropWhile_prefix _ _).length_le

theorem mem_of_mem_strip {byte : UInt8} (member : byte ∈ strip msg) : byte ∈ msg :=
  (List.rdropWhile_prefix _ _).subset ((List.dropWhile_suffix _).subset member)

private theorem strip_nul (msg : List UInt8) : strip (msg ++ [0]) = strip msg := by
  rw [strip, List.rdropWhile_concat_pos _ _ _ (by decide), strip]

private theorem strip_eq_iff : strip msg = msg ↔
    ∀ i, (inside : i < msg.length) → i = 0 ∨ i + 1 = msg.length → msg[i] ∉ stripped := by
  constructor
  · intro kept i inside edge
    have right : msg.rdropWhile (· ∈ stripped) = msg := by
      refine (List.rdropWhile_prefix _ _).eq_of_length ?_
      have shorter : (strip msg).length ≤ (msg.rdropWhile (· ∈ stripped)).length :=
        List.length_dropWhile_le _ _
      rw [kept] at shorter
      exact Nat.le_antisymm (List.rdropWhile_prefix _ _).length_le shorter
    have left : msg.dropWhile (· ∈ stripped) = msg := by
      rw [strip, right] at kept
      exact kept
    rcases edge with rfl | last
    · simpa using List.dropWhile_eq_self_iff.mp left inside
    · have nonempty : msg ≠ [] := List.ne_nil_of_length_pos (Nat.zero_lt_of_lt inside)
      have ends := List.rdropWhile_eq_self_iff.mp right nonempty
      simpa [List.getLast_eq_getElem, ← last] using ends
  · intro edges
    have right : msg.rdropWhile (· ∈ stripped) = msg := by
      refine List.rdropWhile_eq_self_iff.mpr fun nonempty => ?_
      have positive := List.length_pos_iff.mpr nonempty
      simpa [List.getLast_eq_getElem] using
        edges (msg.length - 1) (Nat.sub_lt positive Nat.one_pos) (.inr (by omega))
    rw [strip, right, List.dropWhile_eq_self_iff]
    exact fun positive => by simpa using edges 0 positive (.inl rfl)

end Strip

/-! ## Stripping every fragment -/

/-- The message after the first fragments. -/
def reassembled (sent : List UInt8) (k : Nat) : List UInt8 :=
  ((List.range k).map fun i => strip (fragment sent i)).flatten

theorem reassembled_succ (sent : List UInt8) (k : Nat) :
    reassembled sent (k + 1) = reassembled sent k ++ strip (fragment sent k) := by
  simp [reassembled, List.range_succ]

theorem mem_of_mem_reassembled {sent : List UInt8} {k : Nat} {byte : UInt8}
    (member : byte ∈ reassembled sent k) : byte ∈ sent := by
  induction k with
  | zero => simp [reassembled] at member
  | succ k ih =>
      rw [reassembled_succ] at member
      rcases List.mem_append.mp member with earlier | last
      · exact ih earlier
      · exact mem_of_mem_fragment (mem_of_mem_strip last)

/-- What is left of a text that is sent with its NUL. -/
def received (text : List UInt8) : List UInt8 :=
  reassembled (text ++ [0]) (packagenum (text ++ [0]).length)

/-- No fragment of the text begins or ends with `x` or `0`. -/
def Intact (text : List UInt8) : Prop :=
  ∀ i, (inside : i < text.length) →
    i % maxPayloadLength = 0 ∨ i % maxPayloadLength = maxPayloadLength - 1 ∨ i + 1 = text.length →
    text[i] ≠ 120 ∧ text[i] ≠ 48

section Received

variable {text : List UInt8}

theorem received_short (short : text.length < maxPayloadLength) : received text = strip text := by
  have single : packagenum (text ++ [0]).length = 1 := by
    unfold packagenum maxPayloadLength at *
    simp only [List.length_append, List.length_singleton]
    split <;> omega
  have whole : fragment (text ++ [0]) 0 = text ++ [0] :=
    List.take_of_length_le (by simpa using Nat.succ_le_of_lt short)
  rw [received, single, reassembled]
  simp [whole, strip_nul]

theorem received_long (long : maxPayloadLength ≤ text.length) :
    received text = strip (text.take maxPayloadLength) ++ received (text.drop maxPayloadLength) := by
  have count : packagenum (text ++ [0]).length =
      packagenum (text.drop maxPayloadLength ++ [0]).length + 1 := by
    unfold packagenum maxPayloadLength at *
    simp only [List.length_append, List.length_singleton, List.length_drop]
    split <;> split <;> omega
  have first : fragment (text ++ [0]) 0 = text.take maxPayloadLength :=
    List.take_append_of_le_length long
  have later : ∀ i, fragment (text ++ [0]) (i + 1) =
      fragment (text.drop maxPayloadLength ++ [0]) i := by
    intro i
    rw [fragment, fragment, Nat.mul_succ, Nat.add_comm, ← List.drop_drop,
      List.drop_append_of_le_length long]
  rw [received, count, reassembled, List.range_succ_eq_map]
  simp [received, reassembled, first, later, Function.comp_def]

private theorem length_received_le (text : List UInt8) : (received text).length ≤ text.length := by
  induction size : text.length using Nat.strongRecOn generalizing text with
  | ind size ih =>
      subst size
      by_cases long : maxPayloadLength ≤ text.length
      · have smaller : (text.drop maxPayloadLength).length < text.length := by
          rw [List.length_drop]
          unfold maxPayloadLength at *
          omega
        have rest := ih _ smaller (text.drop maxPayloadLength) rfl
        have first := length_strip_le (text.take maxPayloadLength)
        rw [received_long long, List.length_append]
        rw [List.length_take] at first
        rw [List.length_drop] at rest
        omega
      · rw [received_short (Nat.not_le.mp long)]
        exact length_strip_le text

/-- Nothing but the text is received, so that its NUL is not. -/
theorem mem_of_mem_received {byte : UInt8} (member : byte ∈ received text) : byte ∈ text := by
  induction size : text.length using Nat.strongRecOn generalizing text with
  | ind size ih =>
      subst size
      by_cases long : maxPayloadLength ≤ text.length
      · have smaller : (text.drop maxPayloadLength).length < text.length := by
          rw [List.length_drop]
          unfold maxPayloadLength at *
          omega
        rw [received_long long] at member
        rcases List.mem_append.mp member with first | later
        · exact List.mem_of_mem_take (mem_of_mem_strip first)
        · exact List.mem_of_mem_drop (ih _ smaller later rfl)
      · rw [received_short (Nat.not_le.mp long)] at member
        exact mem_of_mem_strip member

private theorem notMem_stripped_iff {byte : UInt8} (notNul : byte ≠ 0) :
    byte ∉ stripped ↔ byte ≠ 120 ∧ byte ≠ 48 := by
  simp [stripped, notNul]

theorem strip_eq_iff_of_nulFree (nulFree : 0 ∉ text) : strip text = text ↔
    ∀ i, (inside : i < text.length) → i = 0 ∨ i + 1 = text.length →
      text[i] ≠ 120 ∧ text[i] ≠ 48 := by
  rw [strip_eq_iff]
  refine forall₂_congr fun i inside => imp_congr_right fun _ => ?_
  exact notMem_stripped_iff (ne_of_mem_of_not_mem (List.getElem_mem inside) nulFree)

private theorem intact_short (nulFree : 0 ∉ text) (short : text.length < maxPayloadLength) :
    Intact text ↔ strip text = text := by
  rw [strip_eq_iff_of_nulFree nulFree]
  refine forall₂_congr fun i inside => imp_congr_left ?_
  have small : i % maxPayloadLength = i := Nat.mod_eq_of_lt (Nat.lt_trans inside short)
  rw [small]
  unfold maxPayloadLength at short ⊢
  omega

private theorem intact_long (nulFree : 0 ∉ text) (long : maxPayloadLength ≤ text.length) :
    Intact text ↔ strip (text.take maxPayloadLength) = text.take maxPayloadLength ∧
      Intact (text.drop maxPayloadLength) := by
  have nulFreeFirst : 0 ∉ text.take maxPayloadLength := fun member =>
    nulFree (List.mem_of_mem_take member)
  rw [strip_eq_iff_of_nulFree nulFreeFirst]
  simp only [List.length_take, Nat.min_eq_left long, List.getElem_take, Intact, List.length_drop,
    List.getElem_drop]
  unfold maxPayloadLength at *
  constructor
  · intro intact
    refine ⟨fun i inside edge => ?_, fun i inside edge => ?_⟩
    · exact intact i (by omega) (by omega)
    · exact intact (10 + i) (by omega) (by omega)
  · rintro ⟨first, rest⟩ i inside edge
    by_cases early : i < 10
    · exact first i early (by omega)
    · have later := rest (i - 10) (by omega) (by omega)
      simpa only [Nat.add_sub_cancel' (Nat.not_lt.mp early)] using later

/-- A text without NUL is received as it is exactly when it is intact. -/
theorem received_eq_iff (nulFree : 0 ∉ text) : received text = text ↔ Intact text := by
  induction size : text.length using Nat.strongRecOn generalizing text with
  | ind size ih =>
      subst size
      by_cases long : maxPayloadLength ≤ text.length
      · have smaller : (text.drop maxPayloadLength).length < text.length := by
          rw [List.length_drop]
          unfold maxPayloadLength at *
          omega
        have nulFreeRest : 0 ∉ text.drop maxPayloadLength := fun member =>
          nulFree (List.mem_of_mem_drop member)
        have whole := List.take_append_drop maxPayloadLength text
        rw [intact_long nulFree long, ← ih _ smaller nulFreeRest rfl, received_long long]
        constructor
        · intro same
          have total := congrArg List.length same
          have first := length_strip_le (text.take maxPayloadLength)
          have rest := length_received_le (text.drop maxPayloadLength)
          simp only [List.length_append, List.length_take, List.length_drop] at total first rest
          exact List.append_inj (same.trans whole.symm) (by simp only [List.length_take]; omega)
        · rintro ⟨first, rest⟩
          rw [first, rest, whole]
      · have short := Nat.not_le.mp long
        rw [intact_short nulFree short, received_short short]

end Received

/-! ## The composition -/

section Receive

variable {packet : Packet} {fragment message : List UInt8} {last : Bool}

/-- A response of the receiving loop. -/
def response (type : PacketType) : Packet :=
  Fields.pack { type := type.code, checksum := 0, length := 0, payload := [] }

theorem sliceTo_carries (carries : Carries packet fragment last) :
    sliceTo packet.payload.toList packet.payloadLength = fragment := by
  rw [sliceTo, carries.length, if_pos (Int.natCast_nonneg _), Int.toNat_natCast, carries.payload]

theorem receive_carries (carries : Carries packet fragment last)
    (ascii : ∀ byte ∈ fragment, byte < 128) :
    receive message packet false =
      some (message ++ strip fragment, response .ack, last) := by
  have payload := sliceTo_carries carries
  have sum : packet.checksum = checksum fragment := by
    rw [carries.checksum, checksum_eq ascii]
  simp only [receive, payload, sum, carries.type]
  cases last <;> simp [response]

/-- The server refuses a packet whose sum it has changed. -/
theorem receive_corrupts (carries : Carries packet fragment last)
    (ascii : ∀ byte ∈ fragment, byte < 128) :
    receive message packet true = some (message, response .nack, false) := by
  have payload := sliceTo_carries carries
  have sum : packet.checksum = checksum fragment := by
    rw [carries.checksum, checksum_eq ascii]
  simp only [receive, payload, sum, carries.type]
  cases last <;> simp [response]

end Receive

/-- `rtp_send_message` and the receiving loop of the server. The outcome of `random() < DROP_RATE`
for a packet is drawn when the packet arrives. -/
def receivingParties (packets : List Packet) :
    Parties Packet (Packet × Bool) Packet (List UInt8) Bool where
  packet i := if 0 ≤ i then packets[i.toNat]? else none
  transmit corrupts packet := (packet, corrupts)
  quiet := false
  receive message arrived := receive message arrived.1 arrived.2
  answer i response := some (Transport.nextIndex i response)

/-- Every packet is taken or refused. -/
theorem receivingParties_delivers {sent : List UInt8} {malloc : Nat → Packet}
    {packets : List Packet} (packetized : Transport.packetize sent malloc = some packets)
    (ascii : ∀ byte ∈ sent, byte < 128) :
    Delivers (receivingParties packets) (fun response => response.type = PacketType.ack.code)
      (packagenum sent.length) (reassembled sent) := by
  obtain ⟨made, result, length, carries⟩ :=
    Transport.packetize_spec (fits_of_packetize packetized) malloc
  obtain rfl := Option.some.inj (result.symm.trans packetized)
  refine ⟨fun k inside => ?_, by simp [receivingParties, length]⟩
  have present : k < made.length := by rwa [length]
  have asciiFragment : ∀ byte ∈ fragment sent k, byte < 128 := fun byte member =>
    ascii byte (mem_of_mem_fragment member)
  have accepted : Accepted (receivingParties made)
      (fun response => response.type = PacketType.ack.code) (packagenum sent.length)
      (reassembled sent) k (made[k], false) := by
    refine ⟨response .ack, ?_, rfl, congrArg some (nextIndex_ack rfl k)⟩
    rw [reassembled_succ]
    exact receive_carries (carries k present) asciiFragment
  refine ⟨made[k], by simp [receivingParties, present], fun corrupts => ?_, accepted⟩
  cases corrupts with
  | false => exact .inl accepted
  | true =>
      exact .inr ⟨response .nack, receive_corrupts (carries k present) asciiFragment, by decide,
        congrArg some (nextIndex_nack rfl k)⟩

/-- The server leaves its loop, and it holds the text whenever it does. -/
def Reassembles (text : List UInt8) (malloc : Nat → Packet) (corruptions : List Bool) : Prop :=
  ∃ packets, Transport.packetize (text ++ [0]) malloc = some packets ∧
    (∃ labels state, Trace (Step (receivingParties packets)) (start [] corruptions) labels state ∧
      state.stopped = true) ∧
    ∀ labels state, Trace (Step (receivingParties packets)) (start [] corruptions) labels state →
      state.stopped = true → state.receiver = text

/-- The server holds the text if and only if nothing but the NUL is stripped, and no product of the
client overflows. -/
theorem reassembles_iff_received {text : List UInt8} (ascii : ∀ byte ∈ text, byte < 128)
    (malloc : Nat → Packet) (corruptions : List Bool) :
    Reassembles text malloc corruptions ↔
      received text = text ∧ text.length + 1 ≤ 2147483640 := by
  have asciiSent : ∀ byte ∈ text ++ [0], byte < 128 := by
    simpa [or_imp, forall_and] using ascii
  have positive : 0 < packagenum (text ++ [0]).length := packagenum_pos (by simp)
  have size : (text ++ [0]).length = text.length + 1 := List.length_append
  constructor
  · rintro ⟨packets, packetized, ⟨labels, state, trace, stopped⟩, holds⟩
    have delivers := receivingParties_delivers packetized asciiSent
    obtain ⟨left, -, stage⟩ := stage_of_trace delivers positive trace
    exact ⟨(stage.receiver_of_stopped stopped).symm.trans (holds labels state trace stopped),
      size ▸ fits_of_packetize packetized⟩
  · rintro ⟨same, fits⟩
    obtain ⟨packets, packetized, -⟩ := Transport.packetize_spec (size ▸ fits) malloc
    have delivers := receivingParties_delivers packetized asciiSent
    refine ⟨packets, packetized, ?_, fun labels state trace stopped => ?_⟩
    · obtain ⟨labels, state, trace, final⟩ := exists_final delivers positive .nil
      exact ⟨labels, state, trace, final.stopped⟩
    · obtain ⟨left, -, stage⟩ := stage_of_trace delivers positive trace
      exact (stage.receiver_of_stopped stopped).trans same

/-- The server reassembles the text that the client sent if and only if no fragment of the text
begins or ends with `x` or `0` and the products of `packetize` are `int`s. -/
theorem reassembles_iff_intact {text : List UInt8} (nulFree : 0 ∉ text)
    (ascii : ∀ byte ∈ text, byte < 128) (malloc : Nat → Packet) (corruptions : List Bool) :
    Reassembles text malloc corruptions ↔ Intact text ∧ text.length + 1 ≤ 2147483640 :=
  (reassembles_iff_received ascii malloc corruptions).trans
    (and_congr_left' (received_eq_iff nulFree))

/-- The bytes of `Typing is no substitute for thinking.`, which four packets carry. -/
def typing : List UInt8 :=
  [84, 121, 112, 105, 110, 103, 32, 105, 115, 32, 110, 111, 32, 115, 117, 98, 115, 116, 105, 116,
    117, 116, 101, 32, 102, 111, 114, 32, 116, 104, 105, 110, 107, 105, 110, 103, 46]

theorem reassembles_iff_intact_typing :
    Reassembles typing (fun _ => response .ack) [true, false, true, true, false, false, true] :=
  (reassembles_iff_intact (by decide) (by simp [typing]) _ _).mpr
    ⟨by unfold Intact; decide, by decide⟩

/-- The last letter of `box` is lost. -/
theorem box_not_reassembled :
    ¬ ∀ text : List UInt8, 0 ∉ text → (∀ byte ∈ text, byte < 128) →
      ∀ malloc corruptions, Reassembles text malloc corruptions := by
  intro claim
  have ascii : ∀ byte ∈ ([98, 111, 120] : List UInt8), byte < 128 := by simp
  have whole := claim [98, 111, 120] (by decide) ascii (fun _ => response .ack) []
  rw [reassembles_iff_received ascii] at whole
  exact absurd whole.1 (by decide)

end Server

end CS2200.Transport
