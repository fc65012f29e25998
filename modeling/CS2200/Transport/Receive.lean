import CS2200.Transport.Packetize

/-!
# Receiving any packets

`rtp_receive_message` with the accesses of its loops and with `int`s of 32 bits, for packets whose
fields are arbitrary. It reads a payload up to the length that the packet claims, and adds up these
lengths, without a check.
-/

namespace CS2200.Transport

open CInt

/-! ## Packets as they arrive -/

/-- A `PACKET` as it arrives, with any `int`s. -/
structure Datagram extends Packet where
  /-- Kind of packet. -/
  typeInt : IsInt type
  /-- Sum that the packet claims. -/
  checksumInt : IsInt checksum
  /-- Length that the packet claims. -/
  lengthInt : IsInt payloadLength
  deriving DecidableEq

instance : Coe Datagram Packet := ⟨Datagram.toPacket⟩

namespace Packet

/-- The sum over the payload is the sum that the packet claims. -/
def Accepted (package : Packet) : Prop :=
  Transport.checksum package.payload.toList package.payloadLength = some package.checksum

instance : DecidablePred Accepted := fun _ => inferInstanceAs (Decidable (_ = _))

/-- A `LAST_DATA` packet whose checksum matches. -/
def Last (package : Packet) : Prop :=
  package.Accepted ∧ package.type = PacketType.lastData.code

instance : DecidablePred Last := fun _ => inferInstanceAs (Decidable (_ ∧ _))

/-- The bytes that a packet contributes to the message. -/
def contents (package : Packet) : List UInt8 :=
  package.payload.toList.take package.payloadLength.toNat

end Packet

/-- `rtp_receive_message` from a message: the responses that it sends, the message that it returns,
and the packets that it leaves. It does not return from packets of which none ends the loop. -/
def receiveMessage (malloc : (size : Nat) → Vector UInt8 size) (response : Packet)
    (message : Message) : List Datagram → Option (List Packet × Message × List Datagram)
  | [] => none
  | package :: later => do
      let (message, response, stops) ← receivePackage malloc response message package
      if stops then some ([response], message, later)
      else do
        let (responses, message, later) ← receiveMessage malloc response message later
        some (response :: responses, message, later)

/-! ## The loops -/

section Loops

private theorem copyLoop_eq (source part : List UInt8) (start : Nat) {count : Nat}
    (reads : count ≤ source.length)
    (writes : start + count ≤ part.length) (isInt : IsInt part.length) :
    copyLoop source start count part =
      some (part.take start ++ source.take count ++ part.drop (start + count)) := by
  unfold copyLoop
  rw [Int.toNat_natCast]
  induction count with
  | zero => simp
  | succ count ih =>
      have present : count < source.length := by omega
      have index : wrap ((count : Int) + (start : Int)) = ((start + count : Nat) : Int) := by
        rw [wrap_eq ⟨by omega, by have := isInt.2; omega⟩]
        omega
      have filled : (part.take start ++ source.take count ++ part.drop (start + count)).set
          (start + count) source[count] =
          part.take start ++ source.take (count + 1) ++ part.drop (start + (count + 1)) := by
        have whole : (part.take start ++ source.take count).length = start + count := by
          simp
          omega
        rw [List.set_append_right _ _ (by omega), whole, Nat.sub_self,
          List.drop_eq_getElem_cons (by omega : start + count < part.length), List.set_cons_zero,
          List.take_succ_eq_append_getElem present]
        simp only [List.append_assoc, List.singleton_append, Nat.add_assoc]
      rw [List.range_succ, List.foldlM_append, ih (by omega) (by omega)]
      simp only [Option.bind_eq_bind, Option.bind_some, List.foldlM_cons, List.foldlM_nil,
        List.getElem?_eq_getElem present, index]
      rw [store_natCast (by simp; omega), Option.bind_some, filled]
      rfl

end Loops

/-! ## One packet -/

/-- The length of a message is the number of its bytes. -/
structure Message.Whole (message : Message) : Prop where
  /-- The buffer holds the message. -/
  length : message.length = message.buffer.length
  /-- The length is an `int`. -/
  isInt : message.length ≤ intMax

theorem emptyMessage_whole : emptyMessage.Whole := ⟨rfl, by decide⟩

/-- The response to a packet. -/
def reply (response package : Packet) : Packet :=
  { response with type := if package.Accepted then PacketType.ack.code else PacketType.nack.code }

section Package

variable {malloc : (size : Nat) → Vector UInt8 size} {response package : Packet}
  {message : Message}

/-- A packet that claims more bytes than a payload has is read beyond its end. -/
theorem receivePackage_long (long : maxPayloadLength < package.payloadLength) :
    receivePackage malloc response message package = none := by
  have outside : ¬package.payloadLength ≤ package.payload.toList.length := by
    rw [Vector.length_toList]
    omega
  have beyond : checksum package.payload.toList package.payloadLength = none := if_neg outside
  simp [receivePackage, beyond]

private theorem exists_checksum (short : package.payloadLength ≤ maxPayloadLength) :
    ∃ sum, checksum package.payload.toList package.payloadLength = some sum ∧
      (package.Accepted ↔ sum = package.checksum) := by
  have inside : package.payloadLength ≤ package.payload.toList.length := by
    rwa [Vector.length_toList]
  refine ⟨_, if_pos inside, ?_⟩
  rw [Packet.Accepted, checksum, if_pos inside, Option.some.injEq]

theorem receivePackage_refused (short : package.payloadLength ≤ maxPayloadLength)
    (refused : ¬package.Accepted) :
    receivePackage malloc response message package =
      some (message, reply response package, false) := by
  obtain ⟨sum, computed, accepted⟩ := exists_checksum short
  have different : sum ≠ package.checksum := fun same => refused (accepted.mpr same)
  simp [receivePackage, computed, different, reply, refused]

theorem receivePackage_accepted (whole : message.Whole) (accepted : package.Accepted)
    (nonneg : 0 ≤ package.payloadLength) (short : package.payloadLength ≤ maxPayloadLength)
    (fits : message.length + package.payloadLength ≤ intMax) :
    receivePackage malloc response message package =
      some ({ buffer := message.buffer ++ package.contents
              length := message.length + package.payloadLength },
        reply response package, decide package.Last) := by
  obtain ⟨count, length⟩ := Int.eq_ofNat_of_zero_le nonneg
  have size := whole.length
  have few : count ≤ package.payload.toList.length := by
    rw [Vector.length_toList]
    omega
  have isInt : IsInt (package.payloadLength + message.length) := ⟨by omega, by omega⟩
  have allocated : (wrap (package.payloadLength + message.length)).toNat =
      message.buffer.length + count := by
    rw [wrap_eq isInt]
    omega
  have newLength : wrap (message.length + package.payloadLength) =
      message.length + package.payloadLength := wrap_eq (by rwa [Int.add_comm])
  let part := (malloc (wrap (package.payloadLength + message.length)).toNat).toList
  have partLength : part.length = message.buffer.length + count := by
    rw [← allocated]
    exact Vector.length_toList
  have partInt : IsInt part.length := by
    rw [partLength]
    exact ⟨by omega, by omega⟩
  have old : copyLoop message.buffer 0 message.length part =
      some (message.buffer ++ part.drop message.buffer.length) := by
    have copied := copyLoop_eq message.buffer part 0 (Nat.le_refl _) (by omega) partInt
    rw [size]
    simpa using copied
  have new : copyLoop package.payload.toList message.length package.payloadLength
      (message.buffer ++ part.drop message.buffer.length) =
      some (message.buffer ++ package.contents) := by
    have copied := copyLoop_eq package.payload.toList
      (message.buffer ++ part.drop message.buffer.length) message.buffer.length few
      (by simp; omega) (by
        rwa [List.length_append, List.length_drop,
          Nat.add_sub_cancel' (Nat.le.intro partLength.symm)])
    rw [size, length, copied]
    simp [Packet.contents, length, partLength]
  have computed : checksum package.payload.toList package.payloadLength =
      some package.checksum := accepted
  have stops : ¬(PacketType.ack.code ≠ PacketType.ack.code ∨
      package.type ≠ PacketType.lastData.code) ↔ package.Last := by
    simp [Packet.Last, accepted]
  simp only [receivePackage, computed, Option.bind_eq_bind, Option.bind_some, if_true, old, new,
    newLength, stops, reply, accepted, part]

private theorem copyLoop_nil {source : List UInt8} {count : Int} (positive : 0 < count)
    (nonempty : source ≠ []) : copyLoop source 0 count [] = none := by
  obtain ⟨more, size⟩ := Nat.exists_eq_add_one.mpr (Int.lt_toNat.mpr positive)
  obtain ⟨byte, rest, rfl⟩ := List.exists_cons_of_ne_nil nonempty
  rw [copyLoop, size, List.range_succ_eq_map, List.foldlM_cons]
  simp [store_nil]

/-- For a packet that makes the message too long, `malloc` returns `NULL`. -/
theorem receivePackage_overflow (whole : message.Whole) (positive : 0 < message.length)
    (accepted : package.Accepted) (short : package.payloadLength ≤ maxPayloadLength)
    (large : intMax < message.length + package.payloadLength) :
    receivePackage malloc response message package = none := by
  have computed : checksum package.payload.toList package.payloadLength =
      some package.checksum := accepted
  have isInt := whole.isInt
  have negative : (wrap (package.payloadLength + message.length)).toNat = 0 := by
    refine Int.toNat_of_nonpos (Int.le_of_lt (wrap_neg (by omega) ?_))
    unfold maxPayloadLength intMax at *
    omega
  have nothing : (malloc (wrap (package.payloadLength + message.length)).toNat).toList = [] :=
    List.eq_nil_of_length_eq_zero (by rw [Vector.length_toList, negative])
  have nonempty : message.buffer ≠ [] := by
    intro empty
    have length := whole.length
    rw [empty, List.length_nil] at length
    omega
  simp only [receivePackage, computed, Option.bind_eq_bind, Option.bind_some, if_true, nothing,
    copyLoop_nil positive nonempty, Option.bind_none]

/-- The length that a packet leads to, if its iteration succeeds. -/
theorem length_of_accepted (accepted : package.Accepted) {after : Message} {answer : Packet}
    {stops : Bool}
    (receives : receivePackage malloc response message package = some (after, answer, stops)) :
    after.length = wrap (message.length + package.payloadLength) := by
  obtain ⟨sum, computed, receives⟩ := Option.bind_eq_some_iff.mp receives
  obtain rfl : sum = package.checksum := Option.some.inj (computed.symm.trans accepted)
  rw [if_pos rfl] at receives
  obtain ⟨old, -, receives⟩ := Option.bind_eq_some_iff.mp receives
  obtain ⟨new, -, result⟩ := Option.bind_eq_some_iff.mp receives
  obtain ⟨rfl, -⟩ := Prod.mk.inj (Option.some.inj result)
  rfl

private theorem receivePackage_length_le (isInt : message.length ≤ intMax) {after : Message}
    {answer : Packet} {stops : Bool}
    (receives : receivePackage malloc response message package = some (after, answer, stops)) :
    after.length ≤ intMax := by
  by_cases matches' : package.Accepted
  · rw [length_of_accepted matches' receives]
    exact (isInt_wrap _).2
  · have short : package.payloadLength ≤ maxPayloadLength := by
      by_contra long
      rw [receivePackage_long (Int.not_le.mp long)] at receives
      cases receives
    rw [receivePackage_refused short matches'] at receives
    obtain ⟨rfl, -⟩ := Prod.mk.inj (Option.some.inj receives)
    exact isInt

end Package

/-! ## Safety -/

/-- A stream up to the first `LAST_DATA` packet whose checksum matches. -/
def upToLast : List Datagram → List Datagram
  | [] => []
  | package :: later => if package.Last then [package] else package :: upToLast later

/-- The packets whose checksum matches. -/
def accepted (packages : List Datagram) : List Datagram :=
  packages.filter fun package => package.Accepted

/-- The sum of the lengths of the packets whose checksum matches. -/
def acceptedLength (packages : List Datagram) : Int :=
  ((accepted packages).map fun package => package.payloadLength).sum

/-- All iterations keep to their arrays, and the length of the message does not become negative or
less than it was. -/
def Safe (malloc : (size : Nat) → Vector UInt8 size) (response : Packet) (message : Message) :
    List Datagram → Prop
  | [] => True
  | package :: later => ∃ after answer stops,
      receivePackage malloc response message package = some (after, answer, stops) ∧
        0 ≤ after.length ∧ message.length ≤ after.length ∧
        (stops = false → Safe malloc answer after later)

/-- A packet that claims no more than a payload, and nothing negative with a matching checksum. -/
structure Datagram.Harmless (package : Datagram) : Prop where
  /-- The length is within a payload. -/
  short : package.payloadLength ≤ maxPayloadLength
  /-- The length of an accepted packet is not negative. -/
  nonneg : package.Accepted → 0 ≤ package.payloadLength

section Streams

variable {malloc : (size : Nat) → Vector UInt8 size} {response : Packet} {message : Message}
  {package : Datagram} {packages later : List Datagram}

theorem upToLast_of_last (last : package.Last) : upToLast (package :: later) = [package] :=
  if_pos last

theorem upToLast_of_not_last (goes : ¬package.Last) :
    upToLast (package :: later) = package :: upToLast later :=
  if_neg goes

private theorem upToLast_subset (packages : List Datagram) : upToLast packages ⊆ packages := by
  induction packages with
  | nil => exact List.Subset.refl _
  | cons package later ih =>
      by_cases last : package.Last
      · rw [upToLast_of_last last]
        simp
      · rw [upToLast_of_not_last last]
        exact List.cons_subset_cons _ ih

theorem accepted_cons (package : Datagram) (later : List Datagram) :
    accepted (package :: later) =
      if package.Accepted then package :: accepted later else accepted later := by
  simp [accepted, List.filter_cons]

theorem acceptedLength_cons (package : Datagram) (later : List Datagram) :
    acceptedLength (package :: later) =
      (if package.Accepted then package.payloadLength else 0) + acceptedLength later := by
  by_cases matches' : package.Accepted <;> simp [acceptedLength, accepted_cons, matches']

theorem acceptedLength_nonneg (harmless : ∀ package ∈ packages, package.Harmless) :
    0 ≤ acceptedLength packages := by
  induction packages with
  | nil => exact Int.le_refl 0
  | cons package later ih =>
      have rest := ih fun other member => harmless other (List.mem_cons_of_mem _ member)
      have first := (harmless package List.mem_cons_self).nonneg
      rw [acceptedLength_cons]
      split
      · have := first ‹_›
        omega
      · omega

end Streams

/-! ## The first packet of a stream -/

/-- A message with the contents of a packet, if its checksum matches. -/
def Message.append (message : Message) (package : Datagram) : Message :=
  if package.Accepted then
    { buffer := message.buffer ++ package.contents
      length := message.length + package.payloadLength }
  else message

/-- A harmless packet that does not make the message too long. -/
structure Fits (message : Message) (package : Datagram) : Prop where
  /-- The packet is harmless. -/
  harmless : package.Harmless
  /-- The new length is an `int`. -/
  bound : package.Accepted → message.length + package.payloadLength ≤ intMax

section First

variable {malloc : (size : Nat) → Vector UInt8 size} {response : Packet} {message : Message}
  {package : Datagram} {packages later : List Datagram}

private theorem Datagram.length_contents (short : package.payloadLength ≤ maxPayloadLength) :
    package.contents.length = package.payloadLength.toNat := by
  simp [Packet.contents]
  omega

theorem Fits.whole (fits : Fits message package) (whole : message.Whole) :
    (message.append package).Whole := by
  unfold Message.append
  split
  · have matches' : package.Accepted := ‹_›
    have nonneg := fits.harmless.nonneg matches'
    have length := whole.length
    refine ⟨?_, fits.bound matches'⟩
    simp only [List.length_append, Datagram.length_contents fits.harmless.short]
    omega
  · exact whole

theorem Fits.receivePackage (fits : Fits message package) (whole : message.Whole) :
    receivePackage malloc response message package =
      some (message.append package, reply response package, decide package.Last) := by
  by_cases matches' : package.Accepted
  · rw [receivePackage_accepted whole matches' (fits.harmless.nonneg matches')
      fits.harmless.short (fits.bound matches'), Message.append, if_pos matches']
  · have goes : ¬package.Last := fun last => matches' last.1
    rw [receivePackage_refused fits.harmless.short matches', Message.append, if_neg matches',
      decide_eq_false goes]

/-- An iteration that keeps to its arrays and does not shorten the message had a packet that fits. -/
theorem fits_of_receivePackage (whole : message.Whole) {after : Message} {answer : Packet}
    {stops : Bool}
    (receives : Transport.receivePackage malloc response message package =
      some (after, answer, stops))
    (nonneg : 0 ≤ after.length) (grows : message.length ≤ after.length) :
    Fits message package := by
  have short : package.payloadLength ≤ maxPayloadLength := by
    by_contra long
    rw [receivePackage_long (Int.not_le.mp long)] at receives
    cases receives
  have size := whole.length
  have limit : message.length ≤ 2147483647 := whole.isInt
  have upper : package.payloadLength ≤ 10 := short
  have lower := package.lengthInt.1
  have added : package.Accepted →
      after.length = wrap (message.length + package.payloadLength) :=
    fun matches' => length_of_accepted matches' receives
  have bound : package.Accepted → message.length + package.payloadLength ≤ intMax := by
    intro matches'
    by_contra large
    have negative := wrap_neg (Int.not_le.mp large) (by omega)
    rw [← added matches'] at negative
    omega
  refine ⟨⟨short, fun matches' => ?_⟩, bound⟩
  have fits := bound matches'
  rw [added matches', wrap_eq ⟨by omega, fits⟩] at grows
  omega

private theorem safe_cons_iff (whole : message.Whole) :
    Safe malloc response message (package :: later) ↔
      Fits message package ∧ (¬package.Last →
        Safe malloc (reply response package) (message.append package) later) := by
  constructor
  · rintro ⟨after, answer, stops, receives, nonneg, grows, continues⟩
    have fits := fits_of_receivePackage whole receives nonneg grows
    rw [fits.receivePackage whole] at receives
    obtain ⟨rfl, rfl, rfl⟩ : message.append package = after ∧ reply response package = answer ∧
        decide package.Last = stops := by simpa using receives
    exact ⟨fits, fun goes => continues (decide_eq_false goes)⟩
  · rintro ⟨fits, continues⟩
    have after := fits.whole whole
    have length := after.length
    refine ⟨_, _, _, fits.receivePackage whole, by omega, ?_, fun goes =>
      continues (of_decide_eq_false goes)⟩
    unfold Message.append
    split
    · have nonneg := fits.harmless.nonneg ‹_›
      simp only
      omega
    · exact Int.le_refl _

theorem length_append (message : Message) (package : Datagram) :
    (message.append package).length =
      message.length + if package.Accepted then package.payloadLength else 0 := by
  unfold Message.append
  split <;> simp

/-- A whole stream is safe from a message if its packets are harmless up to the end of the loop and
the accepted lengths do not exceed an `int`. -/
theorem safe_iff_of_whole (whole : message.Whole) :
    Safe malloc response message packages ↔
      (∀ package ∈ upToLast packages, package.Harmless) ∧
        message.length + acceptedLength (upToLast packages) ≤ intMax := by
  induction packages generalizing response message with
  | nil => simpa [Safe, upToLast, acceptedLength, accepted] using whole.isInt
  | cons package later ih =>
      rw [safe_cons_iff whole]
      by_cases last : package.Last
      · have matches' := last.1
        simp only [upToLast_of_last last, last, not_true_eq_false, false_implies, and_true,
          List.mem_singleton, forall_eq, acceptedLength_cons, matches', if_true]
        constructor
        · intro fits
          exact ⟨fits.harmless, by simpa [acceptedLength, accepted] using fits.bound matches'⟩
        · rintro ⟨harmless, bound⟩
          exact ⟨harmless, fun _ => by simpa [acceptedLength, accepted] using bound⟩
      · rw [upToLast_of_not_last last, acceptedLength_cons, List.forall_mem_cons]
        have total := length_append message package
        constructor
        · rintro ⟨fits, continues⟩
          obtain ⟨harmless, bound⟩ := (ih (fits.whole whole)).mp (continues last)
          exact ⟨⟨fits.harmless, harmless⟩, by omega⟩
        · rintro ⟨⟨harmless, rest⟩, bound⟩
          have nonneg := acceptedLength_nonneg rest
          have fits : Fits message package := by
            refine ⟨harmless, fun matches' => ?_⟩
            rw [if_pos matches'] at bound
            omega
          exact ⟨fits, fun _ => (ih (fits.whole whole)).mpr ⟨rest, by omega⟩⟩

/-! ## The whole function -/

/-- The first packets fit, so that the function returns from a stream that ends the loop. -/
theorem receiveMessage_eq (malloc : (size : Nat) → Vector UInt8 size) (response : Packet)
    (whole : message.Whole)
    (harmless : ∀ package ∈ upToLast packages, package.Harmless)
    (bound : message.length + acceptedLength (upToLast packages) ≤ intMax)
    (ends : ∃ package ∈ packages, package.Last) :
    ∃ later, packages = upToLast packages ++ later ∧
      receiveMessage malloc response message packages =
        some ((upToLast packages).map (fun package => reply response package),
          { buffer := message.buffer ++
              (accepted (upToLast packages)).flatMap fun package => package.contents
            length := message.length + acceptedLength (upToLast packages) }, later) := by
  induction packages generalizing response message with
  | nil => simp at ends
  | cons package later ih =>
      have total := length_append message package
      by_cases last : package.Last
      · have matches' := last.1
        rw [upToLast_of_last last] at harmless bound ⊢
        rw [acceptedLength_cons, if_pos matches'] at bound
        have fits : Fits message package :=
          ⟨harmless package List.mem_cons_self, fun _ => by
            simpa [acceptedLength, accepted] using bound⟩
        refine ⟨later, rfl, ?_⟩
        simp [receiveMessage, fits.receivePackage whole, last, Message.append, matches', accepted,
          acceptedLength]
      · rw [upToLast_of_not_last last] at harmless bound ⊢
        rw [acceptedLength_cons] at bound
        obtain ⟨first, rest⟩ := List.forall_mem_cons.mp harmless
        have nonneg := acceptedLength_nonneg rest
        have fits : Fits message package := by
          refine ⟨first, fun matches' => ?_⟩
          rw [if_pos matches'] at bound
          omega
        have continues : ∃ package ∈ later, package.Last := by
          obtain ⟨other, member, isLast⟩ := ends
          rcases List.mem_cons.mp member with rfl | member
          · exact absurd isLast last
          · exact ⟨other, member, isLast⟩
        obtain ⟨left, stream, returns⟩ :=
          ih (reply response package) (fits.whole whole) rest (by omega) continues
        refine ⟨left, congrArg (package :: ·) stream, ?_⟩
        simp only [receiveMessage, fits.receivePackage whole, Option.bind_eq_bind,
          Option.bind_some, decide_eq_false last, Bool.false_eq_true, if_false, returns,
          accepted_cons, acceptedLength_cons]
        by_cases matches' : package.Accepted
        · simp [Message.append, matches', reply, Int.add_assoc]
        · simp [Message.append, matches', reply]

theorem receiveMessage_length_le (isInt : message.length ≤ intMax) {responses : List Packet}
    {after : Message}
    (returns : receiveMessage malloc response message packages = some (responses, after, later)) :
    after.length ≤ intMax := by
  induction packages generalizing response message responses with
  | nil => cases returns
  | cons package rest ih =>
      obtain ⟨⟨middle, answer, stops⟩, receives, returns⟩ := Option.bind_eq_some_iff.mp returns
      have middleInt := receivePackage_length_le isInt receives
      cases stops with
      | true =>
          obtain ⟨-, rfl, -⟩ : [answer] = responses ∧ middle = after ∧ rest = later := by
            simpa using returns
          exact middleInt
      | false =>
          obtain ⟨⟨others, final, left⟩, continues, result⟩ := Option.bind_eq_some_iff.mp returns
          obtain ⟨-, rfl, rfl⟩ : answer :: others = responses ∧ final = after ∧ left = later := by
            simpa using result
          exact ih middleInt continues

end First

/-- The function takes the stream up to the first `LAST_DATA` packet whose checksum matches, answers
every packet by whether its checksum matches, and returns the contents of those that match. -/
def Filters (malloc : (size : Nat) → Vector UInt8 size) (response : Packet)
    (packages : List Datagram) : Prop :=
  ∃ message later,
    receiveMessage malloc response emptyMessage packages =
        some ((upToLast packages).map (fun package => reply response package), message, later) ∧
      packages = upToLast packages ++ later ∧
      message.buffer = (accepted (upToLast packages)).flatMap (fun package => package.contents) ∧
      message.length = acceptedLength (upToLast packages)

section Results

variable (malloc : (size : Nat) → Vector UInt8 size) (response : Packet)

/-- `rtp_receive_message` keeps to its arrays and does not shorten the message if and only if, up to
the end of its loop, no packet claims more bytes than a payload has or a negative number with a
matching checksum, and the lengths of the accepted packets add up to an `int`. -/
theorem safe_iff (packages : List Datagram) :
    Safe malloc response emptyMessage packages ↔
      (∀ package ∈ upToLast packages, package.Harmless) ∧
        acceptedLength (upToLast packages) ≤ intMax := by
  rw [safe_iff_of_whole emptyMessage_whole]
  simp [emptyMessage]

/-- From a stream of packets with possible lengths that ends the loop, `rtp_receive_message` filters
the accepted packets if and only if their lengths add up to an `int`. -/
theorem filters_iff {packages : List Datagram}
    (lengths : ∀ package ∈ packages,
      0 ≤ package.payloadLength ∧ package.payloadLength ≤ maxPayloadLength)
    (ends : ∃ package ∈ packages, package.Last) :
    Filters malloc response packages ↔ acceptedLength (upToLast packages) ≤ intMax := by
  constructor
  · rintro ⟨message, later, returns, -, -, length⟩
    rw [← length]
    exact receiveMessage_length_le (by decide) returns
  · intro bound
    have harmless : ∀ package ∈ upToLast packages, package.Harmless := fun package member =>
      have inside := lengths package (upToLast_subset packages member)
      ⟨inside.2, fun _ => inside.1⟩
    obtain ⟨later, stream, returns⟩ := receiveMessage_eq malloc response emptyMessage_whole
      harmless (by simpa [emptyMessage] using bound) ends
    exact ⟨_, later, returns, stream, by simp [emptyMessage], by simp [emptyMessage]⟩

end Results

/-! ## Streams of zeros -/

/-- A packet of zeros. -/
def Datagram.zeros (type : PacketType) (payloadLength : Int) : Datagram where
  type := type.code
  checksum := 0
  payloadLength := wrap payloadLength
  payload := .replicate maxPayloadLength 0
  typeInt := by cases type <;> decide
  checksumInt := by decide
  lengthInt := isInt_wrap payloadLength

/-- Memory that is zeroed. -/
def zeroed (size : Nat) : Vector UInt8 size := .replicate size 0

/-- A packet that claims eleven bytes is read beyond its payload, and one that claims minus two bytes
shortens a message of three. -/
theorem unsafe_zeros :
    ¬Safe zeroed (Datagram.zeros .data 0).toPacket emptyMessage [.zeros .data 11] ∧
      ¬Safe zeroed (Datagram.zeros .data 0).toPacket emptyMessage
        [.zeros .data 3, .zeros .data (-2)] := by
  constructor
  · intro safe
    have harmless := ((safe_iff_of_whole emptyMessage_whole).mp safe).1
    have short := (harmless (.zeros .data 11) (by decide)).short
    exact absurd short (by decide)
  · intro safe
    have harmless := ((safe_iff_of_whole emptyMessage_whole).mp safe).1
    have nonneg := (harmless (.zeros .data (-2)) (by decide)).nonneg (by decide)
    exact absurd nonneg (by decide)

/-- A corrupted `LAST_DATA` packet does not end the loop. -/
def Datagram.corrupted : Datagram :=
  { Datagram.zeros .lastData 4 with checksum := 7, checksumInt := by decide }

theorem filters_iff_corrupted :
    Filters zeroed (Datagram.zeros .data 0).toPacket
      [.zeros .data 10, .corrupted, .zeros .ack 0, .zeros .lastData 3, .zeros .data 5] :=
  (filters_iff zeroed _ (by decide) (by decide)).mpr (by decide)

/-- A message of `n` packets of ten zeros and a last one. -/
def tens (n : Nat) : List Datagram :=
  List.replicate n (.zeros .data 10) ++ [.zeros .lastData 10]

section Tens

variable (n : Nat)

theorem mem_tens {package : Datagram} (member : package ∈ tens n) :
    package = .zeros .data 10 ∨ package = .zeros .lastData 10 := by
  rcases List.mem_append.mp member with member | member
  · exact .inl (List.eq_of_mem_replicate member)
  · exact .inr (List.mem_singleton.mp member)

private theorem upToLast_tens : upToLast (tens n) = tens n := by
  induction n with
  | zero => exact upToLast_of_last (by decide)
  | succ n ih =>
      have next : tens (n + 1) = .zeros .data 10 :: tens n := by
        simp [tens, List.replicate_succ]
      rw [next, upToLast_of_not_last (by decide), ih]

private theorem acceptedLength_tens : acceptedLength (tens n) = 10 * n + 10 := by
  have all : accepted (tens n) = tens n := by
    refine List.filter_eq_self.mpr fun package member => ?_
    rcases mem_tens n member with rfl | rfl <;> decide
  have ten : wrap 10 = 10 := by decide
  rw [acceptedLength, all]
  simp [tens, Datagram.zeros, ten, Int.mul_comm]

end Tens

/-- Packets of ten zeros that are together too long for an `int` are not returned as they should
be. -/
theorem overlong_not_filtered :
    (∀ package ∈ tens 214748364, 0 ≤ package.payloadLength ∧
      package.payloadLength ≤ maxPayloadLength) ∧
      (∃ package ∈ tens 214748364, package.Last) ∧
      ¬Filters zeroed (Datagram.zeros .data 0).toPacket (tens 214748364) := by
  refine ⟨fun package member => ?_, ⟨.zeros .lastData 10, ?_, by decide⟩, ?_⟩
  · rcases mem_tens _ member with rfl | rfl <;> decide
  · exact List.mem_append_right _ List.mem_cons_self
  · rintro ⟨message, later, returns, -, -, length⟩
    have fits := receiveMessage_length_le (by decide) returns
    rw [length, upToLast_tens, acceptedLength_tens] at fits
    exact absurd fits (by decide)

end CS2200.Transport
