import CS2200.Library.Trace
import CS2200.Transport.Packetize

/-!
# Sending under any responses

`rtp_send_message` reads every response into the same buffer. A response may have any type, and a
`recvfrom` that fails leaves the buffer as it was. The loop sends a packet again only when the
buffer holds `NACK`, so that anything else there counts as an acknowledgement.
-/

namespace CS2200.Transport.Send

/-! ## The loop -/

/-- One iteration of the loop of `rtp_send_message`. -/
structure Round where
  /-- Position of the packet that is sent. -/
  index : Int
  /-- The packet. -/
  package : Packet
  /-- What `recvfrom` receives, if it does not fail. -/
  received : Option Packet
  deriving DecidableEq

/-- The loop before an iteration, which sends the packet at its position, or after its end. -/
structure Sender where
  /-- `i`. -/
  i : Int
  /-- `response`. -/
  response : Packet
  /-- The iterations that are done, the first in front. -/
  rounds : List Round

/-- The loop before its first iteration. `malloc` gives the contents of `response`. -/
def start (malloc : Packet) : Sender := { i := 0, response := malloc, rounds := [] }

/-- `pack[i]`. -/
def packageAt (pack : List Packet) (i : Int) : Option Packet :=
  if 0 ≤ i then pack[i.toNat]? else none

/-- One iteration: a packet is sent, and `recvfrom` receives a response or fails. -/
def round (pack : List Packet) (sender : Sender) (received : Option Packet) : Option Sender :=
  if sender.i < pack.length then do
    let package ← packageAt pack sender.i
    let response := received.getD sender.response
    some {
      i := nextIndex sender.i response
      response
      rounds := sender.rounds ++ [{ index := sender.i, package, received }] }
  else none

/-- The transition relation of the loop. -/
def Step (pack : List Packet) (before : Sender) (received : Option Packet) (after : Sender) :
    Prop :=
  round pack before received = some after

/-- `rtp_send_message` has left its loop and returns 1. -/
def Sender.Returned (pack : List Packet) (sender : Sender) : Prop := pack.length ≤ sender.i

/-- An `ACK` was received. -/
def Round.Acknowledged (round : Round) : Prop :=
  ∃ response ∈ round.received, response.type = PacketType.ack.code

/-- An `ACK` was received in answer to a packet. -/
def Sender.Acknowledged (sender : Sender) (k : Nat) : Prop :=
  ∃ round ∈ sender.rounds, round.index = k ∧ round.Acknowledged

instance (pack : List Packet) : DecidablePred (Sender.Returned pack) :=
  fun _ => inferInstanceAs (Decidable (_ ≤ _))

instance : DecidablePred Round.Acknowledged :=
  fun round => inferInstanceAs (Decidable (∃ response ∈ round.received, _))

instance (k : Nat) : DecidablePred fun sender : Sender => sender.Acknowledged k :=
  fun sender => inferInstanceAs (Decidable (∃ round ∈ sender.rounds, _))

/-- Progress is reported for acknowledged packets only. -/
structure Reported (pack : List Packet) (sender : Sender) : Prop where
  /-- A packet is sent after the one before it was acknowledged. -/
  sends : ∀ k : Nat, sender.i = (k + 1 : Nat) → k + 1 < pack.length → sender.Acknowledged k
  /-- The function returns 1 after all packets were acknowledged. -/
  returns : sender.Returned pack → ∀ k < pack.length, sender.Acknowledged k

/-- An `ACK` is received, or the buffer holds `NACK`. -/
def Answers (before : Sender) (received : Option Packet) : Prop :=
  (∃ response ∈ received, response.type = PacketType.ack.code) ∨
    (received.getD before.response).type = PacketType.nack.code

/-! ## What an iteration does -/

section Rounds

variable {pack : List Packet} {sender after : Sender} {received : Option Packet} {n : Nat}

theorem exists_package (step : Step pack sender received after) (position : sender.i = n) :
    ∃ inside : n < pack.length,
      after = {
        i := nextIndex n (received.getD sender.response)
        response := received.getD sender.response
        rounds := sender.rounds ++ [{ index := n, package := pack[n], received }] } := by
  obtain ⟨more, step⟩ := Option.ite_none_right_eq_some.mp step
  obtain ⟨package, read, result⟩ := Option.bind_eq_some_iff.mp step
  rw [position] at more read result
  have inside : n < pack.length := by omega
  refine ⟨inside, ?_⟩
  obtain rfl : pack[n] = package := by simpa [packageAt, inside] using read
  exact (Option.some.inj result).symm

theorem acknowledged_concat {round : Round} {i : Int} {response : Packet} {k : Nat} :
    Sender.Acknowledged { i, response, rounds := sender.rounds ++ [round] } k ↔
      sender.Acknowledged k ∨ round.index = k ∧ round.Acknowledged := by
  simp only [Sender.Acknowledged, List.mem_append, List.mem_singleton]
  constructor
  · rintro ⟨other, member | rfl, acknowledged⟩
    · exact .inl ⟨other, member, acknowledged⟩
    · exact .inr acknowledged
  · rintro (⟨other, member, acknowledged⟩ | acknowledged)
    · exact ⟨other, .inl member, acknowledged⟩
    · exact ⟨round, .inr rfl, acknowledged⟩

/-- A sender that got to a position acknowledged packets up to it, and no others. -/
structure At (pack : List Packet) (n : Nat) (sender : Sender) : Prop where
  /-- Position of the next packet. -/
  position : sender.i = n
  /-- The position is at most the end. -/
  inRange : n ≤ pack.length
  /-- The packets before it are those that were acknowledged. -/
  acknowledged : ∀ k, sender.Acknowledged k ↔ k < n

/-- A sender that acknowledged the packets up to its position. -/
def Arrived (pack : List Packet) (sender : Sender) : Prop := ∃ n, At pack n sender

private theorem At.start (pack : List Packet) (malloc : Packet) : At pack 0 (start malloc) where
  position := rfl
  inRange := Nat.zero_le _
  acknowledged k := by simp [Sender.Acknowledged, Send.start]

private theorem At.reported (at' : At pack n sender) : Reported pack sender where
  sends k position _ := by
    rw [at'.acknowledged]
    have same := at'.position
    omega
  returns returned k inside := by
    rw [at'.acknowledged]
    have position := at'.position
    unfold Sender.Returned at returned
    omega

private theorem At.step (at' : At pack n sender) (answers : Answers sender received)
    (step : Step pack sender received after) : Arrived pack after := by
  obtain ⟨inside, rfl⟩ := exists_package step at'.position
  rcases answers with ⟨response, rfl, ack⟩ | nack
  · refine ⟨n + 1, nextIndex_ack ack n, inside, fun k => ?_⟩
    rw [acknowledged_concat, at'.acknowledged]
    have last : Round.Acknowledged
        { index := n, package := pack[n], received := some response } := ⟨response, rfl, ack⟩
    simp only [last, and_true, Int.natCast_inj]
    omega
  · refine ⟨n, nextIndex_nack nack n, at'.inRange, fun k => ?_⟩
    rw [acknowledged_concat, at'.acknowledged]
    have last : ¬Round.Acknowledged { index := n, package := pack[n], received } := by
      rintro ⟨response, rfl, ack⟩
      have same : PacketType.ack.code = PacketType.nack.code := ack.symm.trans nack
      cases same
    simp [last]

/-- Going on without an acknowledgement is reported as progress. -/
theorem At.answers (at' : At pack n sender) (step : Step pack sender received after)
    (reported : Reported pack after) : Answers sender received := by
  obtain ⟨inside, rfl⟩ := exists_package step at'.position
  by_contra other
  obtain ⟨noAck, noNack⟩ := not_or.mp other
  have next : nextIndex n (received.getD sender.response) = ((n + 1 : Nat) : Int) := by
    simp [nextIndex, noNack]
  have unacknowledged : ¬Sender.Acknowledged
      { i := nextIndex n (received.getD sender.response)
        response := received.getD sender.response
        rounds := sender.rounds ++ [{ index := n, package := pack[n], received }] } n := by
    rw [acknowledged_concat, at'.acknowledged]
    rintro (before | ⟨-, acknowledged⟩)
    · exact Nat.lt_irrefl n before
    · exact noAck acknowledged
  rcases Nat.lt_or_ge (n + 1) pack.length with more | last
  · exact unacknowledged (reported.sends n next more)
  · refine unacknowledged (reported.returns ?_ n inside)
    simp only [Sender.Returned, next]
    omega

/-- Before the end the loop goes on with whatever is received. -/
theorem At.exists_step (at' : At pack n sender) (goes : ¬sender.Returned pack)
    (received : Option Packet) : ∃ after, Step pack sender received after := by
  have position := at'.position
  have inside : n < pack.length := by
    unfold Sender.Returned at goes
    omega
  simp [Step, round, packageAt, position, inside]

end Rounds

/-! ## Whole transfers -/

/-- Whatever packets it sends, `rtp_send_message` goes on to a packet, and returns 1, for acknowledged
packets only, if and only if in every iteration an `ACK` is received or the response buffer holds
`NACK`. A message has packets as long as the products of `packetize` are `int`s. -/
theorem reported_iff_answers (buffer : List UInt8) (malloc : Nat → Packet) (response : Packet)
    (responses : List (Option Packet)) :
    ((∃ pack, packetize buffer malloc = some pack) ↔ buffer.length ≤ 2147483640) ∧
      ∀ pack, (Always (Step pack) (start response) responses (Reported pack) ↔
        Respects (Step pack) (start response) responses Answers) := by
  refine ⟨exists_packetize_iff buffer malloc, fun pack => ?_⟩
  have anyResponse : Respects (Step pack) (start response) responses fun _ _ => True :=
    fun _ _ _ _ _ _ _ => trivial
  have atStart : Arrived pack (start response) := ⟨0, .start pack response⟩
  refine always_iff_respects anyResponse atStart ?_ ?_ ?_
  · rintro before received after ⟨n, at'⟩ - answers step
    exact at'.step answers step
  · rintro sender ⟨n, at'⟩
    exact at'.reported
  · rintro before received after ⟨n, at'⟩ - step reported
    exact at'.answers step reported

/-- A packet that answers with a type. -/
def answer (type : PacketType) : Packet where
  type := type.code
  checksum := 0
  payloadLength := 0
  payload := .replicate maxPayloadLength 0

/-- A transfer that returns without an acknowledgement. -/
theorem not_always_reported {pack : List Packet} {malloc : Packet} {responses : List (Option Packet)}
    {sender : Sender} (runs : responses.foldlM (round pack) (start malloc) = some sender)
    (returned : sender.Returned pack) {k : Nat} (inside : k < pack.length)
    (unacknowledged : ¬sender.Acknowledged k) :
    ¬Always (Step pack) (start malloc) responses (Reported pack) := fun always =>
  have reported := always responses (List.prefix_refl _) sender (.of_foldlM runs)
  unacknowledged (reported.returns returned k inside)

/-- The `ACK` of the first packet of a message of eleven bytes is still in the buffer when
`recvfrom` fails for the second, and `TERM` counts as an answer to the only packet of a message. -/
theorem unacknowledged_reported :
    (∃ pack, packetize (.replicate 11 65) (fun _ => answer .data) = some pack ∧
      ¬Always (Step pack) (start (answer .data)) [some (answer .ack), none] (Reported pack)) ∧
    ∃ pack, packetize [65] (fun _ => answer .data) = some pack ∧
      ¬Always (Step pack) (start (answer .data)) [some (answer .term)] (Reported pack) := by
  constructor
  · let pack := (packetize (.replicate 11 65) fun _ => answer .data).get (by decide)
    refine ⟨pack, (Option.some_get _).symm, ?_⟩
    let responses := [some (answer .ack), none]
    let sender := (responses.foldlM (round pack) (start (answer .data))).get (by decide)
    have runs : responses.foldlM (round pack) (start (answer .data)) = some sender :=
      (Option.some_get _).symm
    have inside : 1 < pack.length := by decide
    exact not_always_reported runs (by decide) inside (by decide)
  · let pack := (packetize [65] fun _ => answer .data).get (by decide)
    refine ⟨pack, (Option.some_get _).symm, ?_⟩
    let sender := ([some (answer .term)].foldlM (round pack) (start (answer .data))).get (by decide)
    have runs : [some (answer .term)].foldlM (round pack) (start (answer .data)) = some sender :=
      (Option.some_get _).symm
    have inside : 0 < pack.length := by decide
    exact not_always_reported runs (by decide) inside (by decide)

end CS2200.Transport.Send
