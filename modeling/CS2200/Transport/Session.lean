import CS2200.Library.Duplex
import CS2200.Transport.Checksum
import Mathlib.Algebra.GroupWithZero.Nat

/-!
# A session

`main` of `client.c` sends messages and waits for the response to each. The server reads a message,
and sends its translation before it reads the next one; it simulates corruption in both directions.
The acknowledgement of the last packet of a message and the first packet of the response may be on
their way together, and so may the acknowledgement of the response and the next message. The
response has no NUL, so that what `main` prints goes on behind its array.
-/

namespace CS2200.Transport

open CInt StopAndWait

/-! ## The client -/

/-- What `malloc` returns while a message is sent and its response is received. -/
structure Memory where
  /-- The array of `packetize`. -/
  packets : Nat → Packet
  /-- `response` of `rtp_receive_message`. -/
  response : Packet
  /-- The arrays of `rtp_receive_message`. -/
  part : (size : Nat) → Vector UInt8 size
  /-- The bytes behind the array that it returns. -/
  behind : List UInt8

/-- What `printf` prints for `%s`: the bytes of an array, and of the memory behind it, up to a
NUL. -/
def printed (buffer behind : List UInt8) : Option (List UInt8) :=
  if 0 ∈ buffer ++ behind then some ((buffer ++ behind).takeWhile (· ≠ 0)) else none

/-- Where the client is. -/
inductive Client.Phase where
  /-- Before `sendto` in the loop of `rtp_send_message`. -/
  | sending (pack : List Packet) (i : Int)
  /-- Before `recvfrom` in the loop of `rtp_send_message`. -/
  | awaiting (pack : List Packet) (i : Int)
  /-- Before `recvfrom` in the loop of `rtp_receive_message`. -/
  | receiving (message : Message) (response : Packet)
  /-- Before `sendto` in the loop of `rtp_receive_message`, and whether the loop ends. -/
  | responding (message : Message) (response : Packet) (ends : Bool)
  /-- An access outside of an array, or of the memory behind it that is printed. -/
  | failed
  /-- `main` has returned. -/
  | returned
  deriving DecidableEq, Repr

/-- The client in `main`. -/
structure Client where
  /-- Where it is. -/
  phase : Client.Phase
  /-- Messages that are still to be sent. -/
  messages : List (List UInt8)
  /-- What `rtp_receive_message` returned. -/
  responses : List Message
  /-- What was printed of it. -/
  prints : List (List UInt8)
  deriving DecidableEq, Repr

namespace Client

section Main

variable (memory : Nat → Memory)

/-- The loop of `rtp_send_message` at an index, followed by `rtp_receive_message`. -/
def sendLoop (response : Packet) (pack : List Packet) (i : Int) : Phase :=
  if i < pack.length then .sending pack i else .receiving emptyMessage response

section SendLoop

variable {response : Packet} {pack : List Packet} {k : Nat}

theorem sendLoop_of_lt (inside : k < pack.length) : sendLoop response pack k = .sending pack k :=
  if_pos (Int.ofNat_lt.mpr inside)

private theorem sendLoop_zero (nonempty : 0 < pack.length) :
    sendLoop response pack 0 = .sending pack (0 : Nat) :=
  sendLoop_of_lt nonempty

private theorem sendLoop_length :
    sendLoop response pack pack.length = .receiving emptyMessage response :=
  if_neg (Int.lt_irrefl _)

end SendLoop

/-- The loop of `main`: the next message is sent with its NUL. -/
def loop (messages : List (List UInt8)) (responses : List Message) (prints : List (List UInt8)) :
    Client :=
  match messages with
  | [] => { phase := .returned, messages := [], responses, prints }
  | text :: messages =>
      match packetize (text ++ [0]) (memory responses.length).packets with
      | none => { phase := .failed, messages, responses, prints }
      | some pack =>
          { phase := sendLoop (memory responses.length).response pack 0, messages, responses
            prints }

/-- The end of an iteration of `main`, which prints the response. -/
def finish (client : Client) (message : Message) : Client :=
  match printed message.buffer (memory client.responses.length).behind with
  | none => { client with phase := .failed }
  | some text =>
      loop memory client.messages (client.responses ++ [message]) (client.prints ++ [text])

/-- `sendto`. -/
def emit (client : Client) : Option (Packet × Client) :=
  match client.phase with
  | .sending pack i =>
      (if 0 ≤ i then pack[i.toNat]? else none).map fun packet =>
        (packet, { client with phase := .awaiting pack i })
  | .responding message response ends =>
      some (response, if ends then finish memory client message
        else { client with phase := .receiving message response })
  | _ => none

/-- `recvfrom`. -/
def absorb (client : Client) (package : Packet) : Option Client :=
  match client.phase with
  | .awaiting pack i =>
      some { client with
        phase := sendLoop (memory client.responses.length).response pack (nextIndex i package) }
  | .receiving message response =>
      (receivePackage (memory client.responses.length).part response message package).map
        fun (message, response, ends) =>
          { client with phase := .responding message response ends }
  | _ => none

/-- `main`. -/
def party : Party Client Packet Packet where
  emit := emit memory
  absorb := absorb memory
  exclusive client package emits := by
    cases phase : client.phase <;> simp [emit, absorb, phase] at emits ⊢

end Main

end Client

/-! ## The server -/

namespace Server

/-- Where the server is in the loop of `runServer`. -/
inductive Phase where
  /-- Before `recvfrom` in the first loop. -/
  | receiving (message : List UInt8)
  /-- Before `sendto` in the first loop, and whether the loop ends. -/
  | responding (message : List UInt8) (response : Packet) (ends : Bool)
  /-- Before `sendto` in the second loop. -/
  | sending (packets : List Fields) (i : Int)
  /-- Before `recvfrom` in the second loop. -/
  | awaiting (packets : List Fields) (i : Int)
  deriving DecidableEq, Repr

/-- The server in `runServer`. -/
structure Running where
  /-- Where it is. -/
  phase : Phase
  /-- The next outcomes of `random() < DROP_RATE`, which fail from then on. -/
  corruptions : List Bool
  deriving DecidableEq, Repr

namespace Running

/-- The second loop at an index, followed by the first one. -/
def sendLoop (packets : List Fields) (i : Int) : Phase :=
  if i < packets.length then .sending packets i else .receiving []

theorem sendLoop_of_lt {packets : List Fields} {k : Nat} (inside : k < packets.length) :
    sendLoop packets k = .sending packets k :=
  if_pos (Int.ofNat_lt.mpr inside)

private theorem sendLoop_zero {packets : List Fields} (nonempty : 0 < packets.length) :
    sendLoop packets 0 = .sending packets (0 : Nat) :=
  sendLoop_of_lt nonempty

private theorem sendLoop_length (packets : List Fields) :
    sendLoop packets packets.length = .receiving [] :=
  if_neg (Int.lt_irrefl _)

/-- `sendto`. -/
def emit (server : Running) : Option (Packet × Running) :=
  match server.phase with
  | .responding message response ends =>
      some (response, { server with
        phase := if ends then sendLoop (packetize (reply message)) 0 else .receiving message })
  | .sending packets i =>
      (if 0 ≤ i then packets[i.toNat]? else none).map fun packet =>
        (currPkt packet (server.corruptions.headD false),
          { phase := .awaiting packets i, corruptions := server.corruptions.tail })
  | _ => none

/-- `recvfrom`. -/
def absorb (server : Running) (msg : Packet) : Option Running :=
  match server.phase with
  | .receiving message =>
      (receive message msg (server.corruptions.headD false)).map
        fun (message, response, ends) =>
          { phase := .responding message response ends, corruptions := server.corruptions.tail }
  | .awaiting packets i =>
      (nextIndex i msg).map fun i => { server with phase := sendLoop packets i }
  | _ => none

/-- `runServer`. -/
def party : Party Running Packet Packet where
  emit := emit
  absorb := absorb
  exclusive server msg emits := by
    cases phase : server.phase <;> simp [emit, absorb, phase] at emits ⊢

end Running

end Server

/-! ## The session -/

/-- The client, the server and the packets between them. -/
abbrev Session := Duplex Client Server.Running Packet Packet

namespace Session

/-- A step of the client or of the server. -/
def next (memory : Nat → Memory) (session : Session) (action : Duplex.Action) : Option Session :=
  Duplex.next (Client.party memory) Server.Running.party session action

/-- `main` begins while the server waits. -/
def start (memory : Nat → Memory) (texts : List (List UInt8)) (corruptions : List Bool) :
    Session where
  left := Client.loop memory texts [] []
  right := { phase := .receiving [], corruptions }
  toRight := []
  toLeft := []

/-- Packets are transferred by four steps each, and four more for each corruption that is simulated
on the way. -/
def Transfers (memory : Nat → Memory) (packets : Nat) (before after : List Bool → Session) : Prop :=
  ∀ corruptions, ∃ length rest,
    Runs (next memory) length (before corruptions) (after rest) ∧
      length + 4 * rest.count true = 4 * (packets + corruptions.count true)

section Transfers

variable {memory : Nat → Memory} {first second : Nat} {before middle after : List Bool → Session}

theorem Transfers.trans (begins : Transfers memory first before middle)
    (ends : Transfers memory second middle after) :
    Transfers memory (first + second) before after := by
  intro corruptions
  obtain ⟨length, others, runs, cost⟩ := begins corruptions
  obtain ⟨more, rest, continues, others⟩ := ends others
  exact ⟨length + more, rest, runs.trans continues, by omega⟩

/-- A packet is repeated until no corruption of it is simulated. A refusal may change something in
the receiver. -/
theorem transfers_packet {ρ : Type} (attempt : ρ → List Bool → Session)
    (takes : ∀ left, ∀ corruptions : List Bool, corruptions.headD false = false →
      Runs (next memory) 4 (attempt left corruptions) (after corruptions.tail))
    (refuses : ∀ left corruptions, ∃ refused,
      Runs (next memory) 4 (attempt left (true :: corruptions)) (attempt refused corruptions))
    (left : ρ) : Transfers memory 1 (attempt left) after := by
  intro corruptions
  induction corruptions generalizing left with
  | nil => exact ⟨4, [], takes left [] rfl, rfl⟩
  | cons corrupts corruptions ih =>
      cases corrupts with
      | false => exact ⟨4, corruptions, takes left _ rfl, by simp; omega⟩
      | true =>
          obtain ⟨refused, repeats⟩ := refuses left corruptions
          obtain ⟨length, rest, runs, cost⟩ := ih refused
          refine ⟨4 + length, rest, repeats.trans runs, ?_⟩
          rw [List.count_cons_self]
          omega

end Transfers

/-! ## A message -/

section Request

variable {memory : Nat → Memory} {client : Client} {pack : List Packet} {k : Nat}
  {fragment message : List UInt8} {last : Bool} {corruptions : List Bool}

theorem emit_sending (present : k < pack.length) :
    (Client.party memory).emit { client with phase := .sending pack k } =
      some (pack[k], { client with phase := .awaiting pack k }) := by
  simp [Client.party, Client.emit, present]

theorem absorb_awaiting (memory : Nat → Memory) (client : Client) (pack : List Packet)
    {response : Packet} {i : Int} (goes : nextIndex k response = i) :
    (Client.party memory).absorb { client with phase := .awaiting pack k } response =
      some { client with
        phase := Client.sendLoop (memory client.responses.length).response pack i } := by
  simp [Client.party, Client.absorb, goes]

theorem absorb_receiving {msg response : Packet} {after : List UInt8} {ends : Bool}
    (receives : Server.receive message msg (corruptions.headD false) =
      some (after, response, ends)) :
    Server.Running.party.absorb { phase := .receiving message, corruptions } msg =
      some { phase := .responding after response ends, corruptions := corruptions.tail } := by
  simp only [Server.Running.party, Server.Running.absorb, receives, Option.map_some]

/-- The state while the client sends a packet of a message. -/
def requesting (client : Client) (pack : List Packet) (k : Nat) (message : List UInt8)
    (corruptions : List Bool) : Session where
  left := { client with phase := .sending pack k }
  right := { phase := .receiving message, corruptions }
  toRight := []
  toLeft := []

/-- The state after the server has taken a packet. -/
def requested (memory : Nat → Memory) (client : Client) (pack : List Packet) (k : Nat)
    (message : List UInt8) (last : Bool) (corruptions : List Bool) : Session where
  left := { client with
    phase := Client.sendLoop (memory client.responses.length).response pack (k : Nat) }
  right :=
    { phase :=
        if last then Server.Running.sendLoop (Server.packetize (Server.reply message)) 0
        else .receiving message
      corruptions }
  toRight := []
  toLeft := []

private theorem takes (present : k < pack.length) (carries : Carries pack[k] fragment last)
    (ascii : ∀ byte ∈ fragment, byte < 128) (clean : corruptions.headD false = false) :
    Runs (next memory) 4 (requesting client pack k message corruptions)
      (requested memory client pack (k + 1) (message ++ Server.strip fragment) last
        corruptions.tail) := by
  have receives : Server.receive message pack[k] (corruptions.headD false) =
      some (message ++ Server.strip fragment, Server.response .ack, last) := by
    rw [clean]
    exact Server.receive_carries carries ascii
  exact Duplex.exchange_left (emit_sending present) (absorb_receiving receives) rfl
    (absorb_awaiting memory client pack (nextIndex_ack rfl k))

private theorem refuses (present : k < pack.length) (carries : Carries pack[k] fragment last)
    (ascii : ∀ byte ∈ fragment, byte < 128) :
    Runs (next memory) 4 (requesting client pack k message (true :: corruptions))
      (requesting client pack k message corruptions) := by
  have receives : Server.receive message pack[k] ((true :: corruptions).headD false) = _ :=
    Server.receive_corrupts carries ascii
  have goes : nextIndex k (Server.response .nack) = k := nextIndex_nack rfl k
  have answers := absorb_awaiting memory client pack goes
  rw [Client.sendLoop_of_lt present] at answers
  exact Duplex.exchange_left (emit_sending present) (absorb_receiving receives) rfl answers

private theorem transfers_fragment (present : k < pack.length)
    (carries : Carries pack[k] fragment last) (ascii : ∀ byte ∈ fragment, byte < 128) :
    Transfers memory 1 (requesting client pack k message)
      (requested memory client pack (k + 1) (message ++ Server.strip fragment) last) :=
  transfers_packet (fun _ : Unit => requesting client pack k message)
    (fun _ _ clean => takes present carries ascii clean)
    (fun _ _ => ⟨(), refuses present carries ascii⟩) ()

end Request

private theorem transfers_fragments (memory : Nat → Memory) (client : Client) {pack : List Packet}
    {sent : List UInt8} (length : pack.length = packagenum sent.length)
    (carries : ∀ i (inside : i < pack.length),
      Carries pack[i] (fragment sent i) (decide (i + 1 = packagenum sent.length)))
    (ascii : ∀ byte ∈ sent, byte < 128) {k : Nat} (inside : k < pack.length) :
    Transfers memory (pack.length - k) (requesting client pack k (Server.reassembled sent k))
      (requested memory client pack pack.length (Server.reassembled sent pack.length) true) := by
  have single : ∀ k (present : k < pack.length), Transfers memory 1
      (requesting client pack k (Server.reassembled sent k))
      (requested memory client pack (k + 1) (Server.reassembled sent (k + 1))
        (decide (k + 1 = pack.length))) := by
    intro k present
    rw [Server.reassembled_succ, length]
    exact transfers_fragment present (carries k present) fun byte member =>
      ascii byte (mem_of_mem_fragment member)
  obtain ⟨left, ends⟩ := Nat.exists_eq_add_of_lt inside
  rw [show pack.length - k = left + 1 by omega]
  induction left generalizing k with
  | zero =>
      have transfers := single k inside
      rwa [decide_eq_true ends.symm, ← ends] at transfers
  | succ left ih =>
      have transfers := single k inside
      have more : k + 1 < pack.length := by omega
      have goes : requested memory client pack (k + 1) (Server.reassembled sent (k + 1)) false =
          requesting client pack (k + 1) (Server.reassembled sent (k + 1)) := by
        funext corruptions
        simp only [requested, requesting, Client.sendLoop_of_lt more, Bool.false_eq_true, if_false]
      rw [decide_eq_false (Nat.ne_of_lt more), goes] at transfers
      rw [Nat.add_comm]
      exact transfers.trans (ih more (by omega))

/-! ## A response -/

section Reply

variable {memory : Nat → Memory} {client : Client} {message : Message} {response : Packet}
  {packets : List Server.Fields} {k : Nat} {fragment : List UInt8} {last : Bool}
  {corruptions : List Bool}

/-- The state while the server sends a packet of a response. -/
def replying (client : Client) (message : Message) (response : Packet)
    (packets : List Server.Fields) (k : Nat) (corruptions : List Bool) : Session where
  left := { client with phase := .receiving message response }
  right := { phase := .sending packets k, corruptions }
  toRight := []
  toLeft := []

/-- The state after the client has taken a packet. -/
def replied (memory : Nat → Memory) (client : Client) (message : Message) (response : Packet)
    (packets : List Server.Fields) (k : Nat) (last : Bool) (corruptions : List Bool) :
    Session where
  left :=
    if last then Client.finish memory client message
    else { client with phase := .receiving message response }
  right := { phase := Server.Running.sendLoop packets (k : Nat), corruptions }
  toRight := []
  toLeft := []

theorem emit_replying (present : k < packets.length) :
    Server.Running.party.emit { phase := .sending packets k, corruptions } =
      some (Server.currPkt packets[k] (corruptions.headD false),
        { phase := .awaiting packets k, corruptions := corruptions.tail }) := by
  simp [Server.Running.party, Server.Running.emit, present]

theorem absorb_replying (packets : List Server.Fields) (corruptions : List Bool) {i : Int}
    (goes : Server.nextIndex k response = some i) :
    Server.Running.party.absorb { phase := .awaiting packets k, corruptions } response =
      some { phase := Server.Running.sendLoop packets i, corruptions } := by
  simp [Server.Running.party, Server.Running.absorb, goes]

theorem absorb_package {package answer : Packet} {after : Message} {ends : Bool}
    (receives : receivePackage (memory client.responses.length).part response message package =
      some (after, answer, ends)) :
    (Client.party memory).absorb { client with phase := .receiving message response } package =
      some { client with phase := .responding after answer ends } := by
  simp only [Client.party, Client.absorb, receives, Option.map_some]

theorem emit_responding {ends : Bool} :
    (Client.party memory).emit { client with phase := .responding message response ends } =
      some (response, if ends then Client.finish memory client message
        else { client with phase := .receiving message response }) :=
  rfl

private theorem takes_reply (present : k < packets.length)
    (carries : Carries (Server.currPkt packets[k] false) fragment last) (whole : message.Whole)
    (fits : message.length + fragment.length ≤ intMax) (clean : corruptions.headD false = false) :
    Runs (next memory) 4 (replying client message response packets k corruptions)
      (replied memory client
        { buffer := message.buffer ++ fragment, length := message.length + fragment.length }
        { response with type := PacketType.ack.code } packets (k + 1) last corruptions.tail) := by
  have receives : receivePackage (memory client.responses.length).part response message
      (Server.currPkt packets[k] (corruptions.headD false)) = some
        ({ buffer := message.buffer ++ fragment, length := message.length + fragment.length },
          { response with type := PacketType.ack.code }, last) := by
    rw [clean]
    exact receivePackage_carries carries whole fits
  have goes : Server.nextIndex k { response with type := PacketType.ack.code } =
      some ((k + 1 : Nat) : Int) := by
    simp [Server.nextIndex]
  exact Duplex.exchange_right (emit_replying present) (absorb_package receives) emit_responding
    (absorb_replying packets _ goes)

private theorem refuses_reply (present : k < packets.length)
    (carries : Carries (Server.currPkt packets[k] false) fragment last) :
    Runs (next memory) 4
      (replying client message response packets k (true :: corruptions))
      (replying client message { response with type := PacketType.nack.code } packets k
        corruptions) := by
  have mismatched : Mismatched (Server.currPkt packets[k] true) := by
    refine ⟨_, carries.sum packets[k].pack.payload, ?_⟩
    have sum := carries.checksum
    have changed : (Server.currPkt packets[k] true).checksum =
        (Server.currPkt packets[k] false).checksum + 13 := rfl
    have payload : packets[k].pack.payload.toList.take fragment.length = fragment := carries.payload
    rw [changed, sum, payload]
    omega
  have receives : receivePackage (memory client.responses.length).part response message
      (Server.currPkt packets[k] true) =
        some (message, { response with type := PacketType.nack.code }, false) :=
    receivePackage_mismatched mismatched
  have goes : Server.nextIndex k { response with type := PacketType.nack.code } =
      some (k : Int) := by
    simp [Server.nextIndex]
  have answers := absorb_replying packets corruptions goes
  rw [Server.Running.sendLoop_of_lt present] at answers
  exact Duplex.exchange_right (emit_replying present) (absorb_package receives) emit_responding
    answers

private theorem transfers_reply (present : k < packets.length)
    (carries : Carries (Server.currPkt packets[k] false) fragment last) (whole : message.Whole)
    (fits : message.length + fragment.length ≤ intMax) :
    Transfers memory 1 (replying client message response packets k)
      (replied memory client
        { buffer := message.buffer ++ fragment, length := message.length + fragment.length }
        { response with type := PacketType.ack.code } packets (k + 1) last) := by
  let attempt type := replying client message { response with type } packets k
  refine transfers_packet attempt (fun _ _ clean => ?_) (fun _ _ => ?_) response.type
  · exact takes_reply present carries whole fits clean
  · exact ⟨_, refuses_reply present carries⟩

end Reply

private theorem transfers_replies (memory : Nat → Memory) (client : Client) {sent : List UInt8}
    (nonempty : sent ≠ []) (ascii : ∀ byte ∈ sent, byte < 128) (fits : sent.length ≤ intMax)
    {k : Nat} (inside : k < packagenum sent.length) (response : Packet) :
    Transfers memory (packagenum sent.length - k)
      (replying client (delivered sent k) response (Server.packetize sent) k)
      (replied memory client (delivered sent (packagenum sent.length))
        { response with type := PacketType.ack.code } (Server.packetize sent)
        (packagenum sent.length) true) := by
  obtain ⟨length, carries⟩ := Server.packetize_spec nonempty ascii
  have single : ∀ k < packagenum sent.length, ∀ response, Transfers memory 1
      (replying client (delivered sent k) response (Server.packetize sent) k)
      (replied memory client (delivered sent (k + 1))
        { response with type := PacketType.ack.code } (Server.packetize sent) (k + 1)
        (decide (k + 1 = packagenum sent.length))) := by
    intro k inside response
    have present : k < (Server.packetize sent).length := by rwa [length]
    have after := (delivered_whole fits (k + 1)).isInt
    rw [delivered_succ] at after ⊢
    exact transfers_reply present (carries k present) (delivered_whole fits k) after
  obtain ⟨left, ends⟩ := Nat.exists_eq_add_of_lt inside
  rw [show packagenum sent.length - k = left + 1 by omega]
  induction left generalizing k response with
  | zero =>
      have transfers := single k inside response
      rwa [decide_eq_true ends.symm, ← ends] at transfers
  | succ left ih =>
      have transfers := single k inside response
      have more : k + 1 < packagenum sent.length := by omega
      have goes : replied memory client (delivered sent (k + 1))
          { response with type := PacketType.ack.code } (Server.packetize sent) (k + 1) false =
          replying client (delivered sent (k + 1))
            { response with type := PacketType.ack.code } (Server.packetize sent) (k + 1) := by
        funext corruptions
        have position : k + 1 < (Server.packetize sent).length := by rwa [length]
        simp only [replied, replying, Server.Running.sendLoop_of_lt position, Bool.false_eq_true,
          if_false]
      rw [decide_eq_false (Nat.ne_of_lt more), goes] at transfers
      rw [Nat.add_comm]
      exact transfers.trans (ih more _ (by omega))

/-! ## The session -/

/-- The response to a text: the translation of what the server holds of it. -/
def answer (text : List UInt8) : Message where
  length := (Server.reply (Server.received text)).length
  buffer := Server.reply (Server.received text)

/-- What is printed of the response to text `i`: the response, and what memory holds behind it up to
a NUL. -/
def shown (memory : Nat → Memory) (text : List UInt8) (i : Nat) : List UInt8 :=
  Server.reply (Server.received text) ++ (memory i).behind.takeWhile (· ≠ 0)

/-- The state before the next message. -/
def waiting (memory : Nat → Memory) (texts : List (List UInt8)) (responses : List Message)
    (prints : List (List UInt8)) (corruptions : List Bool) : Session where
  left := Client.loop memory texts responses prints
  right := { phase := .receiving [], corruptions }
  toRight := []
  toLeft := []

/-- The number of packets of a text and of the response. -/
def exchanged (text : List UInt8) : Nat :=
  packagenum (text ++ [0]).length + packagenum (Server.reply (Server.received text)).length

/-- A text that `main` can send and whose response it can receive. -/
structure Exchangeable (text : List UInt8) : Prop where
  /-- A string has no NUL before its end. -/
  nulFree : 0 ∉ text
  /-- The checksums of client and server agree. -/
  ascii : ∀ byte ∈ text, byte < 128
  /-- The products of `packetize` are `int`s. -/
  request : text.length + 1 ≤ 2147483640
  /-- The length of the response is an `int`. -/
  response : (Server.reply (Server.received text)).length ≤ 2147483647

section Whole

variable {memory : Nat → Memory} {text : List UInt8} {texts : List (List UInt8)}
  {responses : List Message} {prints : List (List UInt8)} {corruptions : List Bool}

private theorem printed_eq {buffer behind : List UInt8} (nulFree : 0 ∉ buffer) (ends : 0 ∈ behind) :
    printed buffer behind = some (buffer ++ behind.takeWhile (· ≠ 0)) := by
  have notNul : ∀ byte ∈ buffer, decide (byte ≠ 0) = true := fun byte member =>
    decide_eq_true (ne_of_mem_of_not_mem member nulFree)
  rw [printed, if_pos (List.mem_append_right _ ends), List.takeWhile_append_of_pos notNul]

namespace Exchangeable

theorem reply_ascii (exchangeable : Exchangeable text) :
    ∀ byte ∈ Server.reply (Server.received text), byte < 128 :=
  Server.reply_ascii fun byte member => exchangeable.ascii byte (Server.mem_of_mem_received member)

private theorem reply_nulFree (exchangeable : Exchangeable text) :
    0 ∉ Server.reply (Server.received text) := by
  have notNul : ∀ byte ∈ Server.reply (Server.received text), byte ≠ 0 :=
    Server.reply_forall (by simp) fun byte member =>
      ne_of_mem_of_not_mem (Server.mem_of_mem_received member) exchangeable.nulFree
  exact fun member => notNul 0 member rfl

private theorem sent_ascii (exchangeable : Exchangeable text) :
    ∀ byte ∈ text ++ [0], byte < 128 := by
  simpa [or_imp, forall_and] using exchangeable.ascii

end Exchangeable

/-- The client between a message and the response to it. -/
def between (texts : List (List UInt8)) (responses : List Message) (prints : List (List UInt8)) :
    Client :=
  { phase := .returned, messages := texts, responses, prints }

private theorem transfers_request (exchangeable : Exchangeable text) :
    Transfers memory (packagenum (text ++ [0]).length)
      (waiting memory (text :: texts) responses prints)
      (replying (between texts responses prints)
        (delivered (Server.reply (Server.received text)) 0) (memory responses.length).response
        (Server.packetize (Server.reply (Server.received text))) 0) := by
  have fits : (text ++ [0]).length ≤ 2147483640 := by
    simpa using exchangeable.request
  obtain ⟨pack, packetized, length, carries⟩ :=
    packetize_spec fits (memory responses.length).packets
  have positive : 0 < pack.length := length ▸ packagenum_pos (by simp)
  have begins : waiting memory (text :: texts) responses prints =
      requesting (between texts responses prints) pack 0 [] := by
    funext corruptions
    simp only [waiting, requesting, Client.loop, packetized, Client.sendLoop_zero positive, between]
  have ends : requested memory (between texts responses prints) pack pack.length
      (Server.received text) true =
        replying (between texts responses prints)
          (delivered (Server.reply (Server.received text)) 0) (memory responses.length).response
          (Server.packetize (Server.reply (Server.received text))) 0 := by
    funext corruptions
    have packets := Server.packetize_spec (Server.reply_ne_nil (Server.received text))
      exchangeable.reply_ascii
    have nonempty := packets.1.symm ▸ packagenum_pos (Server.reply_ne_nil (Server.received text))
    simp only [requested, replying, Client.sendLoop_length, if_true, between,
      Server.Running.sendLoop_zero nonempty]
    rfl
  have whole := transfers_fragments memory (between texts responses prints) length carries
    exchangeable.sent_ascii positive
  rw [length] at ends whole
  rw [begins, ← ends]
  exact whole

/-- A response is transferred and printed. -/
theorem transfers_response {sent : List UInt8} (nonempty : sent ≠ [])
    (ascii : ∀ byte ∈ sent, byte < 128) (fits : sent.length ≤ intMax) (nulFree : 0 ∉ sent)
    (ends : 0 ∈ (memory responses.length).behind) (response : Packet) :
    Transfers memory (packagenum sent.length)
      (replying (between texts responses prints) (delivered sent 0) response
        (Server.packetize sent) 0)
      (waiting memory texts (responses ++ [{ length := sent.length, buffer := sent }])
        (prints ++ [sent ++ (memory responses.length).behind.takeWhile (· ≠ 0)])) := by
  have whole := transfers_replies memory (between texts responses prints) nonempty ascii fits
    (packagenum_pos nonempty) response
  have length := (Server.packetize_spec nonempty ascii).1
  have done : replied memory (between texts responses prints)
      (delivered sent (packagenum sent.length)) { response with type := PacketType.ack.code }
      (Server.packetize sent) (packagenum sent.length) true =
        waiting memory texts (responses ++ [{ length := sent.length, buffer := sent }])
          (prints ++ [sent ++ (memory responses.length).behind.takeWhile (· ≠ 0)]) := by
    funext corruptions
    rw [← length]
    simp only [replied, waiting, Server.Running.sendLoop_length, if_true]
    rw [length, delivered, take_packagenum]
    simp only [Client.finish, between, printed_eq nulFree ends]
  rwa [done] at whole

private theorem transfers_exchange (exchangeable : Exchangeable text)
    (ends : 0 ∈ (memory responses.length).behind) :
    Transfers memory (exchanged text) (waiting memory (text :: texts) responses prints)
      (waiting memory texts (responses ++ [answer text])
        (prints ++ [shown memory text responses.length])) := by
  have fits : ((Server.reply (Server.received text)).length : Int) ≤ intMax :=
    Int.ofNat_le.mpr exchangeable.response
  exact (transfers_request exchangeable).trans
    (transfers_response (Server.reply_ne_nil _) exchangeable.reply_ascii fits
      exchangeable.reply_nulFree ends _)

private theorem transfers_session (exchangeable : ∀ text ∈ texts, Exchangeable text)
    (ends : ∀ i, 0 ∈ (memory i).behind) (responses : List Message) (prints : List (List UInt8)) :
    Transfers memory (texts.map exchanged).sum (waiting memory texts responses prints)
      (waiting memory [] (responses ++ texts.map answer)
        (prints ++ (texts.zipIdx responses.length).map fun (text, i) => shown memory text i)) := by
  induction texts generalizing responses prints with
  | nil =>
      simp only [List.map_nil, List.append_nil, List.zipIdx_nil]
      exact fun corruptions => ⟨0, corruptions, .refl _ _, by simp⟩
  | cons text texts ih =>
      rw [List.forall_mem_cons] at exchangeable
      have rest := ih exchangeable.2 (responses ++ [answer text])
        (prints ++ [shown memory text responses.length])
      rw [List.append_assoc, List.append_assoc, List.length_append, List.length_singleton] at rest
      exact (transfers_exchange exchangeable.1 (ends responses.length)).trans rest

/-- After the last response the server waits, and nothing happens any more. -/
theorem waiting_stuck : Stuck (next memory) (waiting memory [] responses prints corruptions) := by
  intro action
  cases action <;> rfl

/-! ## Every run -/

/-- What a step of the client keeps: what was returned and printed stays, and a client that has failed
stays where it is. -/
structure Keeps (before after : Client) : Prop where
  /-- Responses are only added. -/
  responses : before.responses <+: after.responses
  /-- Printed texts are only added. -/
  prints : before.prints <+: after.prints
  /-- A client that has failed does nothing. -/
  failed : before.phase = .failed → after.phase = .failed

theorem Keeps.refl (client : Client) : Keeps client client :=
  ⟨List.prefix_refl _, List.prefix_refl _, id⟩

private theorem Keeps.trans {before middle after : Client} (first : Keeps before middle)
    (second : Keeps middle after) : Keeps before after :=
  ⟨first.responses.trans second.responses, first.prints.trans second.prints,
    second.failed ∘ first.failed⟩

theorem Keeps.phase {client : Client} (goes : client.phase ≠ .failed) (phase : Client.Phase) :
    Keeps client { client with phase } :=
  ⟨List.prefix_refl _, List.prefix_refl _, fun failed => absurd failed goes⟩

private theorem loop_keeps :
    (Client.loop memory texts responses prints).responses = responses ∧
      (Client.loop memory texts responses prints).prints = prints := by
  cases texts with
  | nil => exact ⟨rfl, rfl⟩
  | cons text texts =>
      cases made : packetize (text ++ [0]) (memory responses.length).packets <;>
        simp [Client.loop, made]

private theorem keeps_finish {client : Client} (goes : client.phase ≠ .failed) (message : Message) :
    Keeps client (Client.finish memory client message) := by
  unfold Client.finish
  split
  · exact .phase goes _
  · refine ⟨?_, ?_, fun failed => absurd failed goes⟩
    · rw [loop_keeps.1]
      exact List.prefix_append _ _
    · rw [loop_keeps.2]
      exact List.prefix_append _ _

private theorem keeps_emit {client after : Client} {packet : Packet}
    (emits : (Client.party memory).emit client = some (packet, after)) : Keeps client after := by
  simp only [Client.party, Client.emit] at emits
  split at emits
  case h_1 pack i phase =>
    obtain ⟨_, -, same⟩ := Option.map_eq_some_iff.mp emits
    obtain ⟨-, rfl⟩ := Prod.mk.inj same
    exact .phase (by simp [phase]) _
  case h_2 message response ends phase =>
    obtain ⟨-, rfl⟩ := Prod.mk.inj (Option.some.inj emits)
    have goes : client.phase ≠ .failed := by simp [phase]
    split
    · exact keeps_finish goes message
    · exact .phase goes _
  case h_3 => cases emits

private theorem keeps_absorb {client after : Client} {packet : Packet}
    (absorbs : (Client.party memory).absorb client packet = some after) : Keeps client after := by
  simp only [Client.party, Client.absorb] at absorbs
  split at absorbs
  case h_1 pack i phase =>
    obtain rfl := Option.some.inj absorbs
    exact .phase (by simp [phase]) _
  case h_2 message response phase =>
    obtain ⟨_, -, rfl⟩ := Option.map_eq_some_iff.mp absorbs
    exact .phase (by simp [phase]) _
  case h_3 => cases absorbs

private theorem keeps_next {session after : Session} {action : Duplex.Action}
    (steps : next memory session action = some after) : Keeps session.left after.left := by
  cases action with
  | leftEmits =>
      obtain ⟨_, _, emits, rfl⟩ := Duplex.next_leftEmits.mp steps
      exact keeps_emit emits
  | leftAbsorbs =>
      obtain ⟨_, _, _, -, absorbs, rfl⟩ := Duplex.next_leftAbsorbs.mp steps
      exact keeps_absorb absorbs
  | rightEmits =>
      obtain ⟨_, _, -, rfl⟩ := Duplex.next_rightEmits.mp steps
      exact .refl _
  | rightAbsorbs =>
      obtain ⟨_, _, _, -, -, rfl⟩ := Duplex.next_rightAbsorbs.mp steps
      exact .refl _

private theorem keeps_run {labels : List Duplex.Action} {session after : Session}
    (runs : labels.foldlM (next memory) session = some after) : Keeps session.left after.left := by
  induction labels generalizing session with
  | nil =>
      obtain rfl := Option.some.inj runs
      exact .refl _
  | cons action labels ih =>
      obtain ⟨middle, steps, runs⟩ := Option.bind_eq_some_iff.mp (List.foldlM_cons.symm.trans runs)
      exact (keeps_next steps).trans (ih runs)

/-- A run from the start reaches a state. -/
def Reaches (memory : Nat → Memory) (texts : List (List UInt8)) (corruptions : List Bool)
    (labels : List Duplex.Action) (state : Session) : Prop :=
  labels.foldlM (next memory) (start memory texts corruptions) = some state

/-- What holds of a session whose runs all lead to the same state. -/
structure Settles (memory : Nat → Memory) (texts : List (List UInt8)) (corruptions : List Bool)
    (final : Session) : Prop where
  /-- `main` has returned. It has received the response to every text, and printed it together with
  what memory holds behind it. -/
  client : final.left =
    { phase := .returned, messages := [], responses := texts.map answer
      prints := texts.zipIdx.map fun (text, i) => shown memory text i }
  /-- The server waits for a message. -/
  server : final.right.phase = .receiving []
  /-- No packet is left over. -/
  channels : final.toRight = [] ∧ final.toLeft = []
  /-- On the way the client does not fail, and has received and printed what it has in the end. -/
  sound : ∀ labels state, Reaches memory texts corruptions labels state →
    state.left.phase ≠ .failed ∧ state.left.responses <+: final.left.responses ∧
      state.left.prints <+: final.left.prints
  /-- No run is longer than a bound. -/
  bounded : ∀ labels state, Reaches memory texts corruptions labels state →
    labels.length ≤ 4 * ((texts.map exchanged).sum + corruptions.count true)
  /-- Every run can be continued to the state. -/
  continues : ∀ labels state, Reaches memory texts corruptions labels state →
    ∃ rest, Reaches memory texts corruptions (labels ++ rest) final
  /-- A run that cannot go on is there. -/
  ends : ∀ labels state, Reaches memory texts corruptions labels state →
    Stuck (next memory) state → state = final

/-- The response to a text that is received as it is. -/
theorem answer_of_intact (exchangeable : Exchangeable text) (intact : Server.Intact text) :
    answer text = { length := (Server.reply text).length, buffer := Server.reply text } := by
  rw [answer, (Server.received_eq_iff exchangeable.nulFree).mpr intact]

/-- The client receives the response to each of its messages, whatever memory holds, whichever
packets the server corrupts, and in whatever order the two programs take their steps. It is the
response to the message itself if no fragment of the message begins or ends with `x` or `0`. What is
printed goes on behind the response to the next NUL in memory. -/
theorem session_exact {texts : List (List UInt8)}
    (exchangeable : ∀ text ∈ texts, Exchangeable text) {memory : Nat → Memory}
    (ends : ∀ i, 0 ∈ (memory i).behind) (corruptions : List Bool) :
    (∃ final, Settles memory texts corruptions final) ∧
      ∀ text ∈ texts, Server.Intact text →
        answer text = { length := (Server.reply text).length, buffer := Server.reply text } := by
  refine ⟨?_, fun text member intact => answer_of_intact (exchangeable text member) intact⟩
  obtain ⟨_, rest, ⟨complete, rfl, runs⟩, cost⟩ :=
    transfers_session exchangeable ends [] [] corruptions
  have commuting : Commuting (next memory) := Duplex.commuting _ _
  have finishes : ∀ labels state, Reaches memory texts corruptions labels state → ∃ more,
      (labels ++ more).Perm complete ∧ more.foldlM (next memory) state =
        some (waiting memory [] (texts.map answer)
          (texts.zipIdx.map fun (text, i) => shown memory text i) rest) :=
    fun labels state begins => commuting.continues runs waiting_stuck begins
  refine ⟨waiting memory [] (texts.map answer)
    (texts.zipIdx.map fun (text, i) => shown memory text i) rest, rfl, rfl, ⟨rfl, rfl⟩, ?_, ?_,
    ?_, ?_⟩ <;> intro labels state begins
  case refine_4 => exact fun halted => (commuting.unique runs waiting_stuck begins halted).2
  all_goals obtain ⟨more, perm, ends⟩ := finishes labels state begins
  case refine_1 =>
    have keeps := keeps_run ends
    exact ⟨fun failed => (nomatch keeps.failed failed), keeps.responses, keeps.prints⟩
  case refine_2 =>
    have length := perm.length_eq
    rw [List.length_append] at length
    omega
  case refine_3 =>
    refine ⟨more, ?_⟩
    rw [Reaches, List.foldlM_append, begins]
    exact ends

/-- The messages of `main`. -/
def messages : List (List UInt8) :=
  ["C is quirky flawed and an enormous success - Dennis M. Ritchie",
    "The question of whether computers can think is like the question of whether submarines " ++
      "can swim - Edsger W. Dijkstra",
    "Typing is no substitute for thinking. - Dartmouth Basic Manual",
    "Any C programmer here ? Yeah i got a C in programming class. That counts ? - Unknown",
    "The Internet?  Is that thing still around? - Homer Simpson"].map
      fun text => text.toList.map Char.toUInt8

/-- Memory that is zeroed, where an exclamation mark is behind each response. -/
def exclaiming : Memory where
  packets _ := blank
  response := blank
  part := zeroed
  behind := [33, 0]

/-- No letter of the messages of `main` is lost, and every response is printed with the exclamation
mark behind it. -/
theorem session_exact_messages : ∃ final,
    Settles (fun _ => exclaiming) messages [true, false, true] final ∧
      (final.left.responses = messages.map fun text =>
        { length := (Server.reply text).length, buffer := Server.reply text }) ∧
      final.left.prints = messages.map fun text => Server.reply text ++ [33] := by
  have checked : ∀ text ∈ messages, 0 ∉ text ∧ Server.Intact text ∧
      (∀ byte ∈ text, byte < 128) ∧ text.length + 1 ≤ 2147483640 ∧
        (Server.reply text).length ≤ 2147483647 := by
    unfold Server.Intact
    decide +kernel
  have received : ∀ text ∈ messages, Server.received text = text := fun text member =>
    (Server.received_eq_iff (checked text member).1).mpr (checked text member).2.1
  have exchangeable : ∀ text ∈ messages, Exchangeable text := by
    intro text member
    obtain ⟨nulFree, -, ascii, request, response⟩ := checked text member
    exact ⟨nulFree, ascii, request, by rwa [received text member]⟩
  obtain ⟨⟨final, settles⟩, answers⟩ := session_exact exchangeable
    (fun _ => by decide : ∀ _ : Nat, 0 ∈ exclaiming.behind) [true, false, true]
  refine ⟨final, settles, ?_, ?_⟩
  · rw [settles.client]
    exact List.map_congr_left fun text member => answers text member (checked text member).2.1
  · have prints : ∀ entry ∈ messages.zipIdx,
        shown (fun _ => exclaiming) entry.1 entry.2 = Server.reply entry.1 ++ [33] := by
      intro entry member
      rw [shown, received _ (List.fst_mem_of_mem_zipIdx member)]
      rfl
    have names : messages.zipIdx.map Prod.fst = messages := List.zipIdx_map_fst 0 messages
    rw [settles.client]
    calc
      _ = messages.zipIdx.map fun entry => Server.reply entry.1 ++ [33] :=
        List.map_congr_left prints
      _ = (messages.zipIdx.map Prod.fst).map fun text => Server.reply text ++ [33] := by
        simp only [List.map_map, Function.comp_def]
      _ = _ := by rw [names]

end Whole

end Session

end CS2200.Transport
