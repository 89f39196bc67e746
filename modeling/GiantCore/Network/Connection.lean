import GiantCore.Foundation.Run
import GiantCore.Network.Messages
import GiantCore.Primitives.Transaction

/-! # A connection between two nodes

One node pushes messages, of which its socket takes as many bytes as it likes; the other receives
them in pieces of any size and processes them, until it shuts the connection down. In every order of
these steps the second node processes the messages that the first one pushed, in their order and
each of them once, and no assertion of the sender fails (`connection_delivers`). A command is cut to
the twelve bytes of its field. The bytes between the nodes are those of a TCP connection: none is
lost, and they stay in order. The options that drop or fuzz messages on purpose are left out.
-/

namespace GiantCore

open Foundation.Buffers

/-- `Params().MessageStart()`, and `Hash`. -/
structure NetParams where
  messageStart : List UInt8
  hash : List UInt8 → Uint256
  four : messageStart.length = 4

/-- `strncpy` into `pchCommand`. -/
def commandField (pszCommand : List UInt8) : List UInt8 :=
  (pszCommand ++ List.replicate 12 0).take 12

namespace NetParams

variable (params : NetParams)

/-- `BeginMessage`: what `ssSend` holds then. -/
def beginMessage (pszCommand : List UInt8) : List UInt8 :=
  CMessageHeader.serialize
    { pchMessageStart := params.messageStart
      pchCommand := commandField pszCommand
      nMessageSize := 0
      nChecksum := 0 }

/-- The checksum of data. -/
def checksum (data : List UInt8) : Nat := (params.hash data).toNat % 2 ^ 32

/-- `EndMessage`: the size and the checksum are put into the header. -/
def endMessage (ssSend : List UInt8) : List UInt8 :=
  let ssSend := overwrite ssSend 16 (fixedBytes 4 (ssSend.length - 24))
  overwrite ssSend 20 (fixedBytes 4 (params.checksum (ssSend.drop 24)))

end NetParams

/-! ## Sending -/

/-- `SocketSendData`: the messages that are left with the offset and the size, and the bytes that
the socket took. `accepted` is what the calls of `send` return. Nothing where an assertion
fails. -/
def socketSendData : List (List UInt8) → Nat → Nat → List Nat →
    Option (List (List UInt8) × Nat × Nat × List UInt8)
  | [], nSendOffset, nSendSize, _ =>
      if nSendOffset = 0 ∧ nSendSize = 0 then some ([], nSendOffset, nSendSize, []) else none
  | data :: rest, nSendOffset, nSendSize, accepted =>
      if data.length ≤ nSendOffset then none
      else
        match accepted with
        | [] => some (data :: rest, nSendOffset, nSendSize, [])
        | returned :: accepted =>
            let nBytes := min returned (data.length - nSendOffset)
            if nBytes = 0 then some (data :: rest, nSendOffset, nSendSize, [])
            else if nSendOffset + nBytes = data.length then
              (socketSendData rest 0 (nSendSize - data.length) accepted).map
                fun (left, offset, size, taken) =>
                  (left, offset, size, data.drop nSendOffset ++ taken)
            else
              some (data :: rest, nSendOffset + nBytes, nSendSize,
                (data.drop nSendOffset).take nBytes)

/-! ## Processing -/

/-- The bytes of a command, of which the rest is zero. -/
def validCommand : List UInt8 → Bool
  | [] => true
  | byte :: rest =>
      if byte = 0 then rest.all (· == 0)
      else if byte < 0x20 ∨ byte > 0x7e then false
      else validCommand rest

/-- `GetCommand`. -/
def CMessageHeader.getCommand (hdr : CMessageHeader) : List UInt8 :=
  hdr.pchCommand.takeWhile (· != 0)

namespace NetParams

variable (params : NetParams)

/-- `CMessageHeader::IsValid`. -/
def isValid (hdr : CMessageHeader) : Bool :=
  hdr.pchMessageStart == params.messageStart && validCommand hdr.pchCommand &&
    decide (hdr.nMessageSize ≤ maxSize)

/-- The loop of `ProcessMessages`: what it returns, the command and the data that it hands to
`ProcessMessage`, and the messages that are left. -/
def processLoop : List CNetMessage → Bool × Option (List UInt8 × List UInt8) × List CNetMessage
  | [] => (true, none, [])
  | msg :: rest =>
      if !msg.complete then (true, none, msg :: rest)
      else if msg.hdr.pchMessageStart ≠ params.messageStart then (false, none, rest)
      else if !params.isValid msg.hdr then processLoop rest
      else if params.checksum (msg.vRecv.take msg.hdr.nMessageSize) ≠ msg.hdr.nChecksum then
        processLoop rest
      else (true, some (msg.hdr.getCommand, msg.vRecv), rest)

/-- `ProcessMessages`; it does nothing for a node that is `busy`: with requests of the peer to
answer, or with a full send buffer. -/
def processMessages (busy : Bool) (vRecvMsg : List CNetMessage) :
    Bool × Option (List UInt8 × List UInt8) × List CNetMessage :=
  if busy then (true, none, vRecvMsg) else params.processLoop vRecvMsg

end NetParams

/-! ## The connection -/

/-- The sender, the bytes between the nodes, and the receiver. The last three fields record whether
the receiver has shut the connection down, what has been pushed, with the part of the command that
its field holds, and what has been processed. -/
structure Connection where
  vSendMsg : List (List UInt8) := []
  nSendOffset : Nat := 0
  nSendSize : Nat := 0
  failed : Bool := false
  wire : List UInt8 := []
  vRecvMsg : List CNetMessage := []
  fDisconnect : Bool := false
  shutDown : Bool := false
  pushed : List (List UInt8 × List UInt8) := []
  processed : List (List UInt8 × List UInt8) := []
  deriving DecidableEq, Repr

/-- A step of the connection. -/
inductive NetStep where
  /-- A message is pushed, with a write if no other waits. -/
  | push (pszCommand data : List UInt8) (accepted : List Nat)
  /-- `SocketSendData`. -/
  | send (accepted : List Nat)
  /-- `recv` returns at most so many bytes. -/
  | receive (nBytes : Nat)
  /-- `ProcessMessages`, and whether `ProcessMessage` sets `fDisconnect` in it. -/
  | process (busy disconnects : Bool)
  /-- The receiver sets `fDisconnect` elsewhere, after a timeout or to ban the peer. -/
  | shutDown
  deriving DecidableEq, Repr

namespace Connection

/-- A write to the socket. -/
def write (accepted : List Nat) (net : Connection) : Connection :=
  match socketSendData net.vSendMsg net.nSendOffset net.nSendSize accepted with
  | none => { net with failed := true }
  | some (vSendMsg, nSendOffset, nSendSize, taken) =>
      { net with vSendMsg, nSendOffset, nSendSize, wire := net.wire ++ taken }

variable (params : NetParams)

def step (net : Connection) : NetStep → Connection
  | .push pszCommand data accepted =>
      let message := params.endMessage (params.beginMessage pszCommand ++ data)
      let queued :=
        { net with
          vSendMsg := net.vSendMsg ++ [message]
          nSendSize := net.nSendSize + message.length
          pushed := net.pushed ++ [(pszCommand.take 12, data)] }
      if net.vSendMsg.isEmpty then queued.write accepted else queued
  | .send accepted => net.write accepted
  | .receive nBytes =>
      if net.fDisconnect then net
      else
        let pchBuf := net.wire.take nBytes
        match receiveMsgBytes net.vRecvMsg pchBuf with
        | none => { net with wire := net.wire.drop nBytes, vRecvMsg := [], fDisconnect := true }
        | some vRecvMsg => { net with wire := net.wire.drop nBytes, vRecvMsg }
  | .process busy disconnects =>
      if net.fDisconnect then net
      else
        match params.processMessages busy net.vRecvMsg with
        | (fOk, message, vRecvMsg) =>
            if message.isSome && disconnects then
              -- nothing is erased from the queue of a peer that is shut down
              { net with
                fDisconnect := true
                shutDown := true
                processed := net.processed ++ message.toList }
            else
              { net with
                vRecvMsg := if fOk then vRecvMsg else []
                fDisconnect := !fOk
                processed := net.processed ++ message.toList }
  | .shutDown => { net with fDisconnect := true, shutDown := true }

/-- A printable command, and data within the limit of the receiver. -/
structure Pushable (pszCommand data : List UInt8) : Prop where
  printable : ∀ byte ∈ pszCommand, 0x20 ≤ byte ∧ byte ≤ 0x7e
  limit : data.length ≤ maxProtocolMessageLength

/-- The message that is pushed in a step can be received. -/
def Fits (_ : Connection) : NetStep → Prop
  | .push pszCommand data _ => Pushable pszCommand data
  | _ => True

end Connection

/-! ## Messages that are pushed -/

/-- A message on the wire. -/
def NetParams.frameOf (params : NetParams) (message : List UInt8 × List UInt8) : NetFrame where
  hdr :=
    { pchMessageStart := params.messageStart
      pchCommand := commandField message.1
      nMessageSize := message.2.length
      nChecksum := params.checksum message.2 }
  data := message.2

theorem length_commandField (pszCommand : List UInt8) : (commandField pszCommand).length = 12 := by
  rw [commandField, List.length_take, List.length_append, List.length_replicate]
  omega

/-- The field of a command holds its first twelve bytes. -/
theorem commandField_take (pszCommand : List UInt8) :
    commandField (pszCommand.take 12) = commandField pszCommand := by
  unfold commandField
  rcases Nat.le_total pszCommand.length 12 with short | long
  · rw [List.take_of_length_le short]
  · have full : (pszCommand.take 12).length = 12 := List.length_take_of_le long
    rw [List.take_append_of_le_length full.ge, List.take_append_of_le_length long,
      List.take_of_length_le full.le]

namespace NetParams

variable (params : NetParams)

/-- **`EndMessage` makes a frame.** -/
theorem endMessage_eq (pszCommand data : List UInt8) :
    params.endMessage (params.beginMessage pszCommand ++ data) =
      (params.frameOf (pszCommand, data)).bytes := by
  have fields : params.beginMessage pszCommand ++ data =
      (params.messageStart ++ commandField pszCommand) ++
        (fixedBytes 4 0 ++ (fixedBytes 4 0 ++ data)) := by
    simp only [beginMessage, CMessageHeader.serialize, List.append_assoc]
  have front : (params.messageStart ++ commandField pszCommand).length = 16 := by
    rw [List.length_append, params.four, length_commandField]
  have size : (params.beginMessage pszCommand ++ data).length - 24 = data.length := by
    rw [fields]
    simp only [List.length_append, length_fixedBytes, params.four, length_commandField]
    omega
  have sized : overwrite (params.beginMessage pszCommand ++ data) 16
      (fixedBytes 4 data.length) =
        (params.messageStart ++ commandField pszCommand ++ fixedBytes 4 data.length) ++
          (fixedBytes 4 0 ++ data) := by
    rw [fields, ← front, overwrite_append _ _ _ _ (by simp only [length_fixedBytes]),
      List.append_assoc, List.append_assoc, List.append_assoc]
  have front' : (params.messageStart ++ commandField pszCommand ++
      fixedBytes 4 data.length).length = 20 := by
    rw [List.length_append, front, length_fixedBytes]
  have behind : ((params.messageStart ++ commandField pszCommand ++ fixedBytes 4 data.length) ++
      (fixedBytes 4 0 ++ data)).drop 24 = data := by
    rw [show 24 = 20 + 4 from rfl, ← List.drop_drop, ← front', List.drop_left]
    exact List.drop_left' (length_fixedBytes 4 0)
  rw [endMessage]
  rw [size, sized, behind, ← front', overwrite_append _ _ _ _ (by simp only [length_fixedBytes])]
  simp only [frameOf, NetFrame.bytes, CMessageHeader.serialize, List.append_assoc]

end NetParams

/-! ## The sender -/

/-- An offset into the first message. -/
def InFirst : List (List UInt8) → Nat → Prop
  | [], nSendOffset => nSendOffset = 0
  | data :: _, nSendOffset => nSendOffset < data.length

/-- The fields of the sender between two calls: the offset is inside the first message, and the
size counts them all. -/
structure Sendable (vSendMsg : List (List UInt8)) (nSendOffset nSendSize : Nat) : Prop where
  nonempty : ∀ data ∈ vSendMsg, data ≠ []
  offset : InFirst vSendMsg nSendOffset
  size : nSendSize = vSendMsg.flatten.length

/-- The next message begins at its first byte. -/
theorem Sendable.next {data : List UInt8} {rest : List (List UInt8)} {nSendOffset nSendSize : Nat}
    (sendable : Sendable (data :: rest) nSendOffset nSendSize) :
    Sendable rest 0 (nSendSize - data.length) where
  nonempty := fun other inside => sendable.nonempty other (.tail _ inside)
  offset := by
    cases rest with
    | nil => rfl
    | cons other rest =>
        exact List.length_pos_iff.mpr (sendable.nonempty other (.tail _ (.head _)))
  size := by
    rw [sendable.size, List.flatten_cons, List.length_append, Nat.add_sub_cancel_left]

/-- **`SocketSendData`** meets its assertions, and what it takes and leaves is what was there. -/
theorem Sendable.socketSendData {vSendMsg : List (List UInt8)} {nSendOffset nSendSize : Nat}
    (sendable : Sendable vSendMsg nSendOffset nSendSize) (accepted : List Nat) :
    ∃ left offset size taken,
      socketSendData vSendMsg nSendOffset nSendSize accepted = some (left, offset, size, taken) ∧
        Sendable left offset size ∧
        taken ++ left.flatten.drop offset = vSendMsg.flatten.drop nSendOffset := by
  induction vSendMsg generalizing nSendOffset nSendSize accepted with
  | nil =>
      have offset : nSendOffset = 0 := sendable.offset
      have size : nSendSize = 0 := sendable.size
      exact ⟨[], nSendOffset, nSendSize, [], if_pos ⟨offset, size⟩, sendable, rfl⟩
  | cons data rest ih =>
      have inside : nSendOffset < data.length := sendable.offset
      rw [GiantCore.socketSendData.eq_def]
      dsimp only
      rw [if_neg (Nat.not_le.mpr inside)]
      cases accepted with
      | nil => exact ⟨_, _, _, _, rfl, sendable, rfl⟩
      | cons returned accepted =>
          dsimp only
          generalize count : min returned (data.length - nSendOffset) = nBytes
          by_cases nothing : nBytes = 0
          · rw [if_pos nothing]
            exact ⟨_, _, _, _, rfl, sendable, rfl⟩
          · rw [if_neg nothing]
            by_cases whole : nSendOffset + nBytes = data.length
            · rw [if_pos whole]
              obtain ⟨left, offset, size, taken, sent, next, bytes⟩ := ih sendable.next accepted
              rw [sent]
              refine ⟨left, offset, size, _, rfl, next, ?_⟩
              rw [List.append_assoc, bytes, List.drop_zero, List.flatten_cons,
                List.drop_append_of_le_length inside.le]
            · rw [if_neg whole]
              have part : nSendOffset + nBytes < data.length := by omega
              refine ⟨_, _, _, _, rfl, ⟨sendable.nonempty, part, sendable.size⟩, ?_⟩
              rw [List.flatten_cons, List.drop_append_of_le_length inside.le,
                List.drop_append_of_le_length part.le, ← List.append_assoc, ← List.drop_drop,
                List.take_append_drop]

/-- A message is put behind the others. -/
theorem Sendable.concat {vSendMsg : List (List UInt8)} {nSendOffset nSendSize : Nat}
    (sendable : Sendable vSendMsg nSendOffset nSendSize) {message : List UInt8}
    (some_ : message ≠ []) :
    Sendable (vSendMsg ++ [message]) nSendOffset (nSendSize + message.length) ∧
      (vSendMsg ++ [message]).flatten.drop nSendOffset =
        vSendMsg.flatten.drop nSendOffset ++ message := by
  have offset := sendable.offset
  refine ⟨⟨?_, ?_, ?_⟩, ?_⟩
  · intro data inside
    rcases List.mem_append.mp inside with before | last
    · exact sendable.nonempty data before
    · rwa [List.mem_singleton.mp last]
  · cases vSendMsg with
    | nil =>
        rw [show nSendOffset = 0 from offset]
        exact List.length_pos_iff.mpr some_
    | cons data rest => exact offset
  · rw [List.flatten_append, List.length_append, sendable.size, List.flatten_singleton]
  · rw [List.flatten_append, List.flatten_singleton, List.drop_append_of_le_length]
    cases vSendMsg with
    | nil =>
        rw [show nSendOffset = 0 from offset]
        exact Nat.zero_le _
    | cons data rest =>
        rw [List.flatten_cons, List.length_append]
        have inside : nSendOffset < data.length := offset
        omega

/-! ## The receiver -/

theorem validCommand_append {pszCommand : List UInt8} (count : Nat)
    (printable : ∀ byte ∈ pszCommand, 0x20 ≤ byte ∧ byte ≤ 0x7e) :
    validCommand (pszCommand ++ List.replicate count 0) = true := by
  induction pszCommand with
  | nil =>
      cases count with
      | zero => rfl
      | succ count =>
          rw [List.nil_append, List.replicate_succ, validCommand, if_pos rfl]
          exact List.all_eq_true.mpr fun byte inside => by
            rw [List.eq_of_mem_replicate inside]
            rfl
  | cons byte rest ih =>
      obtain ⟨low, high⟩ := printable byte (.head _)
      have notZero : byte ≠ 0 := by
        rintro rfl
        exact absurd low (by decide)
      rw [List.cons_append, validCommand, if_neg notZero, if_neg]
      · exact ih fun other inside => printable other (.tail _ inside)
      · rintro (below | above)
        · exact absurd low (UInt8.not_le.mpr below)
        · exact absurd high (UInt8.not_le.mpr above)

namespace Connection

variable {params : NetParams} {net : Connection}

/-- What is queued: a command that its field holds, which can be received. -/
structure Queueable (pszCommand data : List UInt8) : Prop extends Pushable pszCommand data where
  short : pszCommand.length ≤ 12

/-- A command is cut to its field. -/
theorem Pushable.queueable {pszCommand data : List UInt8} (pushable : Pushable pszCommand data) :
    Queueable (pszCommand.take 12) data where
  printable := fun byte inside => pushable.printable byte (List.mem_of_mem_take inside)
  limit := pushable.limit
  short := List.length_take_le _ _

theorem Queueable.commandField_eq {pszCommand data : List UInt8}
    (queueable : Queueable pszCommand data) :
    commandField pszCommand = pszCommand ++ List.replicate (12 - pszCommand.length) 0 := by
  have short := queueable.short
  rw [commandField, List.take_append, List.take_of_length_le short, List.take_replicate,
    Nat.min_eq_left (by omega)]

/-- A message that is queued is accepted, and its command is read back. -/
theorem Queueable.valid (params : NetParams) {message : List UInt8 × List UInt8}
    (queueable : Queueable message.1 message.2) :
    (params.frameOf message).Valid ∧ params.isValid (params.frameOf message).hdr = true ∧
      (params.frameOf message).hdr.getCommand = message.1 := by
  have limit := queueable.limit
  have large : maxProtocolMessageLength < maxSize := by decide
  have bounded : maxSize < 2 ^ 32 := by decide
  refine ⟨⟨⟨params.four, length_commandField _, ?_, ?_⟩, limit, rfl⟩, ?_, ?_⟩
  · exact show message.2.length < 2 ^ 32 by omega
  · exact Nat.mod_lt _ (Nat.two_pow_pos 32)
  · rw [NetParams.isValid, Bool.and_eq_true, Bool.and_eq_true]
    refine ⟨⟨beq_self_eq_true _, ?_⟩, decide_eq_true ?_⟩
    · change validCommand (commandField message.1) = true
      rw [queueable.commandField_eq]
      exact validCommand_append _ queueable.printable
    · exact show message.2.length ≤ maxSize by omega
  · change (commandField message.1).takeWhile (· != 0) = message.1
    rw [queueable.commandField_eq, List.takeWhile_append_of_pos]
    · cases 12 - message.1.length with
      | zero => exact List.append_nil _
      | succ count => exact List.append_nil _
    · intro byte inside
      rw [bne_iff_ne]
      rintro rfl
      exact absurd (queueable.printable 0 inside).1 (by decide)

/-! ## The invariant -/

open Foundation.Framing

/-- What holds between two steps: every byte of the messages that were pushed is processed, with
the receiver, on the wire or still to be sent. -/
structure Consistent (params : NetParams) (net : Connection) : Prop where
  healthy : net.failed = false
  connected : net.fDisconnect = false
  open_ : net.shutDown = false
  sendable : Sendable net.vSendMsg net.nSendOffset net.nSendSize
  reading : Reading net.vRecvMsg
  queueable : ∀ message ∈ net.pushed, Queueable message.1 message.2
  bytes : (net.pushed.map params.frameOf).flatMap NetFrame.bytes =
    (net.processed.map params.frameOf).flatMap NetFrame.bytes ++
      (net.vRecvMsg.flatMap CNetMessage.bytes ++
        (net.wire ++ net.vSendMsg.flatten.drop net.nSendOffset))
  order : net.processed <+: net.pushed

/-- What holds once the receiver has shut the connection down. -/
structure Closed (net : Connection) : Prop where
  healthy : net.failed = false
  disconnected : net.fDisconnect = true
  shut : net.shutDown = true
  sendable : Sendable net.vSendMsg net.nSendOffset net.nSendSize
  order : net.processed <+: net.pushed

/-- Frames are those of messages that can be received. -/
theorem valid_of_queueable {messages : List (List UInt8 × List UInt8)}
    (queueable : ∀ message ∈ messages, Queueable message.1 message.2) :
    ∀ frame ∈ messages.map params.frameOf, frame.Valid := by
  intro frame inside
  obtain ⟨message, member, rfl⟩ := List.mem_map.mp inside
  exact ((queueable message member).valid params).1

/-- The messages that the receiver has read are the next ones that were pushed. -/
theorem Consistent.framesOf_eq (consistent : Consistent params net) :
    ∃ read later, net.pushed = net.processed ++ (read ++ later) ∧
      framesOf net.vRecvMsg = read.map params.frameOf ∧
      (later.map params.frameOf).flatMap NetFrame.bytes =
        pendingOf net.vRecvMsg ++ (net.wire ++ net.vSendMsg.flatten.drop net.nSendOffset) := by
  obtain ⟨rest, pushed⟩ := consistent.order
  have queueable := consistent.queueable
  rw [← pushed] at queueable
  have bytes := consistent.bytes
  obtain ⟨cut, valid, -, -⟩ := consistent.reading.stream
  rw [← pushed, List.map_append, List.flatMap_append, List.append_cancel_left_eq, cut,
    List.append_assoc] at bytes
  have front : framesOf net.vRecvMsg <+: rest.map params.frameOf :=
    prefix_of_flatMap selfDelimiting_bytes (fun _ valid => valid.bytes_ne_nil)
      (valid_of_queueable fun message inside => queueable message (List.mem_append_right _ inside))
      valid bytes
  obtain ⟨read, ⟨later, rfl⟩, frames⟩ := List.prefix_map_iff.mp front
  refine ⟨read, later, pushed.symm, frames, ?_⟩
  rwa [List.map_append, List.flatMap_append, frames, List.append_cancel_left_eq] at bytes

/-- The receiver does not reject what can be pushed. -/
theorem not_rejected_of_valid {frames : List NetFrame} (valid : ∀ frame ∈ frames, frame.Valid) :
    ¬ Rejected (frames.flatMap NetFrame.bytes) := by
  rintro ⟨frames', rest, valid', oversized, same⟩
  have nothing : Unfinished NetFrame.bytes NetFrame.Valid [] := by
    intro frame behind valid empty
    exact valid.bytes_ne_nil (List.append_eq_nil_iff.mp empty.symm).1
  rw [← List.append_nil (frames.flatMap _)] at same
  obtain ⟨-, rfl⟩ := flatMap_append_inj selfDelimiting_bytes valid valid' nothing
    (unfinished_of_oversized oversized) same
  obtain ⟨hdr, behind, sized, -, empty⟩ := oversized
  have size := sized.length_serialize
  rw [(List.append_eq_nil_iff.mp empty.symm).1] at size
  cases size

/-- A write moves bytes to the wire. -/
theorem Consistent.write (consistent : Consistent params net) (accepted : List Nat) :
    Consistent params (net.write accepted) := by
  obtain ⟨left, offset, size, taken, sent, sendable, bytes⟩ :=
    consistent.sendable.socketSendData accepted
  rw [Connection.write, sent]
  refine { consistent with sendable, bytes := ?_ }
  dsimp only
  rw [consistent.bytes, List.append_assoc, bytes]

/-- A message is queued. -/
theorem Consistent.queue (consistent : Consistent params net) {pszCommand data : List UInt8}
    (queueable : Queueable pszCommand data) :
    Consistent params
      { net with
        vSendMsg := net.vSendMsg ++ [(params.frameOf (pszCommand, data)).bytes]
        nSendSize := net.nSendSize + (params.frameOf (pszCommand, data)).bytes.length
        pushed := net.pushed ++ [(pszCommand, data)] } := by
  have nonempty : (params.frameOf (pszCommand, data)).bytes ≠ [] :=
    (Queueable.valid params queueable).1.bytes_ne_nil
  obtain ⟨sendable, queued⟩ := consistent.sendable.concat nonempty
  refine { consistent with sendable, queueable := ?_, bytes := ?_, order := ?_ }
  · intro message inside
    rcases List.mem_append.mp inside with before | last
    · exact consistent.queueable message before
    · rwa [List.mem_singleton.mp last]
  · dsimp only
    rw [queued, List.map_append, List.flatMap_append, consistent.bytes]
    simp only [List.map_cons, List.map_nil, List.flatMap_singleton, List.append_assoc]
  · exact consistent.order.trans (List.prefix_append _ _)

/-- The receiver takes bytes from the wire. -/
theorem Consistent.receive (consistent : Consistent params net) (nBytes : Nat) :
    ∃ vRecvMsg, receiveMsgBytes net.vRecvMsg (net.wire.take nBytes) = some vRecvMsg ∧
      Consistent params { net with wire := net.wire.drop nBytes, vRecvMsg } := by
  obtain ⟨takes, rejects⟩ := consistent.reading.receive (net.wire.take nBytes)
  cases received : receiveMsgBytes net.vRecvMsg (net.wire.take nBytes) with
  | none =>
      obtain ⟨rest, pushed⟩ := consistent.order
      have queueable := consistent.queueable
      have bytes := consistent.bytes
      rw [← pushed] at queueable
      rw [← pushed, List.map_append, List.flatMap_append, List.append_cancel_left_eq] at bytes
      have rejected := (rejects received).append
        (net.wire.drop nBytes ++ net.vSendMsg.flatten.drop net.nSendOffset)
      rw [List.append_assoc, ← List.append_assoc (net.wire.take nBytes), List.take_append_drop,
        ← bytes] at rejected
      exact absurd rejected (not_rejected_of_valid
        (valid_of_queueable fun message inside =>
            queueable message (List.mem_append_right _ inside)))
  | some vRecvMsg =>
      obtain ⟨reading, bytes⟩ := takes vRecvMsg received
      refine ⟨vRecvMsg, rfl, { consistent with reading, bytes := ?_ }⟩
      dsimp only
      rw [bytes, consistent.bytes]
      simp only [List.append_assoc]
      rw [← List.append_assoc (net.wire.take nBytes), List.take_append_drop]

/-- The receiver processes the next message that was pushed, if it has read it. -/
theorem Consistent.process (consistent : Consistent params net) :
    ∃ message vRecvMsg, params.processLoop net.vRecvMsg = (true, message, vRecvMsg) ∧
      Consistent params
        { net with vRecvMsg, processed := net.processed ++ message.toList } := by
  cases queue : net.vRecvMsg with
  | nil =>
      refine ⟨none, [], rfl, ?_⟩
      rw [Option.toList_none, List.append_nil, ← queue]
      exact consistent
  | cons msg rest =>
      by_cases whole : msg.complete = true
      · obtain ⟨read, later, pushed, frames, -⟩ := consistent.framesOf_eq
        have reading := consistent.reading
        rw [queue] at reading
        rw [queue, framesOf, List.filter_cons_of_pos whole, List.map_cons] at frames
        cases read with
        | nil => cases frames
        | cons message read =>
            rw [List.map_cons, List.cons.injEq] at frames
            have queueable := consistent.queueable message (by
              rw [pushed]
              exact List.mem_append_right _ (List.mem_append_left _ (.head _)))
            obtain ⟨valid, isValid, command⟩ := queueable.valid params
            have hdr : msg.hdr = (params.frameOf message).hdr := congrArg NetFrame.hdr frames.1
            have data : msg.vRecv = message.2 := congrArg NetFrame.data frames.1
            have checksum : params.checksum (msg.vRecv.take msg.hdr.nMessageSize) =
                msg.hdr.nChecksum := by
              rw [hdr, data]
              exact congrArg params.checksum (List.take_of_length_le (Nat.le_refl _))
            have first : (msg.bytes : List UInt8) = (params.frameOf message).bytes := by
              rw [((reading.wf msg (.head _)).frame_of_complete whole).2, frames.1]
            have processed : params.processLoop (msg :: rest) = (true, some message, rest) := by
              rw [NetParams.processLoop, whole, Bool.not_true, if_neg Bool.false_ne_true,
                if_neg (by rw [hdr]; exact fun differ => differ rfl), hdr, isValid, Bool.not_true,
                if_neg Bool.false_ne_true, ← hdr, if_neg (fun differ => differ checksum), hdr,
                command, data]
            refine ⟨some message, rest, processed, ?_⟩
            refine { consistent with reading := ⟨?_, ?_⟩, bytes := ?_, order := ?_ }
            · exact fun other inside => reading.wf other (.tail _ inside)
            · intro other inside
              cases rest with
              | nil => cases inside
              | cons next rest => exact reading.done other (.tail _ inside)
            · dsimp only
              rw [consistent.bytes, queue, List.flatMap_cons, first]
              simp only [Option.toList_some, List.map_append, List.map_cons, List.map_nil,
                List.flatMap_append, List.flatMap_singleton, List.append_assoc]
            · refine ⟨read ++ later, ?_⟩
              dsimp only
              rw [pushed, Option.toList_some]
              simp only [List.append_assoc, List.cons_append, List.nil_append]
      · refine ⟨none, msg :: rest, ?_, ?_⟩
        · rw [NetParams.processLoop, eq_false_of_ne_true whole, Bool.not_false, if_pos rfl]
        · rw [Option.toList_none, List.append_nil, ← queue]
          exact consistent

/-- What the sender puts into its queue. -/
theorem push_eq (params : NetParams) (net : Connection) (pszCommand data : List UInt8)
    (accepted : List Nat) : ∃ queued : Connection,
      queued = { net with
        vSendMsg := net.vSendMsg ++ [(params.frameOf (pszCommand.take 12, data)).bytes]
        nSendSize := net.nSendSize + (params.frameOf (pszCommand.take 12, data)).bytes.length
        pushed := net.pushed ++ [(pszCommand.take 12, data)] } ∧
      (net.step params (.push pszCommand data accepted) = queued ∨
        net.step params (.push pszCommand data accepted) = queued.write accepted) := by
  have cut : params.frameOf (pszCommand.take 12, data) = params.frameOf (pszCommand, data) := by
    rw [NetParams.frameOf, NetParams.frameOf, commandField_take]
  refine ⟨_, rfl, ?_⟩
  rw [Connection.step, params.endMessage_eq, cut]
  split
  · exact .inr rfl
  · exact .inl rfl

/-- **The step lemma**, as long as the connection is open. -/
theorem Consistent.step (consistent : Consistent params net) {next : NetStep}
    (fits : net.Fits next) :
    Consistent params (net.step params next) ∨ Closed (net.step params next) := by
  cases next with
  | push pszCommand data accepted =>
      obtain ⟨queued, rfl, kept | written⟩ := push_eq params net pszCommand data accepted
      · rw [kept]
        exact .inl (consistent.queue fits.queueable)
      · rw [written]
        exact .inl ((consistent.queue fits.queueable).write accepted)
  | send accepted => exact .inl (consistent.write accepted)
  | receive nBytes =>
      obtain ⟨vRecvMsg, received, after⟩ := consistent.receive nBytes
      rw [Connection.step, consistent.connected, if_neg Bool.false_ne_true]
      dsimp only
      rw [received]
      exact .inl { after with connected := rfl }
  | process busy disconnects =>
      have processed : ∃ message vRecvMsg,
          params.processMessages busy net.vRecvMsg = (true, message, vRecvMsg) ∧
            Consistent params
              { net with vRecvMsg, processed := net.processed ++ message.toList } := by
        cases busy with
        | false => exact consistent.process
        | true =>
            refine ⟨none, net.vRecvMsg, rfl, ?_⟩
            rw [Option.toList_none, List.append_nil]
            exact consistent
      obtain ⟨message, vRecvMsg, result, after⟩ := processed
      rw [Connection.step, consistent.connected, if_neg Bool.false_ne_true, result]
      dsimp only
      split
      · exact .inr ⟨after.healthy, rfl, rfl, after.sendable, after.order⟩
      · exact .inl { after with connected := rfl }
  | shutDown =>
      exact .inr ⟨consistent.healthy, rfl, rfl, consistent.sendable, consistent.order⟩

theorem Closed.write (closed : Closed net) (accepted : List Nat) : Closed (net.write accepted) := by
  obtain ⟨left, offset, size, taken, sent, sendable, -⟩ :=
    closed.sendable.socketSendData accepted
  rw [Connection.write, sent]
  exact { closed with sendable }

/-- Once it is closed, only the sender goes on. -/
theorem Closed.step (closed : Closed net) {next : NetStep} (fits : net.Fits next) :
    Closed (net.step params next) := by
  cases next with
  | push pszCommand data accepted =>
      obtain ⟨queued, rfl, result⟩ := push_eq params net pszCommand data accepted
      have nonempty : (params.frameOf (pszCommand.take 12, data)).bytes ≠ [] :=
        (Queueable.valid params fits.queueable).1.bytes_ne_nil
      have after : Closed { net with
          vSendMsg := net.vSendMsg ++ [(params.frameOf (pszCommand.take 12, data)).bytes]
          nSendSize := net.nSendSize + (params.frameOf (pszCommand.take 12, data)).bytes.length
          pushed := net.pushed ++ [(pszCommand.take 12, data)] } :=
        { closed with
          sendable := (closed.sendable.concat nonempty).1
          order := closed.order.trans (List.prefix_append _ _) }
      rcases result with kept | written
      · rwa [kept]
      · rw [written]
        exact after.write accepted
  | send accepted => exact closed.write accepted
  | receive nBytes =>
      rw [Connection.step, closed.disconnected, if_pos rfl]
      exact closed
  | process busy disconnects =>
      rw [Connection.step, closed.disconnected, if_pos rfl]
      exact closed
  | shutDown => exact { closed with disconnected := rfl, shut := rfl }

theorem consistent_new (params : NetParams) : Consistent params {} where
  healthy := rfl
  connected := rfl
  open_ := rfl
  sendable := ⟨nofun, rfl, rfl⟩
  reading := reading_nil
  queueable := nofun
  bytes := rfl
  order := List.nil_prefix

/-- **A connection delivers.** In every order of pushes, writes, receipts and calls of
`ProcessMessages`, no assertion fails, and the receiver disconnects only where it shuts the
connection down itself; the messages that were processed are the first ones that were pushed; and as
long as the connection is open, when nothing is left to send or on the wire, the receiver has read
the rest of them, and no part of another. -/
theorem connection_delivers (params : NetParams) {steps : List NetStep}
    (fits : Foundation.Run.AllSteps (step params) Fits {} steps) :
    ∀ net ∈ Foundation.Run.states (step params) {} steps,
      net.failed = false ∧ net.fDisconnect = net.shutDown ∧ net.processed <+: net.pushed ∧
        (net.shutDown = false → net.vSendMsg = [] → net.wire = [] →
          (net.pushed.map params.frameOf) =
              net.processed.map params.frameOf ++ framesOf net.vRecvMsg ∧
            pendingOf net.vRecvMsg = []) := by
  have keeps (net : Connection) (next : NetStep) (fits : net.Fits next)
      (good : Consistent params net ∨ Closed net) :
      Consistent params (net.step params next) ∨ Closed (net.step params next) :=
    good.elim (fun consistent => consistent.step fits) fun closed => .inr (closed.step fits)
  intro net reached
  rcases Foundation.Run.invariant_states_of_steps keeps (.inl (consistent_new params)) fits net
    reached with consistent | closed
  · refine ⟨consistent.healthy, ?_, consistent.order, fun _ sent empty => ?_⟩
    · rw [consistent.connected, consistent.open_]
    obtain ⟨read, later, pushed, frames, rest⟩ := consistent.framesOf_eq
    rw [sent, empty, List.flatten_nil, List.drop_nil, List.append_nil, List.append_nil] at rest
    have none : later = [] := by
      cases later with
      | nil => rfl
      | cons message later =>
          obtain ⟨-, -, unfinished, -⟩ := consistent.reading.stream
          have queueable := consistent.queueable message (by
            rw [pushed]
            exact List.mem_append_right _ (List.mem_append_right _ (.head _)))
          rw [List.map_cons, List.flatMap_cons] at rest
          exact absurd rest.symm (unfinished _ _ (queueable.valid params).1)
    subst none
    rw [frames, pushed, List.append_nil, List.map_append]
    exact ⟨rfl, rest.symm⟩
  · refine ⟨closed.healthy, ?_, closed.order, fun opened => ?_⟩
    · rw [closed.disconnected, closed.shut]
    · rw [closed.shut] at opened
      cases opened

/-- Parameters with a hash that is the number of bytes. -/
def lengthParams : NetParams where
  messageStart := [0xf9, 0xbe, 0xb4, 0xd9]
  hash := fun data => BitVec.ofNat 256 data.length
  four := rfl

/-- Three messages, the last with a command of 16 bytes; the socket takes the first one in two
parts, they arrive in four, and the receiver shuts the connection down when it has processed the
last. -/
def pingPong : List NetStep :=
  [.push [0x70, 0x69] [1, 2] [10], .push [0x70, 0x6f] [] [], .receive 7, .send [16, 24],
    .receive 20, .process false false, .receive 60, .process true false, .process false false,
    .push (List.replicate 16 0x61) [3] [25], .receive 25, .process false true, .receive 1]

theorem fits_pingPong :
    Foundation.Run.AllSteps (step lengthParams) Fits {} pingPong := by
  refine ⟨⟨by decide +kernel, by decide⟩, ⟨by decide +kernel, by decide⟩, trivial, trivial, trivial,
    trivial, trivial, trivial, trivial, ⟨by decide +kernel, by decide⟩, ?_⟩
  repeat' constructor

/-- All messages are processed, the last one with a shorter command. -/
theorem connection_delivers_pingPong :
    (pingPong.foldl (step lengthParams) {}).processed =
        [([0x70, 0x69], [1, 2]), ([0x70, 0x6f], []), (List.replicate 12 0x61, [3])] ∧
      (pingPong.foldl (step lengthParams) {}).processed <+:
        (pingPong.foldl (step lengthParams) {}).pushed :=
  ⟨by decide +kernel,
    (connection_delivers lengthParams fits_pingPong _ (Foundation.Run.foldl_mem_states _ _)).2.2.1⟩

end Connection

end GiantCore
