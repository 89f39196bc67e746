import GiantCore.Foundation.Buffers
import GiantCore.Foundation.Framing
import GiantCore.Storage.WireIntegers

/-! # Messages from the bytes of a peer

`CNode::ReceiveMsgBytes` cuts the bytes of a connection into messages, in whatever pieces the
socket returns them: a header of 24 bytes, then as many bytes as it says. What it has read depends
on the bytes alone (`receiveAll_eq_whole`). `nTime` is left out.
-/

namespace GiantCore

/-- `MAX_PROTOCOL_MESSAGE_LENGTH`. -/
def maxProtocolMessageLength : Nat := 2 * 1024 * 1024

/-- `CMessageHeader`. -/
structure CMessageHeader where
  pchMessageStart : List UInt8
  pchCommand : List UInt8 := List.replicate 12 0
  nMessageSize : Nat := 2 ^ 32 - 1
  nChecksum : Nat := 0
  deriving DecidableEq, Repr

namespace CMessageHeader

def serialize (hdr : CMessageHeader) : List UInt8 :=
  hdr.pchMessageStart ++
    (hdr.pchCommand ++ (fixedBytes 4 hdr.nMessageSize ++ fixedBytes 4 hdr.nChecksum))

/-- `hdrbuf >> hdr`, with nothing where it throws. -/
def deserialize (hdrbuf : List UInt8) : Option CMessageHeader :=
  if hdrbuf.length < 24 then none
  else
    some
      { pchMessageStart := hdrbuf.take 4
        pchCommand := (hdrbuf.drop 4).take 12
        nMessageSize := littleEndian ((hdrbuf.drop 16).take 4)
        nChecksum := littleEndian ((hdrbuf.drop 20).take 4) }

/-- The sizes of the fields. -/
structure Sized (hdr : CMessageHeader) : Prop where
  start : hdr.pchMessageStart.length = 4
  command : hdr.pchCommand.length = 12
  size : hdr.nMessageSize < 2 ^ 32
  checksum : hdr.nChecksum < 2 ^ 32

theorem Sized.length_serialize {hdr : CMessageHeader} (sized : hdr.Sized) :
    hdr.serialize.length = 24 := by
  rw [serialize, List.length_append, List.length_append, List.length_append, length_fixedBytes,
    length_fixedBytes, sized.start, sized.command]

/-- A header is read back. -/
theorem Sized.deserialize_serialize {hdr : CMessageHeader} (sized : hdr.Sized) :
    deserialize hdr.serialize = some hdr := by
  have start := sized.start
  have command := sized.command
  have size := sized.length_serialize
  have dropStart : hdr.serialize.drop 4 =
      hdr.pchCommand ++ (fixedBytes 4 hdr.nMessageSize ++ fixedBytes 4 hdr.nChecksum) := by
    rw [serialize, ← start, List.drop_left]
  have dropCommand : hdr.serialize.drop 16 =
      fixedBytes 4 hdr.nMessageSize ++ fixedBytes 4 hdr.nChecksum := by
    rw [show 16 = 4 + 12 from rfl, ← List.drop_drop, dropStart, ← command, List.drop_left]
  have dropSize : hdr.serialize.drop 20 = fixedBytes 4 hdr.nChecksum := by
    rw [show 20 = 16 + 4 from rfl, ← List.drop_drop, dropCommand]
    exact List.drop_left' (length_fixedBytes 4 _)
  have takeStart : hdr.serialize.take 4 = hdr.pchMessageStart := by
    rw [serialize, ← start, List.take_left]
  have takeCommand : (hdr.serialize.drop 4).take 12 = hdr.pchCommand := by
    rw [dropStart, ← command, List.take_left]
  have takeSize : (hdr.serialize.drop 16).take 4 = fixedBytes 4 hdr.nMessageSize := by
    rw [dropCommand]
    exact List.take_left' (length_fixedBytes 4 _)
  have takeChecksum : (hdr.serialize.drop 20).take 4 = fixedBytes 4 hdr.nChecksum := by
    rw [dropSize]
    exact List.take_of_length_le (length_fixedBytes 4 _).le
  unfold deserialize
  rw [if_neg (by omega), takeStart, takeCommand, takeSize, takeChecksum,
    littleEndian_fixedBytes sized.size, littleEndian_fixedBytes sized.checksum]

/-- The bytes of a header are those that it was read from. -/
theorem serialize_of_deserialize {hdrbuf : List UInt8} {hdr : CMessageHeader}
    (length : hdrbuf.length = 24) (read : deserialize hdrbuf = some hdr) :
    hdr.Sized ∧ hdr.serialize = hdrbuf := by
  unfold deserialize at read
  rw [if_neg (by omega), Option.some_inj] at read
  subst read
  have field (from_ : Nat) (inside : from_ + 4 ≤ 24) :
      ((hdrbuf.drop from_).take 4).length = 4 := by
    rw [List.length_take, List.length_drop]
    omega
  have bytes (from_ : Nat) (inside : from_ + 4 ≤ 24) :
      fixedBytes 4 (littleEndian ((hdrbuf.drop from_).take 4)) = (hdrbuf.drop from_).take 4 := by
    have back := fixedBytes_littleEndian ((hdrbuf.drop from_).take 4)
    rwa [field from_ inside] at back
  have small (from_ : Nat) (inside : from_ + 4 ≤ 24) :
      littleEndian ((hdrbuf.drop from_).take 4) < 2 ^ 32 := by
    have bound := littleEndian_lt ((hdrbuf.drop from_).take 4)
    rwa [field from_ inside] at bound
  refine ⟨⟨?_, ?_, small 16 (by decide), small 20 (by decide)⟩, ?_⟩
  · rw [List.length_take]
    omega
  · rw [List.length_take, List.length_drop]
    omega
  · have last : (hdrbuf.drop 20).take 4 = hdrbuf.drop 20 := by
      refine List.take_of_length_le ?_
      rw [List.length_drop]
      omega
    have later : (hdrbuf.drop 16).take 4 ++ hdrbuf.drop 20 = hdrbuf.drop 16 := by
      rw [show 20 = 16 + 4 from rfl, ← List.drop_drop, List.take_append_drop]
    have behind : (hdrbuf.drop 4).take 12 ++ hdrbuf.drop 16 = hdrbuf.drop 4 := by
      rw [show 16 = 4 + 12 from rfl, ← List.drop_drop, List.take_append_drop]
    rw [serialize]
    dsimp only
    rw [bytes 16 (by decide), bytes 20 (by decide), last, later, behind, List.take_append_drop]

end CMessageHeader

/-- `CNetMessage`. The header that its constructor makes is replaced before it is read. -/
structure CNetMessage where
  in_data : Bool := false
  hdrbuf : List UInt8 := List.replicate 24 0
  hdr : CMessageHeader := { pchMessageStart := [] }
  nHdrPos : Nat := 0
  vRecv : List UInt8 := []
  nDataPos : Nat := 0
  deriving DecidableEq, Repr

open Foundation.Buffers

namespace CNetMessage

def complete (msg : CNetMessage) : Bool :=
  msg.in_data && msg.hdr.nMessageSize == msg.nDataPos

/-- `readHeader`: the bytes that are used, and nothing where it returns -1. -/
def readHeader (msg : CNetMessage) (pch : List UInt8) : Option (Nat × CNetMessage) :=
  let nCopy := min (24 - msg.nHdrPos) pch.length
  let hdrbuf := overwrite msg.hdrbuf msg.nHdrPos (pch.take nCopy)
  let nHdrPos := msg.nHdrPos + nCopy
  if nHdrPos < 24 then some (nCopy, { msg with hdrbuf, nHdrPos })
  else
    match CMessageHeader.deserialize hdrbuf with
    | none => none
    | some hdr =>
        if hdr.nMessageSize > maxSize then none
        else some (nCopy, { msg with hdrbuf := hdrbuf.drop 24, nHdrPos, hdr, in_data := true })

/-- `readData`. -/
def readData (msg : CNetMessage) (pch : List UInt8) : Nat × CNetMessage :=
  let nCopy := min (msg.hdr.nMessageSize - msg.nDataPos) pch.length
  let vRecv :=
    if msg.vRecv.length < msg.nDataPos + nCopy then
      resize 0 msg.vRecv (min msg.hdr.nMessageSize (msg.nDataPos + nCopy + 256 * 1024))
    else msg.vRecv
  (nCopy,
    { msg with
      vRecv := overwrite vRecv msg.nDataPos (pch.take nCopy)
      nDataPos := msg.nDataPos + nCopy })

/-- What one round of `ReceiveMsgBytes` does with a message; nothing where it returns false. -/
def absorb (msg : CNetMessage) (pch : List UInt8) : Option (Nat × CNetMessage) :=
  match if msg.in_data then some (msg.readData pch) else msg.readHeader pch with
  | none => none
  | some (handled, msg) =>
      if msg.in_data && decide (msg.hdr.nMessageSize > maxProtocolMessageLength) then none
      else some (handled, msg)

end CNetMessage

/-- The messages before the one that takes the next byte, and that one. -/
def currentMessage (vRecvMsg : List CNetMessage) : List CNetMessage × CNetMessage :=
  match vRecvMsg.getLast? with
  | none => ([], {})
  | some msg => if msg.complete then (vRecvMsg, {}) else (vRecvMsg.dropLast, msg)

/-- The loop of `ReceiveMsgBytes`, which would not end where it runs out of rounds. -/
def receiveLoop : Nat → List CNetMessage → List UInt8 → Option (List CNetMessage)
  | _, vRecvMsg, [] => some vRecvMsg
  | 0, _, _ :: _ => none
  | rounds + 1, vRecvMsg, byte :: bytes =>
      let (before, msg) := currentMessage vRecvMsg
      match msg.absorb (byte :: bytes) with
      | none => none
      | some (handled, msg) =>
          receiveLoop rounds (before ++ [msg]) ((byte :: bytes).drop handled)

/-- `ReceiveMsgBytes`, with nothing where it returns false and the peer is disconnected. -/
def receiveMsgBytes (vRecvMsg : List CNetMessage) (pch : List UInt8) : Option (List CNetMessage) :=
  receiveLoop pch.length vRecvMsg pch

/-- The pieces that a socket returns, one after the other. -/
def receiveAll (vRecvMsg : List CNetMessage) (pieces : List (List UInt8)) :
    Option (List CNetMessage) :=
  pieces.foldlM receiveMsgBytes vRecvMsg

/-! ## One message -/

namespace CNetMessage

/-- The bytes that a message has taken. -/
def bytes (msg : CNetMessage) : List UInt8 :=
  if msg.in_data then msg.hdr.serialize ++ msg.vRecv.take msg.nDataPos
  else msg.hdrbuf.take msg.nHdrPos

/-- A message between two rounds. -/
structure Wf (msg : CNetMessage) : Prop where
  header : msg.in_data = false → msg.hdrbuf.length = 24 ∧ msg.nHdrPos < 24 ∧ msg.vRecv = [] ∧
    msg.nDataPos = 0
  sized : msg.in_data = true → msg.hdr.Sized
  limit : msg.in_data = true → msg.hdr.nMessageSize ≤ maxProtocolMessageLength
  data : msg.in_data = true → msg.nDataPos ≤ msg.vRecv.length ∧
    msg.vRecv.length ≤ msg.hdr.nMessageSize

theorem wf_new : ({} : CNetMessage).Wf where
  header := fun _ => ⟨rfl, by decide, rfl, rfl⟩
  sized := nofun
  limit := nofun
  data := nofun

/-- The bytes at the front of a stream that end a connection: a header of a message that is too
large. -/
def Oversized (stream : List UInt8) : Prop :=
  ∃ (hdr : CMessageHeader) (rest : List UInt8), hdr.Sized ∧
    maxProtocolMessageLength < hdr.nMessageSize ∧ stream = hdr.serialize ++ rest

variable {msg msg' : CNetMessage} {pch : List UInt8} {handled : Nat}

theorem absorb_of_header (header : msg.in_data = false) :
    msg.absorb pch =
      match msg.readHeader pch with
      | none => none
      | some (handled, msg) =>
          if msg.in_data && decide (msg.hdr.nMessageSize > maxProtocolMessageLength) then none
          else some (handled, msg) := by
  rw [absorb, if_neg (by rw [header]; exact Bool.false_ne_true)]

/-- A round in the header. -/
theorem absorb_header (wf : msg.Wf) (header : msg.in_data = false) (more : pch ≠ []) :
    (∀ handled msg', msg.absorb pch = some (handled, msg') →
      0 < handled ∧ handled ≤ pch.length ∧ msg'.Wf ∧
        msg'.bytes = msg.bytes ++ pch.take handled) ∧
    (msg.absorb pch = none → Oversized (msg.bytes ++ pch)) := by
  obtain ⟨size, position, noData, noPos⟩ := wf.header header
  have positive := List.length_pos_iff.mpr more
  rw [absorb_of_header header, readHeader]
  generalize copied : min (24 - msg.nHdrPos) pch.length = nCopy
  have taken : (pch.take nCopy).length = nCopy := List.length_take_of_le (by omega)
  have grown : (overwrite msg.hdrbuf msg.nHdrPos (pch.take nCopy)).take (msg.nHdrPos + nCopy) =
      msg.bytes ++ pch.take nCopy := by
    have front := @take_overwrite UInt8 msg.hdrbuf (pch.take nCopy) msg.nHdrPos (by omega)
    rw [taken] at front
    rw [front, bytes, header]
    rfl
  have length : (overwrite msg.hdrbuf msg.nHdrPos (pch.take nCopy)).length = 24 := by
    rw [length_overwrite (by omega), size]
  generalize overwrite msg.hdrbuf msg.nHdrPos (pch.take nCopy) = hdrbuf at grown length
  by_cases part : msg.nHdrPos + nCopy < 24
  · rw [if_pos part]
    dsimp only
    rw [header, Bool.false_and, if_neg Bool.false_ne_true]
    refine ⟨?_, nofun⟩
    intro handled msg' same
    cases same
    refine ⟨by omega, by omega,
      ⟨fun _ => ⟨length, part, noData, noPos⟩, nofun, nofun, nofun⟩, ?_⟩
    rw [← grown]
    rfl
  · rw [if_neg part]
    have whole : hdrbuf = msg.bytes ++ pch.take nCopy := by
      rw [← grown, List.take_of_length_le (by omega)]
    cases read : CMessageHeader.deserialize hdrbuf with
    | none =>
        unfold CMessageHeader.deserialize at read
        rw [if_neg (by omega)] at read
        cases read
    | some hdr =>
        obtain ⟨sized, serialized⟩ := CMessageHeader.serialize_of_deserialize length read
        have stream : msg.bytes ++ pch = hdr.serialize ++ pch.drop nCopy := by
          rw [serialized, whole, List.append_assoc, List.take_append_drop]
        dsimp only
        by_cases huge : hdr.nMessageSize > maxSize
        · rw [if_pos huge]
          refine ⟨nofun, fun _ => ⟨hdr, _, sized, ?_, stream⟩⟩
          exact Nat.lt_trans (by decide) huge
        · rw [if_neg huge]
          dsimp only
          rw [Bool.true_and]
          by_cases large : hdr.nMessageSize > maxProtocolMessageLength
          · rw [if_pos (decide_eq_true large)]
            exact ⟨nofun, fun _ => ⟨hdr, _, sized, large, stream⟩⟩
          · rw [if_neg (by rw [decide_eq_false large]; exact Bool.false_ne_true)]
            refine ⟨?_, nofun⟩
            intro handled msg' same
            cases same
            refine ⟨by omega, by omega, ⟨nofun, fun _ => sized,
              fun _ => Nat.le_of_not_lt large, fun _ => ?_⟩, ?_⟩
            · dsimp only
              rw [noData, noPos]
              exact ⟨Nat.le_refl _, Nat.zero_le _⟩
            · rw [bytes, if_pos rfl]
              dsimp only
              rw [serialized, noData, List.take_nil, List.append_nil, whole]

/-- A round in the data. -/
theorem absorb_data (wf : msg.Wf) (inData : msg.in_data = true) (open_ : msg.complete = false)
    (more : pch ≠ []) :
    ∃ handled msg', msg.absorb pch = some (handled, msg') ∧ 0 < handled ∧
      handled ≤ pch.length ∧ msg'.Wf ∧ msg'.bytes = msg.bytes ++ pch.take handled := by
  obtain ⟨have_, size⟩ := wf.data inData
  have positive := List.length_pos_iff.mpr more
  have missing : msg.hdr.nMessageSize ≠ msg.nDataPos := by
    rw [complete, inData, Bool.true_and] at open_
    exact beq_eq_false_iff_ne.mp open_
  have limit := wf.limit inData
  generalize copied : min (msg.hdr.nMessageSize - msg.nDataPos) pch.length = nCopy
  have taken : (pch.take nCopy).length = nCopy := List.length_take_of_le (by omega)
  generalize grown : (if msg.vRecv.length < msg.nDataPos + nCopy then
      resize 0 msg.vRecv (min msg.hdr.nMessageSize (msg.nDataPos + nCopy + 256 * 1024))
    else msg.vRecv) = vRecv
  have room : msg.nDataPos + nCopy ≤ vRecv.length ∧ vRecv.length ≤ msg.hdr.nMessageSize := by
    rw [← grown]
    split
    · rw [length_resize]
      omega
    · omega
  have kept : vRecv.take msg.nDataPos = msg.vRecv.take msg.nDataPos := by
    rw [← grown]
    split
    · exact take_resize 0 have_ (by omega)
    · rfl
  have read : msg.readData pch =
      (nCopy, { msg with
        vRecv := overwrite vRecv msg.nDataPos (pch.take nCopy)
        nDataPos := msg.nDataPos + nCopy }) := by
    rw [readData]
    rw [copied, grown]
  have absorbed : msg.absorb pch =
      some (nCopy, { msg with
        vRecv := overwrite vRecv msg.nDataPos (pch.take nCopy)
        nDataPos := msg.nDataPos + nCopy }) := by
    rw [absorb, if_pos inData, read]
    dsimp only
    rw [if_neg]
    rw [Bool.and_eq_true, decide_eq_true_iff]
    omega
  refine ⟨nCopy, _, absorbed, by omega, by omega, ?_, ?_⟩
  · refine ⟨?_, wf.sized, wf.limit, fun _ => ?_⟩
    · intro header
      rw [show msg.in_data = false from header] at inData
      cases inData
    · dsimp only
      rw [length_overwrite (by omega)]
      exact room
  · rw [bytes, if_pos inData, bytes, if_pos inData]
    dsimp only
    have front := @take_overwrite UInt8 vRecv (pch.take nCopy) msg.nDataPos (by omega)
    rw [taken] at front
    rw [front, kept, List.append_assoc]

/-- **One round** takes bytes, or the message is too large. -/
theorem absorb_spec (wf : msg.Wf) (open_ : msg.complete = false) (more : pch ≠ []) :
    (∀ handled msg', msg.absorb pch = some (handled, msg') →
      0 < handled ∧ handled ≤ pch.length ∧ msg'.Wf ∧
        msg'.bytes = msg.bytes ++ pch.take handled) ∧
    (msg.absorb pch = none → Oversized (msg.bytes ++ pch)) := by
  cases inData : msg.in_data with
  | false => exact absorb_header wf inData more
  | true =>
      obtain ⟨handled, msg', absorbed, taken⟩ := absorb_data wf inData open_ more
      rw [absorbed]
      refine ⟨?_, nofun⟩
      rintro _ _ ⟨⟩
      exact taken

end CNetMessage

/-! ## Frames -/

/-- A message on the wire: its header and its data. -/
structure NetFrame where
  hdr : CMessageHeader
  data : List UInt8
  deriving DecidableEq, Repr

namespace NetFrame

def bytes (frame : NetFrame) : List UInt8 := frame.hdr.serialize ++ frame.data

/-- A frame that is accepted. -/
structure Valid (frame : NetFrame) : Prop where
  sized : frame.hdr.Sized
  limit : frame.hdr.nMessageSize ≤ maxProtocolMessageLength
  length : frame.data.length = frame.hdr.nMessageSize

end NetFrame

/-- A header is known from a stream that it begins. -/
theorem CMessageHeader.Sized.inj {first second : CMessageHeader} {rest rest' : List UInt8}
    (sized : first.Sized) (sized' : second.Sized)
    (same : first.serialize ++ rest = second.serialize ++ rest') :
    first = second ∧ rest = rest' := by
  have front := List.append_inj same (by rw [sized.length_serialize, sized'.length_serialize])
  have read := sized.deserialize_serialize
  rw [front.1, sized'.deserialize_serialize, Option.some_inj] at read
  exact ⟨read.symm, front.2⟩

theorem selfDelimiting_bytes : Foundation.Framing.SelfDelimiting NetFrame.bytes NetFrame.Valid := by
  intro first second rest rest' valid valid' same
  rw [NetFrame.bytes, NetFrame.bytes, List.append_assoc, List.append_assoc] at same
  obtain ⟨headers, behind⟩ := valid.sized.inj valid'.sized same
  have data := List.append_inj behind (by rw [valid.length, valid'.length, headers])
  cases first
  cases second
  cases headers
  cases data.1
  rfl

theorem NetFrame.Valid.bytes_ne_nil {frame : NetFrame} (valid : frame.Valid) :
    frame.bytes ≠ [] := by
  intro nothing
  have size := valid.sized.length_serialize
  rw [(List.append_eq_nil_iff.mp nothing).1] at size
  cases size

open CNetMessage in
theorem unfinished_of_oversized {stream : List UInt8} (oversized : Oversized stream) :
    Foundation.Framing.Unfinished NetFrame.bytes NetFrame.Valid stream := by
  obtain ⟨hdr, rest, sized, large, rfl⟩ := oversized
  intro frame rest' valid same
  rw [NetFrame.bytes, List.append_assoc] at same
  have limit := valid.limit
  rw [← (sized.inj valid.sized same).1] at limit
  omega

namespace CNetMessage

variable {msg : CNetMessage}

def frame (msg : CNetMessage) : NetFrame := ⟨msg.hdr, msg.vRecv⟩

/-- A complete message is the frame that it has taken. -/
theorem Wf.frame_of_complete (wf : msg.Wf) (whole : msg.complete = true) :
    msg.frame.Valid ∧ msg.bytes = msg.frame.bytes := by
  rw [complete, Bool.and_eq_true, beq_iff_eq] at whole
  obtain ⟨inData, all⟩ := whole
  obtain ⟨have_, size⟩ := wf.data inData
  have length : msg.vRecv.length = msg.hdr.nMessageSize := by omega
  refine ⟨⟨wf.sized inData, wf.limit inData, length⟩, ?_⟩
  rw [bytes, if_pos inData, List.take_of_length_le (by omega)]
  rfl

theorem Wf.unfinished (wf : msg.Wf) (open_ : msg.complete = false) :
    Foundation.Framing.Unfinished NetFrame.bytes NetFrame.Valid msg.bytes := by
  intro frame rest valid same
  rw [NetFrame.bytes, List.append_assoc] at same
  cases inData : msg.in_data with
  | false =>
      obtain ⟨size, position, -, -⟩ := wf.header inData
      have lengths := congrArg List.length same
      rw [bytes, if_neg (by rw [inData]; exact Bool.false_ne_true), List.length_append,
        valid.sized.length_serialize, List.length_take] at lengths
      omega
  | true =>
      obtain ⟨have_, size⟩ := wf.data inData
      rw [bytes, if_pos inData] at same
      obtain ⟨headers, behind⟩ := (wf.sized inData).inj valid.sized same
      have lengths := congrArg List.length behind
      rw [List.length_take, List.length_append, valid.length, ← headers] at lengths
      rw [complete, inData, Bool.true_and, beq_eq_false_iff_ne] at open_
      omega

/-- No message that is read begins with a header of one that is too large. -/
theorem Wf.not_oversized (wf : msg.Wf) : ¬ Oversized msg.bytes := by
  rintro ⟨hdr, rest, sized, large, same⟩
  cases inData : msg.in_data with
  | false =>
      obtain ⟨size, position, -, -⟩ := wf.header inData
      have lengths := congrArg List.length same
      rw [bytes, if_neg (by rw [inData]; exact Bool.false_ne_true), List.length_append,
        sized.length_serialize, List.length_take] at lengths
      omega
  | true =>
      rw [bytes, if_pos inData] at same
      have limit := wf.limit inData
      rw [((wf.sized inData).inj sized same).1] at limit
      omega

end CNetMessage

/-! ## The queue of messages -/

open CNetMessage Foundation.Framing

/-- The frames that have been read. -/
def framesOf (vRecvMsg : List CNetMessage) : List NetFrame :=
  (vRecvMsg.filter complete).map CNetMessage.frame

/-- The bytes that have been read of the next frame. -/
def pendingOf (vRecvMsg : List CNetMessage) : List UInt8 := (currentMessage vRecvMsg).2.bytes

/-- A queue between two rounds. -/
structure Reading (vRecvMsg : List CNetMessage) : Prop where
  wf : ∀ msg ∈ vRecvMsg, msg.Wf
  done : ∀ msg ∈ vRecvMsg.dropLast, msg.complete = true

/-- The messages before the current one are complete, and it is not. -/
theorem Reading.current {vRecvMsg : List CNetMessage} (reading : Reading vRecvMsg) :
    ∃ before msg, currentMessage vRecvMsg = (before, msg) ∧
      (∀ other ∈ before, other.Wf ∧ other.complete = true) ∧ msg.Wf ∧ msg.complete = false ∧
      vRecvMsg.flatMap CNetMessage.bytes = before.flatMap CNetMessage.bytes ++ msg.bytes ∧
      framesOf vRecvMsg = before.map CNetMessage.frame := by
  unfold currentMessage
  cases last : vRecvMsg.getLast? with
  | none =>
      rw [List.getLast?_eq_none_iff.mp last]
      exact ⟨[], {}, rfl, nofun, wf_new, rfl, rfl, rfl⟩
  | some msg =>
      have split : vRecvMsg.dropLast ++ [msg] = vRecvMsg := by
        obtain ⟨front, rfl⟩ := List.getLast?_eq_some_iff.mp last
        rw [List.dropLast_concat]
      have member : msg ∈ vRecvMsg := List.mem_of_getLast? last
      by_cases whole : msg.complete = true
      · have all : ∀ other ∈ vRecvMsg, other.Wf ∧ other.complete = true := by
          intro other inside
          refine ⟨reading.wf other inside, ?_⟩
          rw [← split] at inside
          rcases List.mem_append.mp inside with earlier | here
          · exact reading.done other earlier
          · rwa [List.mem_singleton.mp here]
        refine ⟨vRecvMsg, {}, by simp only [if_pos whole], all, wf_new, rfl,
          (List.append_nil _).symm, ?_⟩
        rw [framesOf, List.filter_eq_self.mpr fun other inside => (all other inside).2]
      · refine ⟨vRecvMsg.dropLast, msg, by simp only [if_neg whole], ?_, reading.wf msg member,
          Bool.not_eq_true _ ▸ whole, ?_, ?_⟩
        · intro other inside
          exact ⟨reading.wf other (List.dropLast_subset _ inside), reading.done other inside⟩
        · conv_lhs => rw [← split]
          rw [List.flatMap_append, List.flatMap_singleton]
        · conv_lhs => rw [← split]
          rw [framesOf, List.filter_append,
            List.filter_eq_self.mpr fun other inside => reading.done other inside,
            List.filter_singleton, eq_false_of_ne_true whole, cond_false, List.append_nil]

/-- What has been read, as frames and the part of one. -/
theorem Reading.stream {vRecvMsg : List CNetMessage} (reading : Reading vRecvMsg) :
    vRecvMsg.flatMap CNetMessage.bytes =
        (framesOf vRecvMsg).flatMap NetFrame.bytes ++ pendingOf vRecvMsg ∧
      (∀ frame ∈ framesOf vRecvMsg, frame.Valid) ∧
      Unfinished NetFrame.bytes NetFrame.Valid (pendingOf vRecvMsg) ∧
      ¬ Oversized (pendingOf vRecvMsg) := by
  obtain ⟨before, msg, current, whole, wf, open_, bytes, frames⟩ := reading.current
  have pending : pendingOf vRecvMsg = msg.bytes := by rw [pendingOf, current]
  have same : (before.map CNetMessage.frame).flatMap NetFrame.bytes =
      before.flatMap CNetMessage.bytes := by
    rw [List.flatMap_map]
    refine List.flatMap_congr fun other inside => ?_
    exact ((whole other inside).1.frame_of_complete (whole other inside).2).2.symm
  rw [pending, frames, same]
  refine ⟨bytes, ?_, wf.unfinished open_, wf.not_oversized⟩
  intro frame inside
  obtain ⟨other, member, rfl⟩ := List.mem_map.mp inside
  exact ((whole other member).1.frame_of_complete (whole other member).2).1

/-- A stream that ends the connection: some frames, and then a header of a message that is too
large. -/
def Rejected (stream : List UInt8) : Prop :=
  ∃ (frames : List NetFrame) (rest : List UInt8), (∀ frame ∈ frames, frame.Valid) ∧
    Oversized rest ∧ stream = frames.flatMap NetFrame.bytes ++ rest

/-- **The rounds of `ReceiveMsgBytes`**: they end, and take all bytes or meet a message that is
too large. -/
theorem Reading.receiveLoop {rounds : Nat} {vRecvMsg : List CNetMessage} {pch : List UInt8}
    (reading : Reading vRecvMsg) (enough : pch.length ≤ rounds) :
    (∀ after, receiveLoop rounds vRecvMsg pch = some after → Reading after ∧
      after.flatMap CNetMessage.bytes = vRecvMsg.flatMap CNetMessage.bytes ++ pch) ∧
    (receiveLoop rounds vRecvMsg pch = none →
      Rejected (vRecvMsg.flatMap CNetMessage.bytes ++ pch)) := by
  induction rounds generalizing vRecvMsg pch with
  | zero =>
      rw [List.length_eq_zero_iff.mp (Nat.le_zero.mp enough)]
      refine ⟨?_, nofun⟩
      rintro after ⟨⟩
      exact ⟨reading, (List.append_nil _).symm⟩
  | succ rounds ih =>
      cases pch with
      | nil =>
          refine ⟨?_, nofun⟩
          rintro after ⟨⟩
          exact ⟨reading, (List.append_nil _).symm⟩
      | cons byte pch =>
          obtain ⟨before, msg, current, whole, wf, open_, bytes, frames⟩ := reading.current
          have more : byte :: pch ≠ [] := List.cons_ne_nil _ _
          obtain ⟨takes, rejects⟩ := absorb_spec wf open_ more
          rw [GiantCore.receiveLoop, current]
          dsimp only
          cases absorbed : msg.absorb (byte :: pch) with
          | none =>
              refine ⟨nofun, fun _ => ⟨before.map CNetMessage.frame, _, ?_, rejects absorbed, ?_⟩⟩
              · rw [← frames]
                exact reading.stream.2.1
              · have cut := reading.stream.1
                have pending : pendingOf vRecvMsg = msg.bytes := by rw [pendingOf, current]
                rw [cut, frames, pending, List.append_assoc]
          | some result =>
              obtain ⟨handled, msg'⟩ := result
              obtain ⟨some_, few, wf', bytes'⟩ := takes handled msg' absorbed
              have next : Reading (before ++ [msg']) := by
                refine ⟨?_, ?_⟩
                · intro other inside
                  rcases List.mem_append.mp inside with earlier | here
                  · exact (whole other earlier).1
                  · rwa [List.mem_singleton.mp here]
                · intro other inside
                  rw [List.dropLast_concat] at inside
                  exact (whole other inside).2
              have shorter : ((byte :: pch).drop handled).length ≤ rounds := by
                rw [List.length_drop]
                omega
              have total : (before ++ [msg']).flatMap CNetMessage.bytes ++
                  (byte :: pch).drop handled =
                    vRecvMsg.flatMap CNetMessage.bytes ++ (byte :: pch) := by
                rw [List.flatMap_append, List.flatMap_singleton, bytes', bytes]
                simp only [List.append_assoc, List.take_append_drop]
              have rest := ih next shorter
              rwa [total] at rest

/-- A call of `ReceiveMsgBytes`. -/
theorem Reading.receive {vRecvMsg : List CNetMessage} (reading : Reading vRecvMsg)
    (pch : List UInt8) :
    (∀ after, receiveMsgBytes vRecvMsg pch = some after → Reading after ∧
      after.flatMap CNetMessage.bytes = vRecvMsg.flatMap CNetMessage.bytes ++ pch) ∧
    (receiveMsgBytes vRecvMsg pch = none →
      Rejected (vRecvMsg.flatMap CNetMessage.bytes ++ pch)) :=
  reading.receiveLoop (Nat.le_refl _)

theorem reading_nil : Reading [] := ⟨nofun, nofun⟩

theorem Rejected.append {stream : List UInt8} (rejected : Rejected stream) (more : List UInt8) :
    Rejected (stream ++ more) := by
  obtain ⟨frames, rest, valid, ⟨hdr, behind, sized, large, rfl⟩, rfl⟩ := rejected
  refine ⟨frames, _, valid, ⟨hdr, behind ++ more, sized, large, rfl⟩, ?_⟩
  simp only [List.append_assoc]

/-- Any pieces are read as the bytes in them. -/
theorem Reading.receiveAll {vRecvMsg : List CNetMessage} (reading : Reading vRecvMsg)
    (pieces : List (List UInt8)) :
    (∀ after, receiveAll vRecvMsg pieces = some after → Reading after ∧
      after.flatMap CNetMessage.bytes = vRecvMsg.flatMap CNetMessage.bytes ++ pieces.flatten) ∧
    (receiveAll vRecvMsg pieces = none →
      Rejected (vRecvMsg.flatMap CNetMessage.bytes ++ pieces.flatten)) := by
  induction pieces generalizing vRecvMsg with
  | nil =>
      refine ⟨?_, nofun⟩
      rintro after ⟨⟩
      exact ⟨reading, (List.append_nil _).symm⟩
  | cons piece pieces ih =>
      obtain ⟨takes, rejects⟩ := reading.receive piece
      rw [GiantCore.receiveAll, List.foldlM_cons, List.flatten_cons, ← List.append_assoc]
      cases received : receiveMsgBytes vRecvMsg piece with
      | none => exact ⟨nofun, fun _ => (rejects received).append _⟩
      | some after =>
          obtain ⟨next, bytes⟩ := takes after received
          rw [← bytes]
          exact ih next

/-- A stream that is read is not one that is rejected. -/
theorem Reading.not_rejected {vRecvMsg : List CNetMessage} (reading : Reading vRecvMsg) :
    ¬ Rejected (vRecvMsg.flatMap CNetMessage.bytes) := by
  rintro ⟨frames, rest, valid, oversized, same⟩
  obtain ⟨cut, validRead, open_, fits⟩ := reading.stream
  rw [cut] at same
  obtain ⟨-, pending⟩ := flatMap_append_inj selfDelimiting_bytes validRead valid open_
    (unfinished_of_oversized oversized) same
  rw [pending] at fits
  exact fits oversized

/-- Two queues that have taken the same bytes have read the same. -/
theorem Reading.congr {first second : List CNetMessage} (reading : Reading first)
    (reading' : Reading second)
    (same : first.flatMap CNetMessage.bytes = second.flatMap CNetMessage.bytes) :
    framesOf first = framesOf second ∧ pendingOf first = pendingOf second := by
  obtain ⟨cut, valid, open_, -⟩ := reading.stream
  obtain ⟨cut', valid', open', -⟩ := reading'.stream
  rw [cut, cut'] at same
  exact flatMap_append_inj selfDelimiting_bytes valid valid' open_ open' same

/-- **The pieces do not matter.** Bytes that arrive in pieces give the frames, and the part of the
next one, that they give at once; or the peer is disconnected in both cases. -/
theorem receiveAll_eq_whole (pieces : List (List UInt8)) :
    (receiveAll [] pieces).map (fun queue => (framesOf queue, pendingOf queue)) =
      (receiveMsgBytes [] pieces.flatten).map fun queue => (framesOf queue, pendingOf queue) := by
  obtain ⟨takes, rejects⟩ := reading_nil.receiveAll pieces
  obtain ⟨takes', rejects'⟩ := reading_nil.receive pieces.flatten
  cases inPieces : receiveAll [] pieces with
  | none =>
      cases whole : receiveMsgBytes [] pieces.flatten with
      | none => rfl
      | some after =>
          obtain ⟨reading, bytes⟩ := takes' after whole
          have rejected := rejects inPieces
          rw [← bytes] at rejected
          exact absurd rejected reading.not_rejected
  | some after =>
      obtain ⟨reading, bytes⟩ := takes after inPieces
      cases whole : receiveMsgBytes [] pieces.flatten with
      | none =>
          have rejected := rejects' whole
          rw [← bytes] at rejected
          exact absurd rejected reading.not_rejected
      | some after' =>
          obtain ⟨reading', bytes'⟩ := takes' after' whole
          obtain ⟨frames, pending⟩ := reading.congr reading' (bytes.trans bytes'.symm)
          simp only [Option.map_some, frames, pending]

end GiantCore
