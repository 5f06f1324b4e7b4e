import DigiWage.Chain.Reindex
import DigiWage.Hash
import DigiWage.Lib.Frames
import DigiWage.Lib.Overwrite
import DigiWage.Serialize

/-!
# Messages on the wire

`CMessageHeader` of `protocol.h`, and `CNetMessage` and `CNode::ReceiveMsgBytes` of `net.h` and `net.cpp`, which cut what the
socket gives into messages.

* `CNetMessage.Ok`: what holds of a message while it is received; `CNetMessage.bytes`: what has been received of it.
* `receiveLoop_spec`: the bytes are absorbed, or the header of a message is refused.
-/

namespace DigiWage

open Lib

structure CMessageHeader where
  pchMessageStart : List UInt8
  pchCommand : List UInt8
  nMessageSize : UInt32
  nChecksum : UInt32
  length_pchMessageStart : pchMessageStart.length = 4
  length_pchCommand : pchCommand.length = 12

namespace CMessageHeader

/-- The default constructor. -/
def empty (start : MessageStart) : CMessageHeader :=
  ⟨start.bytes, List.replicate 12 0, -1, 0, start.length_bytes, List.length_replicate⟩

/-- `strncpy` into `pchCommand`. -/
def new (start : MessageStart) (pszCommand : List UInt8) (nMessageSizeIn : UInt32) : CMessageHeader :=
  ⟨start.bytes, (pszCommand ++ List.replicate 12 0).take 12, nMessageSizeIn, 0, start.length_bytes, by
    rw [List.length_take, List.length_append, List.length_replicate]
    omega⟩

def getCommand (hdr : CMessageHeader) : List UInt8 := hdr.pchCommand.takeWhile (· != 0)

/-- The check of the command string. -/
def commandOk : List UInt8 → Bool
  | [] => true
  | p :: ps =>
    -- must be all zeros after the first zero
    if p = 0 then ps.all (· == 0)
    else if p < 0x20 ∨ 0x7E < p then false
    else commandOk ps

def isValid (start : MessageStart) (hdr : CMessageHeader) : Bool :=
  hdr.pchMessageStart == start.bytes && commandOk hdr.pchCommand && decide (hdr.nMessageSize.toNat ≤ MAX_SIZE)

/-- `<<`. -/
def serialize (hdr : CMessageHeader) : List UInt8 :=
  hdr.pchMessageStart ++ hdr.pchCommand ++ leBytes 4 hdr.nMessageSize.toNat ++ leBytes 4 hdr.nChecksum.toNat

/-- `>>`. -/
def unserialize (s : Stream) : Option (CMessageHeader × Stream) :=
  if h : 24 ≤ s.length then
    some (⟨s.take 4, (s.drop 4).take 12, UInt32.ofNat (ofLeBytes ((s.drop 16).take 4)), UInt32.ofNat (ofLeBytes ((s.drop 20).take 4)),
      by rw [List.length_take]; omega, by rw [List.length_take, List.length_drop]; omega⟩, s.drop 24)
  else none

@[simp] theorem length_serialize (hdr : CMessageHeader) : hdr.serialize.length = 24 := by
  simp [serialize, hdr.length_pchMessageStart, hdr.length_pchCommand]

theorem leBytes_take {s : List UInt8} {i : Nat} (h : i + 4 ≤ s.length) :
    leBytes 4 (UInt32.ofNat (ofLeBytes ((s.drop i).take 4))).toNat = (s.drop i).take 4 := by
  have hlen : ((s.drop i).take 4).length = 4 := by
    rw [List.length_take, List.length_drop]
    omega
  have hlt := ofLeBytes_lt ((s.drop i).take 4)
  rw [hlen] at hlt
  rw [UInt32.toNat_ofNat_of_lt' hlt]
  calc leBytes 4 (ofLeBytes ((s.drop i).take 4))
      = leBytes ((s.drop i).take 4).length (ofLeBytes ((s.drop i).take 4)) := by rw [hlen]
    _ = (s.drop i).take 4 := leBytes_ofLeBytes _

theorem unserialize_eq_some {s s' : Stream} {hdr : CMessageHeader} (h : unserialize s = some (hdr, s')) : s = hdr.serialize ++ s' := by
  unfold unserialize at h
  split at h
  · next hlen =>
    cases h
    have h16 : s.drop 16 = (s.drop 16).take 4 ++ s.drop 20 := by
      rw [← List.drop_drop (i := 4) (j := 16), List.take_append_drop]
    have h20 : s.drop 20 = (s.drop 20).take 4 ++ s.drop 24 := by
      rw [← List.drop_drop (i := 4) (j := 20), List.take_append_drop]
    have h4 : s.drop 4 = (s.drop 4).take 12 ++ s.drop 16 := by
      rw [← List.drop_drop (i := 12) (j := 4), List.take_append_drop]
    change s = s.take 4 ++ (s.drop 4).take 12 ++ leBytes 4 _ ++ leBytes 4 _ ++ s.drop 24
    rw [leBytes_take (i := 16) (by omega), leBytes_take (i := 20) (by omega), List.append_assoc, ← h20, List.append_assoc, ← h16,
      List.append_assoc, ← h4, List.take_append_drop]
  · cases h

theorem serialize_inj {a b : CMessageHeader} (h : a.serialize = b.serialize) : a = b := by
  obtain ⟨startA, commandA, sizeA, checksumA, hsA, hcA⟩ := a
  obtain ⟨startB, commandB, sizeB, checksumB, hsB, hcB⟩ := b
  unfold serialize at h
  obtain ⟨h, hchecksum⟩ := List.append_inj' h (by simp)
  obtain ⟨h, hsize⟩ := List.append_inj' h (by simp)
  obtain ⟨hstart, hcommand⟩ := List.append_inj' h (hcA.trans hcB.symm)
  have hsize' := (leBytes_inj sizeA.toNat_lt sizeB.toNat_lt).mp hsize
  have hchecksum' := (leBytes_inj checksumA.toNat_lt checksumB.toNat_lt).mp hchecksum
  obtain rfl := UInt32.toNat_inj.mp hsize'
  obtain rfl := UInt32.toNat_inj.mp hchecksum'
  dsimp only at hstart hcommand
  subst hstart hcommand
  rfl

theorem unserialize_serialize (hdr : CMessageHeader) (s : Stream) : unserialize (hdr.serialize ++ s) = some (hdr, s) := by
  cases h : unserialize (hdr.serialize ++ s) with
  | none =>
    unfold unserialize at h
    rw [dif_pos (by rw [List.length_append, length_serialize]; omega)] at h
    cases h
  | some r =>
    obtain ⟨hdr', s'⟩ := r
    obtain ⟨hsame, rfl⟩ := List.append_inj (unserialize_eq_some h) (by rw [length_serialize, length_serialize])
    rw [serialize_inj hsame]

theorem exists_unserialize {s : Stream} (h : 24 ≤ s.length) : ∃ r, unserialize s = some r :=
  ⟨_, dif_pos h⟩

end CMessageHeader

def MAX_PROTOCOL_MESSAGE_LENGTH : Nat := 2 * 1024 * 1024

structure CNetMessage where
  inData : Bool
  hdrbuf : Stream
  hdr : CMessageHeader
  nHdrPos : Nat
  vRecv : Stream
  nDataPos : Nat

namespace CNetMessage

/-- The constructor. -/
def new (start : MessageStart) : CNetMessage := ⟨false, List.replicate 24 0, .empty start, 0, [], 0⟩

def complete (msg : CNetMessage) : Bool := msg.inData && msg.hdr.nMessageSize.toNat == msg.nDataPos

/-- `readHeader`: how many bytes were read, if the header is not refused. -/
def readHeader (msg : CNetMessage) (pch : List UInt8) : CNetMessage × Option Nat :=
  let nCopy := min (24 - msg.nHdrPos) pch.length
  let hdrbuf := overwrite 0 msg.hdrbuf msg.nHdrPos (pch.take nCopy)
  let msg : CNetMessage := { msg with hdrbuf := hdrbuf, nHdrPos := msg.nHdrPos + nCopy }
  if msg.nHdrPos < 24 then (msg, some nCopy)
  else
    match CMessageHeader.unserialize msg.hdrbuf with
    | none => (msg, none)
    | some (hdr, hdrbuf) =>
      let msg : CNetMessage := { msg with hdr := hdr, hdrbuf := hdrbuf }
      if MAX_SIZE < hdr.nMessageSize.toNat then (msg, none)
      else ({ msg with inData := true }, some nCopy)

/-- `vRecv.resize`. -/
def resize (s : Stream) (n : Nat) : Stream := s.take n ++ List.replicate (n - s.length) 0

def readData (msg : CNetMessage) (pch : List UInt8) : CNetMessage × Option Nat :=
  let nCopy := min (msg.hdr.nMessageSize.toNat - msg.nDataPos) pch.length
  -- allocate up to 256 KiB ahead, but never more than the total message size
  let vRecv := if msg.vRecv.length < msg.nDataPos + nCopy then
      resize msg.vRecv (min msg.hdr.nMessageSize.toNat (msg.nDataPos + nCopy + 256 * 1024))
    else msg.vRecv
  ({ msg with vRecv := overwrite 0 vRecv msg.nDataPos (pch.take nCopy), nDataPos := msg.nDataPos + nCopy }, some nCopy)

/-- Absorb network data. -/
def read (msg : CNetMessage) (pch : List UInt8) : CNetMessage × Option Nat :=
  if !msg.inData then msg.readHeader pch else msg.readData pch

/-- The message is longer than the protocol allows. -/
def oversized (msg : CNetMessage) : Bool := msg.inData && decide (MAX_PROTOCOL_MESSAGE_LENGTH < msg.hdr.nMessageSize.toNat)

end CNetMessage

/-- The current incomplete message, or a new one, and the messages before it. -/
def currentMessage (start : MessageStart) (vRecvMsg : List CNetMessage) : List CNetMessage × CNetMessage :=
  match vRecvMsg.getLast? with
  | none => (vRecvMsg, .new start)
  | some msg => if msg.complete then (vRecvMsg, .new start) else (vRecvMsg.dropLast, msg)

/-- The loop of `ReceiveMsgBytes`; a round reads at least one byte. -/
def receiveLoop (start : MessageStart) : Nat → List CNetMessage → List UInt8 → List CNetMessage × Bool
  | 0, vRecvMsg, _ => (vRecvMsg, true)
  | fuel + 1, vRecvMsg, pch =>
    if pch.isEmpty then (vRecvMsg, true)
    else
      let current := currentMessage start vRecvMsg
      let r := current.2.read pch
      match r.2 with
      | none => (current.1 ++ [r.1], false)
      | some handled =>
        if r.1.oversized then (current.1 ++ [r.1], false)
        else receiveLoop start fuel (current.1 ++ [r.1]) (pch.drop handled)

/-- `CNode::ReceiveMsgBytes`. -/
def receiveMsgBytes (start : MessageStart) (vRecvMsg : List CNetMessage) (pch : List UInt8) : List CNetMessage × Bool :=
  receiveLoop start pch.length vRecvMsg pch

/-- The reads of a socket, one after the other; the connection is closed when a message is refused. -/
def receiveAll (start : MessageStart) : List CNetMessage → List (List UInt8) → List CNetMessage × Bool
  | vRecvMsg, [] => (vRecvMsg, true)
  | vRecvMsg, pch :: rest =>
    let r := receiveMsgBytes start vRecvMsg pch
    if r.2 then receiveAll start r.1 rest else r

/-! ## One message -/

namespace CNetMessage

/-- What has been received of the message. -/
def bytes (msg : CNetMessage) : List UInt8 :=
  if msg.inData then msg.hdr.serialize ++ msg.vRecv.take msg.nDataPos else msg.hdrbuf.take msg.nHdrPos

/-- While the header is read nothing is there of the data; and no more data is there than the header says. -/
structure Ok (msg : CNetMessage) : Prop where
  header : msg.inData = false → msg.hdrbuf.length = 24 ∧ msg.nHdrPos < 24 ∧ msg.vRecv = [] ∧ msg.nDataPos = 0
  data : msg.inData = true → msg.nDataPos ≤ msg.vRecv.length ∧ msg.vRecv.length ≤ msg.hdr.nMessageSize.toNat
  size : msg.inData = true → msg.hdr.nMessageSize.toNat ≤ MAX_PROTOCOL_MESSAGE_LENGTH

variable {start : MessageStart} {msg : CNetMessage} {pch : List UInt8}

theorem ok_new (start : MessageStart) : (new start).Ok := ⟨fun _ => ⟨rfl, Nat.succ_pos 23, rfl, rfl⟩, nofun, nofun⟩

/-- The stream starts with a header that is refused. -/
def Refused (s : List UInt8) : Prop :=
  ∃ (hdr : CMessageHeader) (rest : List UInt8), MAX_PROTOCOL_MESSAGE_LENGTH < hdr.nMessageSize.toNat ∧
  s = hdr.serialize ++ rest

theorem Refused.append {s : List UInt8} (h : Refused s) (l : List UInt8) : Refused (s ++ l) := by
  obtain ⟨hdr, rest, hsize, rfl⟩ := h
  exact ⟨hdr, rest ++ l, hsize, List.append_assoc ..⟩

/-- What `read` does: the message refuses the header, or takes bytes. -/
structure Reads (msg : CNetMessage) (pch : List UInt8) (msg' : CNetMessage) (handled : Option Nat) : Prop where
  refused : handled = none ∨ msg'.oversized = true → msg'.complete = false ∧ Refused (msg.bytes ++ pch)
  taken : ∀ n, handled = some n → 0 < n ∧ n ≤ pch.length
  ok : ∀ n, handled = some n → msg'.oversized = false → msg'.Ok ∧ msg'.bytes = msg.bytes ++ pch.take n

theorem Ok.readHeader (h : msg.Ok) (hdata : msg.inData = false) (hne : pch ≠ []) :
    Reads msg pch (msg.readHeader pch).1 (msg.readHeader pch).2 := by
  obtain ⟨hlen, hpos, hvRecv, hDataPos⟩ := h.header hdata
  have hpch := List.length_pos_of_ne_nil hne
  generalize hn : min (24 - msg.nHdrPos) pch.length = nCopy
  have hcopy : (pch.take nCopy).length = nCopy := by
    rw [List.length_take]
    omega
  have hcopyne : pch.take nCopy ≠ [] := List.ne_nil_of_length_pos (by omega)
  have hbytes : msg.bytes = msg.hdrbuf.take msg.nHdrPos := by
    unfold bytes
    rw [hdata, if_neg Bool.false_ne_true]
  have htake : (overwrite 0 msg.hdrbuf msg.nHdrPos (pch.take nCopy)).take (msg.nHdrPos + nCopy) = msg.bytes ++ pch.take nCopy := by
    have hend := @take_overwrite_end UInt8 0 msg.hdrbuf (pch.take nCopy) msg.nHdrPos hcopyne (by omega)
    rwa [hcopy, ← hbytes] at hend
  have hwritten : (overwrite 0 msg.hdrbuf msg.nHdrPos (pch.take nCopy)).length = 24 := by
    rw [length_overwrite hcopyne, hcopy, hlen]
    omega
  unfold CNetMessage.readHeader
  dsimp only
  rw [hn]
  by_cases hmore : msg.nHdrPos + nCopy < 24
  · rw [if_pos hmore]
    have hover : oversized { msg with hdrbuf := overwrite 0 msg.hdrbuf msg.nHdrPos (pch.take nCopy), nHdrPos := msg.nHdrPos + nCopy } =
        false := by
      unfold oversized
      rw [hdata, Bool.false_and]
    refine ⟨fun hbad => ?_, fun n hsome => ?_, fun n hsome _ => ?_⟩
    · rcases hbad with hnone | hbad
      · cases hnone
      · rw [hover] at hbad
        cases hbad
    · cases hsome
      omega
    · cases hsome
      refine ⟨⟨fun _ => ⟨hwritten, hmore, hvRecv, hDataPos⟩, fun hin => ?_, fun hin => ?_⟩, ?_⟩
      · rw [hdata] at hin
        cases hin
      · rw [hdata] at hin
        cases hin
      · rw [← htake, bytes]
        dsimp only
        rw [hdata, if_neg Bool.false_ne_true]
  · rw [if_neg hmore]
    have hfull : msg.nHdrPos + nCopy = 24 := by omega
    obtain ⟨⟨hdr, hdrbuf⟩, hread⟩ := CMessageHeader.exists_unserialize hwritten.ge
    rw [hread]
    dsimp only
    have hparts := CMessageHeader.unserialize_eq_some hread
    obtain rfl : hdrbuf = [] := by
      have hlens := congrArg List.length hparts
      rw [hwritten, List.length_append, CMessageHeader.length_serialize] at hlens
      exact List.length_eq_zero_iff.mp (by omega)
    rw [List.append_nil] at hparts
    have hhdr : msg.bytes ++ pch.take nCopy = hdr.serialize := by
      rw [← htake, hfull, ← hparts, List.take_of_length_le hwritten.le]
    have hrefused (hsize : MAX_PROTOCOL_MESSAGE_LENGTH < hdr.nMessageSize.toNat) : Refused (msg.bytes ++ pch) := by
      refine ⟨hdr, pch.drop nCopy, hsize, ?_⟩
      rw [← hhdr, List.append_assoc, List.take_append_drop]
    split
    · next hmax =>
      have hle : MAX_PROTOCOL_MESSAGE_LENGTH ≤ MAX_SIZE := by decide
      refine ⟨fun _ => ⟨?_, hrefused (Nat.lt_of_le_of_lt hle hmax)⟩, nofun, nofun⟩
      unfold complete
      rw [hdata, Bool.false_and]
    · refine ⟨fun hbad => ?_, fun n hsome => ?_, fun n hsome hover => ?_⟩
      · rcases hbad with hnone | hbad
        · cases hnone
        · have hsize : MAX_PROTOCOL_MESSAGE_LENGTH < hdr.nMessageSize.toNat := by simpa [oversized] using hbad
          refine ⟨?_, hrefused hsize⟩
          simp only [complete, Bool.true_and, hDataPos, beq_eq_false_iff_ne, ne_eq]
          omega
      · cases hsome
        omega
      · cases hsome
        have hsize : hdr.nMessageSize.toNat ≤ MAX_PROTOCOL_MESSAGE_LENGTH := by simpa [oversized] using hover
        refine ⟨⟨nofun, fun _ => ?_, fun _ => hsize⟩, ?_⟩
        · dsimp only
          rw [hvRecv, hDataPos]
          exact ⟨Nat.le_refl 0, Nat.zero_le _⟩
        · rw [hhdr, bytes]
          dsimp only
          rw [if_pos rfl, hDataPos, List.take_zero, List.append_nil]

theorem length_resize (s : Stream) (n : Nat) : (resize s n).length = n := by
  rw [resize, List.length_append, List.length_take, List.length_replicate]
  omega

theorem take_resize {s : Stream} {i n : Nat} (hs : i ≤ s.length) (hn : i ≤ n) : (resize s n).take i = s.take i := by
  rw [resize, List.take_append_of_le_length (by rw [List.length_take]; omega), List.take_take, Nat.min_eq_left hn]

theorem Ok.readData (h : msg.Ok) (hdata : msg.inData = true) (hcomplete : msg.complete = false) (hne : pch ≠ []) :
    Reads msg pch (msg.readData pch).1 (msg.readData pch).2 := by
  obtain ⟨hpos, hlen⟩ := h.data hdata
  have hsize := h.size hdata
  have hpch := List.length_pos_of_ne_nil hne
  have hmore : msg.nDataPos < msg.hdr.nMessageSize.toNat := by
    have hdiff : msg.hdr.nMessageSize.toNat ≠ msg.nDataPos := by simpa [complete, hdata] using hcomplete
    omega
  unfold CNetMessage.readData
  dsimp only
  generalize hn : min (msg.hdr.nMessageSize.toNat - msg.nDataPos) pch.length = nCopy
  have hcopy : (pch.take nCopy).length = nCopy := by
    rw [List.length_take]
    omega
  have hcopyne : pch.take nCopy ≠ [] := List.ne_nil_of_length_pos (by omega)
  generalize hvRecv : (if msg.vRecv.length < msg.nDataPos + nCopy then
    resize msg.vRecv (min msg.hdr.nMessageSize.toNat (msg.nDataPos + nCopy + 256 * 1024)) else msg.vRecv) = vRecv
  -- the room is there, and what was read before is still in its place
  have hroom : msg.nDataPos + nCopy ≤ vRecv.length ∧ vRecv.length ≤ msg.hdr.nMessageSize.toNat ∧
      vRecv.take msg.nDataPos = msg.vRecv.take msg.nDataPos := by
    rw [← hvRecv]
    split
    · rw [length_resize, take_resize hpos (by omega)]
      exact ⟨by omega, by omega, rfl⟩
    · exact ⟨by omega, hlen, rfl⟩
  obtain ⟨hle, hmax, hsame⟩ := hroom
  have htake : (overwrite 0 vRecv msg.nDataPos (pch.take nCopy)).take (msg.nDataPos + nCopy) =
      msg.vRecv.take msg.nDataPos ++ pch.take nCopy := by
    have hend := @take_overwrite_end UInt8 0 vRecv (pch.take nCopy) msg.nDataPos hcopyne (by omega)
    rwa [hcopy, hsame] at hend
  have hwritten : (overwrite 0 vRecv msg.nDataPos (pch.take nCopy)).length = vRecv.length := by
    rw [length_overwrite hcopyne, hcopy]
    omega
  refine ⟨fun hbad => ?_, fun n hsome => ?_, fun n hsome _ => ?_⟩
  · rcases hbad with hnone | hbad
    · cases hnone
    · have hlarge : MAX_PROTOCOL_MESSAGE_LENGTH < msg.hdr.nMessageSize.toNat := by simpa [oversized, hdata] using hbad
      omega
  · cases hsome
    omega
  · cases hsome
    refine ⟨⟨fun hno => ?_, fun _ => ?_, fun _ => hsize⟩, ?_⟩
    · rw [hdata] at hno
      cases hno
    · dsimp only
      rw [hwritten]
      exact ⟨hle, hmax⟩
    · unfold bytes
      dsimp only
      rw [hdata, if_pos rfl, if_pos rfl, htake, List.append_assoc]

theorem Ok.read (h : msg.Ok) (hcomplete : msg.complete = false) (hne : pch ≠ []) :
    Reads msg pch (msg.read pch).1 (msg.read pch).2 := by
  unfold CNetMessage.read
  cases hdata : msg.inData with
  | false => exact h.readHeader hdata hne
  | true => exact h.readData hdata hcomplete hne

theorem Ok.bytes_of_complete (h : msg.Ok) (hcomplete : msg.complete = true) :
    msg.inData = true ∧ msg.vRecv.length = msg.hdr.nMessageSize.toNat ∧ msg.bytes = msg.hdr.serialize ++ msg.vRecv := by
  obtain ⟨hdata, hsize⟩ := Bool.and_eq_true_iff.mp hcomplete
  obtain ⟨hpos, hlen⟩ := h.data hdata
  rw [beq_iff_eq] at hsize
  refine ⟨hdata, by omega, ?_⟩
  rw [bytes, hdata, if_pos rfl, List.take_of_length_le (by omega)]

end CNetMessage

/-! ## The messages of a connection -/

/-- All messages but the last one are complete. -/
structure Received (vRecvMsg : List CNetMessage) : Prop where
  ok : ∀ msg ∈ vRecvMsg, msg.Ok
  complete : ∀ msg ∈ vRecvMsg.dropLast, msg.complete = true

/-- What was received. -/
def receivedBytes (vRecvMsg : List CNetMessage) : List UInt8 := vRecvMsg.flatMap CNetMessage.bytes

variable {start : MessageStart} {vRecvMsg : List CNetMessage} {pch : List UInt8}

theorem Received.current (start : MessageStart) (h : Received vRecvMsg) :
    (∀ msg ∈ (currentMessage start vRecvMsg).1, msg.Ok ∧ msg.complete = true) ∧ (currentMessage start vRecvMsg).2.Ok ∧
      (currentMessage start vRecvMsg).2.complete = false ∧
      receivedBytes ((currentMessage start vRecvMsg).1 ++ [(currentMessage start vRecvMsg).2]) = receivedBytes vRecvMsg := by
  unfold currentMessage
  cases hlast : vRecvMsg.getLast? with
  | none =>
    rw [List.getLast?_eq_none_iff] at hlast
    subst hlast
    exact ⟨nofun, CNetMessage.ok_new start, rfl, rfl⟩
  | some msg =>
    have hsplit : vRecvMsg.dropLast ++ [msg] = vRecvMsg := List.dropLast_append_getLast? msg hlast
    dsimp only
    split
    · next hcomplete =>
      refine ⟨fun m hm => ⟨h.ok m hm, ?_⟩, CNetMessage.ok_new start, rfl, ?_⟩
      · rw [← hsplit, List.mem_append, List.mem_singleton] at hm
        rcases hm with hm | rfl
        · exact h.complete m hm
        · exact hcomplete
      · rw [receivedBytes, List.flatMap_append]
        exact List.append_nil _
    · next hcomplete =>
      refine ⟨fun m hm => ⟨h.ok m (List.mem_of_mem_dropLast hm), h.complete m hm⟩, h.ok msg (List.mem_of_getLast? hlast),
        Bool.not_eq_true _ |>.mp hcomplete, ?_⟩
      rw [hsplit]

/-- The messages before one that has refused its header. -/
def Stopped (vRecvMsg : List CNetMessage) (s : List UInt8) : Prop :=
  ∃ done bad rest, vRecvMsg = done ++ [bad] ∧ (∀ msg ∈ done, msg.Ok ∧ msg.complete = true) ∧ bad.complete = false ∧
    CNetMessage.Refused rest ∧ s = receivedBytes done ++ rest

theorem receiveLoop_spec (start : MessageStart) (pch : List UInt8) (fuel : Nat) (h : Received vRecvMsg) (hfuel : pch.length ≤ fuel) :
    ((receiveLoop start fuel vRecvMsg pch).2 = true → Received (receiveLoop start fuel vRecvMsg pch).1 ∧
      receivedBytes (receiveLoop start fuel vRecvMsg pch).1 = receivedBytes vRecvMsg ++ pch) ∧
    ((receiveLoop start fuel vRecvMsg pch).2 = false →
      Stopped (receiveLoop start fuel vRecvMsg pch).1 (receivedBytes vRecvMsg ++ pch)) := by
  induction fuel generalizing vRecvMsg pch with
  | zero =>
    obtain rfl := List.length_eq_zero_iff.mp (Nat.le_zero.mp hfuel)
    exact ⟨fun _ => ⟨h, (List.append_nil _).symm⟩, nofun⟩
  | succ fuel ih =>
    rw [receiveLoop]
    by_cases hnil : pch = []
    · subst hnil
      exact ⟨fun _ => ⟨h, (List.append_nil _).symm⟩, nofun⟩
    · rw [if_neg (by rwa [List.isEmpty_iff])]
      obtain ⟨hdone, hok, hcomplete, hbytes⟩ := h.current start
      generalize currentMessage start vRecvMsg = current at hdone hok hcomplete hbytes
      obtain ⟨done, msg⟩ := current
      dsimp only at hdone hok hcomplete hbytes ⊢
      have hreads := hok.read hcomplete hnil
      rw [receivedBytes, List.flatMap_append, List.flatMap_singleton] at hbytes
      rw [← hbytes, List.append_assoc]
      generalize msg.read pch = r at hreads
      obtain ⟨msg', handled⟩ := r
      dsimp only at hreads ⊢
      cases handled with
      | none =>
        obtain ⟨hbad, hrefused⟩ := hreads.refused (.inl rfl)
        exact ⟨nofun, fun _ => ⟨done, msg', _, rfl, hdone, hbad, hrefused, rfl⟩⟩
      | some n =>
        dsimp only
        cases hover : msg'.oversized with
        | true =>
          obtain ⟨hbad, hrefused⟩ := hreads.refused (.inr hover)
          exact ⟨nofun, fun _ => ⟨done, msg', _, rfl, hdone, hbad, hrefused, rfl⟩⟩
        | false =>
          obtain ⟨hok', hbytes'⟩ := hreads.ok n rfl hover
          obtain ⟨hpos, hle⟩ := hreads.taken n rfl
          have hreceived : Received (done ++ [msg']) := by
            refine ⟨fun m hm => ?_, fun m hm => ?_⟩
            · rcases List.mem_append.mp hm with hm | hm
              · exact (hdone m hm).1
              · rwa [List.mem_singleton.mp hm]
            · rw [List.dropLast_concat] at hm
              exact (hdone m hm).2
          have hrest := ih (pch.drop n) hreceived (by rw [List.length_drop]; omega)
          have hsame : receivedBytes (done ++ [msg']) ++ pch.drop n = done.flatMap CNetMessage.bytes ++ (msg.bytes ++ pch) := by
            rw [receivedBytes, List.flatMap_append, List.flatMap_singleton, hbytes', List.append_assoc, List.append_assoc,
              List.take_append_drop]
          rw [hsame] at hrest
          rw [if_neg Bool.false_ne_true]
          exact hrest

/-! ## The frames of the stream -/

/-- The length of the data after a header. -/
def frameSize (header : List UInt8) : Option Nat :=
  match CMessageHeader.unserialize header with
  | some (hdr, _) => if hdr.nMessageSize.toNat ≤ MAX_PROTOCOL_MESSAGE_LENGTH then some hdr.nMessageSize.toNat else none
  | none => none

theorem frameSize_serialize (hdr : CMessageHeader) :
    frameSize hdr.serialize = if hdr.nMessageSize.toNat ≤ MAX_PROTOCOL_MESSAGE_LENGTH then some hdr.nMessageSize.toNat else none := by
  have hread := CMessageHeader.unserialize_serialize hdr []
  rw [List.append_nil] at hread
  rw [frameSize, hread]

/-- The messages that are complete. -/
def completeFrames (vRecvMsg : List CNetMessage) : List (List UInt8 × List UInt8) :=
  (vRecvMsg.filter CNetMessage.complete).map fun msg => (msg.hdr.serialize, msg.vRecv)

/-- What there is of the message that is not. -/
def incompleteFrame (vRecvMsg : List CNetMessage) : FrameTail UInt8 :=
  match vRecvMsg.getLast? with
  | none => .header []
  | some msg =>
    if msg.complete then .header []
    else if msg.inData then .data msg.hdr.serialize (msg.vRecv.take msg.nDataPos)
    else .header (msg.hdrbuf.take msg.nHdrPos)

theorem completeFrames_of_complete {done : List CNetMessage} (h : ∀ msg ∈ done, msg.complete = true) :
    completeFrames done = done.map fun msg => (msg.hdr.serialize, msg.vRecv) := by
  rw [completeFrames, List.filter_eq_self.mpr h]

theorem completeFrames_concat (done : List CNetMessage) {msg : CNetMessage} (h : msg.complete = false) :
    completeFrames (done ++ [msg]) = completeFrames done := by
  rw [completeFrames, List.filter_append, List.filter_singleton, h]
  simp [completeFrames]

theorem frames_of_complete {done : List CNetMessage} (h : ∀ msg ∈ done, msg.Ok ∧ msg.complete = true) :
    (∀ f ∈ completeFrames done, f.1.length = 24 ∧ frameSize f.1 = some f.2.length) ∧
      receivedBytes done = (completeFrames done).flatMap fun f => f.1 ++ f.2 := by
  rw [completeFrames_of_complete fun msg hmsg => (h msg hmsg).2]
  constructor
  · intro f hf
    obtain ⟨msg, hmsg, rfl⟩ := List.mem_map.mp hf
    obtain ⟨hok, hcomplete⟩ := h msg hmsg
    obtain ⟨hdata, hlen, -⟩ := hok.bytes_of_complete hcomplete
    exact ⟨msg.hdr.length_serialize, by rw [frameSize_serialize, if_pos (hok.size hdata), hlen]⟩
  · rw [receivedBytes, List.flatMap_map]
    refine List.flatMap_congr fun msg hmsg => ?_
    obtain ⟨hok, hcomplete⟩ := h msg hmsg
    exact (hok.bytes_of_complete hcomplete).2.2

theorem framed_incomplete {msg : CNetMessage} (hok : msg.Ok) (hcomplete : msg.complete = false) :
    Framed 24 frameSize msg.bytes [] (incompleteFrame [msg]) := by
  rw [incompleteFrame, List.getLast?_singleton]
  dsimp only
  rw [hcomplete, if_neg Bool.false_ne_true]
  cases hdata : msg.inData with
  | false =>
    obtain ⟨hlen, hpos, -⟩ := hok.header hdata
    rw [if_neg Bool.false_ne_true, CNetMessage.bytes, hdata, if_neg Bool.false_ne_true]
    exact .header (by rw [List.length_take]; omega)
  | true =>
    obtain ⟨hpos, hlen⟩ := hok.data hdata
    rw [if_pos rfl, CNetMessage.bytes, hdata, if_pos rfl]
    refine .data msg.hdr.length_serialize (by rw [frameSize_serialize, if_pos (hok.size hdata)]) ?_
    have hdiff : msg.hdr.nMessageSize.toNat ≠ msg.nDataPos := by simpa [CNetMessage.complete, hdata] using hcomplete
    rw [List.length_take]
    omega

theorem Received.framed (h : Received vRecvMsg) :
    Framed 24 frameSize (receivedBytes vRecvMsg) (completeFrames vRecvMsg) (incompleteFrame vRecvMsg) := by
  cases hlast : vRecvMsg.getLast? with
  | none =>
    rw [List.getLast?_eq_none_iff] at hlast
    subst hlast
    exact .header (Nat.succ_pos 23)
  | some msg =>
    have hsplit : vRecvMsg.dropLast ++ [msg] = vRecvMsg := List.dropLast_append_getLast? msg hlast
    have hdone (m : CNetMessage) (hm : m ∈ vRecvMsg.dropLast) : m.Ok ∧ m.complete = true :=
      ⟨h.ok m (List.mem_of_mem_dropLast hm), h.complete m hm⟩
    have hok := h.ok msg (List.mem_of_getLast? hlast)
    have htail : incompleteFrame vRecvMsg = incompleteFrame [msg] := by
      rw [incompleteFrame, incompleteFrame, hlast, List.getLast?_singleton]
    cases hcomplete : msg.complete with
    | true =>
      have hall : ∀ m ∈ vRecvMsg, m.Ok ∧ m.complete = true := by
        intro m hm
        rw [← hsplit, List.mem_append, List.mem_singleton] at hm
        rcases hm with hm | rfl
        · exact hdone m hm
        · exact ⟨hok, hcomplete⟩
      obtain ⟨hframes, hbytes⟩ := frames_of_complete hall
      have hframed := Framed.append hframes (.header (l := []) (Nat.succ_pos 23))
      rw [List.append_nil, List.append_nil, ← hbytes] at hframed
      have hend : incompleteFrame [msg] = .header [] := by
        rw [incompleteFrame, List.getLast?_singleton]
        exact if_pos hcomplete
      rwa [htail, hend]
    | false =>
      obtain ⟨hframes, hbytes⟩ := frames_of_complete hdone
      have hframed := Framed.append hframes (framed_incomplete hok hcomplete)
      rw [← hbytes, List.append_nil] at hframed
      rw [htail, ← hsplit, completeFrames_concat _ hcomplete, receivedBytes, List.flatMap_append, List.flatMap_singleton]
      exact hframed

theorem Stopped.framed {s : List UInt8} (h : Stopped vRecvMsg s) :
    ∃ header, Framed 24 frameSize s (completeFrames vRecvMsg) (.refused header) := by
  obtain ⟨done, bad, rest, rfl, hdone, hbad, ⟨hdr, l, hsize, rfl⟩, rfl⟩ := h
  obtain ⟨hframes, hbytes⟩ := frames_of_complete hdone
  refine ⟨hdr.serialize, ?_⟩
  have hframed := Framed.append (l := hdr.serialize ++ l) hframes
    (.refused hdr.length_serialize (by rw [frameSize_serialize, if_neg (Nat.not_le.mpr hsize)]))
  rwa [List.append_nil, ← hbytes, ← completeFrames_concat done hbad] at hframed

theorem receiveAll_spec (start : MessageStart) (chunks : List (List UInt8)) (h : Received vRecvMsg) :
    ((receiveAll start vRecvMsg chunks).2 = true → Received (receiveAll start vRecvMsg chunks).1 ∧
      receivedBytes (receiveAll start vRecvMsg chunks).1 = receivedBytes vRecvMsg ++ chunks.flatten) ∧
    ((receiveAll start vRecvMsg chunks).2 = false →
      Stopped (receiveAll start vRecvMsg chunks).1 (receivedBytes vRecvMsg ++ chunks.flatten)) := by
  induction chunks generalizing vRecvMsg with
  | nil => exact ⟨fun _ => ⟨h, (List.append_nil _).symm⟩, nofun⟩
  | cons pch rest ih =>
    obtain ⟨htrue, hfalse⟩ := receiveLoop_spec start pch pch.length h (Nat.le_refl _)
    rw [receiveAll, List.flatten_cons, ← List.append_assoc]
    cases hr : (receiveMsgBytes start vRecvMsg pch).2 with
    | true =>
      obtain ⟨hreceived, hbytes⟩ := htrue hr
      rw [if_pos rfl, ← hbytes]
      exact ih hreceived
    | false =>
      rw [if_neg Bool.false_ne_true, hr]
      refine ⟨nofun, fun _ => ?_⟩
      obtain ⟨done, bad, s, hlist, hdone, hbad, hrefused, hs⟩ := hfalse hr
      exact ⟨done, bad, s ++ rest.flatten, hlist, hdone, hbad, hrefused.append _, by rw [hs, List.append_assoc]⟩

theorem received_nil : Received [] := ⟨nofun, nofun⟩

/-- However the stream is cut into reads, the messages that are complete are its frames, a message that is not is its end, and the
connection is closed when a header is refused. -/
theorem receiveAll_framed (start : MessageStart) (chunks : List (List UInt8)) :
    let r := receiveAll start [] chunks
    (∃ t, Framed 24 frameSize chunks.flatten (completeFrames r.1) t ∧ (r.2 = true → t = incompleteFrame r.1) ∧
      (r.2 = false ↔ ∃ header, t = .refused header)) ∧
    ∀ chunks' : List (List UInt8), chunks'.flatten = chunks.flatten →
      let r' := receiveAll start [] chunks'
      r'.2 = r.2 ∧ completeFrames r'.1 = completeFrames r.1 ∧ (r.2 = true → incompleteFrame r'.1 = incompleteFrame r.1) := by
  have hkeep (chunks : List (List UInt8)) : ∃ t, Framed 24 frameSize chunks.flatten (completeFrames (receiveAll start [] chunks).1) t ∧
      ((receiveAll start [] chunks).2 = true → t = incompleteFrame (receiveAll start [] chunks).1) ∧
      ((receiveAll start [] chunks).2 = false ↔ ∃ header, t = .refused header) := by
    obtain ⟨htrue, hfalse⟩ := receiveAll_spec start chunks received_nil
    cases hr : (receiveAll start [] chunks).2 with
    | true =>
      obtain ⟨hreceived, hbytes⟩ := htrue hr
      have hframed := hreceived.framed
      rw [hbytes] at hframed
      refine ⟨_, hframed, fun _ => rfl, nofun, fun ⟨header, ht⟩ => ?_⟩
      unfold incompleteFrame at ht
      split at ht
      · cases ht
      · split at ht
        · cases ht
        · split at ht <;> cases ht
    | false =>
      obtain ⟨header, hframed⟩ := (hfalse hr).framed
      exact ⟨_, hframed, nofun, fun _ => ⟨header, rfl⟩, fun _ => rfl⟩
  refine ⟨hkeep chunks, fun chunks' hsame => ?_⟩
  obtain ⟨t, hframed, htail, hrefused⟩ := hkeep chunks
  obtain ⟨t', hframed', htail', hrefused'⟩ := hkeep chunks'
  rw [hsame] at hframed'
  obtain ⟨hframes, rfl⟩ := hframed'.unique hframed
  have hok : (receiveAll start [] chunks').2 = (receiveAll start [] chunks).2 := by
    cases hr : (receiveAll start [] chunks).2 with
    | true => exact Bool.not_eq_false _ |>.mp fun hno => absurd (hrefused.mpr (hrefused'.mp hno)) (by rw [hr]; exact nofun)
    | false => exact hrefused'.mpr (hrefused.mp hr)
  exact ⟨hok, hframes, fun hr => (htail' (hok.trans hr)).symm.trans (htail hr)⟩

end DigiWage
