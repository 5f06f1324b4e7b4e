import DigiWage.Net.Message

/-!
# A connection

The way of the messages of one node to another: `CNode::BeginMessage`, `CNode::EndMessage` and `SocketSendData` of `net.cpp` on
the one side, `CNode::ReceiveMsgBytes` and `ProcessMessages` of `main.cpp` on the other one, and the bytes between them.

* The socket takes as many bytes as it likes, and gives as many as it likes.
* `Connection.Inv`: what was pushed is what was handed over, is being received, on its way and still to be sent, in this order.
* `Connection.delivered_prefix`: the messages are handed over in order, none twice, none left out.
-/

namespace DigiWage

open Lib

/-! ## Sending -/

/-- What `send` returns: how many bytes it has taken, that it cannot take any now, or an error. -/
inductive SendAnswer where
  | sent (nBytes : Nat)
  | wouldBlock
  | error

/-- What `CNode` is sending. -/
structure SendQueue where
  vSendMsg : List (List UInt8)
  nSendOffset : Nat
  nSendSize : Nat
  fDisconnect : Bool

/-- What `SocketSendData` has done, and the bytes that went out. -/
structure Sent where
  queue : SendQueue
  bytes : List UInt8

/-- The loop of `SocketSendData`; `none` where an assertion fails. A socket that is closed gives errors. -/
def sendLoop : List (List UInt8) → Nat → Nat → Bool → List SendAnswer → Option Sent
  | [], nSendOffset, nSendSize, fDisconnect, _ =>
    if nSendOffset = 0 ∧ nSendSize = 0 then some ⟨⟨[], 0, 0, fDisconnect⟩, []⟩ else none
  | data :: rest, nSendOffset, nSendSize, fDisconnect, answers =>
    if data.length ≤ nSendOffset then none
    else
      match answers with
      | .sent n :: answers =>
        let nBytes := if fDisconnect then 0 else min n (data.length - nSendOffset)
        if nSendOffset + nBytes = data.length then
          (sendLoop rest 0 (nSendSize - data.length) fDisconnect answers).map fun s =>
            { s with bytes := data.drop nSendOffset ++ s.bytes }
        else
          some ⟨⟨data :: rest, nSendOffset + nBytes, nSendSize, fDisconnect⟩, (data.drop nSendOffset).take nBytes⟩
      | .error :: _ => some ⟨⟨data :: rest, nSendOffset, nSendSize, true⟩, []⟩
      | _ => some ⟨⟨data :: rest, nSendOffset, nSendSize, fDisconnect⟩, []⟩

def socketSendData (answers : List SendAnswer) (q : SendQueue) : Option Sent :=
  sendLoop q.vSendMsg q.nSendOffset q.nSendSize q.fDisconnect answers

/-- The first four bytes of `Hash`. -/
def messageChecksum (data : List UInt8) : UInt32 := UInt32.ofNat (hash256 data).toNat

def beginMessage (start : MessageStart) (pszCommand : List UInt8) : List UInt8 := (CMessageHeader.new start pszCommand 0).serialize

/-- `EndMessage` up to the queue: the size and the checksum are written over what `BeginMessage` has written. -/
def finishMessage (ssSend : List UInt8) : List UInt8 :=
  let nSize := UInt32.ofNat (ssSend.length - 24)
  let ssSend := overwrite 0 ssSend 16 (leBytes 4 nSize.toNat)
  overwrite 0 ssSend 20 (leBytes 4 (messageChecksum (ssSend.drop 24)).toNat)

def endMessage (answers : List SendAnswer) (ssSend : List UInt8) (q : SendQueue) : Option Sent :=
  let data := finishMessage ssSend
  let optimistic := q.vSendMsg.isEmpty
  let q : SendQueue := { q with vSendMsg := q.vSendMsg ++ [data], nSendSize := q.nSendSize + data.length }
  -- if the write queue was empty, attempt an optimistic write
  if optimistic then socketSendData answers q else some ⟨q, []⟩

/-- A message as the node sends it: a command of at most twelve characters, and data of the length that the protocol allows. -/
structure Outgoing where
  command : List UInt8
  payload : List UInt8
  length_command : command.length ≤ 12
  printable : ∀ c ∈ command, 0x20 ≤ c ∧ c ≤ 0x7E
  length_payload : payload.length ≤ MAX_PROTOCOL_MESSAGE_LENGTH

def pushMessage (start : MessageStart) (answers : List SendAnswer) (m : Outgoing) (q : SendQueue) : Option Sent :=
  endMessage answers (beginMessage start m.command ++ m.payload) q

/-! ## Receiving -/

/-- What `ProcessMessages` leaves of the messages, the command and the data that it hands to `ProcessMessage`, and what it
returns. -/
structure MessagesProcessed where
  vRecvMsg : List CNetMessage
  message : Option (List UInt8 × List UInt8)
  fOk : Bool

/-- The loop of `ProcessMessages`. -/
def processLoop (start : MessageStart) (sendFull : Bool) : List CNetMessage → MessagesProcessed
  | [] => ⟨[], none, true⟩
  | msg :: rest =>
    -- don't bother if the send buffer is too full to respond anyway
    if sendFull then ⟨msg :: rest, none, true⟩
    else if !msg.complete then ⟨msg :: rest, none, true⟩
    else if msg.hdr.pchMessageStart ≠ start.bytes then ⟨rest, none, false⟩
    else if !msg.hdr.isValid start then processLoop start sendFull rest
    else if messageChecksum (msg.vRecv.take msg.hdr.nMessageSize.toNat) ≠ msg.hdr.nChecksum then processLoop start sendFull rest
    else ⟨rest, some (msg.hdr.getCommand, msg.vRecv), true⟩

/-- `ProcessMessages`; `getDataLeft` where `ProcessGetData` has left something to be answered first. -/
def processMessages (start : MessageStart) (getDataLeft sendFull : Bool) (vRecvMsg : List CNetMessage) : MessagesProcessed :=
  if getDataLeft then ⟨vRecvMsg, none, true⟩ else processLoop start sendFull vRecvMsg

/-! ## The connection -/

/-- The two ends and the bytes between them; what was pushed, and what was handed to `ProcessMessage`; and whether an assertion
has failed, or one end has refused what the other one has sent. -/
structure Connection where
  pushed : List Outgoing
  sender : SendQueue
  wire : List UInt8
  vRecvMsg : List CNetMessage
  fDisconnect : Bool
  delivered : List (List UInt8 × List UInt8)
  failed : Bool

/-- A message is pushed, the socket takes bytes, it gives bytes, messages are processed, or the connection is given up. -/
inductive ConnectionAction where
  | push (m : Outgoing) (answers : List SendAnswer)
  | send (answers : List SendAnswer)
  | recv (nBytes : Nat)
  | process (getDataLeft sendFull : Bool)
  | disconnect

namespace Connection

def new : Connection := ⟨[], ⟨[], 0, 0, false⟩, [], [], false, [], false⟩

/-- What goes out. -/
def sent (c : Connection) : Option Sent → Connection
  | none => { c with failed := true }
  | some s => { c with sender := s.queue, wire := c.wire ++ s.bytes }

/-- One step. -/
def step (start : MessageStart) (c : Connection) : ConnectionAction → Connection
  | .push m answers => sent { c with pushed := c.pushed ++ [m] } (pushMessage start answers m c.sender)
  | .send answers => c.sent (socketSendData answers c.sender)
  | .recv nBytes =>
    if c.fDisconnect then c
    else
      let r := receiveMsgBytes start c.vRecvMsg (c.wire.take (min nBytes 0x10000))
      { c with
        wire := c.wire.drop (min nBytes 0x10000)
        vRecvMsg := r.1
        fDisconnect := !r.2
        failed := c.failed || !r.2 }
  | .process getDataLeft sendFull =>
    if c.fDisconnect then c
    else
      let r := processMessages start getDataLeft sendFull c.vRecvMsg
      { c with
        vRecvMsg := r.vRecvMsg
        fDisconnect := !r.fOk
        delivered := c.delivered ++ r.message.toList
        failed := c.failed || !r.fOk }
  | .disconnect => { c with fDisconnect := true }

/-- Steps one after the other. -/
def run (start : MessageStart) (c : Connection) (actions : List ConnectionAction) : Connection := actions.foldl (step start) c

end Connection

/-! ## A message is its bytes -/

namespace Outgoing

/-- The header that goes out. -/
def header (start : MessageStart) (m : Outgoing) : CMessageHeader :=
  { CMessageHeader.new start m.command (UInt32.ofNat m.payload.length) with nChecksum := messageChecksum m.payload }

/-- The bytes that go out. -/
def encode (start : MessageStart) (m : Outgoing) : List UInt8 := (m.header start).serialize ++ m.payload

/-- The command and the data. -/
def message (m : Outgoing) : List UInt8 × List UInt8 := (m.command, m.payload)

theorem nMessageSize_header (start : MessageStart) (m : Outgoing) : (m.header start).nMessageSize.toNat = m.payload.length := by
  have hmax : MAX_PROTOCOL_MESSAGE_LENGTH < 2 ^ 32 := by decide
  exact UInt32.toNat_ofNat_of_lt' (Nat.lt_of_le_of_lt m.length_payload hmax)

theorem frameSize_header (start : MessageStart) (m : Outgoing) : frameSize (m.header start).serialize = some m.payload.length := by
  rw [frameSize_serialize, nMessageSize_header, if_pos m.length_payload]

theorem finishMessage_eq (start : MessageStart) (m : Outgoing) :
    finishMessage (beginMessage start m.command ++ m.payload) = m.encode start := by
  generalize hS : start.bytes ++ (m.command ++ List.replicate 12 0).take 12 = fields
  have hfields : fields.length = 16 := by
    have hcommand := (CMessageHeader.new start m.command 0).length_pchCommand
    change ((m.command ++ List.replicate 12 0).take 12).length = 12 at hcommand
    rw [← hS, List.length_append, start.length_bytes, hcommand]
  have hbegin : beginMessage start m.command ++ m.payload = fields ++ leBytes 4 0 ++ (leBytes 4 0 ++ m.payload) := by
    rw [← hS, ← List.append_assoc]
    rfl
  have hencode : m.encode start =
      fields ++ leBytes 4 (UInt32.ofNat m.payload.length).toNat ++ leBytes 4 (messageChecksum m.payload).toNat ++
      m.payload := by
    rw [← hS]
    rfl
  have hsize : (fields ++ leBytes 4 0 ++ (leBytes 4 0 ++ m.payload)).length - 24 = m.payload.length := by
    simp only [List.length_append, length_leBytes, hfields]
    omega
  have hne (n : Nat) : leBytes 4 n ≠ [] := List.ne_nil_of_length_pos (by rw [length_leBytes]; exact Nat.succ_pos 3)
  rw [hbegin, hencode, finishMessage, hsize]
  generalize hd : leBytes 4 (UInt32.ofNat m.payload.length).toNat = d
  have hdlen : d.length = 4 := by rw [← hd, length_leBytes]
  have hfirst : overwrite 0 (fields ++ leBytes 4 0 ++ (leBytes 4 0 ++ m.payload)) 16 d = fields ++ d ++ (leBytes 4 0 ++ m.payload) := by
    rw [← hfields]
    exact overwrite_middle 0 fields _ (by rw [hdlen, length_leBytes]) (by rw [← hd]; exact hne _)
  have hdrop : (fields ++ d ++ (leBytes 4 0 ++ m.payload)).drop 24 = m.payload := by
    rw [← List.append_assoc]
    refine List.drop_left' ?_
    rw [List.length_append, List.length_append, hfields, hdlen, length_leBytes]
  have hat : (fields ++ d).length = 20 := by rw [List.length_append, hfields, hdlen]
  rw [hfirst, hdrop, ← List.append_assoc, ← hat]
  exact overwrite_middle 0 (fields ++ d) _ (by rw [length_leBytes, length_leBytes]) (hne _)

theorem getCommand_header (start : MessageStart) (m : Outgoing) : (m.header start).getCommand = m.command := by
  have hzero (c : UInt8) (hc : c ∈ m.command) : (c != 0) = true := by
    have hprintable := (m.printable c hc).1
    rw [bne_iff_ne]
    rintro rfl
    exact absurd hprintable (by decide)
  have hlen := m.length_command
  change ((m.command ++ List.replicate 12 0).take 12).takeWhile (· != 0) = m.command
  rw [List.take_append, List.take_of_length_le hlen, List.take_replicate, List.takeWhile_append_of_pos hzero, List.takeWhile_replicate]
  simp

theorem commandOk_zeros (n : Nat) : CMessageHeader.commandOk (List.replicate n 0) = true := by
  cases n with
  | zero => rfl
  | succ n =>
    rw [List.replicate_succ, CMessageHeader.commandOk, if_pos rfl, List.all_eq_true]
    intro c hc
    rw [List.eq_of_mem_replicate hc]
    rfl

theorem commandOk_append (n : Nat) : ∀ command : List UInt8, (∀ c ∈ command, 0x20 ≤ c ∧ c ≤ 0x7E) →
    CMessageHeader.commandOk (command ++ List.replicate n 0) = true
  | [], _ => commandOk_zeros n
  | c :: command, h => by
    obtain ⟨hlow, hhigh⟩ := h c List.mem_cons_self
    have hc : c ≠ 0 := by
      rintro rfl
      exact absurd hlow (by decide)
    have hrange : ¬ (c < 0x20 ∨ 0x7E < c) := not_or.mpr ⟨UInt8.not_lt.mpr hlow, UInt8.not_lt.mpr hhigh⟩
    rw [List.cons_append, CMessageHeader.commandOk, if_neg hc, if_neg hrange]
    exact commandOk_append n command fun d hd => h d (List.mem_cons_of_mem c hd)

theorem isValid_header (start : MessageStart) (m : Outgoing) : (m.header start).isValid start = true := by
  have hmax : MAX_PROTOCOL_MESSAGE_LENGTH ≤ MAX_SIZE := by decide
  have hsize : (m.header start).nMessageSize.toNat ≤ MAX_SIZE := by
    rw [nMessageSize_header]
    exact Nat.le_trans m.length_payload hmax
  have hcommand : CMessageHeader.commandOk (m.header start).pchCommand = true := by
    change CMessageHeader.commandOk ((m.command ++ List.replicate 12 0).take 12) = true
    rw [List.take_append, List.take_of_length_le m.length_command, List.take_replicate]
    exact commandOk_append _ _ m.printable
  rw [CMessageHeader.isValid, hcommand, decide_eq_true hsize]
  simp [header, CMessageHeader.new]

/-- The frame of a message. -/
def frame (start : MessageStart) (m : Outgoing) : List UInt8 × List UInt8 := ((m.header start).serialize, m.payload)

theorem framed_encode (start : MessageStart) (ms : List Outgoing) :
    Framed 24 frameSize (ms.flatMap (encode start)) (ms.map (frame start)) (.header []) := by
  have hframes : ∀ f ∈ ms.map (frame start), f.1.length = 24 ∧ frameSize f.1 = some f.2.length := by
    intro f hf
    obtain ⟨m, -, rfl⟩ := List.mem_map.mp hf
    exact ⟨CMessageHeader.length_serialize _, frameSize_header start m⟩
  have hframed := Framed.append hframes (.header (l := []) (Nat.succ_pos 23))
  rw [List.append_nil, List.append_nil, List.flatMap_map] at hframed
  exact hframed

theorem eq_of_complete {start : MessageStart} {msg : CNetMessage} {ms : List Outgoing} {rest : List UInt8} (hok : msg.Ok)
    (hcomplete : msg.complete = true) (h : ms.flatMap (encode start) = msg.bytes ++ rest) :
    ∃ m ms', ms = m :: ms' ∧ msg.hdr = m.header start ∧ msg.vRecv = m.payload ∧ ms'.flatMap (encode start) = rest := by
  obtain ⟨hdata, hlen, hbytes⟩ := hok.bytes_of_complete hcomplete
  have hframed := framed_encode start ms
  rw [h, hbytes, List.append_assoc,
    Framed.cons_iff msg.hdr.length_serialize (by rw [frameSize_serialize, if_pos (hok.size hdata), hlen])] at hframed
  obtain ⟨fs, hfs, -⟩ := hframed
  cases ms with
  | nil => cases hfs
  | cons m ms' =>
    obtain ⟨hframe, -⟩ := List.cons.inj hfs
    obtain ⟨hhdr, hpayload⟩ := Prod.mk.inj hframe
    have hhdr' := CMessageHeader.serialize_inj hhdr
    refine ⟨m, ms', rfl, hhdr'.symm, hpayload.symm, ?_⟩
    rw [List.flatMap_cons, hbytes, encode, hhdr', hpayload] at h
    exact List.append_cancel_left h

theorem not_refused {start : MessageStart} {ms : List Outgoing} : ¬ CNetMessage.Refused (ms.flatMap (encode start)) := by
  rintro ⟨hdr, rest, hsize, h⟩
  have hframed := framed_encode start ms
  rw [h] at hframed
  have hrefused : Framed 24 frameSize (hdr.serialize ++ rest) [] (.refused hdr.serialize) :=
    .refused hdr.length_serialize (by rw [frameSize_serialize, if_neg (Nat.not_le.mpr hsize)])
  cases (hframed.unique hrefused).2

end Outgoing

/-! ## Both ends -/

namespace SendQueue

/-- The first message has not gone out completely, and `nSendSize` is the size of the messages. -/
structure Ok (q : SendQueue) : Prop where
  nonempty : ∀ data ∈ q.vSendMsg, data ≠ []
  offset : ∀ data rest, q.vSendMsg = data :: rest → q.nSendOffset < data.length
  offset_nil : q.vSendMsg = [] → q.nSendOffset = 0
  size : q.nSendSize = (q.vSendMsg.map List.length).sum

/-- What is still to be sent. -/
def pending (q : SendQueue) : List UInt8 := q.vSendMsg.flatten.drop q.nSendOffset

theorem Ok.sendLoop (answers : List SendAnswer) {q : SendQueue} (h : q.Ok) :
    ∃ s, DigiWage.sendLoop q.vSendMsg q.nSendOffset q.nSendSize q.fDisconnect answers = some s ∧ s.queue.Ok ∧
      s.bytes ++ s.queue.pending = q.pending := by
  obtain ⟨vSendMsg, nSendOffset, nSendSize, fDisconnect⟩ := q
  induction vSendMsg generalizing nSendOffset nSendSize answers with
  | nil =>
    have hoffset := h.offset_nil rfl
    have hsize := h.size
    dsimp only at hoffset hsize
    subst hoffset hsize
    exact ⟨_, if_pos ⟨rfl, rfl⟩, ⟨nofun, nofun, fun _ => rfl, rfl⟩, rfl⟩
  | cons data rest ih =>
    have hlt : nSendOffset < data.length := h.offset data rest rfl
    have hsize := h.size
    change nSendSize = data.length + (rest.map List.length).sum at hsize
    have hdrop : pending ⟨data :: rest, nSendOffset, nSendSize, fDisconnect⟩ = data.drop nSendOffset ++ rest.flatten := by
      rw [pending, List.flatten_cons, List.drop_append_of_le_length hlt.le]
    have hstay (fDisconnect' : Bool) : Ok ⟨data :: rest, nSendOffset, nSendSize, fDisconnect'⟩ :=
      ⟨h.nonempty, h.offset, h.offset_nil, h.size⟩
    unfold DigiWage.sendLoop
    dsimp only
    rw [if_neg (Nat.not_le.mpr hlt)]
    split
    · next n answers' =>
      generalize hn : (if fDisconnect = true then 0 else min n (data.length - nSendOffset)) = nBytes
      have hle : nBytes ≤ data.length - nSendOffset := by
        rw [← hn]
        split <;> omega
      split
      · next hall =>
        have hrest : Ok ⟨rest, 0, nSendSize - data.length, fDisconnect⟩ := by
          refine ⟨fun d hd => h.nonempty d (List.mem_cons_of_mem data hd), fun d r hr => ?_, fun _ => rfl, by dsimp only; omega⟩
          dsimp only at hr
          subst hr
          exact List.length_pos_of_ne_nil (h.nonempty d (List.mem_cons_of_mem data List.mem_cons_self))
        obtain ⟨s, hs, hok, hbytes⟩ := ih answers' 0 (nSendSize - data.length) hrest
        dsimp only at hs
        refine ⟨{ s with bytes := data.drop nSendOffset ++ s.bytes }, by rw [hs]; rfl, hok, ?_⟩
        rw [hdrop, List.append_assoc, hbytes]
        rfl
      · next hpart =>
        refine ⟨_, rfl, ⟨h.nonempty, fun d r hr => ?_, nofun, h.size⟩, ?_⟩
        · cases hr
          dsimp only
          omega
        · rw [hdrop, pending]
          dsimp only
          rw [List.flatten_cons, List.drop_append_of_le_length (by omega), ← List.append_assoc, ← List.drop_drop,
            List.take_append_drop]
    · exact ⟨_, rfl, hstay true, rfl⟩
    · exact ⟨_, rfl, hstay fDisconnect, rfl⟩

theorem Ok.pushMessage (start : MessageStart) (answers : List SendAnswer) (m : Outgoing) {q : SendQueue} (h : q.Ok) :
    ∃ s, DigiWage.pushMessage start answers m q = some s ∧ s.queue.Ok ∧ s.bytes ++ s.queue.pending = q.pending ++ m.encode start := by
  have hne : m.encode start ≠ [] := by
    refine List.ne_nil_of_length_pos ?_
    rw [Outgoing.encode, List.length_append, CMessageHeader.length_serialize]
    omega
  have hok : Ok { q with vSendMsg := q.vSendMsg ++ [m.encode start], nSendSize := q.nSendSize + (m.encode start).length } := by
    refine ⟨fun d hd => ?_, fun d r hr => ?_, fun hnil => absurd hnil (by simp), ?_⟩
    · rcases List.mem_append.mp hd with hd | hd
      · exact h.nonempty d hd
      · rwa [List.mem_singleton.mp hd]
    · dsimp only at hr ⊢
      cases hqueue : q.vSendMsg with
      | nil =>
        rw [hqueue] at hr
        cases hr
        rw [h.offset_nil hqueue]
        exact List.length_pos_of_ne_nil hne
      | cons d' r' =>
        rw [hqueue] at hr
        cases hr
        exact h.offset d r' hqueue
    · dsimp only
      rw [List.map_append, List.sum_append, h.size]
      rfl
  have hpending : pending { q with vSendMsg := q.vSendMsg ++ [m.encode start], nSendSize := q.nSendSize + (m.encode start).length } =
      q.pending ++ m.encode start := by
    rw [pending, pending]
    dsimp only
    rw [List.flatten_append, List.flatten_singleton]
    refine List.drop_append_of_le_length ?_
    cases hqueue : q.vSendMsg with
    | nil => rw [h.offset_nil hqueue]; exact Nat.zero_le _
    | cons d r =>
      have hlt := h.offset d r hqueue
      rw [List.flatten_cons, List.length_append]
      omega
  rw [DigiWage.pushMessage, endMessage, m.finishMessage_eq start]
  split
  · obtain ⟨s, hs, hok', hbytes⟩ := hok.sendLoop answers
    exact ⟨s, hs, hok', hbytes.trans hpending⟩
  · exact ⟨_, rfl, hok, hpending⟩

end SendQueue

theorem Received.tail {msg : CNetMessage} {rest : List CNetMessage} (h : Received (msg :: rest)) : Received rest := by
  refine ⟨fun m hm => h.ok m (List.mem_cons_of_mem msg hm), fun m hm => h.complete m ?_⟩
  cases rest with
  | nil => cases hm
  | cons r rest => exact List.mem_cons_of_mem msg hm

theorem processLoop_spec (start : MessageStart) (sendFull : Bool) {vRecvMsg : List CNetMessage} {ms : List Outgoing} {s : List UInt8}
    (h : Received vRecvMsg) (hms : ms.flatMap (Outgoing.encode start) = receivedBytes vRecvMsg ++ s) :
    (processLoop start sendFull vRecvMsg).fOk = true ∧ Received (processLoop start sendFull vRecvMsg).vRecvMsg ∧
      ∃ done ms', ms = done ++ ms' ∧ (processLoop start sendFull vRecvMsg).message.toList = done.map Outgoing.message ∧
        ms'.flatMap (Outgoing.encode start) = receivedBytes (processLoop start sendFull vRecvMsg).vRecvMsg ++ s := by
  cases vRecvMsg with
  | nil => exact ⟨rfl, h, [], ms, rfl, rfl, hms⟩
  | cons msg rest =>
    rw [processLoop]
    split
    · exact ⟨rfl, h, [], ms, rfl, rfl, hms⟩
    split
    · exact ⟨rfl, h, [], ms, rfl, rfl, hms⟩
    next hcomplete =>
    have hcomplete' : msg.complete = true := by simpa using hcomplete
    have hok := h.ok msg List.mem_cons_self
    rw [receivedBytes, List.flatMap_cons, List.append_assoc] at hms
    obtain ⟨m, ms', rfl, hhdr, hpayload, hrest⟩ := Outgoing.eq_of_complete hok hcomplete' hms
    obtain ⟨-, hlen, -⟩ := hok.bytes_of_complete hcomplete'
    have hstart : ¬ msg.hdr.pchMessageStart ≠ start.bytes := by
      rw [hhdr, not_not]
      rfl
    have hvalid : ¬ (!msg.hdr.isValid start) = true := by
      rw [hhdr, m.isValid_header start]
      exact Bool.false_ne_true
    have hchecksum : ¬ messageChecksum (msg.vRecv.take msg.hdr.nMessageSize.toNat) ≠ msg.hdr.nChecksum := by
      rw [← hlen, List.take_length, hhdr, hpayload, not_not]
      rfl
    rw [if_neg hstart, if_neg hvalid, if_neg hchecksum]
    refine ⟨rfl, h.tail, [m], ms', rfl, ?_, hrest⟩
    rw [hhdr, hpayload, m.getCommand_header start]
    rfl

namespace Connection

variable {start : MessageStart} {c : Connection}

/-- What was pushed and has not been handed over is being received, on its way or still to be sent. -/
structure Inv (start : MessageStart) (c : Connection) : Prop where
  sender : c.sender.Ok
  received : Received c.vRecvMsg
  stream : ∃ done rest, c.pushed = done ++ rest ∧ c.delivered = done.map Outgoing.message ∧
    rest.flatMap (Outgoing.encode start) = receivedBytes c.vRecvMsg ++ (c.wire ++ c.sender.pending)
  failed : c.failed = false

theorem inv_new (start : MessageStart) : new.Inv start :=
  ⟨⟨nofun, nofun, fun _ => rfl, rfl⟩, received_nil, ⟨[], [], rfl, rfl, rfl⟩, rfl⟩

theorem Inv.step (h : c.Inv start) (a : ConnectionAction) : (c.step start a).Inv start := by
  obtain ⟨done, rest, hpushed, hdelivered, hstream⟩ := h.stream
  cases a with
  | push m answers =>
    obtain ⟨s, hs, hok, hbytes⟩ := h.sender.pushMessage start answers m
    rw [Connection.step, hs]
    refine ⟨hok, h.received, ⟨done, rest ++ [m], ?_, hdelivered, ?_⟩, h.failed⟩
    · change c.pushed ++ [m] = _
      rw [hpushed, List.append_assoc]
    · change _ = receivedBytes c.vRecvMsg ++ (c.wire ++ s.bytes ++ s.queue.pending)
      rw [List.append_assoc c.wire, hbytes, List.flatMap_append, hstream, List.flatMap_singleton]
      simp only [List.append_assoc]
  | send answers =>
    obtain ⟨s, hs, hok, hbytes⟩ := h.sender.sendLoop answers
    rw [Connection.step, socketSendData, hs]
    refine ⟨hok, h.received, ⟨done, rest, hpushed, hdelivered, ?_⟩, h.failed⟩
    change _ = receivedBytes c.vRecvMsg ++ (c.wire ++ s.bytes ++ s.queue.pending)
    rw [List.append_assoc c.wire, hbytes, hstream]
  | recv nBytes =>
    rw [Connection.step]
    split
    · exact h
    · generalize min nBytes 0x10000 = n
      obtain ⟨htrue, hfalse⟩ := receiveLoop_spec start (c.wire.take n) (c.wire.take n).length h.received
        (Nat.le_refl _)
      have hsplit : rest.flatMap (Outgoing.encode start) =
          (receivedBytes c.vRecvMsg ++ c.wire.take n) ++ (c.wire.drop n ++ c.sender.pending) := by
        rw [hstream, List.append_assoc, ← List.append_assoc (c.wire.take n), List.take_append_drop]
      cases hr : (receiveMsgBytes start c.vRecvMsg (c.wire.take n)).2 with
      | true =>
        obtain ⟨hreceived, hbytes⟩ := htrue hr
        rw [← hbytes] at hsplit
        exact ⟨h.sender, hreceived, ⟨done, rest, hpushed, hdelivered, hsplit⟩, by dsimp only; rw [h.failed, hr]; rfl⟩
      | false =>
        -- the complete messages are among those that were sent, and then there is a header that is refused
        exfalso
        obtain ⟨msgs, bad, s, -, hmsgs, -, hrefused, hs⟩ := hfalse hr
        rw [hs, List.append_assoc] at hsplit
        have hafter (ms : List Outgoing) (x : List UInt8) (hx : ms.flatMap (Outgoing.encode start) = receivedBytes msgs ++ x) :
            ∃ ms' : List Outgoing, ms'.flatMap (Outgoing.encode start) = x := by
          clear hs hsplit
          induction msgs generalizing ms with
          | nil => exact ⟨ms, hx⟩
          | cons msg msgs ih =>
            obtain ⟨hok, hcomplete⟩ := hmsgs msg List.mem_cons_self
            rw [receivedBytes, List.flatMap_cons, List.append_assoc] at hx
            obtain ⟨m, ms', -, -, -, hrest⟩ := Outgoing.eq_of_complete hok hcomplete hx
            exact ih (fun m' hm' => hmsgs m' (List.mem_cons_of_mem msg hm')) ms' hrest
        obtain ⟨ms', hms'⟩ := hafter rest _ hsplit
        exact Outgoing.not_refused (hms' ▸ hrefused.append _)
  | process getDataLeft sendFull =>
    rw [Connection.step, processMessages]
    split
    · exact h
    · split
      · exact ⟨h.sender, h.received, ⟨done, rest, hpushed, by simpa using hdelivered, hstream⟩, by simp [h.failed]⟩
      · obtain ⟨hfOk, hreceived, done', rest', rfl, hmessage, hrest⟩ := processLoop_spec start sendFull h.received hstream
        refine ⟨h.sender, hreceived, ⟨done ++ done', rest', ?_, ?_, hrest⟩, by dsimp only; rw [h.failed, hfOk]; rfl⟩
        · dsimp only
          rw [hpushed, List.append_assoc]
        · dsimp only
          rw [hdelivered, hmessage, List.map_append]
  | disconnect => exact ⟨h.sender, h.received, h.stream, h.failed⟩

theorem inv_run (start : MessageStart) (actions : List ConnectionAction) : (new.run start actions).Inv start :=
  List.foldlRecOn actions _ (inv_new start) fun _ h a _ => h.step a

/-- However the sockets cut the stream, and in every order of pushing, sending, receiving and processing: no assertion fails,
neither end refuses what the other one has sent, the messages are handed over in the order in which they were pushed, and once
nothing is on its way and no message is complete, all of them have been handed over. -/
theorem delivered_prefix (start : MessageStart) (actions : List ConnectionAction) :
    let c := new.run start actions
    c.failed = false ∧ c.delivered <+: c.pushed.map Outgoing.message ∧
      (c.sender.vSendMsg = [] → c.wire = [] → (∀ msg ∈ c.vRecvMsg.head?, msg.complete = false) →
        c.delivered = c.pushed.map Outgoing.message) := by
  have h := inv_run start actions
  obtain ⟨done, rest, hpushed, hdelivered, hstream⟩ := h.stream
  refine ⟨h.failed, ?_, fun hqueue hwire hhead => ?_⟩
  · rw [hpushed, hdelivered, List.map_append]
    exact List.prefix_append _ _
  · have hpending : (new.run start actions).sender.pending = [] := by
      rw [SendQueue.pending, hqueue]
      exact List.drop_nil
    have hframes : completeFrames (new.run start actions).vRecvMsg = [] := by
      cases hlist : (new.run start actions).vRecvMsg with
      | nil => rfl
      | cons msg msgs =>
        rw [hlist] at hhead
        have hno := hhead msg rfl
        cases msgs with
        | nil =>
          rw [completeFrames, List.filter_singleton, hno]
          rfl
        | cons m ms =>
          have hyes := h.received.complete msg (by rw [hlist]; exact List.mem_cons_self)
          rw [hno] at hyes
          cases hyes
    rw [hwire, hpending, List.append_nil, List.append_nil] at hstream
    have hframed := h.received.framed
    rw [← hstream, hframes] at hframed
    have hnone := ((Outgoing.framed_encode start rest).unique hframed).1
    rw [hpushed, hdelivered, List.map_eq_nil_iff.mp hnone, List.append_nil]

end Connection

end DigiWage
