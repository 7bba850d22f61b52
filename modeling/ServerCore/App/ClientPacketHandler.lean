import ServerCore.Network.HandlePacket
import ServerCore.Packets.Messages
import ServerCore.Packets.NullPacket

namespace ServerCore.App

open Framework Network Network.Receiver Packets

/-- The bytes of a `std::string`. -/
def bytesOf (s : String) : List UInt8 := s.toUTF8.data.toList

/-- What the handlers read and change of a session: `mSessionID`, what `GetRoomID` returns from call
to call, how often it has been called, and for each call of `Send` what `MakePacketBuffer` was
called with, unless it returned null. -/
structure ClientSession where
  mSessionID : Int32
  getRoomID : ℕ → Int32
  roomIDs : ℕ
  sent : List (Option Message)

/-- `MakePacketBuffer` of `PacketHandler`, up to the chunk it writes to. -/
def makePacketBuffer {F : Type} (T : MessageType F) (pkt : ProtoMessage F) (pktId : UInt32) :
    Option Message :=
  let dataSize := UInt32.ofNat (T.byteSizeLong pkt)
  (T.serializeToArray pkt (toInt32 dataSize.toNat)).map fun bytes => ⟨pktId, bytes⟩

namespace ClientSession

def send {F : Type} (cs : ClientSession) (protocol : UInt32) (T : MessageType F)
    (pkt : ProtoMessage F) : ClientSession :=
  { cs with sent := cs.sent ++ [makePacketBuffer T pkt protocol] }

def onCSChatRequest (cs : ClientSession) (_pkt : ProtoMessage CSChatRequest) :
    ClientSession × Bool :=
  let res : SCChatResponse :=
    ⟨cs.mSessionID, bytesOf ("Server Recv Msg SessionID : " ++ toString cs.mSessionID.toInt)⟩
  (cs.send 2 SCChatResponse.type ⟨res, []⟩, true)

def onCSGetIDRequest (cs : ClientSession) (_pkt : ProtoMessage CSGetIDRequest) :
    ClientSession × Bool :=
  let res : SCGetIDResponse := ⟨cs.mSessionID, cs.getRoomID cs.roomIDs⟩
  ({ cs with roomIDs := cs.roomIDs + 1 }.send 4 SCGetIDResponse.type ⟨res, []⟩, true)

end ClientSession

/-- A packet that a handler is called with. -/
inductive Request where
  | chat (pkt : ProtoMessage CSChatRequest)
  | getID (pkt : ProtoMessage CSGetIDRequest)

/-- The handler for a type of packets. -/
def Request.handle (cs : ClientSession) (_session : Unit) : Request → ClientSession × Bool
  | .chat pkt => cs.onCSChatRequest pkt
  | .getID pkt => cs.onCSGetIDRequest pkt

/-- `ClientPacketHandler::Init`. -/
def init : List (HandlerCall ClientSession Unit Request) :=
  [.named "CSChatRequest"
      ⟨fun bytes => (CSChatRequest.type.parseFromArray bytes).map .chat, Request.handle⟩,
    .named "CSGetIDRequest"
      ⟨fun bytes => (CSGetIDRequest.type.parseFromArray bytes).map .getID, Request.handle⟩]

/-- `OnRecvPacket` for one packet after another, with all that is logged. -/
def serve (cs : ClientSession) : List (List UInt8) → ClientSession × List LogLine
  | [] => (cs, [])
  | packet :: packets =>
      let handled := (PacketHandler.registered init).OnRecvPacket cs () packet packet.length
      let served := serve handled.1 packets
      (served.1, handled.2 ++ served.2)

/-- What a packet asks for, if it is one of the packets that are handled. -/
def request (id : UInt32) (payload : List UInt8) : Option Request :=
  if id = 1 then (CSChatRequest.type.parseFromArray payload).map .chat
  else if id = 3 then (CSGetIDRequest.type.parseFromArray payload).map .getID
  else none

/-- What a client is to get for a request. -/
inductive Response where
  | chat (res : SCChatResponse)
  | getID (res : SCGetIDResponse)
  deriving DecidableEq

def greeting (sessionID : Int32) : List UInt8 :=
  bytesOf ("Server Recv Msg SessionID : " ++ toString sessionID.toInt)

/-- The responses to requests in order, where `rooms` are the room IDs from the `n`-th on. -/
def responses (sessionID : Int32) (rooms : ℕ → Int32) : ℕ → List Request → List Response
  | _, [] => []
  | n, .chat _ :: requests => .chat ⟨sessionID, greeting sessionID⟩ ::
      responses sessionID rooms n requests
  | n, .getID _ :: requests => .getID ⟨sessionID, rooms n⟩ ::
      responses sessionID rooms (n + 1) requests

/-- The packet that carries a response. -/
def Response.message : Response → Message
  | .chat res => ⟨2, SCChatResponse.type.internalSerialize ⟨res, []⟩⟩
  | .getID res => ⟨4, SCGetIDResponse.type.internalSerialize ⟨res, []⟩⟩

/-- What a client makes of a packet. -/
def Response.read (packet : List UInt8) : Option Response :=
  let id := (PacketHeader.read packet).id
  let payload := packet.drop sizeofPacketHeader
  if id = 2 then (SCChatResponse.type.parseFromArray payload).map fun m => .chat m.fields
  else if id = 4 then (SCGetIDResponse.type.parseFromArray payload).map fun m => .getID m.fields
  else none

section Text

theorem verifyUTF8_bytesOf (s : String) : verifyUTF8 (bytesOf s) = true := by
  rw [verifyUTF8, bytesOf, Array.toArray_toList]
  exact ByteArray.validateUTF8_eq_true_iff.mpr s.isValidUTF8

theorem length_bytesOf (s : String) : (bytesOf s).length ≤ 4 * s.toList.length := by
  have hbytes : bytesOf s = s.toList.flatMap String.utf8EncodeChar := by
    rw [bytesOf, String.toUTF8_eq_toByteArray, ← String.ofList_toList (s := s),
      String.toByteArray_ofList, List.utf8Encode, String.ofList_toList, List.data_toByteArray]
  rw [hbytes]
  induction s.toList with
  | nil => exact Nat.zero_le _
  | cons c cs ih =>
    have hc := c.utf8Size_le_four
    rw [List.flatMap_cons, List.length_append, String.length_utf8EncodeChar, List.length_cons]
    omega

theorem length_greeting (sessionID : Int32) : (greeting sessionID).length ≤ 156 := by
  have hdigits : (toString sessionID.toInt).toList.length ≤ 11 := by
    have hlow := sessionID.le_toInt
    have hhigh := sessionID.toInt_lt
    have hrepr (n : ℕ) (hn : n < 10 ^ 10) : n.repr.toList.length ≤ 10 :=
      (Nat.length_repr_le_iff (by decide)).mpr hn
    cases hint : sessionID.toInt with
    | ofNat n =>
      rw [hint, Int.ofNat_eq_natCast] at hhigh
      have hn := hrepr n (by omega)
      change n.repr.toList.length ≤ 11
      omega
    | negSucc n =>
      have hn := hrepr (n + 1) (by omega)
      change ("-" ++ (n + 1).repr).toList.length ≤ 11
      rw [String.toList_append, List.length_append]
      change 1 + _ ≤ 11
      omega
  have hlen := length_bytesOf ("Server Recv Msg SessionID : " ++ toString sessionID.toInt)
  rw [String.toList_append, List.length_append] at hlen
  have htext : "Server Recv Msg SessionID : ".toList.length = 28 := by decide
  rw [greeting]
  omega

theorem validText_greeting (sessionID : Int32) : ValidText (greeting sessionID) := by
  have hlen := length_greeting sessionID
  have hlimit : intMax - kSlopBytes = 2147483631 := by norm_num [intMax, kSlopBytes]
  exact ⟨verifyUTF8_bytesOf _, by omega⟩

end Text

section Responses

/-- The packet of a client's request. -/
def Request.message : Request → Message
  | .chat pkt => ⟨1, CSChatRequest.type.internalSerialize pkt⟩
  | .getID pkt => ⟨3, CSGetIDRequest.type.internalSerialize pkt⟩

/-- A request that a client can serialize. -/
def Request.Whole : Request → Prop
  | .chat pkt => CSChatRequest.type.Whole (fun m => ValidText m.msg) pkt
  | .getID pkt => CSGetIDRequest.type.Whole (fun _ => True) pkt

/-- The packet of a message on the wire. -/
def frame (m : Message) : List UInt8 := Network.makePacketBuffer m.pktId m.pkt

theorem Request.request_message {r : Request} (h : r.Whole) :
    request r.message.pktId r.message.pkt = some r := by
  cases r with
  | chat pkt =>
    have hparse := MessageType.parseFromArray_internalSerialize CSChatRequest.lawful h
    rw [Request.message, request, if_pos rfl, hparse, Option.map_some]
  | getID pkt =>
    have hparse := MessageType.parseFromArray_internalSerialize CSGetIDRequest.lawful h
    have hid : (3 : UInt32) ≠ 1 := by decide
    rw [Request.message, request, if_neg hid, if_pos rfl, hparse, Option.map_some]

theorem makePacketBuffer_eq {F : Type} {T : MessageType F} {Valid : F → Prop}
    (h : T.Lawful Valid) {pkt : ProtoMessage F} (hpkt : T.Whole Valid pkt)
    (hsmall : (T.internalSerialize pkt).length ≤ intMax) (pktId : UInt32) :
    makePacketBuffer T pkt pktId = some ⟨pktId, T.internalSerialize pkt⟩ := by
  have hsize := MessageType.byteSizeLong_eq h hpkt
  have hlimit : intMax = 2147483647 := by norm_num [intMax]
  rw [makePacketBuffer, hsize, UInt32.toNat_ofNat', Nat.mod_eq_of_lt (by omega),
    toInt32_of_range _ (by omega) (by omega), MessageType.serializeToArray, hsize,
    if_neg (by omega), if_neg (by omega), Option.map_some]

theorem length_write_le {F : Type} (k : KnownField F) (m : F) :
    (k.write m).length ≤ 5 + (k.payload m).length := by
  have htag := length_writeVarint_le 5 k.tag
  rw [KnownField.write]
  split
  · exact Nat.zero_le _
  · rw [List.length_append]
    omega

/-- The texts of the server are short. -/
def Response.Short : Response → Prop
  | .chat res => ValidText res.msg ∧ res.msg.length ≤ 156
  | .getID _ => True

theorem Response.length_message {r : Response} (h : r.Short) : r.message.pkt.length ≤ 181 := by
  cases r with
  | chat res =>
    obtain ⟨sessionid, msg⟩ := res
    have hid := length_write_le (int32Field 2 SCChatResponse.sessionid
      fun m v => { m with sessionid := v }) ⟨sessionid, msg⟩
    have hmsg := length_write_le (stringField 3 SCChatResponse.msg
      fun m v => { m with msg := v }) ⟨sessionid, msg⟩
    have hvalue := length_writeVarint_le 10 (signExtended sessionid)
    have hlen := length_writeVarint_le 5 msg.length
    have hshort := h.2
    simp only [int32Field, stringField, List.length_append] at hid hmsg hshort
    simp only [message, MessageType.internalSerialize, SCChatResponse.type, List.flatMap_cons,
      List.flatMap_nil, List.append_nil, List.length_append]
    simp only [int32Field, stringField]
    omega
  | getID res =>
    obtain ⟨sessionid, roomid⟩ := res
    have hid := length_write_le (int32Field 2 SCGetIDResponse.sessionid
      fun m v => { m with sessionid := v }) ⟨sessionid, roomid⟩
    have hroom := length_write_le (int32Field 3 SCGetIDResponse.roomid
      fun m v => { m with roomid := v }) ⟨sessionid, roomid⟩
    have hvalue := length_writeVarint_le 10 (signExtended sessionid)
    have hvalue' := length_writeVarint_le 10 (signExtended roomid)
    simp only [int32Field] at hid hroom
    simp only [message, MessageType.internalSerialize, SCGetIDResponse.type, List.flatMap_cons,
      List.flatMap_nil, List.append_nil, List.length_append]
    simp only [int32Field]
    omega

theorem Response.fits {r : Response} (h : r.Short) : r.message.Fits := by
  have hlen := r.length_message h
  simp only [Message.Fits, sizeofPacketHeader, packetChunkSize]
  omega

theorem drop_frame (m : Message) : (frame m).drop sizeofPacketHeader = m.pkt := by
  rw [frame, Network.makePacketBuffer]
  exact List.drop_left' rfl

theorem read_frame (m : Message) : (PacketHeader.read (frame m)).id = m.pktId := by
  rw [frame, Network.makePacketBuffer, PacketHeader.read_write]

theorem Response.read_message {r : Response} (h : r.Short) :
    Response.read (frame r.message) = some r := by
  rw [Response.read, drop_frame, read_frame]
  cases r with
  | chat res =>
    have hparse := MessageType.parseFromArray_internalSerialize SCChatResponse.lawful
      (m := ⟨res, []⟩) ⟨h.1, by simp⟩
    simp only [message, hparse, if_true, Option.map_some]
  | getID res =>
    have hparse := MessageType.parseFromArray_internalSerialize SCGetIDResponse.lawful
      (m := ⟨res, []⟩) ⟨trivial, by simp⟩
    have hid : (4 : UInt32) ≠ 2 := by decide
    simp only [message, hparse, if_true, hid, if_false, Option.map_some]

theorem responses_short (sessionID : Int32) (rooms : ℕ → Int32) (n : ℕ)
    (requests : List Request) : ∀ r ∈ responses sessionID rooms n requests, r.Short := by
  induction requests generalizing n with
  | nil => simp [responses]
  | cons r requests ih =>
    cases r with
    | chat pkt =>
      intro r hr
      rcases List.mem_cons.mp hr with rfl | hr
      · exact ⟨validText_greeting sessionID, length_greeting sessionID⟩
      · exact ih n r hr
    | getID pkt =>
      intro r hr
      rcases List.mem_cons.mp hr with rfl | hr
      · exact trivial
      · exact ih (n + 1) r hr

end Responses

section Serve

/-- What is logged for a packet: only an id without a handler is. -/
def logged (m : Message) : List LogLine :=
  if m.pktId = 1 ∨ m.pktId = 3 then []
  else [.invalidPakcet m.pktId, .invalidPacket m.pktId (PacketHeader.read (frame m)).size]

theorem send_response {F : Type} {T : MessageType F} {Valid : F → Prop} (h : T.Lawful Valid)
    {res : F} (hres : Valid res) (hsmall : (T.internalSerialize ⟨res, []⟩).length ≤ 181)
    (cs : ClientSession) (protocol : UInt32) :
    cs.send protocol T ⟨res, []⟩ =
      { cs with sent := cs.sent ++ [some ⟨protocol, T.internalSerialize ⟨res, []⟩⟩] } := by
  have hlimit : intMax = 2147483647 := by norm_num [intMax]
  have hwhole : T.Whole Valid ⟨res, []⟩ := ⟨hres, by simp⟩
  have hmake := makePacketBuffer_eq h hwhole (by omega) protocol
  rw [ClientSession.send, hmake]

/-- A handler sends the response to the request, and returns true. -/
theorem handle_eq (cs : ClientSession) (r : Request) :
    ∃ n, r.handle cs () = (⟨cs.mSessionID, cs.getRoomID, n,
      cs.sent ++ (responses cs.mSessionID cs.getRoomID cs.roomIDs [r]).map
        (some ∘ Response.message)⟩, true) ∧
      ∀ requests, responses cs.mSessionID cs.getRoomID cs.roomIDs (r :: requests) =
        responses cs.mSessionID cs.getRoomID cs.roomIDs [r] ++
          responses cs.mSessionID cs.getRoomID n requests := by
  cases r with
  | chat pkt =>
    have hshort := Response.length_message (r := .chat ⟨cs.mSessionID, greeting cs.mSessionID⟩)
      ⟨validText_greeting _, length_greeting _⟩
    have hsend : cs.send 2 SCChatResponse.type ⟨⟨cs.mSessionID, greeting cs.mSessionID⟩, []⟩ = _ :=
      send_response SCChatResponse.lawful (validText_greeting _) hshort cs 2
    refine ⟨cs.roomIDs, ?_, fun _ => rfl⟩
    exact congrArg (·, true) hsend
  | getID pkt =>
    have hshort := Response.length_message
      (r := .getID ⟨cs.mSessionID, cs.getRoomID cs.roomIDs⟩) trivial
    have hsend : ClientSession.send { cs with roomIDs := cs.roomIDs + 1 } 4 SCGetIDResponse.type
        ⟨⟨cs.mSessionID, cs.getRoomID cs.roomIDs⟩, []⟩ = _ :=
      send_response SCGetIDResponse.lawful trivial hshort _ 4
    refine ⟨cs.roomIDs + 1, ?_, fun _ => rfl⟩
    exact congrArg (·, true) hsend

theorem mPacketHandler_chat : (PacketHandler.registered init).mPacketHandler 1 =
    some (MessageHandler.callback
      ⟨fun bytes => (CSChatRequest.type.parseFromArray bytes).map .chat, Request.handle⟩) := by
  rw [registered_mPacketHandler]
  rfl

theorem mPacketHandler_getID : (PacketHandler.registered init).mPacketHandler 3 =
    some (MessageHandler.callback
      ⟨fun bytes => (CSGetIDRequest.type.parseFromArray bytes).map .getID, Request.handle⟩) := by
  rw [registered_mPacketHandler]
  rfl

theorem mPacketHandler_none {id : UInt32} (hchat : id ≠ 1) (hgetID : id ≠ 3) :
    (PacketHandler.registered init).mPacketHandler id = none := by
  have hentry : ∀ r ∈ init, ∃ e, r.entry = some e ∧ (e.1 = 1 ∨ e.1 = 3) := by
    intro r hr
    rcases List.mem_pair.mp hr with rfl | rfl
    · exact ⟨_, rfl, .inl rfl⟩
    · exact ⟨_, rfl, .inr rfl⟩
  rw [registered_mPacketHandler, lastHandler, List.findSome?_eq_none_iff.mpr, Option.map_none]
  intro r hr
  obtain ⟨e, he, hid⟩ := hentry r (List.mem_reverse.mp hr)
  have hne : e.1 ≠ id := by
    rcases hid with hid | hid <;> rw [hid] <;> apply Ne.symm <;> assumption
  rw [he, Option.bind_some, if_neg hne]

/-- The bytes that a callback parses. -/
theorem payload_frame {m : Message} (hsmall : (frame m).length < 2 ^ 31) :
    ((frame m).drop sizeofPacketHeader).take (payloadLength (frame m).length).toNat = m.pkt := by
  have hlen : (frame m).length = sizeofPacketHeader + m.pkt.length := makePacketBuffer_length _ _
  let packet : ReceivedPacket := ⟨frame m, by omega, hsmall⟩
  have hpayload : payloadLength (frame m).length = (m.pkt.length : Int) := by
    have heq := payloadLength_eq packet
    rwa [ReceivedPacket.payload, drop_frame] at heq
  rw [hpayload, drop_frame, Int.toNat_natCast, List.take_length]

/-- A packet is handled exactly when it is a request, and logged exactly when its id is unknown. -/
theorem onRecvPacket_frame (cs : ClientSession) {m : Message} (hsmall : (frame m).length < 2 ^ 31) :
    (PacketHandler.registered init).OnRecvPacket cs () (frame m) (frame m).length =
      (((request m.pktId m.pkt).elim cs fun r => (r.handle cs ()).1), logged m) := by
  have hpayload := payload_frame hsmall
  simp only [PacketHandler.OnRecvPacket, PacketHandler.HandlePacket, read_frame, request, logged]
  by_cases hchat : m.pktId = 1
  · simp only [hchat, mPacketHandler_chat, MessageHandler.callback, hpayload, if_true, true_or]
    cases CSChatRequest.type.parseFromArray m.pkt with
    | none => rfl
    | some pkt => rfl
  by_cases hgetID : m.pktId = 3
  · have hne : (3 : UInt32) ≠ 1 := by decide
    simp only [hgetID, mPacketHandler_getID, MessageHandler.callback, hpayload, if_true, or_true,
      hne, if_false]
    cases CSGetIDRequest.type.parseFromArray m.pkt with
    | none => rfl
    | some pkt => rfl
  · simp only [mPacketHandler_none hchat hgetID, hchat, hgetID, if_false, or_false,
      PacketHandler.Handle_INVALID, read_frame, if_true]
    rfl

/-- What a whole run of `OnRecvPacket` sends and logs. -/
theorem serve_frames (cs : ClientSession) (packets : List Message)
    (hsmall : ∀ m ∈ packets, (frame m).length < 2 ^ 31) :
    (serve cs (packets.map frame)).1.sent = cs.sent ++
      (responses cs.mSessionID cs.getRoomID cs.roomIDs
        (packets.filterMap fun m => request m.pktId m.pkt)).map (some ∘ Response.message) ∧
    (serve cs (packets.map frame)).2 = packets.flatMap logged := by
  induction packets generalizing cs with
  | nil => simp [serve, responses]
  | cons m packets ih =>
    have hm := onRecvPacket_frame cs (hsmall m (by simp))
    rw [List.map_cons, serve, hm, List.flatMap_cons, List.filterMap_cons]
    cases hrequest : request m.pktId m.pkt with
    | none =>
      obtain ⟨hsent, hlog⟩ := ih cs fun m hm => hsmall m (by simp [hm])
      exact ⟨hsent, congrArg (logged m ++ ·) hlog⟩
    | some r =>
      obtain ⟨n, hhandle, hrest⟩ := handle_eq cs r
      obtain ⟨hsent, hlog⟩ := ih (r.handle cs ()).1 fun m hm => hsmall m (by simp [hm])
      refine ⟨?_, congrArg (logged m ++ ·) hlog⟩
      dsimp only [Option.elim]
      rw [hsent, hhandle]
      dsimp only
      rw [hrest (packets.filterMap fun m => request m.pktId m.pkt), List.map_append,
        List.append_assoc]

/-- What a run of `OnRecvPacket` sends for requests that a client has serialized. -/
theorem serve_requests (cs : ClientSession) {requests : List Request}
    (hwhole : ∀ q ∈ requests, q.Whole)
    (hsmall : ∀ q ∈ requests, (frame q.message).length < 2 ^ 31) :
    (serve cs (requests.map (frame ∘ Request.message))).1.sent = cs.sent ++
      (responses cs.mSessionID cs.getRoomID cs.roomIDs requests).map
        (some ∘ Response.message) := by
  have hrequests : (requests.map Request.message).filterMap (fun m => request m.pktId m.pkt) =
      requests := by
    rw [List.filterMap_map]
    have hall : ∀ q ∈ requests, ((fun m => request m.pktId m.pkt) ∘ Request.message) q = some q :=
      fun q hq => Request.request_message (hwhole q hq)
    rw [List.filterMap_congr hall, List.filterMap_some]
  have hframes : ∀ m ∈ requests.map Request.message, (frame m).length < 2 ^ 31 := by
    intro m hm
    obtain ⟨q, hq, rfl⟩ := List.mem_map.mp hm
    exact hsmall q hq
  have hsent := (serve_frames cs (requests.map Request.message) hframes).1
  rwa [hrequests, List.map_map] at hsent

end Serve

section Streams

variable {rioBuffID : ℕ} {offset : Int} {slice : List UInt8} {packets : List Message}
  {chunks : List (List UInt8)}

/-- `receive_packets` for packets of messages. -/
theorem receive_frames (hslice : (slice.length : Int) = recvBufferSize)
    (hsize : ∀ m ∈ packets, ((frame m).length : Int) ≤ recvBufferSize)
    (hstream : chunks.flatten <+: (packets.map frame).flatten)
    (hfits : (Receiver.connected rioBuffID offset slice).fits chunks = true) :
    ∃ r, (Receiver.connected rioBuffID offset slice).receiveAll chunks = some r ∧
      r.mIsConnected = true ∧ r.received = arrived chunks.flatten.length (packets.map frame) := by
  have hmap : (packets.map fun m => (m.pktId, m.pkt)).map
      (fun p => Network.makePacketBuffer p.1 p.2) = packets.map frame := by
    rw [List.map_map]
    rfl
  obtain ⟨r, hrun, hc, _, _, hreceived⟩ := Receiver.receive_packets rioBuffID offset slice hslice
    (packets.map fun m => (m.pktId, m.pkt))
    (by
      intro p hp
      obtain ⟨m, hm, rfl⟩ := List.mem_map.mp hp
      have hle := hsize m hm
      rwa [frame, makePacketBuffer_length] at hle)
    chunks (by rw [hmap]; exact hstream) hfits
  exact ⟨r, hrun, hc, by rw [hreceived, hmap]⟩

theorem frame_le (m : Message) (h : m.pkt.length ≤ 181) :
    ((frame m).length : Int) ≤ recvBufferSize := by
  rw [frame, makePacketBuffer_length]
  simp only [sizeofPacketHeader, recvBufferSize]
  omega

/-- A session of ID 7 that is in no room. -/
def newSession : ClientSession := ⟨7, fun _ => -1, 0, []⟩

/-- A client reads the responses that have arrived, in order. -/
theorem read_arrived (hslice : (slice.length : Int) = recvBufferSize) {replies : List Response}
    (hshort : ∀ reply ∈ replies, reply.Short)
    (hstream : chunks.flatten <+: ((replies.map Response.message).map frame).flatten)
    (hfits : (Receiver.connected rioBuffID offset slice).fits chunks = true) :
    ∃ r j, (Receiver.connected rioBuffID offset slice).receiveAll chunks = some r ∧
      r.received.map Response.read = (replies.take j).map some ∧
      (chunks.flatten = ((replies.map Response.message).map frame).flatten →
        r.received.map Response.read = replies.map some) := by
  have hsize : ∀ m ∈ replies.map Response.message, ((frame m).length : Int) ≤ recvBufferSize := by
    intro m hm
    obtain ⟨reply, hreply, rfl⟩ := List.mem_map.mp hm
    exact frame_le _ (Response.length_message (hshort reply hreply))
  obtain ⟨r, hrun, _, hreceived⟩ := receive_frames hslice hsize hstream hfits
  have hread (replies : List Response) (hshort : ∀ reply ∈ replies, reply.Short) :
      ((replies.map Response.message).map frame).map Response.read = replies.map some := by
    rw [List.map_map, List.map_map]
    exact List.map_congr_left fun reply hreply => Response.read_message (hshort reply hreply)
  have htake := arrived_map frame chunks.flatten.length (replies.map Response.message)
  generalize (arrived chunks.flatten.length ((replies.map Response.message).map frame)).length = j
    at htake
  refine ⟨r, j, hrun, ?_, ?_⟩
  · rw [hreceived, htake, ← List.map_take,
      hread _ fun reply hreply => hshort reply (List.mem_of_mem_take hreply)]
  · intro hall
    rw [hreceived, hall, arrived_all, hread _ hshort]

/-- A client and the server, with the bytes of either cut into whatever pieces: what the client
reads are the responses to the requests that have arrived, in order. -/
theorem conversation (rioBuffID rioBuffID' : ℕ) (offset offset' : Int) (slice slice' : List UInt8)
    (hslice : (slice.length : Int) = recvBufferSize)
    (hslice' : (slice'.length : Int) = recvBufferSize) (requests : List Request)
    (hwhole : ∀ q ∈ requests, q.Whole)
    (hsize : ∀ q ∈ requests, ((frame q.message).length : Int) ≤ recvBufferSize)
    (chunks chunks' : List (List UInt8))
    (hstream : chunks.flatten <+: (requests.map (frame ∘ Request.message)).flatten)
    (hfits : (Receiver.connected rioBuffID offset slice).fits chunks = true)
    (cs : ClientSession) (hnew : cs.sent = []) :
    ∃ r k, (Receiver.connected rioBuffID offset slice).receiveAll chunks = some r ∧
      arrived chunks.flatten.length (requests.map (frame ∘ Request.message)) =
        (requests.take k).map (frame ∘ Request.message) ∧
      (chunks'.flatten <+: (((serve cs r.received).1.sent.filterMap id).map frame).flatten →
        (Receiver.connected rioBuffID' offset' slice').fits chunks' = true →
        ∃ r' j, (Receiver.connected rioBuffID' offset' slice').receiveAll chunks' = some r' ∧
          r'.received.map Response.read = ((responses cs.mSessionID cs.getRoomID cs.roomIDs
            (requests.take k)).take j).map some ∧
          (chunks'.flatten = (((serve cs r.received).1.sent.filterMap id).map frame).flatten →
            r'.received.map Response.read = (responses cs.mSessionID cs.getRoomID cs.roomIDs
              (requests.take k)).map some)) := by
  have hmap : requests.map (frame ∘ Request.message) = (requests.map Request.message).map frame :=
    List.map_map.symm
  rw [hmap] at hstream
  have hsize' : ∀ m ∈ requests.map Request.message,
      ((frame m).length : Int) ≤ recvBufferSize := by
    intro m hm
    obtain ⟨q, hq, rfl⟩ := List.mem_map.mp hm
    exact hsize q hq
  obtain ⟨r, hrun, _, hreceived⟩ := receive_frames hslice hsize' hstream hfits
  have htake := arrived_map frame chunks.flatten.length (requests.map Request.message)
  generalize (arrived chunks.flatten.length ((requests.map Request.message).map frame)).length = k
    at htake
  have hsmall : ∀ q ∈ requests.take k, (frame q.message).length < 2 ^ 31 := by
    intro q hq
    have hle := hsize q (List.mem_of_mem_take hq)
    simp only [recvBufferSize] at hle
    omega
  have hsent := serve_requests cs (fun q hq => hwhole q (List.mem_of_mem_take hq)) hsmall
  rw [← List.map_map, List.map_take, ← htake, ← hreceived, hnew, List.nil_append] at hsent
  generalize hreplies : responses cs.mSessionID cs.getRoomID cs.roomIDs (requests.take k) = replies
    at hsent
  have hshort : ∀ reply ∈ replies, reply.Short := by
    rw [← hreplies]
    exact responses_short _ _ _ _
  have hpackets : (serve cs r.received).1.sent.filterMap id = replies.map Response.message := by
    rw [hsent, List.filterMap_map]
    exact congrFun List.filterMap_eq_map replies
  refine ⟨r, k, hrun, ?_, ?_⟩
  · rw [hmap, htake, ← List.map_take, List.map_map]
  rw [hreplies, hpackets]
  exact fun hstream' hfits' => read_arrived hslice' hshort hstream' hfits'

/-- A chat request with the text "hi", then one for the IDs. -/
def twoRequests : List Request := [.chat ⟨⟨7, [104, 105]⟩, []⟩, .getID ⟨⟨⟩, []⟩]

def twoResponses : List Response := [.chat ⟨7, greeting 7⟩, .getID ⟨7, -1⟩]

theorem twoRequests_whole : ∀ q ∈ twoRequests, q.Whole := by
  have htext : ValidText [104, 105] := ⟨by decide +kernel, by decide⟩
  simp [twoRequests, Request.Whole, MessageType.Whole, htext]

theorem conversation_twoRequests :
    ∃ r, (Receiver.connected 1 0 (List.replicate 16384 0)).receiveAll
        [[14, 0, 0, 0, 1, 0, 0, 0, 16, 7], [26, 2, 104, 105, 8, 0, 0, 0, 3, 0, 0, 0]] = some r ∧
      ∃ r', (Receiver.connected 2 0 (List.replicate 16384 0)).receiveAll
          [(twoResponses.flatMap (frame ∘ Response.message)).take 5,
            (twoResponses.flatMap (frame ∘ Response.message)).drop 5] = some r' ∧
        r'.received.map Response.read = twoResponses.map some := by
  have hslice : ((List.replicate 16384 (0 : UInt8)).length : Int) = recvBufferSize := by
    rw [List.length_replicate]
    rfl
  obtain ⟨r, k, hrun, hk, hclient⟩ := conversation 1 2 0 0 (List.replicate 16384 0)
    (List.replicate 16384 0) hslice hslice twoRequests twoRequests_whole (by decide)
    [[14, 0, 0, 0, 1, 0, 0, 0, 16, 7], [26, 2, 104, 105, 8, 0, 0, 0, 3, 0, 0, 0]]
    [(twoResponses.flatMap (frame ∘ Response.message)).take 5,
      (twoResponses.flatMap (frame ∘ Response.message)).drop 5] (by decide) (by decide)
    newSession rfl
  have hreceived : r.received = twoRequests.map (frame ∘ Request.message) := by
    have hrun' : ((Receiver.connected 1 0 (List.replicate 16384 0)).receiveAll
        [[14, 0, 0, 0, 1, 0, 0, 0, 16, 7], [26, 2, 104, 105, 8, 0, 0, 0, 3, 0, 0, 0]]).map
          (·.received) = some (twoRequests.map (frame ∘ Request.message)) := by
      decide
    rw [hrun] at hrun'
    exact Option.some.inj hrun'
  have hsent : (serve newSession r.received).1.sent =
      twoResponses.map (some ∘ Response.message) := by
    rw [hreceived]
    exact serve_requests newSession twoRequests_whole (by decide)
  have htwo : twoRequests.take k = twoRequests := by
    have hall : arrived 22 (twoRequests.map (frame ∘ Request.message)) =
        twoRequests.map (frame ∘ Request.message) := by decide
    have hlen := congrArg List.length (hall.symm.trans hk)
    rw [List.length_map, List.length_map, List.length_take] at hlen
    exact List.take_of_length_le (by omega)
  have hanswers : (((serve newSession r.received).1.sent.filterMap id).map frame).flatten =
      twoResponses.flatMap (frame ∘ Response.message) := by
    rw [hsent]
    rfl
  have hwhole : [(twoResponses.flatMap (frame ∘ Response.message)).take 5,
      (twoResponses.flatMap (frame ∘ Response.message)).drop 5].flatten =
        twoResponses.flatMap (frame ∘ Response.message) := by
    simp
  obtain ⟨r', _, hrun', _, hall⟩ := hclient (by rw [hanswers, hwhole]) (by decide +kernel)
  rw [hanswers, htwo] at hall
  exact ⟨r, hrun, r', hrun', hall hwhole⟩

end Streams

end ServerCore.App
