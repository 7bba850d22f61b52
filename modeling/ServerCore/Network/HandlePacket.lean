import ServerCore.Network.ReceiveStream
import Mathlib.Data.List.Induction

namespace ServerCore.Network

open NetworkBuffer Receiver

/-- `std::function<bool(std::shared_ptr<PacketSession>&, BYTE*, int32_t)>`; `W` is what handlers
read and change. -/
abbrev PacketHandlerFunc (W S : Type) : Type := W → S → List UInt8 → Int → W × Bool

/-- A handler of packets of one type, with the `ParseFromArray` of the type. -/
structure MessageHandler (W S M : Type) where
  ParseFromArray : List UInt8 → Option M
  handler : W → S → M → W × Bool

/-- What is registered: a function, or a handler that a template wraps. -/
inductive Handler (W S M : Type) where
  | function (fn : PacketHandlerFunc W S)
  | message (h : MessageHandler W S M)

/-- A call of one of the functions that register. -/
inductive HandlerCall (W S M : Type) where
  /-- `RegisterHandler(protocol, fn)`; `fn` may be null. -/
  | function (protocol : UInt32) (fn : Option (PacketHandlerFunc W S))
  /-- The template `RegisterHandler(protocol, handler)`. -/
  | message (protocol : UInt32) (h : MessageHandler W S M)
  /-- `ClientPacketHandler::_RegisterHandler(handler)`, where `packetName` is the name of the packet
  type. -/
  | named (packetName : String) (h : MessageHandler W S M)

structure PacketHandler (W S : Type) where
  mPacketHandler : UInt32 → Option (PacketHandlerFunc W S)

/-- What is written to the log. -/
inductive LogLine where
  /-- `Invalid Pakcet dected ID({})`. -/
  | invalidPakcet (id : UInt32)
  /-- `Invalid Packet ID: {0}, Size: {1}`. -/
  | invalidPacket (id size : UInt32)
  deriving DecidableEq

/-- `EPacketProtocol_Parse`. -/
def EPacketProtocol_Parse (name : String) : Option UInt32 :=
  if name = "PACKET_PROTOCOL_START" then some 0
  else if name = "CS_ChatRequest" then some 1
  else if name = "SC_ChatResponse" then some 2
  else if name = "CS_GetIDRequest" then some 3
  else if name = "SC_GetIDResponse" then some 4
  else none

/-- `packetName.insert(2, "_")`, which throws when the name is shorter than that. -/
def insertUnderscore (packetName : String) : Option String :=
  if packetName.toList.length < 2 then none
  else some (String.ofList (packetName.toList.take 2 ++ '_' :: packetName.toList.drop 2))

section

variable {W S M : Type}

/-- The callback that the templates build. -/
def MessageHandler.callback (h : MessageHandler W S M) : PacketHandlerFunc W S :=
  fun world session buffer len =>
    match h.ParseFromArray ((buffer.drop sizeofPacketHeader).take (payloadLength len).toNat) with
    | none => (world, false)
    | some pkt => h.handler world session pkt

def Handler.callback : Handler W S M → PacketHandlerFunc W S
  | .function fn => fn
  | .message h => h.callback

namespace PacketHandler

def empty : PacketHandler W S := ⟨fun _ => none⟩

def RegisterHandler (p : PacketHandler W S) (protocol : UInt32)
    (fn : Option (PacketHandlerFunc W S)) : PacketHandler W S × Bool :=
  match fn with
  | none => (p, false)
  | some fn => (⟨Function.update p.mPacketHandler protocol (some fn)⟩, true)

/-- `ClientPacketHandler::_RegisterHandler`. -/
def RegisterHandler' (p : PacketHandler W S) (packetName : String) (h : MessageHandler W S M) :
    PacketHandler W S × Bool :=
  match (insertUnderscore packetName).bind EPacketProtocol_Parse with
  | none => (p, false)
  | some protocol => p.RegisterHandler protocol (some h.callback)

def register (p : PacketHandler W S) : HandlerCall W S M → PacketHandler W S × Bool
  | .function protocol fn => p.RegisterHandler protocol fn
  | .message protocol h => p.RegisterHandler protocol (some h.callback)
  | .named packetName h => p.RegisterHandler' packetName h

/-- The table after a sequence of calls. -/
def registered (calls : List (HandlerCall W S M)) : PacketHandler W S :=
  calls.foldl (fun p r => (p.register r).1) empty

def Handle_INVALID (buffer : List UInt8) : List LogLine × Bool :=
  ([.invalidPakcet (PacketHeader.read buffer).id], false)

/-- `HandlePacket` drops what the handler returns. -/
def HandlePacket (p : PacketHandler W S) (world : W) (session : S) (buffer : List UInt8)
    (len : Int) : W × List LogLine × Bool :=
  match p.mPacketHandler (PacketHeader.read buffer).id with
  | none => (world, Handle_INVALID buffer)
  | some fn => ((fn world session buffer len).1, [], true)

/-- `ClientSession::OnRecvPacket`. -/
def OnRecvPacket (p : PacketHandler W S) (world : W) (session : S) (buffer : List UInt8)
    (len : Int) : W × List LogLine :=
  let header := PacketHeader.read buffer
  let handled := p.HandlePacket world session buffer len
  if handled.2.2 = false then
    (handled.1, handled.2.1 ++ [.invalidPacket header.id header.size])
  else (handled.1, handled.2.1)

end PacketHandler

/-- The id that a call registers a handler for, and the handler. -/
def HandlerCall.entry : HandlerCall W S M → Option (UInt32 × Handler W S M)
  | .function protocol fn => fn.map fun fn => (protocol, .function fn)
  | .message protocol h => some (protocol, .message h)
  | .named packetName h =>
      ((insertUnderscore packetName).bind EPacketProtocol_Parse).map fun protocol =>
        (protocol, .message h)

/-- The last handler that was registered for `id`. -/
def lastHandler (calls : List (HandlerCall W S M)) (id : UInt32) : Option (Handler W S M) :=
  calls.reverse.findSome? fun r => r.entry.bind fun e => if e.1 = id then some e.2 else none

/-- A packet as `OnRecvPacket` gets it. -/
structure ReceivedPacket where
  bytes : List UInt8
  header_le : sizeofPacketHeader ≤ bytes.length
  small : bytes.length < 2 ^ 31

namespace ReceivedPacket

def len (packet : ReceivedPacket) : Int := packet.bytes.length

def id (packet : ReceivedPacket) : UInt32 := (PacketHeader.read packet.bytes).id

def size (packet : ReceivedPacket) : UInt32 := (PacketHeader.read packet.bytes).size

def payload (packet : ReceivedPacket) : List UInt8 := packet.bytes.drop sizeofPacketHeader

end ReceivedPacket

/-- The function returns true; a message handler also has to accept the payload. -/
def Handler.Accepts (world : W) (session : S) (packet : ReceivedPacket) : Handler W S M → Prop
  | .function fn => (fn world session packet.bytes packet.len).2 = true
  | .message h => ∃ pkt, h.ParseFromArray packet.payload = some pkt ∧
      (h.handler world session pkt).2 = true

/-- The last handler that was registered for the packet's id exists and accepts the packet. -/
def Handled (calls : List (HandlerCall W S M)) (world : W) (session : S)
    (packet : ReceivedPacket) : Prop :=
  ∃ h, lastHandler calls packet.id = some h ∧ h.Accepts world session packet

/-- `HandlePacket` returns true exactly for a packet that is handled, and `OnRecvPacket` logs all
others. -/
structure ReportsTruly (calls : List (HandlerCall W S M)) (world : W) (session : S)
    (packet : ReceivedPacket) : Prop where
  result : ((PacketHandler.registered calls).HandlePacket world session packet.bytes
    packet.len).2.2 = true ↔ Handled calls world session packet
  logged : .invalidPacket packet.id packet.size ∈ ((PacketHandler.registered calls).OnRecvPacket
    world session packet.bytes packet.len).2 ↔ ¬Handled calls world session packet

theorem register_mPacketHandler (p : PacketHandler W S) (r : HandlerCall W S M) (id : UInt32) :
    (p.register r).1.mPacketHandler id =
      ((r.entry.bind fun e => if e.1 = id then some e.2 else none).map Handler.callback).or
        (p.mPacketHandler id) := by
  cases r with
  | function protocol fn =>
    cases fn with
    | none => simp [PacketHandler.register, PacketHandler.RegisterHandler, HandlerCall.entry]
    | some fn =>
      by_cases hid : protocol = id
      · subst hid
        simp [PacketHandler.register, PacketHandler.RegisterHandler, HandlerCall.entry,
          Handler.callback]
      · simp [PacketHandler.register, PacketHandler.RegisterHandler, HandlerCall.entry, hid,
          Ne.symm hid]
  | message protocol h =>
    by_cases hid : protocol = id
    · subst hid
      simp [PacketHandler.register, PacketHandler.RegisterHandler, HandlerCall.entry,
        Handler.callback]
    · simp [PacketHandler.register, PacketHandler.RegisterHandler, HandlerCall.entry, hid,
        Ne.symm hid]
  | named packetName h =>
    simp only [PacketHandler.register, PacketHandler.RegisterHandler', HandlerCall.entry]
    cases (insertUnderscore packetName).bind EPacketProtocol_Parse with
    | none => simp
    | some protocol =>
      by_cases hid : protocol = id
      · subst hid
        simp [PacketHandler.RegisterHandler, Handler.callback]
      · simp [PacketHandler.RegisterHandler, hid, Ne.symm hid]

/-- The table holds the callback of the last handler. -/
theorem registered_mPacketHandler (calls : List (HandlerCall W S M)) (id : UInt32) :
    (PacketHandler.registered calls).mPacketHandler id =
      (lastHandler calls id).map Handler.callback := by
  induction calls using List.reverseRecOn with
  | nil => rfl
  | append_singleton calls r ih =>
    have hsplit : (PacketHandler.registered (calls ++ [r])) =
        ((PacketHandler.registered calls).register r).1 := by
      simp [PacketHandler.registered, List.foldl_append]
    have hlast : lastHandler (calls ++ [r]) id =
        (r.entry.bind fun e => if e.1 = id then some e.2 else none).or (lastHandler calls id) := by
      simp only [lastHandler, List.reverse_append, List.reverse_singleton, List.singleton_append,
        List.findSome?_cons]
      cases r.entry.bind fun e => if e.1 = id then some e.2 else none <;> rfl
    rw [hsplit, register_mPacketHandler, ih, hlast, Option.map_or]

theorem payloadLength_eq (packet : ReceivedPacket) :
    payloadLength packet.len = packet.payload.length := by
  have hle := packet.header_le
  have hsmall := packet.small
  have hlength : packet.payload.length = packet.bytes.length - sizeofPacketHeader :=
    List.length_drop
  rw [payloadLength, ReceivedPacket.len, hlength, Int.emod_eq_of_lt (by omega) (by omega),
    toInt32_of_range _ (by omega) (by omega)]
  omega

/-- The callback returns what the handler makes of the whole payload. -/
theorem callback_accepts (h : Handler W S M) (world : W) (session : S) (packet : ReceivedPacket) :
    (h.callback world session packet.bytes packet.len).2 = true ↔
      h.Accepts world session packet := by
  cases h with
  | function fn => rfl
  | message h =>
    have hpayload : (packet.bytes.drop sizeofPacketHeader).take (payloadLength packet.len).toNat =
        packet.payload := by
      rw [payloadLength_eq, Int.toNat_natCast]
      exact List.take_length
    simp only [Handler.callback, MessageHandler.callback, hpayload, Handler.Accepts]
    cases h.ParseFromArray packet.payload with
    | none => simp
    | some pkt => simp

/-- `HandlePacket` reports truly exactly when the packet's id is unknown or the packet is
handled. -/
theorem reportsTruly_iff (calls : List (HandlerCall W S M)) (world : W) (session : S)
    (packet : ReceivedPacket) :
    ReportsTruly calls world session packet ↔
      lastHandler calls packet.id = none ∨ Handled calls world session packet := by
  have htable := registered_mPacketHandler calls packet.id
  have hid : (PacketHeader.read packet.bytes).id = packet.id := rfl
  cases hlast : lastHandler calls packet.id with
  | none =>
    have hnot : ¬Handled calls world session packet := by
      intro h
      obtain ⟨h, hsome, _⟩ := h
      simp [hlast] at hsome
    rw [hlast, Option.map_none] at htable
    refine ⟨fun _ => .inl rfl, fun _ => ⟨?_, ?_⟩⟩
    · simp [PacketHandler.HandlePacket, hid, htable, PacketHandler.Handle_INVALID, hnot]
    · simp [PacketHandler.OnRecvPacket, PacketHandler.HandlePacket, hid, htable,
        PacketHandler.Handle_INVALID, hnot, ReceivedPacket.size]
  | some h =>
    rw [hlast, Option.map_some] at htable
    constructor
    · intro htruly
      refine .inr (htruly.result.mp ?_)
      simp [PacketHandler.HandlePacket, hid, htable]
    · rintro (hnone | hhandled)
      · simp at hnone
      · refine ⟨?_, ?_⟩
        · simp [PacketHandler.HandlePacket, hid, htable, hhandled]
        · simp [PacketHandler.OnRecvPacket, PacketHandler.HandlePacket, hid, htable, hhandled]

end

/-- A handler whose packet type accepts no payload. -/
def refusing : List (HandlerCall Unit Unit Unit) :=
  [.message 1 ⟨fun _ => none, fun _ _ _ => ((), true)⟩]

/-- A packet of id 1 without payload. -/
def emptyPacket : ReceivedPacket := ⟨[8, 0, 0, 0, 1, 0, 0, 0], by decide, by decide⟩

theorem refused_packet_unreported : ¬∀ (calls : List (HandlerCall Unit Unit Unit))
    (packet : ReceivedPacket), ReportsTruly calls () () packet := by
  intro claim
  have htrue : ((PacketHandler.registered refusing).HandlePacket () () emptyPacket.bytes
      emptyPacket.len).2.2 = true := rfl
  obtain ⟨h, hlast, haccepts⟩ := (claim refusing emptyPacket).result.mp htrue
  obtain rfl : Handler.message ⟨fun _ => none, fun _ _ _ => ((), true)⟩ = h :=
    Option.some.inj hlast
  obtain ⟨pkt, hparse, _⟩ := haccepts
  simp at hparse

end ServerCore.Network
