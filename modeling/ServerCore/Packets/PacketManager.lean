import ServerCore.Framework.ConcurrentQueue
import ServerCore.Framework.Machine
import ServerCore.Network.PacketSession

namespace ServerCore.Packets

open Framework Network

def packetChunkSize : ℕ := 12000

def tryPopCount : ℕ := 10

def intMax : ℕ := 2 ^ 31 - 1

/-- `PacketChunk`. `useCount` counts the shared pointers to it; `constructed` tells whether its
address is in use at all. -/
structure PacketChunk where
  mBuffers : List UInt8
  mIsOpen : Bool
  mUsedSize : UInt32
  useCount : ℕ
  constructed : Bool

namespace PacketChunk

/-- An address that `mi_malloc` may still return. -/
def absent : PacketChunk := ⟨[], false, 0, 0, false⟩

/-- A new chunk under its first shared pointer. -/
def construct : PacketChunk := ⟨List.replicate packetChunkSize 0, false, 0, 1, true⟩

def freeSize (c : PacketChunk) : UInt32 := UInt32.ofNat packetChunkSize - c.mUsedSize

def reset (c : PacketChunk) : PacketChunk := { c with mIsOpen := false, mUsedSize := 0 }

/-- `PacketChunk::Open`, with the place of `Buffer()` unless it fails. -/
def open' (c : PacketChunk) (allocSize : UInt32) : PacketChunk × Option ℕ :=
  if allocSize > UInt32.ofNat packetChunkSize then (c, none)
  else if c.mIsOpen then (c, none)
  else if allocSize > c.freeSize then (c, none)
  else ({ c with mIsOpen := true }, some c.mUsedSize.toNat)

def close (c : PacketChunk) (writeSize : UInt32) : PacketChunk :=
  if c.mIsOpen = false then c
  else { c with mIsOpen := false, mUsedSize := c.mUsedSize + writeSize }

/-- The `size` bytes from `pos` on. -/
def slice (c : PacketChunk) (pos size : ℕ) : List UInt8 := (c.mBuffers.drop pos).take size

end PacketChunk

/-- `Packet`; `C` names the chunks and `mBuffer` is a place in the owner's buffer. It counts its
shared pointers and records whether `MakePacketBuffer` has returned it and what it then held. -/
structure Packet (C : Type) where
  mBuffer : ℕ
  mAllocSize : UInt32
  mWriteSize : UInt32
  mOwnerChunk : C
  useCount : ℕ
  returned : Bool
  bytes : List UInt8

/-- `Packet::Close`, which closes the owner too. -/
def Packet.close {C : Type} (p : Packet C) (owner : PacketChunk) (writeSize : UInt32) :
    Packet C × PacketChunk :=
  if p.mAllocSize < writeSize then (p, owner)
  else ({ p with mWriteSize := writeSize }, owner.close writeSize)

/-- What `MakePacketBuffer` is called with: the packet id and the serialized message. -/
structure Message where
  pktId : UInt32
  pkt : List UInt8

namespace Message

def dataSize (m : Message) : UInt32 := UInt32.ofNat m.pkt.length

def packetSize (m : Message) : UInt32 := m.dataSize + UInt32.ofNat sizeofPacketHeader

def header (m : Message) : PacketHeader := ⟨m.packetSize, m.pktId⟩

end Message

/-- All chunks and all packets ever made, `mPacketChunks` and the `LPacketChunk` of each thread. -/
structure PacketMemory (T C : Type) where
  chunk : C → PacketChunk
  packets : List (Packet C)
  mPacketChunks : ConcurrentQueue T C
  lPacketChunk : T → Option C

/-- Positions inside `MakePacketBuffer` and inside the release of shared pointers. `again` tells
the second `Pop` of `Open` from the first. -/
inductive Frame (C : Type) where
  /-- `Open` called; `LPacketChunk == nullptr` is next. -/
  | open' (m : Message)
  /-- Inside the loop of `Pop`. -/
  | tryDequeue (again : Bool) (i : ℕ) (m : Message)
  | construct (again : Bool) (m : Message)
  /-- The result of `Pop` is stored in `LPacketChunk` next. -/
  | assign (again : Bool) (chunk : C) (m : Message)
  | reset (again : Bool) (m : Message)
  | isOpen (m : Message)
  | freeSize (m : Message)
  /-- `LPacketChunk->Open` is next. -/
  | chunkOpen (m : Message)
  /-- `Open` has returned; the header is written next. -/
  | header (packet : Option ℕ) (m : Message)
  | serialize (packet : ℕ) (m : Message)
  | close (packet : ℕ) (m : Message)
  /-- A shared pointer to the chunk goes next. -/
  | release (chunk : C)
  | pushGlobal (chunk : C)
  | push (chunk : C)
  /-- A shared pointer to a packet has gone, the last one with the packet's owner. -/
  | dropped (owner : Option C)

/-- What the queue, the allocator, the serializer and the callers decide. -/
inductive Choice (T C : Type) where
  | go
  /-- The producer whose oldest chunk `try_dequeue` returns, if any. -/
  | take (producer : Option T)
  | malloc (chunk : C)
  /-- What `SerializeToArray` returns. -/
  | serialized (ok : Bool)
  | makePacketBuffer (m : Message)
  | drop (packet : ℕ)
  | copy (packet : ℕ)
  | exitThread

namespace PacketMemory

variable {T C : Type} [DecidableEq C]

def start : PacketMemory T C := ⟨fun _ => .absent, [], [], fun _ => none⟩

def setChunk (σ : PacketMemory T C) (c : C) (chunk : PacketChunk) : PacketMemory T C :=
  { σ with chunk := Function.update σ.chunk c chunk }

def setPacket (σ : PacketMemory T C) (n : ℕ) (p : Packet C) : PacketMemory T C :=
  { σ with packets := σ.packets.set n p }

def addPacket (σ : PacketMemory T C) (p : Packet C) : PacketMemory T C :=
  { σ with packets := σ.packets ++ [p] }

def setQueue (σ : PacketMemory T C) (q : ConcurrentQueue T C) : PacketMemory T C :=
  { σ with mPacketChunks := q }

def setLPacketChunk [DecidableEq T] (σ : PacketMemory T C) (t : T) (c : Option C) :
    PacketMemory T C :=
  { σ with lPacketChunk := Function.update σ.lPacketChunk t c }

/-- Writes bytes to the buffer of a chunk. -/
def write (σ : PacketMemory T C) (c : C) (pos : ℕ) (bytes : List UInt8) : PacketMemory T C :=
  σ.setChunk c { σ.chunk c with mBuffers := overwrite (σ.chunk c).mBuffers pos bytes }

/-- A shared pointer to packet `n` goes. -/
def drop (σ : PacketMemory T C) (n : ℕ) (p : Packet C) : PacketMemory T C × Frame C :=
  (σ.setPacket n { p with useCount := p.useCount - 1 },
    .dropped (if p.useCount = 1 then some p.mOwnerChunk else none))

/-- Packet `n` is closed and returned. -/
def close (σ : PacketMemory T C) (n : ℕ) (p : Packet C) (writeSize : UInt32) :
    PacketMemory T C :=
  let closed := p.close (σ.chunk p.mOwnerChunk) writeSize
  (σ.setChunk p.mOwnerChunk closed.2).setPacket n { closed.1 with
    returned := true
    bytes := closed.2.slice closed.1.mBuffer closed.1.mWriteSize.toNat }

section Simp

variable (σ : PacketMemory T C)

@[simp] theorem setChunk_self (c : C) (chunk : PacketChunk) :
    (σ.setChunk c chunk).chunk c = chunk := by
  simp [setChunk]

@[simp] theorem setChunk_of_ne {c c' : C} (h : c' ≠ c) (chunk : PacketChunk) :
    (σ.setChunk c chunk).chunk c' = σ.chunk c' := by
  simp [setChunk, h]

@[simp] theorem setChunk_packets (c : C) (chunk : PacketChunk) :
    (σ.setChunk c chunk).packets = σ.packets := rfl

@[simp] theorem setChunk_mPacketChunks (c : C) (chunk : PacketChunk) :
    (σ.setChunk c chunk).mPacketChunks = σ.mPacketChunks := rfl

@[simp] theorem setChunk_lPacketChunk (c : C) (chunk : PacketChunk) :
    (σ.setChunk c chunk).lPacketChunk = σ.lPacketChunk := rfl

omit [DecidableEq C]

@[simp] theorem setPacket_chunk (n : ℕ) (p : Packet C) : (σ.setPacket n p).chunk = σ.chunk := rfl

@[simp] theorem setPacket_mPacketChunks (n : ℕ) (p : Packet C) :
    (σ.setPacket n p).mPacketChunks = σ.mPacketChunks := rfl

@[simp] theorem setPacket_lPacketChunk (n : ℕ) (p : Packet C) :
    (σ.setPacket n p).lPacketChunk = σ.lPacketChunk := rfl

@[simp] theorem addPacket_chunk (p : Packet C) : (σ.addPacket p).chunk = σ.chunk := rfl

@[simp] theorem addPacket_packets (p : Packet C) :
    (σ.addPacket p).packets = σ.packets ++ [p] := rfl

@[simp] theorem addPacket_mPacketChunks (p : Packet C) :
    (σ.addPacket p).mPacketChunks = σ.mPacketChunks := rfl

@[simp] theorem addPacket_lPacketChunk (p : Packet C) :
    (σ.addPacket p).lPacketChunk = σ.lPacketChunk := rfl

@[simp] theorem setQueue_chunk (q : ConcurrentQueue T C) : (σ.setQueue q).chunk = σ.chunk := rfl

@[simp] theorem setQueue_packets (q : ConcurrentQueue T C) :
    (σ.setQueue q).packets = σ.packets := rfl

@[simp] theorem setQueue_mPacketChunks (q : ConcurrentQueue T C) :
    (σ.setQueue q).mPacketChunks = q := rfl

@[simp] theorem setQueue_lPacketChunk (q : ConcurrentQueue T C) :
    (σ.setQueue q).lPacketChunk = σ.lPacketChunk := rfl

variable [DecidableEq T] (t : T) (o : Option C)

@[simp] theorem setLPacketChunk_chunk : (σ.setLPacketChunk t o).chunk = σ.chunk := rfl

@[simp] theorem setLPacketChunk_packets : (σ.setLPacketChunk t o).packets = σ.packets := rfl

@[simp] theorem setLPacketChunk_mPacketChunks :
    (σ.setLPacketChunk t o).mPacketChunks = σ.mPacketChunks := rfl

@[simp] theorem setLPacketChunk_lPacketChunk :
    (σ.setLPacketChunk t o).lPacketChunk = Function.update σ.lPacketChunk t o := rfl

end Simp

end PacketMemory

section Steps

variable {T C : Type} [DecidableEq T] [DecidableEq C]

/-- A shared pointer that is overwritten releases its chunk. -/
def releaseFrames : Option C → List (Frame C)
  | none => []
  | some c => [.release c]

/-- One step of thread `t`. Using a null pointer has no step. -/
def step (σ : PacketMemory T C) (t : T) :
    Frame C → Choice T C → Option (PacketMemory T C × List (Frame C))
  | .open' m, .go =>
      some (σ, [if (σ.lPacketChunk t).isNone then .tryDequeue false 0 m else .isOpen m])
  | .tryDequeue again _ m, .take (some producer) =>
      (ConcurrentQueue.takeFrom producer σ.mPacketChunks).map fun r =>
        (σ.setQueue r.2, [.assign again r.1 m])
  | .tryDequeue again i m, .take none =>
      some (σ, [if i + 1 < tryPopCount then .tryDequeue again (i + 1) m else .construct again m])
  | .construct again m, .malloc c =>
      if (σ.chunk c).constructed then none
      else some (σ.setChunk c .construct, [.assign again c m])
  | .assign again c m, .go =>
      some (σ.setLPacketChunk t (some c),
        releaseFrames (σ.lPacketChunk t) ++ [.reset again m])
  | .reset again m, .go =>
      (σ.lPacketChunk t).map fun c =>
        (σ.setChunk c (σ.chunk c).reset, [if again then .chunkOpen m else .isOpen m])
  | .isOpen m, .go =>
      (σ.lPacketChunk t).map fun c =>
        (σ, [if (σ.chunk c).mIsOpen then .header none m else .freeSize m])
  | .freeSize m, .go =>
      (σ.lPacketChunk t).map fun c =>
        (σ, [if (σ.chunk c).freeSize < m.packetSize then .tryDequeue true 0 m else .chunkOpen m])
  | .chunkOpen m, .go =>
      (σ.lPacketChunk t).map fun c =>
        match (σ.chunk c).open' m.packetSize with
        | (_, none) => (σ, [.header none m])
        | (chunk, some mBuffer) =>
            let packet : Packet C := ⟨mBuffer, m.packetSize, 0, c, 1, false, []⟩
            ((σ.setChunk c { chunk with useCount := chunk.useCount + 1 }).addPacket packet,
              [.header (some σ.packets.length) m])
  | .header (some n) m, .go =>
      σ.packets[n]?.map fun p =>
        (σ.write p.mOwnerChunk p.mBuffer m.header.write, [.serialize n m])
  | .serialize n m, .serialized ok =>
      σ.packets[n]?.map fun p =>
        if ok then
          (σ.write p.mOwnerChunk (p.mBuffer + sizeofPacketHeader) m.pkt, [.close n m])
        else ((σ.drop n p).1, [(σ.drop n p).2])
  | .close n m, .go => σ.packets[n]?.map fun p => (σ.close n p m.packetSize, [])
  | .release c, .go =>
      let chunk := σ.chunk c
      some (σ.setChunk c { chunk with useCount := chunk.useCount - 1 },
        if chunk.useCount = 1 then [.pushGlobal c] else [])
  | .pushGlobal c, .go => some (σ.setChunk c { σ.chunk c with useCount := 1 }, [.push c])
  | .push c, .go =>
      let chunk := σ.chunk c
      some ((σ.setChunk c { chunk with useCount := chunk.useCount + 1 }).setQueue
        (σ.mPacketChunks.enqueue t c), [.release c])
  | .dropped owner, .go => some (σ, releaseFrames owner)
  | _, _ => none

/-- A thread calls `MakePacketBuffer`, drops a packet or ends. A message has at most `INT_MAX`
bytes. -/
def enter (σ : PacketMemory T C) (frames : T → List (Frame C)) (t : T) :
    Choice T C → Option (PacketMemory T C × Frame C)
  | .makePacketBuffer m =>
      if (frames t).isEmpty ∧ m.pkt.length ≤ intMax then some (σ, .open' m) else none
  | .drop n =>
      σ.packets[n]?.bind fun p =>
        if (frames t).isEmpty ∧ p.returned ∧ 0 < p.useCount then some (σ.drop n p) else none
  | .exitThread =>
      if (frames t).isEmpty then
        (σ.lPacketChunk t).map fun c =>
          (σ.setLPacketChunk t none, .release c)
      else none
  | _ => none

/-- Whoever holds a returned packet copies its shared pointer. -/
def env (σ : PacketMemory T C) : Choice T C → Option (PacketMemory T C)
  | .copy n =>
      σ.packets[n]?.bind fun p =>
        if p.returned ∧ 0 < p.useCount then
          some (σ.setPacket n { p with useCount := p.useCount + 1 })
        else none
  | _ => none

/-- Any number of threads that make, pass on and drop packets. -/
def machine : Machine T (PacketMemory T C) (Frame C) (Choice T C) := ⟨enter, step, env⟩

abbrev PacketConf (T C : Type) : Type := Conf T (PacketMemory T C) (Frame C)

def start : PacketConf T C := ⟨.start, fun _ => []⟩

end Steps

end ServerCore.Packets
