import ServerCore.Network.PacketSession

namespace ServerCore.Network

/-- The sizes of `packet_buf` and `IOCP_buf`. -/
def maxPacketSize : ℕ := 2048

def maxBuffSize : ℕ := 2048

/-- The cases of the switch in `ProcessPacket`. -/
inductive PacketCase where
  | chatResponse
  | getIDResponse
  | unknown
  deriving DecidableEq

/-- The labels `SC_ChatResponse` and `SC_GetIDResponse`. -/
def PacketCase.of (label : ℕ) : PacketCase :=
  if label = 2 then .chatResponse else if label = 4 then .getIDResponse else .unknown

/-- The case that `ProcessPacket` takes. -/
def processPacket (packet : List UInt8) : PacketCase := .of (packet.getD 1 0).toNat

/-- What `CLIENT` keeps between two receive completions. `processed` is history: the bytes copied
for each call of `ProcessPacket` that returned, with the case it took. -/
structure Client where
  packet_buf : List UInt8
  prev_packet_data : ℕ
  curr_packet_size : ℕ
  processed : List (List UInt8 × PacketCase)
  deriving DecidableEq

def Client.connect : Client := ⟨List.replicate maxPacketSize 0, 0, 0, []⟩

/-- The loop of `Worker_Thread` over the `io_size` bytes at `buf`, for at most as many rounds as the
first number says. `stack k` are the bytes in the array `packet` before its `k`-th use. The default
case of `ProcessPacket` never returns. -/
def receiveLoop (stack : ℕ → List UInt8) : ℕ → List UInt8 → ℕ → ℕ → Client → Option Client
  | 0, _, _, _, _ => none
  | _ + 1, [], psize, pr_size, c =>
      some { c with curr_packet_size := psize, prev_packet_data := pr_size }
  | n + 1, b :: buf, psize, pr_size, c =>
      let buf := b :: buf
      let psize := if psize = 0 then b.toNat else psize
      if psize ≤ (buf.length + pr_size) % 2 ^ 32 then
        let size := (psize + 2 ^ 32 - pr_size) % 2 ^ 32
        let data := c.packet_buf.take pr_size ++ buf.take size
        let packet := data ++ (stack c.processed.length).drop data.length
        if processPacket packet = .unknown then none
        else receiveLoop stack n (buf.drop size) 0 0
          { c with processed := c.processed ++ [(data, processPacket packet)] }
      else
        receiveLoop stack n [] psize (pr_size + buf.length)
          { c with
            packet_buf := c.packet_buf.take pr_size ++ buf ++
              c.packet_buf.drop (pr_size + buf.length) }

/-- One receive completion. -/
def receive (stack : ℕ → List UInt8) (n : ℕ) (buf : List UInt8) (c : Client) : Option Client :=
  receiveLoop stack n buf c.curr_packet_size c.prev_packet_data c

def receiveAll (stack : ℕ → List UInt8) (n : ℕ) : List (List UInt8) → Client → Option Client
  | [], c => some c
  | buf :: bufs, c => (receive stack n buf c).bind (receiveAll stack n bufs)

/-- The loop ends after every completion, and `ProcessPacket` was called with the frames that have
arrived, each in the case of its header's id. -/
def Decodes (stack : ℕ → List UInt8) (frames bufs : List (List UInt8)) : Prop :=
  ∃ n c, receiveAll stack n bufs .connect = some c ∧
    c.processed.map Prod.fst = arrived bufs.flatten.length frames ∧
    ∀ e ∈ c.processed, e.2 = .of (PacketHeader.read e.1).id.toNat

/-- What a frame begins with. -/
theorem makePacketBuffer_head (pktId : UInt32) (pkt : List UInt8)
    (h : sizeofPacketHeader + pkt.length < 2 ^ 32) :
    ∃ rest, makePacketBuffer pktId pkt =
      UInt8.ofNat (sizeofPacketHeader + pkt.length) ::
        UInt8.ofNat ((sizeofPacketHeader + pkt.length) / 256) :: rest := by
  have hsize : (UInt32.ofNat pkt.length + UInt32.ofNat sizeofPacketHeader).toNat =
      sizeofPacketHeader + pkt.length := by
    rw [UInt32.toNat_add, UInt32.toNat_ofNat', UInt32.toNat_ofNat']
    simp only [sizeofPacketHeader] at h ⊢
    omega
  simp only [makePacketBuffer, PacketHeader.write, writeU32, hsize, List.cons_append]
  exact ⟨_, rfl⟩

/-- The bytes `d` have been received of a frame that is taken to have `m` bytes. -/
structure Collected (m : ℕ) (d : List UInt8) (c : Client) : Prop where
  processed : c.processed = []
  data : c.prev_packet_data = d.length
  saved : c.packet_buf.take d.length = d
  size : c.curr_packet_size = if d = [] then 0 else m

theorem Collected.connect (m : ℕ) : Collected m [] .connect := ⟨rfl, rfl, rfl, rfl⟩

/-- The size that the loop works with. -/
theorem Collected.psize {m : ℕ} {d : List UInt8} {c : Client} (h : Collected m d c) {b : UInt8}
    (hb : d = [] → b.toNat = m) (hd : d ≠ [] → 0 < m) :
    (if c.curr_packet_size = 0 then b.toNat else c.curr_packet_size) = m := by
  rw [h.size]
  by_cases hnil : d = []
  · simp [hnil, hb hnil]
  · have hpos := hd hnil
    rw [if_neg hnil, if_neg (by omega)]

/-- Bytes that do not reach the size are saved. -/
theorem Collected.short {stack : ℕ → List UInt8} {m n : ℕ} {d buf : List UInt8} {b : UInt8}
    {c : Client} (h : Collected m d c) (hb : d = [] → b.toNat = m)
    (hshort : d.length + (b :: buf).length < m) (hm : m < 256) :
    (∃ c', receive stack (n + 2) (b :: buf) c = some c') ∧
    ∀ k c', receive stack k (b :: buf) c = some c' → Collected m (d ++ b :: buf) c' := by
  have hpsize := h.psize hb (by omega)
  have hlarge : ¬m ≤ ((b :: buf).length + d.length) % 2 ^ 32 := by omega
  have hround (k : ℕ) : receive stack (k + 1) (b :: buf) c =
      receiveLoop stack k [] m (d.length + (b :: buf).length)
        { c with
          packet_buf := d ++ b :: buf ++ c.packet_buf.drop (d.length + (b :: buf).length) } := by
    rw [receive, receiveLoop]
    simp only [hpsize, h.data]
    rw [if_neg hlarge, h.saved]
  constructor
  · rw [hround, receiveLoop]
    exact ⟨_, rfl⟩
  · intro k c' hc'
    cases k with
    | zero => cases hc'
    | succ k =>
      rw [hround] at hc'
      cases k with
      | zero => cases hc'
      | succ k =>
        obtain rfl := Option.some.inj hc'
        have hlen : (d ++ b :: buf).length = d.length + (b :: buf).length := List.length_append
        refine ⟨h.processed, hlen.symm, ?_, by simp⟩
        rw [List.take_left]

/-- Calls of `ProcessPacket` are never taken back. -/
theorem receiveLoop_grows {stack : ℕ → List UInt8} {n : ℕ} {buf : List UInt8} {psize pr_size : ℕ}
    {c c' : Client} (h : receiveLoop stack n buf psize pr_size c = some c') :
    c.processed <+: c'.processed := by
  induction n generalizing buf psize pr_size c with
  | zero => cases h
  | succ n ih =>
    cases buf with
    | nil =>
      obtain rfl := Option.some.inj h
      exact List.prefix_rfl
    | cons b buf =>
      rw [receiveLoop] at h
      by_cases hfull :
        (if psize = 0 then b.toNat else psize) ≤ ((b :: buf).length + pr_size) % 2 ^ 32
      · rw [if_pos hfull] at h
        dsimp only at h
        obtain ⟨_, hrest⟩ := Option.ite_none_left_eq_some.mp h
        have hgrows := ih hrest
        exact (List.prefix_append _ _).trans hgrows
      · rw [if_neg hfull] at h
        have hrest := ih h
        exact hrest

theorem receiveAll_grows {stack : ℕ → List UInt8} {n : ℕ} {bufs : List (List UInt8)}
    {c c' : Client} (h : receiveAll stack n bufs c = some c') : c.processed <+: c'.processed := by
  induction bufs generalizing c with
  | nil =>
    obtain rfl := Option.some.inj h
    exact List.prefix_rfl
  | cons buf bufs ih =>
    obtain ⟨c₁, hfirst, hrest⟩ := Option.bind_eq_some_iff.mp h
    exact (receiveLoop_grows hfirst).trans (ih hrest)

/-- Bytes that reach the size are handed over, and the call returns. -/
theorem Collected.full {stack : ℕ → List UInt8} {m n : ℕ} {d buf : List UInt8} {b : UInt8}
    {c c' : Client} (h : Collected m d c) (hb : d = [] → b.toNat = m)
    (hd : d ≠ [] → d.length < m) (hfull : m ≤ d.length + (b :: buf).length) (hm : m < 256)
    (hlen : (b :: buf).length ≤ maxBuffSize) (hc' : receive stack n (b :: buf) c = some c') :
    processPacket ((d ++ b :: buf).take m ++ (stack 0).drop m) ≠ .unknown ∧
    ∃ result rest, c'.processed = ((d ++ b :: buf).take m, result) :: rest := by
  have hle : d.length ≤ m := by
    by_cases hnil : d = []
    · simp [hnil]
    · exact (hd hnil).le
  have hpsize := h.psize hb fun hne => (Nat.zero_le _).trans_lt (hd hne)
  have hsmall : m ≤ ((b :: buf).length + d.length) % 2 ^ 32 := by
    simp only [maxBuffSize] at hlen
    omega
  have hsize : (m + 2 ^ 32 - d.length) % 2 ^ 32 = m - d.length := by omega
  have hdata : d ++ (b :: buf).take (m - d.length) = (d ++ b :: buf).take m := by
    rw [List.take_append, List.take_of_length_le hle]
  have htake : ((d ++ b :: buf).take m).length = m := by
    rw [List.length_take, List.length_append]
    omega
  cases n with
  | zero => cases hc'
  | succ n =>
    rw [receive, receiveLoop] at hc'
    simp only [hpsize, h.data] at hc'
    rw [if_pos hsmall, h.saved, hsize, hdata, htake, h.processed, List.length_nil] at hc'
    split at hc'
    · cases hc'
    · next hknown =>
      obtain ⟨rest, hrest⟩ := receiveLoop_grows hc'
      exact ⟨hknown, _, rest, hrest.symm⟩

/-- While fewer than `m` bytes arrive nothing is handed over. -/
theorem receiveAll_short (stack : ℕ → List UInt8) {m : ℕ} {p d : List UInt8} {b₀ : UInt8}
    {bufs : List (List UInt8)} {c : Client} (h : Collected m d c) (hm : m < 256)
    (hb₀ : b₀.toNat = m) (hbufs : ∀ buf ∈ bufs, buf ≠ [])
    (hcut : d ++ bufs.flatten <+: b₀ :: p) (hshort : d.length + bufs.flatten.length < m) :
    ∃ c', receiveAll stack 2 bufs c = some c' ∧ c'.processed = [] := by
  induction bufs generalizing d c with
  | nil => exact ⟨c, rfl, h.processed⟩
  | cons buf bufs ih =>
    cases buf with
    | nil => exact absurd rfl (hbufs [] (List.mem_cons_self ..))
    | cons b buf =>
      have hfirst : d = [] → b.toNat = m := by
        rintro rfl
        obtain ⟨tail, htail⟩ := hcut
        have hbb : b = b₀ := by
          simp only [List.flatten_cons, List.nil_append, List.cons_append] at htail
          exact (List.cons.inj htail).1
        rw [hbb, hb₀]
      rw [List.flatten_cons, List.length_append] at hshort
      have hnear : d.length + (b :: buf).length < m := by omega
      obtain ⟨⟨c₁, hc₁⟩, hcollected⟩ := Collected.short (n := 0) h hfirst hnear hm
      rw [List.flatten_cons, ← List.append_assoc] at hcut
      have hlen : (d ++ b :: buf).length = d.length + (b :: buf).length := List.length_append
      obtain ⟨c', hc', hnone⟩ := ih (hcollected 2 c₁ hc₁)
        (fun buf hbuf => hbufs buf (List.mem_cons_of_mem _ hbuf)) hcut (by omega)
      refine ⟨c', ?_, hnone⟩
      rw [receiveAll, hc₁]
      exact hc'

/-- Once `m` bytes have arrived, the first call has got exactly those. -/
theorem receiveAll_full {stack : ℕ → List UInt8} {m n : ℕ} {stream d : List UInt8} {b₀ : UInt8}
    {bufs : List (List UInt8)} {c c' : Client} (h : Collected m d c) (hm : m < 256)
    (hb₀ : b₀.toNat = m) (hbufs : ∀ buf ∈ bufs, buf ≠ [] ∧ buf.length ≤ maxBuffSize)
    (hne : bufs ≠ []) (hd : d ≠ [] → d.length < m) (hcut : d ++ bufs.flatten <+: b₀ :: stream)
    (hfull : m ≤ d.length + bufs.flatten.length) (hc' : receiveAll stack n bufs c = some c') :
    processPacket ((b₀ :: stream).take m ++ (stack 0).drop m) ≠ .unknown ∧
    ∃ result rest, c'.processed = ((b₀ :: stream).take m, result) :: rest := by
  induction bufs generalizing d c with
  | nil => exact absurd rfl hne
  | cons buf bufs ih =>
    obtain ⟨hnonempty, hlen⟩ := hbufs buf (List.mem_cons_self ..)
    obtain ⟨c₁, hfirst, hrest⟩ := Option.bind_eq_some_iff.mp hc'
    cases buf with
    | nil => exact absurd rfl hnonempty
    | cons b buf =>
      have hb : d = [] → b.toNat = m := by
        rintro rfl
        obtain ⟨tail, htail⟩ := hcut
        have hbb : b = b₀ := by
          simp only [List.flatten_cons, List.nil_append, List.cons_append] at htail
          exact (List.cons.inj htail).1
        rw [hbb, hb₀]
      rw [List.flatten_cons, ← List.append_assoc] at hcut
      rw [List.flatten_cons, List.length_append] at hfull
      have hsum : (d ++ b :: buf).length = d.length + (b :: buf).length := List.length_append
      by_cases hreach : m ≤ d.length + (b :: buf).length
      · obtain ⟨hknown, result, rest, hlog⟩ := h.full hb hd hreach hm hlen hfirst
        have hpre : d ++ b :: buf <+: b₀ :: stream := (List.prefix_append _ _).trans hcut
        have htake : (d ++ b :: buf).take m = (b₀ :: stream).take m := by
          obtain ⟨tail, htail⟩ := hpre
          have hle : m ≤ (d ++ b :: buf).length := by omega
          rw [← htail, List.take_append_of_le_length hle]
        rw [htake] at hknown hlog
        obtain ⟨more, hmore⟩ := receiveAll_grows hrest
        refine ⟨hknown, result, rest ++ more, ?_⟩
        rw [← hmore, hlog, List.cons_append]
      · have hnear : d.length + (b :: buf).length < m := by omega
        have hcollected := (Collected.short (n := 0) h hb hnear hm).2 n c₁ hfirst
        have hleft : m ≤ (d ++ b :: buf).length + bufs.flatten.length := by omega
        refine ih hcollected (fun buf hbuf => hbufs buf (List.mem_cons_of_mem _ hbuf)) ?_
          (fun _ => by omega) hcut hleft hrest
        rintro rfl
        simp only [List.flatten_nil, List.length_nil] at hfull
        omega

/-- A frame that the server encodes. -/
def serverFrame (message : UInt32 × List UInt8) : List UInt8 := makePacketBuffer message.1 message.2

theorem serverFrame_length (message : UInt32 × List UInt8) :
    (serverFrame message).length = sizeofPacketHeader + message.2.length :=
  makePacketBuffer_length message.1 message.2

theorem arrived_frames_nil {message : UInt32 × List UInt8} {frames : List (List UInt8)} {n : ℕ}
    (h : n < (serverFrame message).length) : arrived n (serverFrame message :: frames) = [] := by
  rw [arrived, if_neg (by omega)]

/-- The client decodes the frames as long as no call of `ProcessPacket` is due: no byte has
arrived, or fewer than the low byte of the first frame's size says. -/
theorem client_decodes_iff (stack : ℕ → List UInt8) (messages : List (UInt32 × List UInt8))
    (bufs : List (List UInt8))
    (hsize : ∀ message ∈ messages, (serverFrame message).length ≤ maxPacketSize)
    (hbufs : ∀ buf ∈ bufs, buf ≠ [] ∧ buf.length ≤ maxBuffSize)
    (hcut : bufs.flatten <+: (messages.map serverFrame).flatten) :
    Decodes stack (messages.map serverFrame) bufs ↔ bufs.flatten.length = 0 ∨
      ∃ message ∈ messages.head?, bufs.flatten.length < (serverFrame message).length % 256 := by
  have hempty (hzero : bufs.flatten.length = 0) : bufs = [] := by
    cases bufs with
    | nil => rfl
    | cons buf bufs =>
      have hpos := List.length_pos_iff.mpr (hbufs buf (List.mem_cons_self ..)).1
      rw [List.flatten_cons, List.length_append] at hzero
      omega
  cases messages with
  | nil =>
    have hzero : bufs.flatten.length = 0 := by simpa using hcut.length_le
    apply iff_of_true _ (.inl hzero)
    rw [hempty hzero]
    exact ⟨0, .connect, rfl, rfl, by simp [Client.connect]⟩
  | cons message messages =>
    have hmax := hsize message (List.mem_cons_self ..)
    have hmin := serverFrame_length message
    simp only [maxPacketSize, sizeofPacketHeader] at hmax hmin
    obtain ⟨rest, hrest⟩ := makePacketBuffer_head message.1 message.2 (by
      simp only [sizeofPacketHeader]
      omega)
    rw [← serverFrame_length] at hrest
    have hm : (serverFrame message).length % 256 < 256 := Nat.mod_lt _ (by decide)
    have hb₀ : (UInt8.ofNat (serverFrame message).length).toNat =
        (serverFrame message).length % 256 := rfl
    rw [List.map_cons, List.flatten_cons] at hcut
    have hstream : serverFrame message ++ (messages.map serverFrame).flatten =
        UInt8.ofNat (serverFrame message).length ::
          (UInt8.ofNat ((serverFrame message).length / 256) :: rest ++
            (messages.map serverFrame).flatten) := by
      show makePacketBuffer _ _ ++ _ = _
      rw [hrest]
      rfl
    rw [hstream] at hcut
    constructor
    · intro h
      obtain ⟨n, c, hrun, hcalls, _⟩ := h
      by_contra hcond
      simp only [List.head?_cons, Option.mem_def, Option.some.injEq, exists_eq_left', not_or,
        not_lt] at hcond
      have hne : bufs ≠ [] := by
        rintro rfl
        exact hcond.1 rfl
      obtain ⟨hknown, result, more, hlog⟩ := receiveAll_full (Collected.connect _) hm hb₀ hbufs hne
        (by simp) hcut (by simpa using hcond.2) hrun
      rw [← hstream] at hlog
      by_cases hsmall : (serverFrame message).length < 256
      · -- the second byte of the size is zero
        apply hknown
        obtain ⟨k, hk⟩ : ∃ k, (serverFrame message).length % 256 = k + 2 :=
          ⟨(serverFrame message).length - 2, by omega⟩
        have hzero : (serverFrame message).length / 256 = 0 := Nat.div_eq_of_lt hsmall
        rw [hk, hzero]
        rfl
      · have htake : ((serverFrame message ++ (messages.map serverFrame).flatten).take
            ((serverFrame message).length % 256)).length = (serverFrame message).length % 256 := by
          rw [List.length_take, List.length_append]
          omega
        rw [hlog, List.map_cons, List.map_cons, arrived] at hcalls
        split at hcalls
        · have hfirst := congrArg List.length (List.cons.inj hcalls).1
          rw [htake] at hfirst
          omega
        · cases hcalls
    · intro hcond
      rcases hcond with hzero | hshort
      · rw [hempty hzero]
        refine ⟨0, .connect, rfl, ?_, by simp [Client.connect]⟩
        have hpos : 0 < (serverFrame message).length := by omega
        exact (arrived_frames_nil hpos).symm
      · obtain ⟨_, hhead, hshort⟩ := hshort
        obtain rfl := Option.some.inj hhead
        obtain ⟨c, hrun, hnone⟩ := receiveAll_short stack (Collected.connect _) hm hb₀
          (fun buf hbuf => (hbufs buf hbuf).1) hcut (by simpa using hshort)
        refine ⟨2, c, hrun, ?_, by simp [hnone]⟩
        rw [hnone, List.map_cons, arrived_frames_nil (by omega)]
        rfl

/-- The first three bytes of a frame, in two completions. -/
theorem client_decodes_iff_begun :
    Decodes (fun _ => []) [serverFrame (2, [1, 2, 3])] [[11, 0], [0]] := by
  have hiff := client_decodes_iff (fun _ => []) [(2, [1, 2, 3])] [[11, 0], [0]] (by decide)
    (by decide) (by decide)
  exact hiff.mpr (.inr ⟨_, rfl, by decide⟩)

/-- One whole frame, in one completion. -/
theorem first_frame_hangs : ¬∀ (stack : ℕ → List UInt8) (messages : List (UInt32 × List UInt8))
    (bufs : List (List UInt8)),
    (∀ message ∈ messages, (serverFrame message).length ≤ maxPacketSize) →
    (∀ buf ∈ bufs, buf ≠ [] ∧ buf.length ≤ maxBuffSize) →
    bufs.flatten <+: (messages.map serverFrame).flatten →
    Decodes stack (messages.map serverFrame) bufs := by
  intro claim
  obtain ⟨n, c, hrun, _⟩ := claim (fun _ => []) [(4, [8, 1])] [serverFrame (4, [8, 1])] (by decide)
    (by decide) (by decide)
  have hcut : [] ++ [serverFrame (4, [8, 1])].flatten <+:
    (10 : UInt8) :: (serverFrame (4, [8, 1])).tail := by decide
  obtain ⟨hknown, _⟩ := receiveAll_full (Collected.connect 10) (by decide) (by decide) (by decide)
    (by decide) (by decide) hcut (by decide) hrun
  exact hknown (by decide)

end ServerCore.Network
