import ServerCore.Network.SendStream

namespace ServerCore.Network

open Framework NetworkBuffer

variable {T S : Type} [DecidableEq T] [DecidableEq S]

/-- A pool after an `Initialize` that got all it asked for. -/
def initialPool (ids sizes : Pool → ℕ) (t : T) (p : Pool) : RegisteredBufferPool T :=
  .initializePool p.bufferSize true (some (ids p)) t (sizes p)

def initialStart (ids sizes : Pool → ℕ) (t : T) : SystemConf T S :=
  start (initialPool ids sizes t .recv) (initialPool ids sizes t .send)

/-- The ranges share no byte. -/
def NetworkBuffer.RioBuf.Apart (r r' : RioBuf) : Prop :=
  r.offset + r.length ≤ r'.offset ∨ r'.offset + r'.length ≤ r.offset

/-- The slice that a buffer covers. -/
def NetworkBuffer.slice (b : NetworkBuffer) : RioBuf := ⟨b.mRioBuffID, b.mOffset, b.mCapacity⟩

/-- The regions of the operations outstanding on a session. -/
def Session.regions (s : Session T S) : Pool → List RioBuf
  | .recv => s.recv.outstanding
  | .send => s.send.outstanding.map Post.region

/-- An outstanding receive, or one about to be posted, targets the free part of the buffer. -/
def recvRegions : Assertion T S where
  session s := ∀ r ∈ s.recv.outstanding, ∃ b, s.recv.mRecvBuffer = some b ∧ r = b.recvRegion
  frame s f := f = .recv .post →
    ∃ b, s.recv.mRecvBuffer = some b ∧ s.recv.mRioRecvContext.region = b.recvRegion

section

variable [Fintype T] {recvPool sendPool : RegisteredBufferPool T}
  {ok : SystemConf T S → Action T (Choice T S) → Prop} {s : SystemConf T S}

theorem recvRegions_reach (h : machine.Reach ok (start recvPool sendPool) s) (x : S) :
    recvRegions.Holds x s := by
  refine Assertion.reach h ?init ?step ?beside ?enter ?env
  case init => simp [recvRegions, Session.construct]
  case step =>
    intro s t c f fs mem new hr _ hf hstep hs htop
    have htoken := (recvToken.le_total (u := t) (g := f) (by simp [hf])).trans (recvToken_le hr x)
    have heffect := hstep.recvSide
    simp only [recvToken] at htoken
    simp only [recvRegions] at hs htop ⊢
    generalize (mem.session x).recv = s' at heffect ⊢
    cases heffect with
    | recv f s' new h =>
      have hnone : (s.mem.session x).recv.outstanding = [] := by
        simp only [Frame.recvToken] at htoken
        exact List.length_eq_zero_iff.mp (by omega)
      cases h with
      | prepare b hb => simp [hnone, hb]
      | post => simpa [hnone] using htop
      | _ => simp [hnone]
    | buffer f b new _ hnew hb =>
      constructor
      · intro r hr'
        obtain ⟨b', hb', hreg⟩ := hs r hr'
        rcases recvBuffer_kept hr hf hb with rfl | hnone | hdead
        · exact ⟨b', hb', hreg⟩
        · simp [hnone] at hb'
        · simp [((lifetime_reach hr x).1 hdead).2.1] at hr'
      · intro g hg hpost
        simpa [hpost, Frame.inRecv] using hnew g hg
  case beside =>
    intro s t c f fs mem new u g hr hf hmem hstep hb htop hg hpost
    have htoken := (hb recvToken).trans (recvToken_le hr x)
    have heffect := hstep.recvSide
    simp only [recvToken] at htoken
    simp only [recvRegions] at hg ⊢
    subst hpost
    generalize (mem.session x).recv = s' at heffect ⊢
    cases heffect with
    | recv f s' new h =>
      simp only [Frame.recvToken] at htoken
      omega
    | buffer f b new _ hnew hb =>
      obtain ⟨b', hb', hreg⟩ := hg rfl
      rcases recvBuffer_kept hr hf hb with rfl | hnone | hdead
      · exact ⟨b', hb', hreg⟩
      · simp [hnone] at hb'
      · have hlive := ((lifetime_reach hr x).2 u _ hmem).1 rfl
        simp [hdead] at hlive
  case enter =>
    intro s t c f mem hr _ hstep hs
    simp only [recvRegions] at hs ⊢
    have hf : f ≠ .recv .post := by cases hstep <;> simp
    rcases hstep.sides with ⟨_, he⟩ | ⟨n, region, rest, rfl, ho, _, _, he⟩ | ⟨_, _, _, _, _, _, he, _⟩
    · rw [he]
      exact ⟨hs, fun hp => absurd hp hf, fun u g _ hg => hg⟩
    · rw [he]
      exact ⟨fun r hr' => hs r (by simp [ho, hr']), fun hp => absurd hp hf, fun u g _ hg => hg⟩
    · rw [he]
      exact ⟨hs, fun hp => absurd hp hf, fun u g _ hg => hg⟩
  case env =>
    intro s mem hstep hs
    obtain ⟨_, _, he, _⟩ := hstep.session x
    rw [he]
    exact ⟨hs, fun u g _ hg => hg⟩

end

/-- Operations that keep a buffer valid keep its slice. -/
theorem IsSlice.update {bs id size : ℕ} {b b' : NetworkBuffer} (h : IsSlice bs id size b)
    (hvalid : b'.Valid bs) (hid : b'.mRioBuffID = b.mRioBuffID) (hoff : b'.mOffset = b.mOffset) :
    IsSlice bs id size b' := by
  refine ⟨hvalid, hid.trans h.id_eq, ?_⟩
  rw [hoff]
  exact h.slot

theorem stable_not_isSlice (bs id size : ℕ) : Stable fun b => ¬IsSlice bs id size b := by
  refine ⟨fun b hb h => hb ?_, fun b packet hfit hb h => hb ?_, fun b n hb h => hb ?_,
    fun b n hn hb h => hb ?_⟩
  · exact h.update h.valid.reset rfl rfl
  · exact h.update (h.valid.append packet.buffer hfit) (by simp [append, store])
      (by simp [append, store])
  · exact h.update (h.valid.onWrite n (Int.natCast_nonneg n)) (by simp) (by simp)
  · exact h.update (h.valid.onRead n hn).clean (by simp) (by simp)

/-- Regions in slices at different offsets are apart. -/
theorem apart_of_slices {bs id size : ℕ} {b c : NetworkBuffer} (hb : IsSlice bs id size b)
    (hc : IsSlice bs id size c) (hne : b.mOffset ≠ c.mOffset) {r r' : RioBuf}
    (hr : b.Encloses r) (hr' : c.Encloses r') : r.Apart r' := by
  have hbcap := hb.valid.capacity_eq
  have hccap := hc.valid.capacity_eq
  obtain ⟨_, hlo, hhi⟩ := hr
  obtain ⟨_, hlo', hhi'⟩ := hr'
  rcases hb.disjoint hc hne with h | h
  · exact .inl (by omega)
  · exact .inr (by omega)

section

variable [Fintype T] {ids sizes : Pool → ℕ} {t : T}
  {ok : SystemConf T S → Action T (Choice T S) → Prop} {s : SystemConf T S}

omit [DecidableEq T] [DecidableEq S] [Fintype T] in
theorem start_pool (ids sizes : Pool → ℕ) (t : T) (p : Pool) :
    (System.start (S := S) (initialPool ids sizes t .recv) (initialPool ids sizes t .send)).pool p =
      initialPool ids sizes t p := by
  cases p <;> rfl

/-- All buffers of a pool stay slices of its region. -/
theorem slices_reach (hfit : ∀ p, p.bufferSize * sizes p < 2 ^ 31)
    (h : machine.Reach ok (initialStart ids sizes t) s) (p : Pool) :
    (∀ x b, (s.mem.session x).buffer p = some b → IsSlice p.bufferSize (ids p) (sizes p) b) ∧
      ∀ e ∈ (s.mem.pool p).mQueue, IsSlice p.bufferSize (ids p) (sizes p) e.2 := by
  refine buffers_reach (stable_not_isSlice _ _ _) p ?_ h
  rw [start_pool]
  intro e he
  obtain ⟨b, hb, rfl⟩ := List.mem_map.mp he
  exact RegisteredBufferPool.slices_isSlice _ _ _ (hfit p) b hb

/-- No two sessions, and no session and the free queue, have the same slice. -/
theorem owners_reach (hfit : ∀ p, p.bufferSize * sizes p < 2 ^ 31)
    (h : machine.Reach ok (initialStart ids sizes t) s) (p : Pool) {x : S} {b : NetworkBuffer}
    (hb : (s.mem.session x).buffer p = some b) :
    (∀ y c, y ≠ x → (s.mem.session y).buffer p = some c → c.mOffset ≠ b.mOffset) ∧
      ∀ e ∈ (s.mem.pool p).mQueue, e.2.mOffset ≠ b.mOffset := by
  refine offsets_reach p ?_ h hb
  rw [start_pool]
  have hpos : 0 < p.bufferSize := by cases p <;> decide
  have hnodup := RegisteredBufferPool.slices_offset_nodup p.bufferSize (ids p) (sizes p) hpos
    (hfit p)
  simpa [initialPool, RegisteredBufferPool.initializePool, Function.comp_def] using hnodup

/-- An outstanding operation targets its session's own slice, and is the only one of its kind. -/
theorem regions_reach (hfit : ∀ p, p.bufferSize * sizes p < 2 ^ 31)
    (h : machine.Reach ok (initialStart ids sizes t) s) (x : S) (p : Pool) :
    ((s.mem.session x).regions p).length ≤ 1 ∧
      ∀ r ∈ (s.mem.session x).regions p,
        ∃ b, (s.mem.session x).buffer p = some b ∧ b.Encloses r := by
  have hslice := (slices_reach hfit h p).1 x
  cases p with
  | recv =>
    have hone := recvToken_le h x
    simp only [Potential.total, recvToken] at hone
    refine ⟨by simp only [Session.regions]; omega, ?_⟩
    intro r hr
    obtain ⟨b, hb, rfl⟩ := (recvRegions_reach h x).1 r hr
    exact ⟨b, hb, (hslice b hb).valid.encloses_recvRegion⟩
  | send =>
    have hone := sendToken_le h x
    simp only [Potential.total, sendToken] at hone
    refine ⟨by simp only [Session.regions, List.length_map]; omega, ?_⟩
    intro r hr
    obtain ⟨post, hpost, rfl⟩ := List.mem_map.mp hr
    have hpool := RegisteredBufferPool.initializePool_valid 32768 true (some (ids .send)) t
      (sizes .send)
    have hstream := (sendStream_reach hpool h x).1
    obtain ⟨hmem, hcur⟩ := hstream.current post hpost
    exact ⟨post.buffer, hcur, (hstream.filled post hmem).encloses⟩

/-- Two different operations on one registered buffer are apart, and apart from the free slices. -/
theorem regions_isolated (hids : ids .recv ≠ ids .send)
    (hfit : ∀ p, p.bufferSize * sizes p < 2 ^ 31)
    (h : machine.Reach ok (initialStart ids sizes t) s) (x : S) (p : Pool) (i : ℕ) (r : RioBuf)
    (hr : ((s.mem.session x).regions p)[i]? = some r) :
    (∀ y q j r', (y, q, j) ≠ (x, p, i) → ((s.mem.session y).regions q)[j]? = some r' →
        r.bufferId = r'.bufferId → r.Apart r') ∧
      ∀ q, ∀ e ∈ (s.mem.pool q).mQueue, r.bufferId = e.2.mRioBuffID → r.Apart e.2.slice := by
  have hmem := List.mem_of_getElem? hr
  obtain ⟨hone, htarget⟩ := regions_reach hfit h x p
  obtain ⟨b, hb, henc⟩ := htarget r hmem
  have hslice := (slices_reach hfit h p).1 x b hb
  obtain ⟨hsessions, hqueue⟩ := owners_reach hfit h p hb
  have hinj : ∀ q, ids p = ids q → p = q := by
    intro q hq
    cases p <;> cases q <;> first | rfl | exact absurd hq hids | exact absurd hq.symm hids
  constructor
  · intro y q j r' hne hr' hid
    have hmem' := List.mem_of_getElem? hr'
    obtain ⟨hone', htarget'⟩ := regions_reach hfit h y q
    obtain ⟨c, hc, henc'⟩ := htarget' r' hmem'
    have hslice' := (slices_reach hfit h q).1 y c hc
    obtain rfl := hinj q (by rw [← hslice.id_eq, ← hslice'.id_eq, ← henc.1, ← henc'.1, hid])
    by_cases hxy : y = x
    · -- one session has at most one operation of a kind
      subst hxy
      have hi := (List.getElem?_eq_some_iff.mp hr).1
      have hj := (List.getElem?_eq_some_iff.mp hr').1
      obtain rfl : i = j := by omega
      exact absurd rfl hne
    · exact apart_of_slices hslice hslice' (hsessions y c hxy hc).symm henc henc'
  · intro q e he hid
    have hslice' := (slices_reach hfit h q).2 e he
    obtain rfl := hinj q (by rw [← hslice.id_eq, ← hslice'.id_eq, ← henc.1, hid])
    exact apart_of_slices hslice hslice' (hqueue e he).symm henc ⟨rfl, le_refl _, le_refl _⟩

end

def twoIds (p : Pool) : ℕ := if p = .recv then 1 else 2

/-- Two sessions receive at the same time. -/
theorem regions_isolated_twoSessions : ∃ s : SystemConf (Fin 2) Bool,
    ((s.mem.session false).regions .recv)[0]? = some ⟨1, 0, 16384⟩ ∧
    ((s.mem.session true).regions .recv)[0]? = some ⟨1, 16384, 16384⟩ ∧
      RioBuf.Apart ⟨1, 0, 16384⟩ ⟨1, 16384, 16384⟩ := by
  have hr := Machine.reach_final machine
    (initialStart (S := Bool) twoIds (fun _ => 2) (0 : Fin 2))
    (connectRun 0 0 false ++ connectRun 0 1 true) (by decide)
  have hfalse : (((machine (S := Bool)).final (initialStart twoIds (fun _ => 2) (0 : Fin 2))
      (connectRun 0 0 false ++ connectRun 0 1 true) (by decide)).mem.session false).regions .recv
      = [⟨1, 0, 16384⟩] := by decide
  have htrue : (((machine (S := Bool)).final (initialStart twoIds (fun _ => 2) (0 : Fin 2))
      (connectRun 0 0 false ++ connectRun 0 1 true) (by decide)).mem.session true).regions .recv
      = [⟨1, 16384, 16384⟩] := by decide
  refine ⟨_, by rw [hfalse]; rfl, by rw [htrue]; rfl, ?_⟩
  exact (regions_isolated (by decide) (fun p => by cases p <;> decide) hr false .recv 0 _
    (by rw [hfalse]; rfl)).1 true .recv 0 _ (by decide) (by rw [htrue]; rfl) rfl

end ServerCore.Network
