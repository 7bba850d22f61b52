import ServerCore.Network.Completions
import ServerCore.Network.Reports

namespace ServerCore.Network

open Framework

variable {T S : Type} [DecidableEq T] [DecidableEq S]

omit [DecidableEq T] [DecidableEq S] in
@[simp] theorem sessionFrames_append (fs gs : List (ListenerFrame T S)) :
    sessionFrames (fs ++ gs) = sessionFrames fs ++ sessionFrames gs :=
  List.filterMap_append

omit [DecidableEq T] [DecidableEq S] in
@[simp] theorem sessionFrames_map (fs : List (SessionFrame T S)) :
    sessionFrames (fs.map .session) = fs := by
  induction fs with
  | nil => rfl
  | cons f fs ih => exact congrArg (f :: ·) ih

omit [DecidableEq T] [DecidableEq S] in
@[simp] theorem sessionFrames_session (f : SessionFrame T S) (fs : List (ListenerFrame T S)) :
    sessionFrames (.session f :: fs) = f :: sessionFrames fs := rfl

/-- The sessions of a listening service, without its listener. -/
def sessionsOf (s : ListenerConf T S) : SystemConf T S :=
  ⟨s.mem.system, fun u => sessionFrames (s.frames u)⟩

omit [DecidableEq S] in
theorem sessionsOf_update (s : ListenerConf T S) (mem : ListenerSystem T S) (t : T)
    (fs : List (ListenerFrame T S)) :
    sessionsOf ⟨mem, Function.update s.frames t fs⟩ =
      ⟨mem.system, Function.update (sessionsOf s).frames t (sessionFrames fs)⟩ := by
  have hframes := Function.comp_update sessionFrames s.frames t fs
  simp only [sessionsOf, Conf.mk.injEq, true_and]
  exact hframes

/-- The sessions do not see a step that leaves them and their frames as they are. -/
theorem sessionsOf_same [Fintype T] {s : ListenerConf T S} {mem : ListenerSystem T S} {t : T}
    {fs : List (ListenerFrame T S)} (hmem : mem.system = s.mem.system)
    (hfs : sessionFrames fs = sessionFrames (s.frames t)) :
    machine.Reach (fun _ _ => True) (sessionsOf s)
      (sessionsOf ⟨mem, Function.update s.frames t fs⟩) := by
  have hframes : Function.update (sessionsOf s).frames t (sessionFrames (s.frames t)) =
      (sessionsOf s).frames := Function.update_eq_self t (sessionsOf s).frames
  rw [sessionsOf_update, hmem, hfs, hframes]
  exact .start

/-- A function of the listener is called by none of a session. -/
def Layered : List (ListenerFrame T S) → Prop
  | [] => True
  | .session _ :: fs => Layered fs
  | _ :: fs => sessionFrames fs = []

omit [DecidableEq T] [DecidableEq S] in
theorem layered_of_nil {fs : List (ListenerFrame T S)} (h : sessionFrames fs = []) :
    Layered fs := by
  cases fs with
  | nil => trivial
  | cons f fs =>
    cases f with
    | session f => simp at h
    | _ => exact h

omit [DecidableEq T] [DecidableEq S] in
theorem Layered.append {fs : List (ListenerFrame T S)} (h : Layered fs)
    (new : List (SessionFrame T S)) : Layered (new.map .session ++ fs) := by
  induction new with
  | nil => exact h
  | cons f new ih => exact ih

theorem ListenerStep.layered {t : T} {σ σ' : ListenerSystem T S} {f : ListenerFrame T S}
    {c : ListenerChoice T S} {new fs : List (ListenerFrame T S)} (h : ListenerStep t σ f c σ' new)
    (hlayered : Layered (f :: fs)) : Layered (new ++ fs) := by
  cases h with
  | session x f c system new h =>
    have hbelow : Layered fs := hlayered
    have hall := hbelow.append (new.map fun g => (x, g))
    rw [List.map_map] at hall
    exact hall
  | _ =>
    have hnil : sessionFrames fs = [] := hlayered
    first | exact layered_of_nil hnil | exact hnil

/-- A session step does not touch what the listener does with the session. -/
theorem FrameStep.accept_kept {this : S} {t : T} {σ σ' : System T S} {f : Frame T} {c : Choice T S}
    {new : List (Frame T)} (h : FrameStep this t σ f c σ' new) (x : S) :
    (σ'.session x).accepting = (σ.session x).accepting ∧
      ((σ.session x).bound = true → (σ'.session x).bound = true) := by
  by_cases hx : x = this
  · subst hx
    cases h with
    | send f c s' new h => simp
    | recv f c s' new h => simp
    | connect f c σ' new h => cases h <;> simp [Session.record, System.set]
    | disconnect f c σ' new h => cases h <;> simp [Session.record, System.set]
    | destroy f c σ' new h => cases h <;> simp
  · rw [h.other hx]
    exact ⟨rfl, id⟩

omit [DecidableEq T] in
theorem EnterStep.accept_kept {this : S} {σ σ' : System T S} {frames : T → List (SessionFrame T S)}
    {c : Choice T S} {f : Frame T} (h : EnterStep σ frames c σ' this f) (hc : c ≠ .accepted this)
    (x : S) : (σ'.session x).accepting = (σ.session x).accepting ∧
      ((σ.session x).bound = true → (σ'.session x).bound = true) := by
  by_cases hx : x = this
  · subst hx
    cases h with
    | accepted _ _ => exact absurd rfl hc
    | _ => simp
  · rw [h.other hx]
    exact ⟨rfl, id⟩

omit [DecidableEq T] in
theorem ListenerEnter.accept_kept {σ σ' : ListenerSystem T S}
    {frames : T → List (SessionFrame T S)} {c : ListenerChoice T S} {f : ListenerFrame T S}
    (h : ListenerEnter σ frames c σ' f) (x : S) :
    (σ'.system.session x).accepting = (σ.system.session x).accepting ∧
      ((σ.system.session x).bound = true → (σ'.system.session x).bound = true) := by
  cases h with
  | call c system y f hdirect he =>
    apply he.accept_kept
    rintro rfl
    simp [Choice.direct] at hdirect
  | connected y ok system z f he => exact he.accept_kept (by simp) x
  | disconnected y ok system z f he => exact he.accept_kept (by simp) x
  | accepted a ok _ => exact ⟨rfl, id⟩

section

variable [Fintype T] {s s' : ListenerConf T S}
  {ok : ListenerConf T S → Action T (ListenerChoice T S) → Prop} {t : T}
  {recvPool sendPool : RegisteredBufferPool T} {maxSessionCount : ℕ}

/-- The sessions of the contexts are distinct, and each is being accepted until its context goes
on to the next. -/
structure Armed (s : ListenerConf T S) : Prop where
  bound : ∀ a x, (s.mem.accept a).mSession = some x → (s.mem.system.session x).bound = true
  distinct : ∀ a b x, (s.mem.accept a).mSession = some x → (s.mem.accept b).mSession = some x →
    a = b
  working : ∀ u a x, .updateSocket a x ∈ s.frames u ∨ .getPeerName a x ∈ s.frames u →
    (s.mem.accept a).mSession = some x
  accepting : ∀ a x, (s.mem.accept a).mSession = some x →
    (s.mem.system.session x).accepting = true ∨ ∃ u, .registerAccept a ∈ s.frames u

omit [DecidableEq T] [DecidableEq S] [Fintype T] in
theorem Armed.keep {mem : ListenerSystem T S} {frames : T → List (ListenerFrame T S)}
    (h : Armed s) (hsession : ∀ a, (mem.accept a).mSession = (s.mem.accept a).mSession)
    (hbound : ∀ x, (s.mem.system.session x).bound = true → (mem.system.session x).bound = true)
    (hworking : ∀ u a x, .updateSocket a x ∈ frames u ∨ .getPeerName a x ∈ frames u →
      (s.mem.accept a).mSession = some x)
    (haccepting : ∀ a x, (s.mem.accept a).mSession = some x →
      (mem.system.session x).accepting = true ∨ ∃ u, .registerAccept a ∈ frames u) :
    Armed ⟨mem, frames⟩ := by
  refine ⟨?_, ?_, ?_, ?_⟩
  · intro a x hx
    rw [hsession] at hx
    exact hbound x (h.bound a x hx)
  · intro a b x ha hb
    rw [hsession] at ha hb
    exact h.distinct a b x ha hb
  · intro u a x hg
    rw [hsession]
    exact hworking u a x hg
  · intro a x hx
    rw [hsession] at hx
    exact haccepting a x hx

end

section

variable [Fintype T] {s s' : ListenerConf T S}
  {ok : ListenerConf T S → Action T (ListenerChoice T S) → Prop} {t : T}
  {recvPool sendPool : RegisteredBufferPool T} {maxSessionCount : ℕ}

omit [DecidableEq T] in
theorem accepted_idle {σ : ListenerSystem T S} {frames : T → List (ListenerFrame T S)} {u : T}
    {a : ℕ} (ok : Bool) {r : ListenerSystem T S × ListenerFrame T S}
    (h : listenerEnter σ frames u (.completed (.accept a) ok) = some r) : frames u = [] := by
  simp only [listenerEnter] at h
  split at h
  · next hidle => exact hidle.1
  · simp at h

theorem layered_reach
    (h : listenerMachine.Reach ok (listenerStart t recvPool sendPool maxSessionCount) s) :
    ∀ u, Layered (s.frames u) := by
  refine h.invariant (fun s => ∀ u, Layered (s.frames u)) ?_ ?_
  · intro u
    by_cases hu : u = t
    · subst hu
      simp [listenerStart, Layered, sessionFrames]
    · simp [listenerStart, hu, Layered]
  · intro s a s' _ ih _ hnext u
    rcases Machine.next_cases hnext with ⟨v, c, mem, f, rfl, he, rfl⟩ |
      ⟨v, c, f, fs, mem, new, rfl, hf, he, rfl⟩ | ⟨c, mem, rfl, he, rfl⟩
    · by_cases hu : u = v
      · subst hu
        simp only [Function.update_self]
        have hold := ih u
        cases (listenerEnter_spec he).1 with
        | accepted a ok _ =>
          have hidle : s.frames u = [] := accepted_idle ok he
          simp [hidle, Layered, sessionFrames]
        | _ => exact hold
      · simp only [Function.update_of_ne hu]
        exact ih u
    · by_cases hu : u = v
      · subst hu
        simp only [Function.update_self]
        apply (listenerStep_spec he).layered
        rw [← hf]
        exact ih u
      · simp only [Function.update_of_ne hu]
        exact ih u
    · simp [listenerMachine] at he

omit [Fintype T] in
theorem Armed.enter {c : ListenerChoice T S} {f : ListenerFrame T S} {mem : ListenerSystem T S}
    (h : Armed s) (hstep : ListenerEnter s.mem (fun u => sessionFrames (s.frames u)) c mem f) :
    Armed ⟨mem, Function.update s.frames t (f :: s.frames t)⟩ := by
  apply h.keep hstep.mSession fun x => (hstep.accept_kept x).2
  · intro u a x hg
    apply h.working u a x
    rcases hg with hg | hg
    · rcases mem_push hg with rfl | hg
      · cases hstep
      · exact .inl hg
    · rcases mem_push hg with rfl | hg
      · cases hstep
      · exact .inr hg
  · intro a x hx
    rw [(hstep.accept_kept x).1]
    rcases h.accepting a x hx with haccepting | ⟨u, hg⟩
    · exact .inl haccepting
    · exact .inr ⟨u, push_mem t f hg⟩

/-- `RegisterAccept` arms its context with a fresh session. -/
theorem Armed.create {a : ℕ} {y : S} {fs : List (ListenerFrame T S)} (h : Armed s)
    (hone : ∀ a, holders a s ≤ 1) (hf : s.frames t = .registerAccept a :: fs)
    (hfresh : (s.mem.system.session y).bound = false) :
    Armed ⟨{ s.mem.setAccept a ⟨some y, false⟩ with
        system := (s.mem.letGo a).set y
          { s.mem.system.session y with bound := true, accepting := true } },
      Function.update s.frames t ([.acceptEx a] ++ fs)⟩ := by
  have hne (b : ℕ) (x : S) (hx : (s.mem.accept b).mSession = some x) : x ≠ y := by
    rintro rfl
    simp [h.bound b x hx] at hfresh
  have hsame {b : ℕ} (hb : b ≠ a) :
      Function.update s.mem.accept a ⟨some y, false⟩ b = s.mem.accept b :=
    Function.update_of_ne hb _ _
  refine ⟨?_, ?_, ?_, ?_⟩
  · intro b x hx
    by_cases hxy : x = y
    · subst hxy
      simp
    · have hb : b ≠ a := by
        rintro rfl
        simp [ListenerSystem.setAccept, Ne.symm hxy] at hx
      simp only [ListenerSystem.setAccept, hsame hb] at hx
      simp only [System.set_session_of_ne _ hxy, letGo_bound]
      exact h.bound b x hx
  · intro b c x hb hc
    simp only [ListenerSystem.setAccept] at hb hc
    by_cases hba : b = a
    · by_cases hca : c = a
      · rw [hba, hca]
      · subst hba
        rw [hsame hca] at hc
        simp only [Function.update_self, Option.some.injEq] at hb
        exact absurd hb.symm (hne c x hc)
    · rw [hsame hba] at hb
      by_cases hca : c = a
      · subst hca
        simp only [Function.update_self, Option.some.injEq] at hc
        exact absurd hc.symm (hne b x hb)
      · rw [hsame hca] at hc
        exact h.distinct b c x hb hc
  · intro u b x hg
    have hkept (g : ListenerFrame T S)
        (hg : g ∈ Function.update s.frames t ([.acceptEx a] ++ fs) u) (hacceptEx : g ≠ .acceptEx a)
        (hholds : g.holds b = 1) : g ∈ s.frames u ∧ b ≠ a := by
      rcases mem_update _ hg with ⟨_, hg⟩ | hother
      · exact absurd (List.mem_singleton.mp hg) hacceptEx
      · refine ⟨hother.mem hf, ?_⟩
        rintro rfl
        have hnone := not_other (hone b) hf hother (by simp [ListenerFrame.holds])
        omega
    have hboth : (.updateSocket b x ∈ s.frames u ∨ .getPeerName b x ∈ s.frames u) ∧ b ≠ a := by
      rcases hg with hg | hg
      · have hold := hkept _ hg (by simp) (by simp [ListenerFrame.holds])
        exact ⟨.inl hold.1, hold.2⟩
      · have hold := hkept _ hg (by simp) (by simp [ListenerFrame.holds])
        exact ⟨.inr hold.1, hold.2⟩
    simp only [ListenerSystem.setAccept, hsame hboth.2]
    exact h.working u b x hboth.1
  · intro b x hx
    by_cases hb : b = a
    · subst hb
      simp only [ListenerSystem.setAccept, Function.update_self, Option.some.injEq] at hx
      subst hx
      simp
    · simp only [ListenerSystem.setAccept, hsame hb] at hx
      have hother : (s.mem.accept a).mSession ≠ some x := fun hax => hb (h.distinct b a x hx hax)
      simp only [System.set_session_of_ne _ (hne b x hx), letGo_of_ne hother]
      rcases h.accepting b x hx with haccepting | ⟨u, hg⟩
      · exact .inl haccepting
      · have hg' := other_of_ne hf hg (by simpa using hb)
        exact .inr ⟨u, hg'.update _⟩

theorem Armed.step {c : ListenerChoice T S} {f : ListenerFrame T S}
    {fs new : List (ListenerFrame T S)} {mem : ListenerSystem T S} (h : Armed s)
    (hone : ∀ a, holders a s ≤ 1) (hf : s.frames t = f :: fs)
    (hstep : ListenerStep t s.mem f c mem new) :
    Armed ⟨mem, Function.update s.frames t (new ++ fs)⟩ := by
  have htop : f ∈ s.frames t := hf ▸ List.mem_cons_self
  have horigin := hstep.origin
  have hworking (u : T) (a : ℕ) (x : S)
      (hg : .updateSocket a x ∈ Function.update s.frames t (new ++ fs) u ∨
        .getPeerName a x ∈ Function.update s.frames t (new ++ fs) u) :
      (s.mem.accept a).mSession = some x := by
    rcases hg with hg | hg
    · rcases mem_update _ hg with ⟨_, hnew⟩ | hother
      · exact (horigin _ hnew).2
      · exact h.working u a x (.inl (hother.mem hf))
    · rcases mem_update _ hg with ⟨_, hnew⟩ | hother
      · obtain ⟨rfl, _⟩ := horigin _ hnew
        exact h.working t a x (.inl htop)
      · exact h.working u a x (.inr (hother.mem hf))
  have hregister (hnot : ∀ a, f ≠ .registerAccept a) (a : ℕ)
      (hg : ∃ u, .registerAccept a ∈ s.frames u) :
      ∃ u, .registerAccept a ∈ Function.update s.frames t (new ++ fs) u := by
    obtain ⟨u, hg⟩ := hg
    have hother := other_of_ne hf hg (Ne.symm (hnot a))
    exact ⟨u, hother.update new⟩
  cases hstep with
  | create a y hfresh _ => exact h.create hone hf hfresh
  | named a y =>
    have hy : (s.mem.accept a).mSession = some y := h.working t a y (.inr htop)
    refine h.keep (fun _ => rfl) ?_ ?_ ?_
    · intro x hx
      by_cases hxy : x = y
      · subst hxy
        simpa using hx
      · simpa [hxy] using hx
    · exact hworking
    · intro b x hx
      by_cases hxy : x = y
      · subst hxy
        obtain rfl := h.distinct a b x hy hx
        exact .inr ⟨t, by simp⟩
      · simp only [System.set_session_of_ne _ hxy]
        exact (h.accepting b x hx).imp id (hregister (by simp) b)
  | session y g c system new hframe =>
    refine h.keep (fun _ => rfl) (fun x => (hframe.accept_kept x).2) ?_ ?_
    · exact hworking
    · intro a x hx
      rw [(hframe.accept_kept x).1]
      exact (h.accepting a x hx).imp id (hregister (by simp) a)
  | post b =>
    refine h.keep (fun a => ?_) (fun x hx => hx) ?_ ?_
    · apply mSession_setAccept
      rfl
    · exact hworking
    · intro a x hx
      exact (h.accepting a x hx).imp id (hregister (by simp) a)
  | _ =>
    refine h.keep (fun _ => rfl) (fun x hx => hx) ?_ ?_
    · exact hworking
    · intro a x hx
      exact (h.accepting a x hx).imp id (hregister (by simp) a)

theorem armed_reach
    (h : listenerMachine.Reach ok (listenerStart t recvPool sendPool maxSessionCount) s) :
    Armed s := by
  refine h.invariant Armed ?_ ?_
  · refine ⟨?_, ?_, ?_, ?_⟩
    · intro a x hx
      simp [listenerStart] at hx
    · intro a b x hx
      simp [listenerStart] at hx
    · intro u a x hg
      rcases hg with hg | hg <;> simpa using listenerStart_frames hg
    · intro a x hx
      simp [listenerStart] at hx
  · intro s a s' hr ih _ hnext
    cases listener_move hnext with
    | enter t c f mem _ hstep => exact ih.enter hstep
    | step t c f fs new mem hf hstep => exact ih.step (holders_le hr) hf hstep

/-- `ProcessAccept` goes on to `ProcessConnect` with a session that is being accepted. -/
theorem accepting_of_named {a : ℕ} {x : S} {fs : List (ListenerFrame T S)}
    (h : listenerMachine.Reach ok (listenerStart t recvPool sendPool maxSessionCount) s) {u : T}
    (hf : s.frames u = .getPeerName a x :: fs) : (s.mem.system.session x).accepting = true := by
  have harmed := armed_reach h
  have hx := harmed.working u a x (.inr (hf ▸ List.mem_cons_self))
  rcases harmed.accepting a x hx with haccepting | ⟨v, hg⟩
  · exact haccepting
  · have hother := other_of_ne hf hg (by simp)
    have hnone := not_other (holders_le h a) hf hother (by simp [ListenerFrame.holds])
    simp [ListenerFrame.holds] at hnone

/-- A call into a session, or a completion of one of its operations. -/
theorem sessionsOf_enter {u : T} {c : Choice T S} {system : System T S} {f : SessionFrame T S}
    (h : enter s.mem.system (sessionsOf s).frames u c = some (system, f)) :
    machine.Reach (fun _ _ => True) (sessionsOf s)
      (sessionsOf ⟨{ s.mem with system := system },
        Function.update s.frames u (.session f :: s.frames u)⟩) := by
  have hnext : machine.next (sessionsOf s) (.enter u c) =
      some ⟨system, Function.update (sessionsOf s).frames u (f :: (sessionsOf s).frames u)⟩ := by
    have henter : machine.enter (sessionsOf s).mem (sessionsOf s).frames u c = some (system, f) := h
    simp only [Machine.next, henter, Option.map_some]
  rw [sessionsOf_update]
  exact .next .start trivial hnext

/-- A step inside a session. -/
theorem sessionsOf_step {u : T} {c : Choice T S} {f : SessionFrame T S}
    {fs : List (ListenerFrame T S)} {system : System T S} {new : List (SessionFrame T S)}
    (hf : s.frames u = .session f :: fs) (h : step s.mem.system u f c = some (system, new)) :
    machine.Reach (fun _ _ => True) (sessionsOf s)
      (sessionsOf ⟨{ s.mem with system := system },
        Function.update s.frames u (new.map .session ++ fs)⟩) := by
  have hframes : (sessionsOf s).frames u = f :: sessionFrames fs := by
    simp only [sessionsOf, hf, sessionFrames_session]
  have hnext : machine.next (sessionsOf s) (.step u c) =
      some ⟨system, Function.update (sessionsOf s).frames u (new ++ sessionFrames fs)⟩ := by
    have hstep : machine.step (sessionsOf s).mem u f c = some (system, new) := h
    simp only [Machine.next, hframes, hstep, Option.map_some]
  rw [sessionsOf_update, sessionFrames_append, sessionFrames_map]
  exact .next .start trivial hnext

/-- The listener lets go of the session of a context: `acceptFailed`, if it was being accepted. -/
theorem sessionsOf_letGo (s : ListenerConf T S) (a : ℕ) :
    machine.Reach (fun _ _ => True) (sessionsOf s) ⟨s.mem.letGo a, (sessionsOf s).frames⟩ := by
  unfold ListenerSystem.letGo
  split
  · exact .start
  · next x _ =>
    cases haccepting : (s.mem.system.session x).accepting with
    | false =>
      have hsame : s.mem.system.set x { s.mem.system.session x with accepting := false } =
          s.mem.system := by
        rw [← haccepting]
        simp only [System.set, Function.update_eq_self]
      rw [hsame]
      exact .start
    | true =>
      have hnext : machine.next (sessionsOf s) (.env (.acceptFailed x)) =
          some ⟨s.mem.system.set x { s.mem.system.session x with accepting := false },
            (sessionsOf s).frames⟩ := by
        simp [Machine.next, machine, env, sessionsOf, haccepting]
      exact .next .start trivial hnext

/-- `RegisterAccept` lets go of the session of its context and posts `AcceptEx` on a fresh one. -/
theorem sessionsOf_create {a : ℕ} {x : S} {u : T} {fs : List (ListenerFrame T S)}
    (harmed : Armed s) (hf : s.frames u = .registerAccept a :: fs)
    (hbound : (s.mem.system.session x).bound = false)
    (hdestroyed : (s.mem.system.session x).destroyed = false) :
    machine.Reach (fun _ _ => True) (sessionsOf s)
      (sessionsOf ⟨{ s.mem.setAccept a ⟨some x, false⟩ with
        system := (s.mem.letGo a).set x
          { s.mem.system.session x with bound := true, accepting := true } },
        Function.update s.frames u ([.acceptEx a] ++ fs)⟩) := by
  have hother : (s.mem.accept a).mSession ≠ some x := by
    intro hx
    simp [harmed.bound a x hx] at hbound
  have hsession := letGo_of_ne hother
  have hnext : machine.next ⟨s.mem.letGo a, (sessionsOf s).frames⟩ (.env (.acceptEx x)) =
      some ⟨(s.mem.letGo a).set x { s.mem.system.session x with bound := true, accepting := true },
        (sessionsOf s).frames⟩ := by
    simp [Machine.next, machine, env, hsession, hbound, hdestroyed]
  have hframes : sessionFrames ([.acceptEx a] ++ fs) = (sessionsOf s).frames u := by
    simp only [sessionsOf, hf]
    rfl
  rw [sessionsOf_update, hframes, Function.update_eq_self]
  exact .next (sessionsOf_letGo s a) trivial hnext

/-- `ProcessAccept` calls `ProcessConnect` of its session: the completion `accepted`. -/
theorem sessionsOf_named {a : ℕ} {x : S} {u : T} {fs : List (ListenerFrame T S)}
    (hf : s.frames u = .getPeerName a x :: fs) (hlayered : Layered (s.frames u))
    (haccepting : (s.mem.system.session x).accepting = true) :
    machine.Reach (fun _ _ => True) (sessionsOf s)
      (sessionsOf ⟨{ s.mem with
        system := s.mem.system.set x { s.mem.system.session x with accepting := false } },
        Function.update s.frames u
          ([.session (x, .connect .processConnect), .registerAccept a] ++ fs)⟩) := by
  have hnil : sessionFrames fs = [] := by
    rw [hf] at hlayered
    exact hlayered
  have hidle : (sessionsOf s).frames u = [] := by
    simp only [sessionsOf, hf]
    exact hnil
  have hnext : machine.next (sessionsOf s) (.enter u (.accepted x)) =
      some ⟨s.mem.system.set x { s.mem.system.session x with accepting := false },
        Function.update (sessionsOf s).frames u [(x, .connect .processConnect)]⟩ := by
    have haccepting' : ((sessionsOf s).mem.session x).accepting = true := haccepting
    simp only [Machine.next, machine, enter, hidle, haccepting', and_self, if_true, Option.map_some]
    rfl
  have hframes : sessionFrames
      ([.session (x, .connect .processConnect), .registerAccept a] ++ fs : List (ListenerFrame T S)) =
        [(x, .connect .processConnect)] := by
    rw [sessionFrames_append, hnil]
    rfl
  rw [sessionsOf_update, hframes]
  exact .next .start trivial hnext

theorem sessionsOf_next {act : Action T (ListenerChoice T S)}
    (h : listenerMachine.Reach ok (listenerStart t recvPool sendPool maxSessionCount) s)
    (hnext : listenerMachine.next s act = some s') :
    machine.Reach (fun _ _ => True) (sessionsOf s) (sessionsOf s') := by
  rcases Machine.next_cases hnext with ⟨u, c, mem, f, rfl, he, rfl⟩ |
    ⟨u, c, f, fs, mem, new, rfl, hf, he, rfl⟩ | ⟨c, mem, rfl, he, rfl⟩
  · simp only [listenerMachine] at he
    cases c with
    | session c =>
      simp only [listenerEnter] at he
      split at he <;> simp only [reduceCtorEq, Option.map_eq_some_iff, Prod.mk.injEq] at he
      obtain ⟨⟨system, f⟩, he, rfl, rfl⟩ := he
      exact sessionsOf_enter he
    | completed completion ok =>
      cases completion with
      | connect x | disconnect x =>
        simp only [listenerEnter] at he
        split at he <;> simp only [reduceCtorEq, Option.map_eq_some_iff, Prod.mk.injEq] at he
        obtain ⟨⟨system, f⟩, he, rfl, rfl⟩ := he
        exact sessionsOf_enter he
      | accept a =>
        cases (listenerEnter_spec he).1 with
        | accepted a ok _ => exact sessionsOf_same rfl rfl
    | create x => simp [listenerEnter] at he
  · simp only [listenerMachine] at he
    cases f with
    | session f =>
      cases c <;> simp only [listenerStep, reduceCtorEq, Option.map_eq_some_iff, Prod.mk.injEq] at he
      obtain ⟨⟨system, new⟩, he, rfl, rfl⟩ := he
      exact sessionsOf_step hf he
    | registerAccept a =>
      cases listenerStep_spec he with
      | create a x hbound hdestroyed => exact sessionsOf_create (armed_reach h) hf hbound hdestroyed
    | getPeerName a x =>
      cases listenerStep_spec he with
      | named a x => exact sessionsOf_named hf (layered_reach h u) (accepting_of_named h hf)
      | notNamed a x => exact sessionsOf_same rfl (by rw [hf]; rfl)
    | _ => cases listenerStep_spec he <;> exact sessionsOf_same rfl (by rw [hf]; rfl)
  · simp [listenerMachine] at he

/-- A listening service refines its sessions: whatever holds of every run of the sessions holds of
them in a service that accepts clients. -/
theorem listener_refines
    (h : listenerMachine.Reach ok (listenerStart t recvPool sendPool maxSessionCount) s) :
    machine.Reach (fun _ _ => True) (start recvPool sendPool) (sessionsOf s) := by
  have hstart : sessionsOf (listenerStart (S := S) t recvPool sendPool maxSessionCount) =
      start recvPool sendPool := by
    have hidle : Function.update (fun _ => []) t [] = (fun _ => [] : T → List (SessionFrame T S)) :=
      Function.update_eq_self t _
    have hframes := sessionsOf_update ⟨(listenerStart t recvPool sendPool maxSessionCount).mem,
      fun _ => []⟩ (listenerStart (S := S) t recvPool sendPool maxSessionCount).mem t
      [.startAccept 0]
    exact hframes.trans (congrArg (Conf.mk (System.start recvPool sendPool)) hidle)
  rw [← hstart]
  apply h.simulation sessionsOf
  intro s a s' hr _ hnext
  exact sessionsOf_next hr hnext

/-- Also in a listening service each completion finds the session that posted the operation. -/
theorem listener_completions_find
    (h : listenerMachine.Reach ok (listenerStart t recvPool sendPool maxSessionCount) s) (x : S) :
    CompletionsFind x (sessionsOf s) :=
  completions_find (listener_refines h) x

end

end ServerCore.Network
