import ServerCore.Database.DBServiceInvariant
import ServerCore.Framework.Part
import ServerCore.Jobs.JobQueueInvariant

namespace ServerCore.App.GameDB

open Framework Database

/-- The database threads and the job queues. The objects `D` that requests point to have an `Owner`
and a `ResponseJob`, where `none` is null. `answered` is history: for each service the requests that
got to `ProcessDBWorking`, with the push that it made. -/
structure Memory (T Q J D : Type) where
  db : Database.Mem T D
  jobs : Jobs.Mem T Q J
  Owner : D → Option Q
  ResponseJob : D → Option J
  answered : ℕ → List (DBQueueData D × Option (Q × J))

inductive Frame (T Q J D : Type) where
  | db (f : Database.Frame T D)
  | job (f : Jobs.Frame T Q J)
  /-- Inside a handler: `GetSession()` and the statement are next. -/
  | handler (i : ℕ) (request : DBQueueData D)
  | processDBWorking (i : ℕ) (request : DBQueueData D)
  /-- `ResponseJob = nullptr` is next. -/
  | clear (data : D)
  deriving DecidableEq

inductive Choice (T Q J D : Type) where
  | go
  | db (c : Database.Choice T D)
  | job (c : Jobs.Choice T Q J)
  /-- Whether the statement of a handler throws. -/
  | throws (thrown : Bool)
  deriving DecidableEq

section Steps

variable {T Q J D : Type}

/-- `HandleData` for the next request of a batch. -/
def handleData : Database.Frame T D → List (Frame T Q J D)
  | .batch i _ (job :: _) => [.handler i job.2]
  | _ => []

/-- The part of a handler before `ProcessDBWorking`, which is the same in `OnSGDBServerStart` and in
`OnSGDBChatRequest`: what the statement throws is caught. -/
def onSGDB (s : Memory T Q J D) (i : ℕ) (request : DBQueueData D) :
    Option (Memory T Q J D × List (Frame T Q J D)) :=
  match s.db.balancer.GetDBService request.data.WorkID with
  | none => none
  | some k =>
      if 0 ≤ k ∧ k < (s.db.balancer.mServiceList.getD 0 : ℕ) then
        if (s.db.service k.toNat).mSession = none then some (s, [])
        else some (s, [.processDBWorking i request])
      else none

variable [DecidableEq D]

def processDBWorking (s : Memory T Q J D) (i : ℕ) (request : DBQueueData D) :
    Memory T Q J D × List (Frame T Q J D) :=
  match s.Owner request.data.content, s.ResponseJob request.data.content with
  | some owner, some job =>
      ({ s with answered :=
          Function.update s.answered i (s.answered i ++ [(request, some (owner, job))]) },
        [.job (.push owner job true), .clear request.data.content])
  | _, _ =>
      ({ s with
        Owner := Function.update s.Owner request.data.content none
        ResponseJob := Function.update s.ResponseJob request.data.content none
        answered := Function.update s.answered i (s.answered i ++ [(request, none)]) }, [])

variable [DecidableEq T] [DecidableEq Q]

/-- The pushes of `DBLoadBalancer`. -/
def pushes : Database.Choice T D → Bool
  | .callBalance .. | .callBalanceData .. => true
  | _ => false

/-- One step of a thread. The body of a job may also push a request. -/
def step (worker : ℕ → T) (s : Memory T Q J D) (t : T) :
    Frame T Q J D → Choice T Q J D → Option (Memory T Q J D × List (Frame T Q J D))
  | .db f, .db c => (Database.step s.db t f c).map fun r =>
      ({ s with db := r.1 }, handleData f ++ r.2.map .db)
  | .job f, .job c => (Jobs.step s.jobs t f c).map fun r => ({ s with jobs := r.1 }, r.2.map .job)
  | .job (.running q jobCount jobs), .db c =>
      if pushes c then
        (Database.enter worker s.db (fun _ => []) t c).map fun r =>
          ({ s with db := r.1 }, [.db r.2, .job (.running q jobCount jobs)])
      else none
  | .handler i request, .throws _ => onSGDB s i request
  | .processDBWorking i request, .go => some (processDBWorking s i request)
  | .clear data, .go =>
      some ({ s with ResponseJob := Function.update s.ResponseJob data none }, [])
  | _, _ => none

/-- A thread that does nothing else pushes a request, is one that `Launch` starts, or calls into the
job queues. -/
def enter (worker : ℕ → T) (s : Memory T Q J D) (frames : T → List (Frame T Q J D)) (t : T) :
    Choice T Q J D → Option (Memory T Q J D × Frame T Q J D)
  | .db (.callExecute _) | .db (.callPush ..) => none
  | .db c =>
      if (frames t).isEmpty then
        (Database.enter worker s.db (fun _ => []) t c).map fun r => ({ s with db := r.1 }, .db r.2)
      else none
  | .job c =>
      if (frames t).isEmpty then
        (Jobs.enter s.jobs (fun _ => []) t c).map fun r => ({ s with jobs := r.1 }, .job r.2)
      else none
  | _ => none

def env (s : Memory T Q J D) : Choice T Q J D → Option (Memory T Q J D)
  | .db c => (Database.env s.db c).map fun r => { s with db := r }
  | .job c => (Jobs.env s.jobs c).map fun r => { s with jobs := r }
  | _ => none

/-- Any number of threads that push requests and jobs, and for every service one thread that
handles its requests. -/
def machine (worker : ℕ → T) :
    Machine T (Memory T Q J D) (Frame T Q J D) (Choice T Q J D) := ⟨enter worker, step worker, env⟩

abbrev GameConf (T Q J D : Type) : Type := Conf T (Memory T Q J D) (Frame T Q J D)

/-- After an `Init` of `DBLoadBalancer`, with the data objects as they are pushed. -/
def start (connect : ℕ → Bool) (connectionString : String) (serviceCount : Int)
    (owner : D → Option Q) (responseJob : D → Option J) : GameConf T Q J D :=
  ⟨⟨(Database.start connect connectionString serviceCount).mem, .init, owner, responseJob,
    fun _ => []⟩, fun _ => []⟩

end Steps

section Spec

variable {T Q J D : Type} [DecidableEq T] [DecidableEq Q] [DecidableEq D]

/-- All that one step of a thread can do. -/
inductive GameStep (s : Memory T Q J D) (t : T) :
    Frame T Q J D → Memory T Q J D → List (Frame T Q J D) → Prop where
  | db (f c db new) : Database.step s.db t f c = some (db, new) →
      GameStep s t (.db f) { s with db := db } (handleData f ++ new.map .db)
  | job (f c jobs new) : Jobs.step s.jobs t f c = some (jobs, new) →
      GameStep s t (.job f) { s with jobs := jobs } (new.map .job)
  | call (q jobCount jobs c f) : f.pushing →
      (∀ worker frames, frames t = [] → Database.enter worker s.db frames t c = some (s.db, f)) →
      GameStep s t (.job (.running q jobCount jobs)) s [.db f, .job (.running q jobCount jobs)]
  | noSession (i request k) : s.db.balancer.GetDBService request.data.WorkID = some k → 0 ≤ k →
      k < (s.db.balancer.mServiceList.getD 0 : ℕ) → (s.db.service k.toNat).mSession = none →
      GameStep s t (.handler i request) s []
  | handled (i request) : GameStep s t (.handler i request) s [.processDBWorking i request]
  | respond (i request owner job) : s.Owner request.data.content = some owner →
      s.ResponseJob request.data.content = some job → GameStep s t (.processDBWorking i request)
        { s with answered :=
            Function.update s.answered i (s.answered i ++ [(request, some (owner, job))]) }
        [.job (.push owner job true), .clear request.data.content]
  | noResponse (i request) :
      s.Owner request.data.content = none ∨ s.ResponseJob request.data.content = none →
      GameStep s t (.processDBWorking i request)
        { s with
          Owner := Function.update s.Owner request.data.content none
          ResponseJob := Function.update s.ResponseJob request.data.content none
          answered := Function.update s.answered i (s.answered i ++ [(request, none)]) } []
  | clear (data) : GameStep s t (.clear data)
      { s with ResponseJob := Function.update s.ResponseJob data none } []

variable {worker : ℕ → T} {s s' : Memory T Q J D} {t : T} {f : Frame T Q J D} {c : Choice T Q J D}
  {new : List (Frame T Q J D)}

omit [DecidableEq D] in
/-- A push from within a job is one from an idle thread. -/
theorem pushes_spec {c : Database.Choice T D} {db db' : Database.Mem T D} {f : Database.Frame T D}
    (hc : pushes c = true) (h : Database.enter worker db (fun _ => []) t c = some (db', f)) :
    db' = db ∧ f.pushing ∧
      ∀ worker frames, frames t = [] → Database.enter worker db frames t c = some (db, f) := by
  cases c with
  | callBalance workId protocolId data handler =>
    obtain ⟨rfl, rfl⟩ := Prod.mk.inj (Option.some.inj h)
    refine ⟨rfl, trivial, ?_⟩
    intro worker frames hidle
    simp [Database.enter, hidle]
  | callBalanceData data handler =>
    obtain ⟨rfl, rfl⟩ := Prod.mk.inj (Option.some.inj h)
    refine ⟨rfl, trivial, ?_⟩
    intro worker frames hidle
    simp [Database.enter, hidle]
  | _ => exact absurd hc Bool.false_ne_true

theorem onSGDB_spec {i : ℕ} {request : DBQueueData D} (h : onSGDB s i request = some (s', new)) :
    GameStep s t (.handler i request) s' new := by
  unfold onSGDB at h
  split at h
  · exact absurd h.symm (Option.some_ne_none _)
  · next k hk =>
    split at h
    · next hrange =>
      split at h
      · next hnull =>
        obtain ⟨rfl, rfl⟩ := Prod.mk.inj (Option.some.inj h)
        exact .noSession i request k hk hrange.1 hrange.2 hnull
      · obtain ⟨rfl, rfl⟩ := Prod.mk.inj (Option.some.inj h)
        exact .handled i request
    · exact absurd h.symm (Option.some_ne_none _)

theorem processDBWorking_spec {i : ℕ} {request : DBQueueData D}
    (h : processDBWorking s i request = (s', new)) :
    GameStep s t (.processDBWorking i request) s' new := by
  unfold processDBWorking at h
  split at h
  · next owner job howner hjob =>
    obtain ⟨rfl, rfl⟩ := Prod.mk.inj h
    exact .respond i request owner job howner hjob
  · next hnone =>
    obtain ⟨rfl, rfl⟩ := Prod.mk.inj h
    apply GameStep.noResponse i request
    cases howner : s.Owner request.data.content with
    | none => exact .inl rfl
    | some owner =>
      cases hjob : s.ResponseJob request.data.content with
      | none => exact .inr rfl
      | some job => exact absurd hjob (hnone owner job howner)

theorem step_spec (h : step worker s t f c = some (s', new)) : GameStep s t f s' new := by
  cases f with
  | db f =>
    cases c with
    | db c =>
      obtain ⟨⟨db, new'⟩, hstep, hr⟩ := Option.map_eq_some_iff.mp h
      obtain ⟨rfl, rfl⟩ := Prod.mk.inj hr
      exact .db f c db new' hstep
    | _ => exact absurd h.symm (Option.some_ne_none _)
  | job f =>
    cases c with
    | job c =>
      obtain ⟨⟨jobs, new'⟩, hstep, hr⟩ := Option.map_eq_some_iff.mp h
      obtain ⟨rfl, rfl⟩ := Prod.mk.inj hr
      exact .job f c jobs new' hstep
    | db c =>
      cases f with
      | running q jobCount jobs =>
        simp only [step] at h
        split at h
        · next hc =>
          obtain ⟨⟨db, f'⟩, henter, hr⟩ := Option.map_eq_some_iff.mp h
          obtain ⟨rfl, rfl⟩ := Prod.mk.inj hr
          obtain ⟨rfl, hpushing, hall⟩ := pushes_spec hc henter
          exact .call q jobCount jobs c f' hpushing hall
        · exact absurd h.symm (Option.some_ne_none _)
      | _ => exact absurd h.symm (Option.some_ne_none _)
    | _ => cases f <;> exact absurd h.symm (Option.some_ne_none _)
  | handler i request =>
    cases c with
    | throws thrown => exact onSGDB_spec h
    | _ => exact absurd h.symm (Option.some_ne_none _)
  | processDBWorking i request =>
    cases c with
    | go => exact processDBWorking_spec (Option.some.inj h)
    | _ => exact absurd h.symm (Option.some_ne_none _)
  | clear data =>
    cases c with
    | go =>
      obtain ⟨rfl, rfl⟩ := Prod.mk.inj (Option.some.inj h)
      exact .clear data
    | _ => exact absurd h.symm (Option.some_ne_none _)

omit [DecidableEq Q] [DecidableEq D] in
/-- All that a call from outside can be. -/
theorem enter_spec {frames : T → List (Frame T Q J D)}
    (h : enter worker s frames t c = some (s', f)) : frames t = [] ∧ s' = s ∧
      ((∃ c' f', c = .db c' ∧ f = .db f' ∧
        (f'.pushing ∨ ∃ i, f' = .launch i ∧ (i : Int) < s.db.balancer.mServiceCount) ∧
        ∀ frames, frames t = [] → Database.enter worker s.db frames t c' = some (s.db, f')) ∨
      ∃ c' f', c = .job c' ∧ f = .job f' ∧
        ∀ frames, frames t = [] → Jobs.enter s.jobs frames t c' = some (s.jobs, f')) := by
  cases c with
  | db c =>
    have hidle : frames t = [] := by
      by_contra hbusy
      have hempty : (frames t).isEmpty = false := List.isEmpty_eq_false_iff.mpr hbusy
      cases c <;> simp [enter, hempty] at h
    refine ⟨hidle, ?_⟩
    cases c with
    | callBalance workId protocolId data handler =>
      simp only [enter, hidle, List.isEmpty_nil, if_true] at h
      obtain ⟨rfl, rfl⟩ := Prod.mk.inj (Option.some.inj h)
      refine ⟨rfl, .inl ⟨_, _, rfl, rfl, .inl trivial, ?_⟩⟩
      intro frames hframes
      simp [Database.enter, hframes]
    | callBalanceData data handler =>
      simp only [enter, hidle, List.isEmpty_nil, if_true] at h
      obtain ⟨rfl, rfl⟩ := Prod.mk.inj (Option.some.inj h)
      refine ⟨rfl, .inl ⟨_, _, rfl, rfl, .inl trivial, ?_⟩⟩
      intro frames hframes
      simp [Database.enter, hframes]
    | callLaunch i =>
      simp only [enter, hidle, List.isEmpty_nil, if_true] at h
      obtain ⟨⟨db, f'⟩, henter, hr⟩ := Option.map_eq_some_iff.mp h
      simp only [Database.enter, List.isEmpty_nil, true_and] at henter
      split at henter
      · next hlaunch =>
        obtain ⟨rfl, rfl⟩ := Prod.mk.inj (Option.some.inj henter)
        obtain ⟨rfl, rfl⟩ := Prod.mk.inj hr
        refine ⟨rfl, .inl ⟨_, _, rfl, rfl, .inr ⟨i, rfl, hlaunch.2⟩, ?_⟩⟩
        intro frames hframes
        simp [Database.enter, hframes, hlaunch]
      · exact absurd henter.symm (Option.some_ne_none _)
    | _ => simp [enter, Database.enter] at h
  | job c =>
    simp only [enter] at h
    split at h
    · next hidle =>
      refine ⟨List.isEmpty_iff.mp hidle, ?_⟩
      obtain ⟨⟨jobs, f'⟩, henter, hr⟩ := Option.map_eq_some_iff.mp h
      obtain ⟨rfl, rfl⟩ := Prod.mk.inj hr
      obtain ⟨_, rfl, _⟩ := Jobs.enter_spec henter
      refine ⟨rfl, .inr ⟨c, f', rfl, rfl, ?_⟩⟩
      intro frames hframes
      cases c with
      | callPush q job pushOnly =>
        obtain ⟨_, rfl⟩ := Prod.mk.inj (Option.some.inj henter)
        simp [Jobs.enter, hframes]
      | callGlobalJobs =>
        obtain ⟨_, rfl⟩ := Prod.mk.inj (Option.some.inj henter)
        simp [Jobs.enter, hframes]
      | _ => exact absurd henter.symm (Option.some_ne_none _)
    · exact absurd h.symm (Option.some_ne_none _)
  | _ => exact absurd h.symm (Option.some_ne_none _)

end Spec

end ServerCore.App.GameDB
