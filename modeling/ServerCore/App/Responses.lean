import ServerCore.App.GameDBHandler

namespace ServerCore.App.GameDB

open Framework ConcurrentQueue Database

variable {T Q J D : Type}

namespace Frame

def toDB : Frame T Q J D → Option (Database.Frame T D)
  | .db f => some f
  | _ => none

def toJob : Frame T Q J D → Option (Jobs.Frame T Q J)
  | .job f => some f
  | _ => none

/-- The request whose handler has not got to the end of `ProcessDBWorking`. -/
def answering (i : ℕ) : Frame T Q J D → List (DBQueueData D)
  | .handler i' request | .processDBWorking i' request => if i' = i then [request] else []
  | _ => []

/-- The job of a `Push` that has not counted it. -/
def uncounted [DecidableEq Q] (q : Q) : Frame T Q J D → List J
  | .job (.push q' j _) => if q' = q then [j] else []
  | _ => []

end Frame

/-- Positions inside a `Push` with `pushOnly`. -/
def Handing : Jobs.Frame T Q J → Prop
  | .push _ _ pushOnly | .enqueue _ _ pushOnly _ | .decide _ pushOnly _ => pushOnly = true
  | .handOver _ => True
  | _ => False

/-- What is above `Execute` while a handler runs. -/
inductive Above (i : ℕ) : List (Frame T Q J D) → Prop where
  | handler (request) : Above i [.handler i request]
  | processDBWorking (request) : Above i [.processDBWorking i request]
  | push (f data) : Handing f → Above i [.job f, .clear data]
  | clear (data) : Above i [.clear data]

/-- The services that a stack works for are those that `Launch` started. -/
def Within (n : ℕ) (ds : List (Database.Frame T D)) : Prop :=
  ∀ f ∈ ds, ∀ i, f.executing i ∨ f.looping i → i < n

/-- The stack of thread `t`. Only the thread of a service runs handlers, and it runs no job. -/
inductive Shape (worker : ℕ → T) (n : ℕ) (t : T) : List (Frame T Q J D) → Prop where
  | db (ds : List (Database.Frame T D)) : Within n ds → Shape worker n t (ds.map .db)
  | job (ds : List (Database.Frame T D)) (js : List (Jobs.Frame T Q J)) :
      (∀ i, i < n → worker i ≠ t) → (ds = [] ∨ ∃ f, ds = [f] ∧ f.pushing) →
      Shape worker n t (ds.map .db ++ js.map .job)
  | handling (fs i jobCount jobs ds) : Above i fs → worker i = t → i < n → 0 < jobCount →
      Within n ds → Shape worker n t (fs ++ (.handling i jobCount jobs :: ds).map .db)

def contents (requests : List (DBQueueData D)) : List D := requests.map fun r => r.data.content

/-- An object occurs more than once. -/
def Repeated [DecidableEq D] (d : D) (requests : ℕ → List (DBQueueData D)) : Prop :=
  (∃ i j, i ≠ j ∧ d ∈ contents (requests i) ∧ d ∈ contents (requests j)) ∨
    ∃ i, 2 ≤ (contents (requests i)).count d

/-- The push that is to answer a request. -/
def answer (owner : D → Option Q) (responseJob : D → Option J) (request : DBQueueData D) :
    Option (Q × J) :=
  (owner request.data.content).bind fun q =>
    (responseJob request.data.content).map fun job => (q, job)

/-- The job of a push to `q`. -/
def toQueue [DecidableEq Q] (q : Q) (push : Option (Q × J)) : Option J :=
  push.bind fun p => if p.1 = q then some p.2 else none

/-- The jobs that are to answer requests from `q`. -/
def answers [DecidableEq Q] (owner : D → Option Q) (responseJob : D → Option J) (q : Q)
    (requests : List (DBQueueData D)) : List J :=
  requests.filterMap fun r => toQueue q (answer owner responseJob r)

theorem contents_subperm {xs ys : List (DBQueueData D)} (h : xs.Subperm ys) :
    (contents xs).Subperm (contents ys) := by
  obtain ⟨l, hperm, hsublist⟩ := h
  exact ⟨contents l, hperm.map _, hsublist.map _⟩

theorem Repeated.mono [DecidableEq D] {d : D} {A B : ℕ → List (DBQueueData D)}
    (h : Repeated d A) (hle : ∀ i, (A i).Subperm (B i)) : Repeated d B := by
  have hcontents (i : ℕ) := contents_subperm (hle i)
  rcases h with ⟨i, j, hij, hi, hj⟩ | ⟨i, htwo⟩
  · exact .inl ⟨i, j, hij, (hcontents i).subset hi, (hcontents j).subset hj⟩
  · exact .inr ⟨i, htwo.trans ((hcontents i).count_le d)⟩

section Parts

@[simp] theorem toDB_map_db (ds : List (Database.Frame T D)) :
    (ds.map Frame.db : List (Frame T Q J D)).filterMap Frame.toDB = ds := by
  induction ds with
  | nil => rfl
  | cons f ds ih => exact congrArg (f :: ·) ih

@[simp] theorem toDB_map_job (js : List (Jobs.Frame T Q J)) :
    (js.map Frame.job : List (Frame T Q J D)).filterMap Frame.toDB = [] := by
  induction js with
  | nil => rfl
  | cons f js ih => exact ih

@[simp] theorem toJob_map_db (ds : List (Database.Frame T D)) :
    (ds.map Frame.db : List (Frame T Q J D)).filterMap Frame.toJob = [] := by
  induction ds with
  | nil => rfl
  | cons f ds ih => exact ih

@[simp] theorem toJob_map_job (js : List (Jobs.Frame T Q J)) :
    (js.map Frame.job : List (Frame T Q J D)).filterMap Frame.toJob = js := by
  induction js with
  | nil => rfl
  | cons f js ih => exact congrArg (f :: ·) ih

@[simp] theorem answering_map_db (i : ℕ) (ds : List (Database.Frame T D)) :
    (ds.map Frame.db : List (Frame T Q J D)).flatMap (Frame.answering i) = [] := by
  simp [List.flatMap_eq_nil_iff, Frame.answering]

@[simp] theorem answering_map_job (i : ℕ) (js : List (Jobs.Frame T Q J)) :
    (js.map Frame.job : List (Frame T Q J D)).flatMap (Frame.answering i) = [] := by
  simp [List.flatMap_eq_nil_iff, Frame.answering]

@[simp] theorem uncounted_map_db [DecidableEq Q] (q : Q) (ds : List (Database.Frame T D)) :
    (ds.map Frame.db : List (Frame T Q J D)).flatMap (Frame.uncounted q) = [] := by
  simp [List.flatMap_eq_nil_iff, Frame.uncounted]

variable {worker : ℕ → T} {n : ℕ} {t : T} {fs : List (Frame T Q J D)}

theorem Shape.of_db {f : Database.Frame T D} (h : Shape worker n t (.db f :: fs)) :
    (∃ ds, fs = ds.map .db ∧ Within n (f :: ds)) ∨
      ∃ js : List (Jobs.Frame T Q J), fs = js.map .job ∧ f.pushing ∧ ∀ i, i < n → worker i ≠ t := by
  generalize hl : Frame.db f :: fs = l at h
  cases h with
  | db ds hwithin =>
    cases ds with
    | nil => exact absurd hl (by simp)
    | cons d ds =>
      obtain ⟨hd, rfl⟩ := List.cons.inj hl
      obtain rfl := Frame.db.inj hd
      exact .inl ⟨ds, rfl, hwithin⟩
  | job ds js hother hds =>
    rcases hds with rfl | ⟨d, rfl, hpushing⟩
    · cases js with
      | nil => exact absurd hl (by simp)
      | cons j js => exact nomatch (List.cons.inj hl).1
    · obtain ⟨hd, rfl⟩ := List.cons.inj hl
      obtain rfl := Frame.db.inj hd
      exact .inr ⟨js, rfl, hpushing, hother⟩
  | handling fs i jobCount jobs ds habove =>
    cases habove <;> exact nomatch (List.cons.inj hl).1

theorem Shape.of_job {f : Jobs.Frame T Q J} (h : Shape worker n t (.job f :: fs)) :
    (∃ js : List (Jobs.Frame T Q J), fs = js.map .job ∧ ∀ i, i < n → worker i ≠ t) ∨
      ∃ data i jobCount jobs ds, fs = .clear data :: (.handling i jobCount jobs :: ds).map .db ∧
        Handing f ∧ worker i = t ∧ i < n ∧ 0 < jobCount ∧ Within n ds := by
  generalize hl : Frame.job f :: fs = l at h
  cases h with
  | db ds hwithin =>
    cases ds with
    | nil => exact absurd hl (by simp)
    | cons d ds => exact nomatch (List.cons.inj hl).1
  | job ds js hother hds =>
    rcases hds with rfl | ⟨d, rfl, hpushing⟩
    · cases js with
      | nil => exact absurd hl (by simp)
      | cons j js => exact .inl ⟨js, (List.cons.inj hl).2, hother⟩
    · exact nomatch (List.cons.inj hl).1
  | handling fs i jobCount jobs ds habove hw hi hpos hwithin =>
    cases habove with
    | push g data hhanding =>
      obtain ⟨hg, rfl⟩ := List.cons.inj hl
      obtain rfl := Frame.job.inj hg
      exact .inr ⟨data, i, jobCount, jobs, ds, rfl, hhanding, hw, hi, hpos, hwithin⟩
    | _ => exact nomatch (List.cons.inj hl).1

/-- Above `Execute` a handler stands on its own. -/
theorem Shape.of_handler {f : Frame T Q J D} (h : Shape worker n t (f :: fs)) (hdb : f.toDB = none)
    (hjob : f.toJob = none) : ∃ i jobCount jobs ds, fs = (.handling i jobCount jobs :: ds).map .db ∧
      Above i [f] ∧ worker i = t ∧ i < n ∧ 0 < jobCount ∧ Within n ds := by
  generalize hl : f :: fs = l at h
  cases h with
  | db ds hwithin =>
    cases ds with
    | nil => exact absurd hl (by simp)
    | cons d ds =>
      rw [(List.cons.inj hl).1] at hdb
      exact nomatch hdb
  | job ds js hother hds =>
    rcases hds with rfl | ⟨d, rfl, hpushing⟩
    · cases js with
      | nil => exact absurd hl (by simp)
      | cons j js =>
        rw [(List.cons.inj hl).1] at hjob
        exact nomatch hjob
    · rw [(List.cons.inj hl).1] at hdb
      exact nomatch hdb
  | handling fs i jobCount jobs ds habove hw hi hpos hwithin =>
    cases habove with
    | push g data hhanding =>
      rw [(List.cons.inj hl).1] at hjob
      exact nomatch hjob
    | handler request =>
      obtain ⟨rfl, rfl⟩ := List.cons.inj hl
      exact ⟨i, jobCount, jobs, ds, rfl, .handler request, hw, hi, hpos, hwithin⟩
    | processDBWorking request =>
      obtain ⟨rfl, rfl⟩ := List.cons.inj hl
      exact ⟨i, jobCount, jobs, ds, rfl, .processDBWorking request, hw, hi, hpos, hwithin⟩
    | clear data =>
      obtain ⟨rfl, rfl⟩ := List.cons.inj hl
      exact ⟨i, jobCount, jobs, ds, rfl, .clear data, hw, hi, hpos, hwithin⟩

end Parts

section Callee

variable [DecidableEq T] {t : T}

/-- A `Push` with `pushOnly` hands its queue over at most. -/
theorem handing_step [DecidableEq Q] {s s' : Jobs.Mem T Q J} {f : Jobs.Frame T Q J}
    {c : Jobs.Choice T Q J} {new : List (Jobs.Frame T Q J)} (hf : Handing f)
    (h : Jobs.step s t f c = some (s', new)) :
    (∃ q job, f = .push q job true ∧ s' = s.fetchAdd t q job ∧
      new = [.enqueue q job true (s.mJobCount q)]) ∨
    (∀ q job pushOnly, f ≠ .push q job pushOnly) ∧ s'.pushed = s.pushed ∧
      (new = [] ∨ ∃ g, new = [g] ∧ Handing g ∧ ∀ q job pushOnly, g ≠ .push q job pushOnly) := by
  cases f with
  | push q job pushOnly =>
    obtain rfl : pushOnly = true := hf
    cases c <;> simp [Jobs.step, Jobs.pushStep] at h
    obtain ⟨rfl, rfl⟩ := h
    exact .inl ⟨q, job, rfl, rfl, rfl⟩
  | enqueue q job pushOnly prevCount =>
    obtain rfl : pushOnly = true := hf
    cases c <;> simp [Jobs.step, Jobs.pushStep] at h
    obtain ⟨rfl, rfl⟩ := h
    exact .inr ⟨by simp, rfl, .inr ⟨_, rfl, rfl, by simp⟩⟩
  | decide q pushOnly prevCount =>
    obtain rfl : pushOnly = true := hf
    cases c <;> simp [Jobs.step, Jobs.pushStep] at h
    split at h
    · obtain ⟨rfl, rfl⟩ := Prod.mk.inj (Option.some.inj h)
      exact .inr ⟨by simp, rfl, .inr ⟨_, rfl, trivial, by simp⟩⟩
    · obtain ⟨rfl, rfl⟩ := Prod.mk.inj (Option.some.inj h)
      exact .inr ⟨by simp, rfl, .inl rfl⟩
  | handOver q =>
    cases c <;> simp [Jobs.step, Jobs.pushStep] at h
    obtain ⟨rfl, rfl⟩ := h
    exact .inr ⟨by simp, rfl, .inl rfl⟩
  | _ => exact hf.elim

/-- Only `Push` counts a job, and for its own thread. -/
theorem pushed_other [DecidableEq Q] {s s' : Jobs.Mem T Q J} {f : Jobs.Frame T Q J}
    {c : Jobs.Choice T Q J} {new : List (Jobs.Frame T Q J)}
    (h : Jobs.step s t f c = some (s', new)) {u : T} (hu : u ≠ t) (q : Q) :
    ofProducer u (s'.pushed q) = ofProducer u (s.pushed q) := by
  cases Jobs.step_spec h with
  | push q' job pushOnly =>
    by_cases hq : q' = q
    · subst hq
      simp [Jobs.Mem.fetchAdd, ConcurrentQueue.enqueue, ofProducer_cons, Ne.symm hu]
    · simp [Jobs.Mem.fetchAdd, Ne.symm hq]
  | _ => rfl

variable {s s' : Database.Mem T D} {f : Database.Frame T D} {new ds : List (Database.Frame T D)}
  {n : ℕ}

theorem within_step (h : Database.Step s t f s' new) (hwithin : Within n (f :: ds)) :
    Within n (new ++ ds) := by
  intro g hg i hgi
  rcases List.mem_append.mp hg with hg | hg
  · refine hwithin f List.mem_cons_self i ?_
    cases h with
    | call i' jobCount jobs f' hpushing _ =>
      rcases List.mem_cons.mp hg with rfl | hg
      · rcases hgi with hgi | hgi
        · exact absurd hgi (hpushing.not_executing i)
        · exact absurd hgi (hpushing.not_looping i)
      · rw [List.mem_singleton.mp hg] at hgi
        exact hgi
    | loop f s' new hloop =>
      cases hloop with
      | work i' c =>
        rcases List.mem_cons.mp hg with rfl | hg
        · exact hgi.elim .inr nofun
        · rw [List.mem_singleton.mp hg] at hgi
          exact hgi
      | _ =>
        rw [List.mem_singleton.mp hg] at hgi
        exact hgi
    | refuse | enqueue | empty | subLast => exact absurd hg List.not_mem_nil
    | balance f i' protocolId data handler _ _ =>
      rw [List.mem_singleton.mp hg] at hgi
      exact hgi.elim nofun nofun
    | push i' protocolId data handler =>
      rw [List.mem_singleton.mp hg] at hgi
      exact hgi.elim nofun nofun
    | _ =>
      rw [List.mem_singleton.mp hg] at hgi
      exact hgi
  · exact hwithin g (List.mem_cons_of_mem f hg) i hgi

/-- A `Push` of the balancer goes on as one. -/
theorem pushing_step (h : Database.Step s t f s' new) (hf : f.pushing) :
    new = [] ∨ ∃ g, new = [g] ∧ g.pushing := by
  cases h with
  | refuse | enqueue => exact .inl rfl
  | balance f i protocolId data handler _ _ => exact .inr ⟨_, rfl, trivial⟩
  | push i protocolId data handler => exact .inr ⟨_, rfl, trivial⟩
  | loop f s' new hloop => cases hloop <;> exact hf.elim
  | _ => exact hf.elim

/-- Only the next request of a batch is handed to a handler. -/
theorem handle_step (h : Database.Step s t f s' new) :
    (∃ i jobCount job jobs, f = .batch i jobCount (job :: jobs) ∧ s' = s.handle i job ∧
      new = [.handling i jobCount jobs]) ∨
    (handleData f : List (Frame T Q J D)) = [] ∧ s'.handled = s.handled := by
  cases h with
  | handle i jobCount job jobs => exact .inl ⟨i, jobCount, job, jobs, rfl, rfl, rfl⟩
  | refuse f hf _ | balance f _ _ _ _ hf _ =>
    refine .inr ⟨?_, rfl⟩
    cases f <;> first | rfl | exact hf.elim
  | loop f s' new hloop => cases hloop <;> exact .inr ⟨rfl, rfl⟩
  | _ => exact .inr ⟨rfl, rfl⟩

/-- The list of services stays as `Init` left it, and so do connections to them. -/
theorem balancer_step (h : Database.Step s t f s' new) :
    s'.balancer.mServiceList = s.balancer.mServiceList ∧
      s'.balancer.mServiceCount = s.balancer.mServiceCount ∧
      ∀ i, (s.service i).mSession ≠ none → (s'.service i).mSession ≠ none := by
  have hset (i : ℕ) (d : DBService T D) (hd : (s.service i).mSession ≠ none → d.mSession ≠ none)
      (j : ℕ) (hj : (s.service j).mSession ≠ none) : ((s.set i d).service j).mSession ≠ none := by
    rw [Mem.set_service]
    by_cases hji : j = i
    · subst hji
      simpa using hd hj
    · simpa [hji] using hj
  cases h with
  | push i protocolId data handler => exact ⟨rfl, rfl, hset i _ id⟩
  | enqueue i job => exact ⟨rfl, rfl, hset i _ id⟩
  | dequeue i jobs rest _ _ => exact ⟨rfl, rfl, hset i _ id⟩
  | subLast i jobCount _ => exact ⟨rfl, rfl, hset i _ id⟩
  | subMore i jobCount => exact ⟨rfl, rfl, hset i _ id⟩
  | loop f s' new hloop =>
    cases hloop with
    | reconnect i ok =>
      refine ⟨rfl, rfl, hset i _ ?_⟩
      intro hsome
      rw [DBService.Connect]
      split
      · exact Option.some_ne_none _
      · exact hsome
    | _ => exact ⟨rfl, rfl, fun _ => id⟩
  | _ => exact ⟨rfl, rfl, fun _ => id⟩

end Callee

section Answered

variable [DecidableEq T] [DecidableEq Q] [DecidableEq D]

def dbPart (s : GameConf T Q J D) : Conf T (Database.Mem T D) (Database.Frame T D) :=
  s.part Memory.db Frame.toDB

def jobPart (s : GameConf T Q J D) : Conf T (Jobs.Mem T Q J) (Jobs.Frame T Q J) :=
  s.part Memory.jobs Frame.toJob

/-- The requests of service `i` that got to `ProcessDBWorking`. -/
def requests (answered : ℕ → List (DBQueueData D × Option (Q × J))) (i : ℕ) :
    List (DBQueueData D) := (answered i).map Prod.fst

variable [Fintype T]

/-- What holds between any two atomic steps. -/
structure Answered (worker : ℕ → T) (n : ℕ) (owner : D → Option Q) (responseJob : D → Option J)
    (s : GameConf T Q J D) : Prop where
  db : Database.Inv worker (dbPart s)
  jobs : Jobs.Inv (jobPart s)
  shape : ∀ t, Shape worker n t (s.frames t)
  ready : s.mem.db.balancer.Ready n
  sessions : ∀ i, i < n → (s.mem.db.service i).mSession ≠ none
  handled : ∀ i, (s.mem.db.handled i).map Prod.snd =
    requests s.mem.answered i ++ (s.frames (worker i)).flatMap (Frame.answering i)
  pushed : ∀ i, i < n → ∀ q, (s.mem.answered i).filterMap (fun e => toQueue q e.2) =
    ofProducer (worker i) (s.mem.jobs.pushed q) ++
      (s.frames (worker i)).flatMap (Frame.uncounted q)
  cleared : ∀ t data, .clear data ∈ s.frames t → ∃ i, data ∈ contents (requests s.mem.answered i)
  tables : ∀ d, s.mem.Owner d = owner d ∧ s.mem.ResponseJob d = responseJob d ∨
    ∃ i, d ∈ contents (requests s.mem.answered i)
  recorded : ∀ i, ∀ e ∈ s.mem.answered i, e.2 = answer owner responseJob e.1 ∨
    Repeated e.1.data.content (requests s.mem.answered)

variable {worker : ℕ → T} {n : ℕ} {owner : D → Option Q} {responseJob : D → Option J}
  {s : GameConf T Q J D} {t : T} {fs gs : List (Frame T Q J D)}

omit [DecidableEq Q] [DecidableEq D] [Fintype T] in
theorem shape_update (h : ∀ u, Shape worker n u (s.frames u)) (ht : Shape worker n t gs) (u : T) :
    Shape worker n u (Function.update s.frames t gs u) := by
  by_cases hu : u = t
  · subst hu
    rwa [Function.update_self]
  · rw [Function.update_of_ne hu]
    exact h u

omit [DecidableEq Q] [DecidableEq D] [Fintype T] in
/-- Stacks that hold the same may take each other's place. -/
theorem flatMap_update {α : Type} (g : Frame T Q J D → List α)
    (hg : gs.flatMap g = (s.frames t).flatMap g) (u : T) :
    (Function.update s.frames t gs u).flatMap g = (s.frames u).flatMap g := by
  by_cases hu : u = t
  · subst hu
    rwa [Function.update_self]
  · rw [Function.update_of_ne hu]

omit [DecidableEq Q] [DecidableEq D] in
theorem db_quiet {m : Memory T Q J D} (h : Database.Inv worker (dbPart s)) (hmem : m.db = s.mem.db)
    (hgs : gs.filterMap Frame.toDB = (s.frames t).filterMap Frame.toDB) :
    Database.Inv worker (dbPart ⟨m, Function.update s.frames t gs⟩) := by
  rw [dbPart, Conf.part_quiet hmem hgs]
  exact h

omit [DecidableEq D] in
theorem jobs_quiet {m : Memory T Q J D} (h : Jobs.Inv (jobPart s)) (hmem : m.jobs = s.mem.jobs)
    (hgs : gs.filterMap Frame.toJob = (s.frames t).filterMap Frame.toJob) :
    Jobs.Inv (jobPart ⟨m, Function.update s.frames t gs⟩) := by
  rw [jobPart, Conf.part_quiet hmem hgs]
  exact h

omit [DecidableEq T] [DecidableEq D] [Fintype T] in
theorem handleData_parts (f : Database.Frame T D) :
    (handleData f : List (Frame T Q J D)).filterMap Frame.toDB = [] ∧
      (handleData f : List (Frame T Q J D)).filterMap Frame.toJob = [] ∧
      ∀ q, (handleData f : List (Frame T Q J D)).flatMap (Frame.uncounted q) = [] := by
  cases f with
  | batch i jobCount jobs => cases jobs <;> exact ⟨rfl, rfl, fun _ => rfl⟩
  | _ => exact ⟨rfl, rfl, fun _ => rfl⟩

omit [DecidableEq T] [DecidableEq D] [DecidableEq Q] [Fintype T] in
theorem mem_handleData {f : Database.Frame T D} {g : Frame T Q J D} (hg : g ∈ handleData f) :
    ∃ i request, g = .handler i request := by
  cases f with
  | batch i jobCount jobs =>
    cases jobs with
    | nil => exact absurd hg List.not_mem_nil
    | cons job jobs => exact ⟨i, job.2, List.mem_singleton.mp hg⟩
  | _ => exact absurd hg List.not_mem_nil

omit [Fintype T] [DecidableEq Q] [DecidableEq D] in
theorem shape_dbStep {db db' : Database.Mem T D} {f : Database.Frame T D}
    {new : List (Database.Frame T D)} (h : Shape worker n t (.db f :: fs))
    (hstack : Stack worker t (f :: fs.filterMap Frame.toDB))
    (hspec : Database.Step db t f db' new) :
    Shape worker n t ((handleData f ++ new.map .db : List (Frame T Q J D)) ++ fs) := by
  rcases h.of_db with ⟨ds, rfl, hwithin⟩ | ⟨js, rfl, hpushing, hother⟩
  · have hnew := within_step hspec hwithin
    rcases handle_step (Q := Q) (J := J) hspec with
      ⟨i, jobCount, job, jobs, rfl, _, rfl⟩ | ⟨hnone, _⟩
    · obtain ⟨hworker, hle, _⟩ := hstack.of_executing (i := i) rfl
      have hpos : 0 < jobCount := by
        simp only [Database.Frame.left, Database.Frame.load, if_true, List.length_cons] at hle
        omega
      have hi : i < n := hwithin _ List.mem_cons_self i (.inl rfl)
      refine .handling [.handler i job.2] i jobCount jobs ds (.handler job.2) hworker hi hpos ?_
      exact fun g hg => hwithin g (List.mem_cons_of_mem _ hg)
    · rw [hnone, List.nil_append, ← List.map_append]
      exact .db (new ++ ds) hnew
  · have hnone : (handleData f : List (Frame T Q J D)) = [] := by
      cases f <;> first | rfl | exact hpushing.elim
    rw [hnone, List.nil_append]
    exact .job new js hother (pushing_step hspec hpushing)

theorem Answered.dbStep (h : Answered worker n owner responseJob s) {f : Database.Frame T D}
    {c : Database.Choice T D} {db : Database.Mem T D} {new : List (Database.Frame T D)}
    (hs : s.frames t = .db f :: fs) (hstep : Database.step s.mem.db t f c = some (db, new)) :
    Answered worker n owner responseJob ⟨{ s.mem with db := db },
      Function.update s.frames t (handleData f ++ new.map .db ++ fs)⟩ := by
  have hspec := Database.step_spec hstep
  have hshape : Shape worker n t (.db f :: fs) := hs ▸ h.shape t
  obtain ⟨hnoDB, hnoJob, hnone⟩ := handleData_parts (Q := Q) (J := J) f
  have hold : (s.frames t).filterMap Frame.toDB = f :: fs.filterMap Frame.toDB := by rw [hs]; rfl
  have hdb : (handleData f ++ new.map Frame.db ++ fs : List (Frame T Q J D)).filterMap Frame.toDB =
      new ++ fs.filterMap Frame.toDB := by
    rw [List.filterMap_append, List.filterMap_append, hnoDB, toDB_map_db, List.nil_append]
  have hjob : (handleData f ++ new.map Frame.db ++ fs : List (Frame T Q J D)).filterMap
      Frame.toJob = (s.frames t).filterMap Frame.toJob := by
    rw [List.filterMap_append, List.filterMap_append, hnoJob, toJob_map_db, hs]
    rfl
  have hstack : Stack worker t (f :: fs.filterMap Frame.toDB) := hold ▸ h.db.stack t
  obtain ⟨hlist, hcount, hsessions⟩ := balancer_step hspec
  refine { h with
    db := h.db.next (Conf.part_step (Database.machine worker) hold hstep hdb)
    jobs := jobs_quiet h.jobs rfl hjob
    shape := shape_update h.shape (shape_dbStep hshape hstack hspec)
    ready := ⟨h.ready.1, hlist.trans h.ready.2.1, hcount.trans h.ready.2.2⟩
    sessions := fun i hi => hsessions i (h.sessions i hi)
    handled := ?_, pushed := ?_, cleared := ?_ }
  · intro i
    dsimp only
    rcases handle_step (Q := Q) (J := J) hspec with
      ⟨i', jobCount, job, jobs, rfl, rfl, rfl⟩ | ⟨hnil, hhandled⟩
    · obtain ⟨hworker, _⟩ := hstack.of_executing (i := i') rfl
      have hbefore := h.handled i
      by_cases hi : i' = i
      · subst hi
        have hfs : fs.flatMap (Frame.answering i') = [] := by
          rcases hshape.of_db with ⟨ds, rfl, _⟩ | ⟨js, _, hpushing, _⟩
          · exact answering_map_db i' ds
          · exact hpushing.elim
        rw [hworker, hs, List.flatMap_cons, hfs] at hbefore
        simp only [Mem.handle, Function.update_self, List.map_append, hworker, hbefore]
        simp [handleData, Frame.answering, hfs]
      · have hkeep : (s.mem.db.handle i' job).handled i = s.mem.db.handled i := by
          simp [Mem.handle, Ne.symm hi]
        rw [hkeep, hbefore]
        refine congrArg (requests s.mem.answered i ++ ·) (flatMap_update _ ?_ _).symm
        simp [hs, handleData, Frame.answering, hi]
    · rw [hhandled, h.handled i, flatMap_update]
      rw [hnil, hs, List.nil_append, List.flatMap_append, answering_map_db]
      rfl
  · intro i hi q
    dsimp only
    rw [h.pushed i hi q, flatMap_update]
    rw [List.flatMap_append, List.flatMap_append, hnone, uncounted_map_db, hs]
    rfl
  · intro u data hmem
    rcases mem_update (handleData f ++ new.map .db) hmem with ⟨_, hnew⟩ | hother
    · rcases List.mem_append.mp hnew with hnew | hnew
      · obtain ⟨i, request, heq⟩ := mem_handleData hnew
        exact nomatch heq
      · obtain ⟨g, _, heq⟩ := List.mem_map.mp hnew
        exact nomatch heq
    · exact h.cleared u data (hother.mem hs)

theorem Answered.jobStep (h : Answered worker n owner responseJob s) {f : Jobs.Frame T Q J}
    {c : Jobs.Choice T Q J} {jobs : Jobs.Mem T Q J} {new : List (Jobs.Frame T Q J)}
    (hs : s.frames t = .job f :: fs) (hstep : Jobs.step s.mem.jobs t f c = some (jobs, new)) :
    Answered worker n owner responseJob ⟨{ s.mem with jobs := jobs },
      Function.update s.frames t (new.map .job ++ fs)⟩ := by
  have hshape : Shape worker n t (.job f :: fs) := hs ▸ h.shape t
  have hold : (s.frames t).filterMap Frame.toJob = f :: fs.filterMap Frame.toJob := by rw [hs]; rfl
  have hdb : (new.map Frame.job ++ fs : List (Frame T Q J D)).filterMap Frame.toDB =
      (s.frames t).filterMap Frame.toDB := by
    rw [List.filterMap_append, toDB_map_job, hs]
    rfl
  have hjob : (new.map Frame.job ++ fs : List (Frame T Q J D)).filterMap Frame.toJob =
      new ++ fs.filterMap Frame.toJob := by
    rw [List.filterMap_append, toJob_map_job]
  have hnext : Jobs.Inv (jobPart ⟨{ s.mem with jobs := jobs },
      Function.update s.frames t (new.map .job ++ fs)⟩) :=
    h.jobs.next (Conf.part_step Jobs.machine hold hstep hjob)
  refine { h with
    db := db_quiet h.db rfl hdb
    jobs := hnext
    shape := ?_, handled := ?_, pushed := ?_, cleared := ?_ }
  · apply shape_update h.shape
    rcases hshape.of_job with ⟨js, rfl, hother⟩ |
      ⟨data, i, jobCount, jobs', ds, rfl, hhanding, hworker, hi, hpos, hwithin⟩
    · rw [← List.map_append]
      exact .job [] (new ++ js) hother (.inl rfl)
    · rcases handing_step hhanding hstep with
        ⟨q, job, rfl, rfl, rfl⟩ | ⟨_, _, rfl | ⟨g, rfl, hg, _⟩⟩
      · exact .handling [.job _, .clear data] i jobCount jobs' ds (.push _ data rfl) hworker hi hpos
          hwithin
      · exact .handling [.clear data] i jobCount jobs' ds (.clear data) hworker hi hpos hwithin
      · exact .handling [.job g, .clear data] i jobCount jobs' ds (.push g data hg) hworker hi hpos
          hwithin
  · intro i
    dsimp only
    rw [h.handled i, flatMap_update]
    rw [List.flatMap_append, answering_map_job, hs]
    rfl
  · intro i hi q
    dsimp only
    rw [h.pushed i hi q]
    by_cases hworker : worker i = t
    · rcases hshape.of_job with ⟨js, _, hother⟩ |
        ⟨data, i', jobCount, jobs', ds, rfl, hhanding, _⟩
      · exact absurd hworker (hother i hi)
      · rw [hworker, Function.update_self, hs]
        rcases handing_step hhanding hstep with
          ⟨q', job, rfl, rfl, rfl⟩ | ⟨hnone, hkeep, hnew⟩
        · by_cases hq : q' = q
          · subst hq
            simp [Jobs.Mem.fetchAdd, ConcurrentQueue.enqueue, ofProducer_cons, Frame.uncounted]
          · simp [Jobs.Mem.fetchAdd, Frame.uncounted, hq, Ne.symm hq]
        · have hold : (Frame.job f : Frame T Q J D).uncounted q = [] := by
            cases f with
            | push q' job pushOnly => exact absurd rfl (hnone q' job pushOnly)
            | _ => rfl
          have hgone : (new.map Frame.job : List (Frame T Q J D)).flatMap (Frame.uncounted q) =
              [] := by
            rcases hnew with rfl | ⟨g, rfl, _, hg⟩
            · rfl
            · cases g with
              | push q' job pushOnly => exact absurd rfl (hg q' job pushOnly)
              | _ => rfl
          rw [hkeep, List.flatMap_cons, hold, List.flatMap_append, hgone]
    · rw [Function.update_of_ne hworker, pushed_other hstep hworker]
  · intro u data hmem
    rcases mem_update (new.map Frame.job) hmem with ⟨_, hnew⟩ | hother
    · obtain ⟨g, _, heq⟩ := List.mem_map.mp hnew
      cases heq
    · exact h.cleared u data (hother.mem hs)

/-- The body of a job pushes a request. -/
theorem Answered.call (h : Answered worker n owner responseJob s) {q : Q} {jobCount : ℕ}
    {jobs : List (T × J)} {c : Database.Choice T D} {f : Database.Frame T D}
    (hs : s.frames t = .job (.running q jobCount jobs) :: fs) (hf : f.pushing)
    (henter : ∀ worker frames, frames t = [] →
      Database.enter worker s.mem.db frames t c = some (s.mem.db, f)) :
    Answered worker n owner responseJob ⟨s.mem, Function.update s.frames t
      ([.db f, .job (.running q jobCount jobs)] ++ fs)⟩ := by
  have hshape : Shape worker n t (.job (.running q jobCount jobs) :: fs) := hs ▸ h.shape t
  rcases hshape.of_job with ⟨js, rfl, hother⟩ | ⟨_, _, _, _, _, _, hhanding, _⟩
  rotate_left
  · exact hhanding.elim
  have hidle : (s.frames t).filterMap Frame.toDB = [] := by
    rw [hs]
    exact toDB_map_job (.running q jobCount jobs :: js)
  have hdb : ([.db f, .job (.running q jobCount jobs)] ++ js.map .job :
      List (Frame T Q J D)).filterMap Frame.toDB = f :: (s.frames t).filterMap Frame.toDB := by
    rw [hs]
    rfl
  have hnext : Database.Inv worker (dbPart ⟨s.mem, Function.update s.frames t
      ([.db f, .job (.running q jobCount jobs)] ++ js.map .job)⟩) :=
    h.db.next (Conf.part_enter (Database.machine worker) (henter worker _ hidle) hdb)
  refine { h with
    db := hnext
    jobs := jobs_quiet h.jobs rfl (by rw [hs]; rfl)
    shape := ?_, handled := ?_, pushed := ?_, cleared := ?_ }
  · apply shape_update h.shape
    exact .job [f] (.running q jobCount jobs :: js) hother (.inr ⟨f, rfl, hf⟩)
  · intro i
    dsimp only
    rw [h.handled i, flatMap_update]
    rw [hs]
    rfl
  · intro i hi q'
    dsimp only
    rw [h.pushed i hi q', flatMap_update]
    rw [hs]
    rfl
  · intro u data hmem
    rcases mem_update [Frame.db f, Frame.job (.running q jobCount jobs)] hmem with
      ⟨_, hnew⟩ | hother
    · simp at hnew
    · exact h.cleared u data (hother.mem hs)

/-- With the balancer set up, a handler finds a connection. -/
theorem Answered.session (h : Answered worker n owner responseJob s) {k : ℤ} (hk : 0 ≤ k)
    (hlt : k < (s.mem.db.balancer.mServiceList.getD 0 : ℕ)) :
    (s.mem.db.service k.toNat).mSession ≠ none := by
  apply h.sessions
  rw [h.ready.2.1, Option.getD_some] at hlt
  omega

theorem Answered.handledStep (h : Answered worker n owner responseJob s) {i : ℕ}
    {request : DBQueueData D} (hs : s.frames t = .handler i request :: fs) :
    Answered worker n owner responseJob ⟨s.mem, Function.update s.frames t
      ([.processDBWorking i request] ++ fs)⟩ := by
  have hshape : Shape worker n t (.handler i request :: fs) := hs ▸ h.shape t
  obtain ⟨i', jobCount, jobs, ds, rfl, habove, hworker, hi, hpos, hwithin⟩ :=
    hshape.of_handler rfl rfl
  cases habove
  refine { h with
    db := db_quiet h.db rfl (by rw [hs]; rfl)
    jobs := jobs_quiet h.jobs rfl (by rw [hs]; rfl)
    shape := ?_, handled := ?_, pushed := ?_, cleared := ?_ }
  · apply shape_update h.shape
    exact .handling [.processDBWorking i request] i jobCount jobs ds (.processDBWorking request)
      hworker hi hpos hwithin
  · intro i'
    dsimp only
    rw [h.handled i', flatMap_update]
    rw [hs]
    rfl
  · intro i' hi' q'
    dsimp only
    rw [h.pushed i' hi' q', flatMap_update]
    rw [hs]
    rfl
  · intro u data hmem
    rcases mem_update [Frame.processDBWorking i request] hmem with ⟨_, hnew⟩ | hother
    · exact nomatch List.mem_singleton.mp hnew
    · exact h.cleared u data (hother.mem hs)

theorem Answered.clearStep (h : Answered worker n owner responseJob s) {data : D}
    (hs : s.frames t = .clear data :: fs) :
    Answered worker n owner responseJob ⟨{ s.mem with
      ResponseJob := Function.update s.mem.ResponseJob data none },
      Function.update s.frames t ([] ++ fs)⟩ := by
  have hshape : Shape worker n t (.clear data :: fs) := hs ▸ h.shape t
  obtain ⟨i, jobCount, jobs, ds, rfl, habove, hworker, hi, hpos, hwithin⟩ :=
    hshape.of_handler rfl rfl
  have hmem := h.cleared t data (by rw [hs]; exact List.mem_cons_self)
  refine { h with
    db := db_quiet h.db rfl (by rw [hs]; rfl)
    jobs := jobs_quiet h.jobs rfl (by rw [hs]; rfl)
    shape := ?_, handled := ?_, pushed := ?_, cleared := ?_, tables := ?_ }
  · apply shape_update h.shape
    refine .db (.handling i jobCount jobs :: ds) ?_
    intro g hg i' hgi
    rcases List.mem_cons.mp hg with rfl | hg
    · obtain rfl : i = i' := hgi.elim id False.elim
      exact hi
    · exact hwithin g hg i' hgi
  · intro i'
    dsimp only
    rw [h.handled i', flatMap_update]
    rw [hs]
    rfl
  · intro i' hi' q'
    dsimp only
    rw [h.pushed i' hi' q', flatMap_update]
    rw [hs]
    rfl
  · intro u data' hmem'
    rcases mem_update [] hmem' with ⟨_, hnew⟩ | hother
    · exact absurd hnew List.not_mem_nil
    · exact h.cleared u data' (hother.mem hs)
  · intro d
    by_cases hd : d = data
    · subst hd
      exact .inr hmem
    · dsimp only
      rw [Function.update_of_ne hd]
      exact h.tables d

omit [DecidableEq T] [DecidableEq Q] [DecidableEq D] [Fintype T] in
theorem requests_update (answered : ℕ → List (DBQueueData D × Option (Q × J))) (i j : ℕ)
    (e : DBQueueData D × Option (Q × J)) :
    requests (Function.update answered i (answered i ++ [e])) j =
      requests answered j ++ if j = i then [e.1] else [] := by
  by_cases hj : j = i
  · subst hj
    simp [requests]
  · simp [requests, hj]

/-- `ProcessDBWorking` records what it does, and then `ResponseJob` is null or to be so. -/
theorem Answered.record (h : Answered worker n owner responseJob s)
    (hworker : ∀ i j, i < n → j < n → worker i = worker j → i = j) {i : ℕ} {request : DBQueueData D}
    (hs : s.frames t = .processDBWorking i request :: fs) {m : Memory T Q J D}
    {push : Option (Q × J)} {new : List (Frame T Q J D)} (hdb : m.db = s.mem.db)
    (hjobs : m.jobs = s.mem.jobs) (hanswered : m.answered =
      Function.update s.mem.answered i (s.mem.answered i ++ [(request, push)]))
    (htables : ∀ d, d ≠ request.data.content →
      m.Owner d = s.mem.Owner d ∧ m.ResponseJob d = s.mem.ResponseJob d)
    (hpush : push = answer s.mem.Owner s.mem.ResponseJob request)
    (hnew : push = none ∧ new = [] ∨ ∃ q job, push = some (q, job) ∧
      new = [.job (.push q job true), .clear request.data.content]) :
    Answered worker n owner responseJob ⟨m, Function.update s.frames t (new ++ fs)⟩ := by
  have hshape : Shape worker n t (.processDBWorking i request :: fs) := hs ▸ h.shape t
  obtain ⟨i', jobCount, jobs, ds, rfl, habove, hw, hi, hpos, hwithin⟩ := hshape.of_handler rfl rfl
  cases habove
  have hrequests (j : ℕ) : requests m.answered j =
      requests s.mem.answered j ++ if j = i then [request] else [] := by
    rw [hanswered, requests_update]
  have hmore (j : ℕ) : (requests s.mem.answered j).Subperm (requests m.answered j) := by
    rw [hrequests]
    exact (List.sublist_append_left _ _).subperm
  have hincluded (d : D) (hd : ∃ j, d ∈ contents (requests s.mem.answered j)) :
      ∃ j, d ∈ contents (requests m.answered j) := by
    obtain ⟨j, hj⟩ := hd
    exact ⟨j, (contents_subperm (hmore j)).subset hj⟩
  have hlast : request.data.content ∈ contents (requests m.answered i) := by
    simp [hrequests, contents]
  refine ⟨?_, ?_, ?_, hdb ▸ h.ready, fun j hj => hdb ▸ h.sessions j hj, ?_, ?_, ?_, ?_, ?_⟩
  · apply db_quiet h.db hdb
    rcases hnew with ⟨_, rfl⟩ | ⟨q, job, _, rfl⟩ <;> rw [hs] <;> rfl
  · rcases hnew with ⟨_, rfl⟩ | ⟨q, job, _, rfl⟩
    · apply jobs_quiet h.jobs hjobs
      rw [hs]
      rfl
    · have hidle : (jobPart s).frames t = [] := by
        show (s.frames t).filterMap Frame.toJob = []
        rw [hs]
        exact toJob_map_db _
      refine h.jobs.next (Conf.part_enter Jobs.machine
        (c := .callPush q job true) (f := .push q job true) ?_ ?_)
      · rw [hjobs]
        have hempty : ((s.part Memory.jobs Frame.toJob).frames t).isEmpty :=
          List.isEmpty_iff.mpr hidle
        exact if_pos hempty
      · rw [hs]
        rfl
  · apply shape_update h.shape
    rcases hnew with ⟨_, rfl⟩ | ⟨q, job, _, rfl⟩
    · refine .db (.handling i jobCount jobs :: ds) ?_
      intro g hg j hgj
      rcases List.mem_cons.mp hg with rfl | hg
      · obtain rfl : i = j := hgj.elim id False.elim
        exact hi
      · exact hwithin g hg j hgj
    · exact .handling [.job (.push q job true), .clear request.data.content] i jobCount jobs ds
        (.push _ _ rfl) hw hi hpos hwithin
  · intro j
    have hbefore := h.handled j
    dsimp only
    rw [hdb, hbefore, hrequests, List.append_assoc]
    refine congrArg (requests s.mem.answered j ++ ·) ?_
    have hnone : new.flatMap (Frame.answering j) = [] := by
      rcases hnew with ⟨_, rfl⟩ | ⟨q, job, _, rfl⟩ <;> rfl
    by_cases hj : worker j = t
    · rw [hj, Function.update_self, hs, List.flatMap_append, hnone, List.flatMap_cons]
      simp [Frame.answering, eq_comm]
    · have hij : j ≠ i := fun heq => hj (heq ▸ hw)
      rw [Function.update_of_ne hj, if_neg hij, List.nil_append]
  · intro j hj q'
    have hbefore := h.pushed j hj q'
    dsimp only
    rw [hjobs, hanswered]
    by_cases hji : j = i
    · subst hji
      rw [hw, hs, List.flatMap_cons, uncounted_map_db] at hbefore
      rw [Function.update_self, List.filterMap_append, hbefore, hw, Function.update_self,
        List.flatMap_append, uncounted_map_db]
      rcases hnew with ⟨rfl, rfl⟩ | ⟨q, job, rfl, rfl⟩
      · simp [Frame.uncounted, toQueue]
      · by_cases hq : q = q' <;> simp [Frame.uncounted, toQueue, hq]
    · have hne : worker j ≠ t := fun heq => hji (hworker j i hj hi (heq.trans hw.symm))
      rw [Function.update_of_ne hji, Function.update_of_ne hne]
      exact hbefore
  · intro u data hmem
    rcases mem_update new hmem with ⟨_, hnew'⟩ | hother
    · rcases hnew with ⟨_, rfl⟩ | ⟨q, job, _, rfl⟩
      · exact absurd hnew' List.not_mem_nil
      · obtain rfl : data = request.data.content := by simpa using hnew'
        exact ⟨i, hlast⟩
    · exact hincluded data (h.cleared u data (hother.mem hs))
  · intro d
    by_cases hd : d = request.data.content
    · subst hd
      exact .inr ⟨i, hlast⟩
    · obtain ⟨howner, hjob⟩ := htables d hd
      dsimp only
      rw [howner, hjob]
      exact (h.tables d).imp_right (hincluded d)
  · intro j e he
    have hold (e : DBQueueData D × Option (Q × J)) (he : e ∈ s.mem.answered j) :
        e.2 = answer owner responseJob e.1 ∨ Repeated e.1.data.content (requests m.answered) :=
      (h.recorded j e he).imp_right fun hrepeated => hrepeated.mono hmore
    dsimp only at he
    rw [hanswered] at he
    by_cases hji : j = i
    · subst hji
      rw [Function.update_self] at he
      rcases List.mem_append.mp he with he | he
      · exact hold e he
      · rw [List.mem_singleton.mp he]
        rcases h.tables request.data.content with ⟨howner, hjob⟩ | ⟨k, hk⟩
        · left
          rw [hpush, answer, answer, howner, hjob]
        · right
          by_cases hkj : k = j
          · subst hkj
            refine .inr ⟨k, ?_⟩
            have hcount := List.count_pos_iff.mpr hk
            simp only [hrequests, contents, if_true, List.map_append, List.count_append] at hcount ⊢
            simp only [List.map_singleton, List.count_singleton_self]
            omega
          · exact .inl ⟨k, j, hkj, (contents_subperm (hmore k)).subset hk, hlast⟩
    · rw [Function.update_of_ne hji] at he
      exact hold e he

theorem Answered.enterDB (h : Answered worker n owner responseJob s) {c : Database.Choice T D}
    {f : Database.Frame T D} (hidle : s.frames t = [])
    (hf : f.pushing ∨ ∃ i, f = .launch i ∧ (i : Int) < s.mem.db.balancer.mServiceCount)
    (henter : ∀ frames, frames t = [] →
      Database.enter worker s.mem.db frames t c = some (s.mem.db, f)) :
    Answered worker n owner responseJob
      ⟨s.mem, Function.update s.frames t (.db f :: s.frames t)⟩ := by
  have hempty : (dbPart s).frames t = [] := by
    show (s.frames t).filterMap Frame.toDB = []
    rw [hidle]
    rfl
  have hnext : Database.Inv worker
      (dbPart ⟨s.mem, Function.update s.frames t (.db f :: s.frames t)⟩) :=
    h.db.next (Conf.part_enter (Database.machine worker) (henter _ hempty) rfl)
  refine { h with
    db := hnext
    jobs := jobs_quiet h.jobs rfl rfl
    shape := ?_, handled := ?_, pushed := ?_, cleared := ?_ }
  · apply shape_update h.shape
    rw [hidle]
    refine .db [f] ?_
    intro g hg i hgi
    rw [List.mem_singleton.mp hg] at hgi
    rcases hf with hpushing | ⟨i', rfl, hlt⟩
    · rcases hgi with hgi | hgi
      · exact absurd hgi (hpushing.not_executing i)
      · exact absurd hgi (hpushing.not_looping i)
    · obtain rfl : i' = i := hgi.elim False.elim id
      rw [h.ready.2.2] at hlt
      omega
  · intro i
    dsimp only
    rw [h.handled i, flatMap_update]
    rfl
  · intro i hi q
    dsimp only
    rw [h.pushed i hi q, flatMap_update]
    rfl
  · intro u data hmem
    rcases mem_push hmem with heq | hmem
    · exact nomatch heq
    · exact h.cleared u data hmem

theorem Answered.enterJob (h : Answered worker n owner responseJob s) {c : Jobs.Choice T Q J}
    {f : Jobs.Frame T Q J} (hidle : s.frames t = []) (hother : ∀ i, i < n → worker i ≠ t)
    (henter : ∀ frames, frames t = [] →
      Jobs.enter s.mem.jobs frames t c = some (s.mem.jobs, f)) :
    Answered worker n owner responseJob
      ⟨s.mem, Function.update s.frames t (.job f :: s.frames t)⟩ := by
  have hempty : (jobPart s).frames t = [] := by
    show (s.frames t).filterMap Frame.toJob = []
    rw [hidle]
    rfl
  have hnext : Jobs.Inv (jobPart ⟨s.mem, Function.update s.frames t (.job f :: s.frames t)⟩) :=
    h.jobs.next (Conf.part_enter Jobs.machine (henter _ hempty) rfl)
  refine { h with
    db := db_quiet h.db rfl rfl
    jobs := hnext
    shape := ?_, handled := ?_, pushed := ?_, cleared := ?_ }
  · apply shape_update h.shape
    rw [hidle]
    exact .job [] [f] hother (.inl rfl)
  · intro i
    dsimp only
    rw [h.handled i, flatMap_update]
    rfl
  · intro i hi q
    dsimp only
    rw [h.pushed i hi q, Function.update_of_ne (hother i hi)]
  · intro u data hmem
    rcases mem_push hmem with heq | hmem
    · exact nomatch heq
    · exact h.cleared u data hmem

theorem Answered.env (h : Answered worker n owner responseJob s) {c : Choice T Q J D}
    {m : Memory T Q J D} (henv : env s.mem c = some m) :
    Answered worker n owner responseJob ⟨m, s.frames⟩ := by
  cases c with
  | db c =>
    obtain ⟨db, hdb, rfl⟩ := Option.map_eq_some_iff.mp henv
    have hnext : (Database.machine worker).next (dbPart s) (.env c) =
        some (dbPart ⟨{ s.mem with db := db }, s.frames⟩) := by
      show (Database.env s.mem.db c).map _ = _
      rw [hdb]
      rfl
    obtain ⟨i, hmem⟩ := Database.env_spec hdb
    refine { h with
      db := h.db.next hnext
      ready := ?_, sessions := ?_, handled := ?_ }
    · rw [hmem]
      exact h.ready
    · intro j hj
      rw [hmem]
      have hsome := h.sessions j hj
      by_cases hji : j = i
      · subst hji
        simpa using hsome
      · simpa [hji] using hsome
    · rw [hmem]
      exact h.handled
  | job c =>
    obtain ⟨jobs, hjobs, rfl⟩ := Option.map_eq_some_iff.mp henv
    have hnext : Jobs.machine.next (jobPart s) (.env c) =
        some (jobPart ⟨{ s.mem with jobs := jobs }, s.frames⟩) := by
      show (Jobs.env s.mem.jobs c).map _ = _
      rw [hjobs]
      rfl
    obtain ⟨ticks, hmem⟩ := Jobs.env_spec hjobs
    refine { h with
      jobs := h.jobs.next hnext
      pushed := ?_ }
    rw [hmem]
    exact h.pushed
  | _ => exact absurd henv.symm (Option.some_ne_none _)

/-- The threads of the services do not call into the job queues of their own accord. -/
def dedicated (worker : ℕ → T) (n : ℕ) (_s : GameConf T Q J D) :
    Action T (Choice T Q J D) → Bool
  | .enter t (.job _) => decide (∀ i, i < n → worker i ≠ t)
  | _ => true

theorem Answered.next (h : Answered worker n owner responseJob s)
    (hworker : ∀ i j, i < n → j < n → worker i = worker j → i = j) {s' : GameConf T Q J D}
    {a : Action T (Choice T Q J D)} (hok : dedicated worker n s a = true)
    (hs' : (machine worker).next s a = some s') : Answered worker n owner responseJob s' := by
  rcases Machine.next_cases hs' with ⟨t, c, mem, f, rfl, he, rfl⟩ |
    ⟨t, c, f, fs, mem, new, rfl, hs, he, rfl⟩ | ⟨c, mem, rfl, he, rfl⟩
  · obtain ⟨hidle, rfl, ⟨c', f', rfl, rfl, hf, henter⟩ | ⟨c', f', rfl, rfl, henter⟩⟩ :=
      enter_spec he
    · exact h.enterDB hidle hf henter
    · exact h.enterJob hidle (of_decide_eq_true hok) henter
  · cases step_spec he with
    | db f c' db new hstep => exact h.dbStep hs hstep
    | job f c' jobs new hstep => exact h.jobStep hs hstep
    | call q jobCount jobs c' f hf henter => exact h.call hs hf henter
    | noSession i request k _ hk hlt hnone => exact absurd hnone (h.session hk hlt)
    | handled i request => exact h.handledStep hs
    | respond i request q job howner hjob =>
      refine h.record hworker hs rfl rfl rfl (fun _ _ => ⟨rfl, rfl⟩) ?_ (.inr ⟨q, job, rfl, rfl⟩)
      rw [answer, howner, hjob]
      rfl
    | noResponse i request hnone =>
      refine h.record hworker hs rfl rfl rfl ?_ ?_ (.inl ⟨rfl, rfl⟩)
      · intro d hd
        exact ⟨Function.update_of_ne hd _ _, Function.update_of_ne hd _ _⟩
      · rcases hnone with hnone | hnone
        · rw [answer, hnone]
          rfl
        · cases howner : s.mem.Owner request.data.content with
          | none => rw [answer, howner]; rfl
          | some q => rw [answer, howner, hnone]; rfl
    | clear data => exact h.clearStep hs
  · exact h.env he

theorem answered_start (worker : ℕ → T) (owner : D → Option Q) (responseJob : D → Option J)
    {connect : ℕ → Bool} {connectionString : String} (hinit : (DBLoadBalancer.Init connect
      connectionString n (DBLoadBalancer.construct : DBLoadBalancer T D)).1 = true) :
    Answered worker n owner responseJob (start connect connectionString n owner responseJob) := by
  have hready := DBLoadBalancer.Init_ready connect connectionString n hinit
  refine ⟨Database.Inv.start connect connectionString n, Jobs.Inv.start, ?_, hready, ?_, ?_, ?_, ?_,
    ?_, ?_⟩
  · exact fun t => .db [] nofun
  · exact fun i hi => DBLoadBalancer.Init_session connect connectionString n hinit hi
  · exact fun _ => rfl
  · exact fun _ _ _ => rfl
  · exact fun _ _ hmem => absurd hmem List.not_mem_nil
  · exact fun _ => .inl ⟨rfl, rfl⟩
  · exact fun _ _ hmem => absurd hmem List.not_mem_nil

/-- A service with a count of zero has no handler at work. -/
theorem Answered.quiet (h : Answered worker n owner responseJob s) {i : ℕ} (hi : i < n)
    (hworker : ∀ i j, i < n → j < n → worker i = worker j → i = j)
    (hzero : (s.mem.db.service i).mQueueCount = 0) (q : Q) :
    (s.frames (worker i)).flatMap (Frame.answering i) = [] ∧
      (s.frames (worker i)).flatMap (Frame.uncounted q) = [] := by
  have hcount := h.db.count i
  have hload := le_weight (Database.Frame.load i) (dbPart s).frames (worker i)
  have hshape := h.shape (worker i)
  have hframes : (dbPart s).frames (worker i) = (s.frames (worker i)).filterMap Frame.toDB := rfl
  rw [hframes] at hload
  generalize s.frames (worker i) = fs at hshape hload
  cases hshape with
  | db ds _ => exact ⟨answering_map_db i ds, uncounted_map_db q ds⟩
  | job ds js hother _ => exact absurd rfl (hother i hi)
  | handling fs i' jobCount jobs ds habove hw hi' hpos _ =>
    obtain rfl := hworker i' i hi' hi hw
    rw [List.filterMap_append, toDB_map_db, stackWeight_append, stackWeight_cons] at hload
    simp only [Database.Frame.load, if_true] at hload
    have hservice : ((dbPart s).mem.service i').mQueueCount = 0 := hzero
    omega

/-- Every request with an owner is answered once, by a job that is pushed to its owner after it was
handled: what the owner has run of the jobs of a service answers requests to that service, in the
order they were handled in; and all of them once neither has anything left. -/
theorem requests_answered (hworker : ∀ i j, i < n → j < n → worker i = worker j → i = j)
    (owner : D → Option Q) (responseJob : D → Option J) {connect : ℕ → Bool}
    {connectionString : String} (hinit : (DBLoadBalancer.Init connect connectionString n
      (DBLoadBalancer.construct : DBLoadBalancer T D)).1 = true)
    (h : (machine worker).Reach (fun s a => dedicated worker n s a = true)
      (start connect connectionString n owner responseJob) s)
    (hfresh : ∀ d, ¬Repeated d fun i => (s.mem.db.pushed i).map Prod.snd) {i : ℕ} (hi : i < n)
    (q : Q) :
    (∀ p, ofProducer p (s.mem.db.handled i) <+: ofProducer p (s.mem.db.pushed i)) ∧
      ofProducer (worker i) (s.mem.jobs.ran q) <+:
        answers owner responseJob q ((s.mem.db.handled i).map Prod.snd) ∧
      ((s.mem.db.service i).mQueueCount = 0 → s.mem.jobs.mJobCount q = 0 →
        (s.mem.db.handled i).Perm (s.mem.db.pushed i) ∧ ofProducer (worker i) (s.mem.jobs.ran q) =
          answers owner responseJob q ((s.mem.db.handled i).map Prod.snd)) := by
  have ha : Answered worker n owner responseJob s := by
    refine h.invariant (Answered worker n owner responseJob)
      (answered_start worker owner responseJob hinit) ?_
    intro s a s' _ hs hok hnext
    exact hs.next hworker hok hnext
  have hinitial (i : ℕ) (p : T) :
      ofProducer p (s.mem.db.handled i) <+: ofProducer p (s.mem.db.pushed i) := by
    have horder := ha.db.order i p
    rw [List.append_assoc, ofProducer_append, List.append_assoc] at horder
    exact horder ▸ List.prefix_append _ _
  have hhandled (i : ℕ) : (s.mem.db.handled i).Subperm (s.mem.db.pushed i) :=
    subperm_of_producers fun p => (hinitial i p).sublist
  have hrequests (i : ℕ) :
      (requests s.mem.answered i).Subperm ((s.mem.db.pushed i).map Prod.snd) := by
    obtain ⟨l, hperm, hsublist⟩ := hhandled i
    have hprefix := List.prefix_append (requests s.mem.answered i)
      ((s.frames (worker i)).flatMap (Frame.answering i))
    rw [← ha.handled i] at hprefix
    exact hprefix.sublist.subperm.trans ⟨l.map Prod.snd, hperm.map _, hsublist.map _⟩
  -- each object is answered for the first time, so with what it was pushed with
  have hanswers : (s.mem.answered i).filterMap (fun e => toQueue q e.2) =
      answers owner responseJob q (requests s.mem.answered i) := by
    rw [answers, requests, List.filterMap_map]
    apply List.filterMap_congr
    intro e he
    rcases ha.recorded i e he with heq | hrepeated
    · rw [heq]
      rfl
    · exact absurd (hrepeated.mono hrequests) (hfresh _)
  have hpushed := ha.pushed i hi q
  have hran : ofProducer (worker i) (s.mem.jobs.ran q) <+:
      ofProducer (worker i) (s.mem.jobs.pushed q) := by
    obtain ⟨left, htaken⟩ := ha.jobs.taken_eq q
    have horder := ha.jobs.order q (worker i)
    rw [htaken, ofProducer_append, List.append_assoc, List.append_assoc] at horder
    exact horder ▸ List.prefix_append _ _
  rw [hanswers] at hpushed
  refine ⟨hinitial i, ?_, ?_⟩
  · rw [ha.handled i, answers, List.filterMap_append]
    have hcounted : ofProducer (worker i) (s.mem.jobs.pushed q) <+:
        answers owner responseJob q (requests s.mem.answered i) := by
      rw [hpushed]
      exact List.prefix_append _ _
    exact (hran.trans hcounted).trans (List.prefix_append _ _)
  · intro hzero hjobs
    obtain ⟨_, hall⟩ := ha.db.all_handled i hzero
    obtain ⟨hanswering, huncounted⟩ := ha.quiet hi hworker hzero q
    refine ⟨?_, ?_⟩
    · have hback : (s.mem.db.pushed i).Subperm (s.mem.db.handled i) :=
        subperm_of_producers fun p => (hall p) ▸ List.Sublist.refl _
      exact (hhandled i).antisymm hback
    · rw [ha.handled i, hanswering, List.append_nil, hpushed, huncounted, List.append_nil]
      exact ha.jobs.drained q hjobs (worker i)

end Answered

/-- Thread `false` pushes a request, the thread of the one service handles it, and thread `false`
runs the job that answers it. -/
def oneRequest : List (Action Bool (Choice Bool Unit ℕ Unit)) :=
  [.enter false (.db (.callBalance 7 1 (some ⟨7, 1, ()⟩) ⟨[1]⟩)), .step false (.db .go),
    .step false (.db .go), .step false (.db .go), .enter true (.db (.callLaunch 0)),
    .step true (.db .go), .step true (.db .go), .step true (.db .go), .step true (.db .go),
    .step true (.db (.take [false])), .step true (.db .go), .step true (.throws true),
    .step true .go, .step true (.job .go), .step true (.job .go), .step true (.job .go),
    .step true (.job .go), .step true .go, .step true (.db .go), .step true (.db .go),
    .enter false (.job .callGlobalJobs), .step false (.job (.clock 0)),
    .step false (.job (.pop (some true))), .step false (.job .go), .step false (.job .go),
    .step false (.job (.take [true])), .step false (.job .go), .step false (.job .go),
    .step false (.job .go)]

def answeredOne : GameConf Bool Unit ℕ Unit :=
  (machine fun _ => true).finalChecked (dedicated (fun _ => true) 1)
    (start (fun _ => true) "DSN=Game" 1 (fun _ => some ()) fun _ => some 5) oneRequest
    (by decide +kernel)

theorem requests_answered_oneRequest :
    ofProducer true (answeredOne.mem.jobs.ran ()) =
      answers (fun _ : Unit => some ()) (fun _ => some 5) ()
        ((answeredOne.mem.db.handled 0).map Prod.snd) := by
  have hpushed : answeredOne.mem.db.pushed = Function.update (fun _ : ℕ => ([] : ConcurrentQueue
      Bool (DBQueueData Unit))) 0 [(false, ⟨1, ⟨7, 1, ()⟩, ⟨[1]⟩⟩)] := rfl
  have hfresh (d : Unit) : ¬Repeated d fun i => (answeredOne.mem.db.pushed i).map Prod.snd := by
    simp only [hpushed]
    rintro (⟨i, j, hij, hi, hj⟩ | ⟨i, htwo⟩)
    · by_cases hzero : i = 0
      · simp [contents, Ne.symm (hzero ▸ hij)] at hj
      · simp [contents, hzero] at hi
    · by_cases hzero : i = 0 <;> simp [contents, hzero] at htwo
  have hworker : ∀ i j : ℕ, i < 1 → j < 1 → true = true → i = j := by
    intro i j hi hj _
    omega
  obtain ⟨_, _, hall⟩ := requests_answered hworker (fun _ => some ())
    (fun _ => some 5) (by decide) (Machine.reach_finalChecked (machine fun _ => true)
      (dedicated (fun _ => true) 1) _ oneRequest (by decide +kernel)) hfresh Nat.one_pos ()
  exact (hall (by decide +kernel) (by decide +kernel)).2

end ServerCore.App.GameDB
