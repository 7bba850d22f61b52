import ServerCore.Config.ServerConfig
import Mathlib.Data.List.Forall2
import Mathlib.Data.List.Nodup
import Mathlib.Data.List.TakeWhile

namespace ServerCore.Config

open Framework Asserting

namespace ServerConfig

/-- `configFile` is read in this call: nothing is loaded yet and it is a file that opens and is not
empty. -/
def Reads (σ : ServerConfig) (os : System) (configFile : List UInt8) : Prop :=
  σ.mIsLoaded = false ∧
    (∃ fileSize, os.Finds fileSize ∧ fileSize ≠ 0 ∧ fileSize ≠ 0xFFFFFFFFFFFFFFFF) ∧
    configFile ≠ [] ∧ os.isOpen = true ∧ os.fail = false

/-- The two differ in `ProcessorCount` at most, in what `LoadConfig` fills. -/
structure SameData (σ σ' : ServerConfig) : Prop where
  data : { σ'.mServerConfigData with ProcessorCount := σ.mServerConfigData.ProcessorCount } =
    σ.mServerConfigData
  map : σ'.mDBConfigDataMap = σ.mDBConfigDataMap
  pool : σ'.mObjectPoolConfig = σ.mObjectPoolConfig

end ServerConfig

namespace Value

/-- The values of all members of that name. -/
def valuesOf : Value → List UInt8 → List Value
  | .object members, name => (members.filter fun member => member.1 = name).map Prod.snd
  | _, _ => []

/-- The value has one member of that name, with value `w`. -/
def Only (v : Value) (name : List UInt8) (w : Value) : Prop := v.valuesOf name = [w]

/-- Along the path each value has one member of the next name, the last with value `w`. -/
def OnlyAt : Value → List (List UInt8) → Value → Prop
  | v, [], w => v = w
  | v, name :: path, w => ∃ u, v.Only name u ∧ u.OnlyAt path w

/-- A string stands at the path, without a NUL that would end it early in a `const char*`. -/
def HasText (v : Value) (path : List (List UInt8)) : Prop :=
  ∃ s, v.OnlyAt path (.string s) ∧ 0 ∉ s

def HasInt (v : Value) (path : List (List UInt8)) : Prop := ∃ n, v.OnlyAt path (.int n)

end Value

/-- A member of `DB` is this entry of the map, with its whole name and strings. -/
structure DBTaken (member : List UInt8 × Value) (entry : List UInt8 × DBConfigData) : Prop where
  name : entry.1 = member.1
  UID : member.2.OnlyAt [bytes "UID"] (.string entry.2.UID)
  PWD : member.2.OnlyAt [bytes "PWD"] (.string entry.2.PWD)
  DATABASE : member.2.OnlyAt [bytes "DATABASE"] (.string entry.2.DATABASE)
  HOST : member.2.OnlyAt [bytes "HOST"] (.string entry.2.HOST)
  PORT : member.2.OnlyAt [bytes "PORT"] (.int entry.2.PORT)
  THREADS : member.2.OnlyAt [bytes "THREADS"] (.int entry.2.THREAD_COUNT)

structure DataTaken (doc : Value) (data : ServerConfigData) : Prop where
  ProcessName :
    doc.OnlyAt [bytes "MainListener", bytes "ProcessName"] (.string data.ProcessName)
  MaxConnectCount :
    doc.OnlyAt [bytes "MainListener", bytes "MaxConnectCount"] (.int data.MaxConnectCount)
  BindPort : doc.OnlyAt [bytes "MainListener", bytes "BindPort"] (.int data.BindPort)
  NetworkThreadCount :
    doc.OnlyAt [bytes "MainListener", bytes "NetworkThreadCount"] (.int data.NetworkThreadCount)
  BindAddress : doc.OnlyAt [bytes "MainListener", bytes "BindAddress"] (.string data.BindAddr)

structure PoolTaken (doc : Value) (pool : ObjectPoolConfig) : Prop where
  Packet : doc.OnlyAt [bytes "ObjectPool", bytes "Packet"] (.int pool.Packet)
  DBPacket : doc.OnlyAt [bytes "ObjectPool", bytes "DBPacket"] (.int pool.DBPacket)
  Job : doc.OnlyAt [bytes "ObjectPool", bytes "Job"] (.int pool.Job)

/-- The entries of the map, each once. -/
structure Entries (map : List UInt8 → Option DBConfigData)
    (entries : List (List UInt8 × DBConfigData)) : Prop where
  nodup : (entries.map Prod.fst).Nodup
  mem : ∀ name dbConfig, map name = some dbConfig ↔ (name, dbConfig) ∈ entries

/-- Every field of the configuration is that of the document, and each member of `DB` has an entry
of its own. -/
structure Taken (doc : Value) (σ : ServerConfig) : Prop where
  data : DataTaken doc σ.mServerConfigData
  databases : ∃ members entries, doc.Only (bytes "DB") (.object members) ∧
    Entries σ.mDBConfigDataMap entries ∧ List.Forall₂ DBTaken members entries
  pool : PoolTaken doc σ.mObjectPoolConfig

structure ListenerComplete (doc : Value) : Prop where
  ProcessName : doc.HasText [bytes "MainListener", bytes "ProcessName"]
  MaxConnectCount : doc.HasInt [bytes "MainListener", bytes "MaxConnectCount"]
  BindPort : doc.HasInt [bytes "MainListener", bytes "BindPort"]
  NetworkThreadCount : doc.HasInt [bytes "MainListener", bytes "NetworkThreadCount"]
  BindAddress : doc.HasText [bytes "MainListener", bytes "BindAddress"]

structure DBComplete (member : List UInt8 × Value) : Prop where
  name : 0 ∉ member.1
  UID : member.2.HasText [bytes "UID"]
  PWD : member.2.HasText [bytes "PWD"]
  DATABASE : member.2.HasText [bytes "DATABASE"]
  HOST : member.2.HasText [bytes "HOST"]
  PORT : member.2.HasInt [bytes "PORT"]
  THREADS : member.2.HasInt [bytes "THREADS"]

structure PoolComplete (doc : Value) : Prop where
  Packet : doc.HasInt [bytes "ObjectPool", bytes "Packet"]
  DBPacket : doc.HasInt [bytes "ObjectPool", bytes "DBPacket"]
  Job : doc.HasInt [bytes "ObjectPool", bytes "Job"]

/-- The document has all members that are asked for, each once, of the right types and without NUL,
and no two databases of one name. -/
structure Complete (doc : Value) : Prop where
  listener : ListenerComplete doc
  databases : ∃ members, doc.Only (bytes "DB") (.object members) ∧
    (members.map Prod.fst).Nodup ∧ ∀ member ∈ members, DBComplete member
  pool : PoolComplete doc

/-- The values that the code reads for the database `name`. -/
structure DBRead (doc : Value) (name : List UInt8) (dbConfig : DBConfigData) : Prop where
  UID : doc.stringAt [bytes "DB", name, bytes "UID"] = some dbConfig.UID
  PWD : doc.stringAt [bytes "DB", name, bytes "PWD"] = some dbConfig.PWD
  DATABASE : doc.stringAt [bytes "DB", name, bytes "DATABASE"] = some dbConfig.DATABASE
  HOST : doc.stringAt [bytes "DB", name, bytes "HOST"] = some dbConfig.HOST
  PORT : doc.intAt [bytes "DB", name, bytes "PORT"] = some dbConfig.PORT
  THREADS : doc.intAt [bytes "DB", name, bytes "THREADS"] = some dbConfig.THREAD_COUNT

/-- The names under which the loop looks the databases up. -/
def DBAsked (doc : Value) (name : List UInt8) : Prop :=
  ∃ members, (doc.at? [bytes "DB"]).bind Value.asObject = some members ∧
    name ∈ members.map fun member => cString member.1

structure DataRead (doc : Value) (data : ServerConfigData) : Prop where
  ProcessName :
    doc.stringAt [bytes "MainListener", bytes "ProcessName"] = some data.ProcessName
  MaxConnectCount :
    doc.intAt [bytes "MainListener", bytes "MaxConnectCount"] = some data.MaxConnectCount
  BindPort : doc.intAt [bytes "MainListener", bytes "BindPort"] = some data.BindPort
  NetworkThreadCount :
    doc.intAt [bytes "MainListener", bytes "NetworkThreadCount"] = some data.NetworkThreadCount
  BindAddress : doc.stringAt [bytes "MainListener", bytes "BindAddress"] = some data.BindAddr

structure PoolRead (doc : Value) (pool : ObjectPoolConfig) : Prop where
  Packet : doc.intAt [bytes "ObjectPool", bytes "Packet"] = some pool.Packet
  DBPacket : doc.intAt [bytes "ObjectPool", bytes "DBPacket"] = some pool.DBPacket
  Job : doc.intAt [bytes "ObjectPool", bytes "Job"] = some pool.Job

/-- The configuration is what the code reads. -/
structure ReadFrom (doc : Value) (σ : ServerConfig) : Prop where
  data : DataRead doc σ.mServerConfigData
  databases : ∀ name dbConfig, σ.mDBConfigDataMap name = some dbConfig → DBRead doc name dbConfig
  names : ∀ name, (σ.mDBConfigDataMap name).isSome ↔ DBAsked doc name
  pool : PoolRead doc σ.mObjectPoolConfig

/-- No assertion fails while the document is read. -/
structure Readable (doc : Value) : Prop where
  data : ∃ data, DataRead doc data
  db : ((doc.at? [bytes "DB"]).bind Value.asObject).isSome
  databases : ∀ name, DBAsked doc name → ∃ dbConfig, DBRead doc name dbConfig
  pool : ∃ pool, PoolRead doc pool

/-- `ProcessorCount` is not read from the document. -/
theorem DataRead.setProcessorCount {doc : Value} {data : ServerConfigData}
    (h : DataRead doc data) (n : Int32) : DataRead doc { data with ProcessorCount := n } :=
  ⟨h.ProcessName, h.MaxConnectCount, h.BindPort, h.NetworkThreadCount, h.BindAddress⟩

section

variable {σ : Type} {s s' : σ} {v w : Value} {name : List UInt8} {path : List (List UInt8)}

theorem Value.returns_index :
    Returns (v.index name) s w s' ↔ v.findMember name = some w ∧ s = s' := returns_demand

theorem Value.returns_members {members : List (List UInt8 × Value)} :
    Returns v.members s members s' ↔ v.asObject = some members ∧ s = s' := returns_demand

theorem Value.returns_walk : Returns (v.walk path) s w s' ↔ v.at? path = some w ∧ s = s' := by
  induction path generalizing v with
  | nil => simp [walk, at?]
  | cons name path ih =>
    simp only [walk, at?, index, returns_demand_bind, ih, Option.bind_eq_some_iff, ← and_assoc,
      exists_and_right]

/-- What is asked of the value at the end of a path. -/
theorem Value.returns_walk_demand {α : Type} {assertion : Assertion} {get : Value → Option α}
    {a : α} : Returns (do demand assertion (get (← v.walk path))) s a s' ↔
      (v.at? path).bind get = some a ∧ s = s' := by
  simp only [returns_bind, returns_walk, returns_demand, and_assoc, exists_and_left,
    exists_eq_left', Option.bind_eq_some_iff]
  simp only [← and_assoc, exists_and_right]

theorem Value.returns_stringOf {text : List UInt8} :
    Returns (v.stringOf path) s text s' ↔ v.stringAt path = some text ∧ s = s' :=
  returns_walk_demand

theorem Value.returns_intOf {n : Int32} :
    Returns (v.intOf path) s n s' ↔ v.intAt path = some n ∧ s = s' :=
  returns_walk_demand

theorem Value.stringAt_member (hw : v.findMember name = some w) :
    v.stringAt (name :: path) = w.stringAt path := by
  rw [stringAt, at?, hw, Option.bind_some, stringAt]

theorem Value.intAt_member (hw : v.findMember name = some w) :
    v.intAt (name :: path) = w.intAt path := by
  rw [intAt, at?, hw, Option.bind_some, intAt]

theorem Value.member_of_stringAt {text : List UInt8} (h : v.stringAt (name :: path) = some text) :
    ∃ w, v.findMember name = some w := by
  obtain ⟨_, hat, _⟩ := Option.bind_eq_some_iff.mp h
  obtain ⟨w, hw, _⟩ := Option.bind_eq_some_iff.mp hat
  exact ⟨w, hw⟩

theorem Value.member_of_intAt {n : Int32} (h : v.intAt (name :: path) = some n) :
    ∃ w, v.findMember name = some w := by
  obtain ⟨_, hat, _⟩ := Option.bind_eq_some_iff.mp h
  obtain ⟨w, hw, _⟩ := Option.bind_eq_some_iff.mp hat
  exact ⟨w, hw⟩

end

namespace ServerConfig

variable {σ σ' : ServerConfig} {doc dbValue : Value} {name : List UInt8}

theorem returns_setData {f : ServerConfigData → ServerConfigData} {u : Unit} :
    Returns (setData f) σ u σ' ↔
      { σ with mServerConfigData := f σ.mServerConfigData } = σ' := returns_modify

theorem returns_setPool {f : ObjectPoolConfig → ObjectPoolConfig} {u : Unit} :
    Returns (setPool f) σ u σ' ↔
      { σ with mObjectPoolConfig := f σ.mObjectPoolConfig } = σ' := returns_modify

theorem returns_loadMainListener : Returns (loadMainListener doc) σ () σ' ↔
    ∃ data, DataRead doc data ∧ data.ProcessorCount = σ.mServerConfigData.ProcessorCount ∧
      { σ with mServerConfigData := data } = σ' := by
  simp only [loadMainListener, returns_bind, Value.returns_index, Value.returns_stringOf,
    Value.returns_intOf, returns_setData, and_assoc, exists_eq_left', exists_and_left, exists_const]
  constructor
  · rintro ⟨main, hv, processName, hname, maxConnectCount, hmax, bindPort, hport,
      networkThreadCount, hthreads, bindAddr, haddr, rfl⟩
    refine ⟨⟨processName, maxConnectCount, bindPort, networkThreadCount,
      σ.mServerConfigData.ProcessorCount, bindAddr⟩, ⟨?_, ?_, ?_, ?_, ?_⟩, rfl, rfl⟩
    · exact (Value.stringAt_member hv).trans hname
    · exact (Value.intAt_member hv).trans hmax
    · exact (Value.intAt_member hv).trans hport
    · exact (Value.intAt_member hv).trans hthreads
    · exact (Value.stringAt_member hv).trans haddr
  · rintro ⟨data, ⟨hname, hmax, hport, hthreads, haddr⟩, hcount, rfl⟩
    obtain ⟨main, hv⟩ := Value.member_of_stringAt hname
    rw [Value.stringAt_member hv] at hname haddr
    rw [Value.intAt_member hv] at hmax hport hthreads
    refine ⟨main, hv, _, hname, _, hmax, _, hport, _, hthreads, _, haddr, ?_⟩
    rw [← hcount]

/-- One round of the loop reads the database whole, or fails. -/
theorem returns_loadDB (hv : doc.findMember (bytes "DB") = some dbValue) :
    Returns (loadDB dbValue name) σ () σ' ↔
      ∃ dbConfig, DBRead doc name dbConfig ∧ σ.insert name dbConfig = σ' := by
  simp only [loadDB, returns_bind, Value.returns_stringOf, Value.returns_intOf, returns_modify,
    and_assoc, exists_eq_left', exists_and_left]
  constructor
  · rintro ⟨uid, huid, pwd, hpwd, database, hdatabase, host, hhost, port, hport, threads,
      hthreads, rfl⟩
    refine ⟨⟨uid, pwd, database, host, port, threads⟩, ⟨?_, ?_, ?_, ?_, ?_, ?_⟩, rfl⟩
    · exact (Value.stringAt_member hv).trans huid
    · exact (Value.stringAt_member hv).trans hpwd
    · exact (Value.stringAt_member hv).trans hdatabase
    · exact (Value.stringAt_member hv).trans hhost
    · exact (Value.intAt_member hv).trans hport
    · exact (Value.intAt_member hv).trans hthreads
  · rintro ⟨dbConfig, ⟨huid, hpwd, hdatabase, hhost, hport, hthreads⟩, rfl⟩
    rw [Value.stringAt_member hv] at huid hpwd hdatabase hhost
    rw [Value.intAt_member hv] at hport hthreads
    exact ⟨_, huid, _, hpwd, _, hdatabase, _, hhost, _, hport, _, hthreads, rfl⟩

theorem returns_loadObjectPool : Returns (loadObjectPool doc) σ () σ' ↔
    ∃ pool, PoolRead doc pool ∧ { σ with mObjectPoolConfig := pool } = σ' := by
  simp only [loadObjectPool, returns_bind, Value.returns_index, Value.returns_intOf,
    returns_setPool, and_assoc, exists_eq_left', exists_and_left, exists_const]
  constructor
  · rintro ⟨objectPool, hv, packet, hpacket, dbPacket, hdbPacket, job, hjob, rfl⟩
    refine ⟨⟨packet, dbPacket, job⟩, ⟨?_, ?_, ?_⟩, rfl⟩
    · exact (Value.intAt_member hv).trans hpacket
    · exact (Value.intAt_member hv).trans hdbPacket
    · exact (Value.intAt_member hv).trans hjob
  · rintro ⟨pool, ⟨hpacket, hdbPacket, hjob⟩, rfl⟩
    obtain ⟨objectPool, hv⟩ := Value.member_of_intAt hpacket
    rw [Value.intAt_member hv] at hpacket hdbPacket hjob
    exact ⟨objectPool, hv, _, hpacket, _, hdbPacket, _, hjob, rfl⟩

theorem insert_isSome {dbConfig : DBConfigData} {name' : List UInt8} :
    ((σ.insert name dbConfig).mDBConfigDataMap name').isSome ↔
      (σ.mDBConfigDataMap name').isSome ∨ name' = name := by
  unfold insert
  by_cases hname : name' = name
  · subst hname
    split
    · next h => simp [h]
    · simp
  · split
    · simp [hname]
    · simp [hname]

theorem of_insert {dbConfig entry : DBConfigData} {name' : List UInt8}
    (h : (σ.insert name dbConfig).mDBConfigDataMap name' = some entry) :
    σ.mDBConfigDataMap name' = some entry ∨ name' = name ∧ dbConfig = entry := by
  simp only [insert] at h
  split at h
  · exact .inl h
  · by_cases hname : name' = name
    · subst hname
      rw [Function.update_self] at h
      exact .inr ⟨rfl, Option.some.inj h⟩
    · rw [Function.update_of_ne hname] at h
      exact .inl h

/-- The loop over the databases has added those of these names, and nothing else. -/
structure DBsLoaded (doc : Value) (names : List (List UInt8)) (σ σ' : ServerConfig) : Prop where
  frame : { σ with mDBConfigDataMap := σ'.mDBConfigDataMap } = σ'
  complete : ∀ name ∈ names, ∃ dbConfig, DBRead doc name dbConfig
  isSome : ∀ name, (σ'.mDBConfigDataMap name).isSome ↔
    (σ.mDBConfigDataMap name).isSome ∨ name ∈ names
  taken : ∀ name dbConfig, σ'.mDBConfigDataMap name = some dbConfig →
    σ.mDBConfigDataMap name = some dbConfig ∨ DBRead doc name dbConfig

theorem DBsLoaded.round {names : List (List UInt8)} {τ : ServerConfig} {dbConfig : DBConfigData}
    (h : DBsLoaded doc names σ τ) (hdb : DBRead doc name dbConfig) :
    DBsLoaded doc (names ++ [name]) σ (τ.insert name dbConfig) where
  frame := by
    have hframe := h.frame
    rw [ServerConfig.mk.injEq] at hframe
    rw [ServerConfig.mk.injEq]
    exact ⟨hframe.1, hframe.2.1, hframe.2.2.1, rfl, hframe.2.2.2.2⟩
  complete := by
    intro name' hname
    rcases List.mem_append.mp hname with hbefore | hlast
    · exact h.complete name' hbefore
    · obtain rfl := List.mem_singleton.mp hlast
      exact ⟨dbConfig, hdb⟩
  isSome := by
    intro name'
    rw [insert_isSome, h.isSome, List.mem_append, List.mem_singleton, or_assoc]
  taken := by
    intro name' entry hentry
    rcases of_insert hentry with hbefore | ⟨rfl, rfl⟩
    · exact h.taken name' entry hbefore
    · exact .inr hdb

/-- What the loop over the databases has done when it ends. -/
theorem loadDBs_loaded (h : Returns (loadDBs doc) σ () σ') :
    ∃ members, (doc.at? [bytes "DB"]).bind Value.asObject = some members ∧
      DBsLoaded doc (members.map fun member => cString member.1) σ σ' := by
  simp only [loadDBs, returns_bind, Value.returns_index, Value.returns_members, and_assoc,
    exists_eq_left', exists_and_left] at h
  obtain ⟨dbValue, hv, members, hmembers, hloop⟩ := h
  refine ⟨members, by simp [Value.at?, hv, hmembers], ?_⟩
  refine hloop.forM (fun before τ => DBsLoaded doc (before.map fun member => cString member.1) σ τ)
    ⟨rfl, by simp, by simp, fun _ _ h => .inl h⟩ ?_
  intro before member τ τ' u hbefore hround
  obtain ⟨dbConfig, hdb, rfl⟩ := (returns_loadDB hv).mp hround
  rw [List.map_append]
  exact hbefore.round hdb

variable {parse : List UInt8 → Option Value} {os : System} {configFile : List UInt8} {b : Bool}
  {fileSize : UInt64}

theorem returns_loadCPUCount {u : Unit} : Returns (loadCPUCount os) σ u σ' ↔
    { σ with mServerConfigData :=
      { σ.mServerConfigData with ProcessorCount := os.processorCount } } = σ' := returns_setData

/-- `LoadConfig` after its checks. -/
theorem returns_LoadConfig (hloaded : σ.mIsLoaded = false) (hfile : os.Finds fileSize) :
    Returns (LoadConfig parse os configFile) σ b σ' ↔
      ∃ τ, Returns (loadFile parse os configFile fileSize)
          { σ with mStrConfigFileName := configFile } b τ ∧
        { τ with
          mIsLoaded := b
          mServerConfigData :=
            { τ.mServerConfigData with ProcessorCount := os.processorCount } } = σ' := by
  obtain ⟨hpath, hexists, hregular, hsize⟩ := hfile
  simp only [LoadConfig, hloaded, hpath, hexists, hregular, hsize, returns_bind, returns_get,
    returns_modify, returns_loadCPUCount, returns_pure, and_assoc, exists_and_left,
    exists_eq_left', if_false, Bool.true_eq_false, Bool.false_eq_true, exists_const]
  constructor
  · rintro ⟨isLoaded, τ, hload, rfl, rfl⟩
    exact ⟨τ, hload, rfl⟩
  · rintro ⟨τ, hload, rfl⟩
    exact ⟨b, τ, hload, rfl, rfl⟩

/-- `_LoadConfig` after its checks. -/
theorem returns_loadFile (hname : configFile ≠ []) (hzero : fileSize ≠ 0)
    (hmax : fileSize ≠ 0xFFFFFFFFFFFFFFFF) (hopen : os.isOpen = true) (hfail : os.fail = false) :
    Returns (loadFile parse os configFile fileSize) σ b σ' ↔ true = b ∧ ∃ τ₁ τ₂ τ₃,
      Returns (loadMainListener (document parse os)) σ () τ₁ ∧
      Returns (loadDBs (document parse os)) τ₁ () τ₂ ∧
      Returns (loadObjectPool (document parse os)) τ₂ () τ₃ ∧
      Returns (loadCPUCount os) τ₃ () σ' := by
  have hsize : ¬(fileSize = 0 ∨ fileSize = 0xFFFFFFFFFFFFFFFF) := not_or.mpr ⟨hzero, hmax⟩
  simp only [loadFile, hname, hsize, hopen, hfail, if_false, Bool.true_eq_false,
    Bool.false_eq_true, returns_bind, returns_pure]
  constructor
  · rintro ⟨_, τ₁, hmain, _, τ₂, hdbs, _, τ₃, hpool, _, τ₄, hcount, hb, rfl⟩
    exact ⟨hb, τ₁, τ₂, τ₃, hmain, hdbs, hpool, hcount⟩
  · rintro ⟨hb, τ₁, τ₂, τ₃, hmain, hdbs, hpool, hcount⟩
    exact ⟨_, τ₁, hmain, _, τ₂, hdbs, _, τ₃, hpool, _, σ', hcount, hb, rfl⟩

/-- A file that is not read leaves the configuration as it is. -/
theorem LoadConfig_unread (h : ¬σ.Reads os configFile) :
    ∃ σ', Returns (LoadConfig parse os configFile) σ false σ' ∧ σ.SameData σ' ∧
      σ'.mIsLoaded = σ.mIsLoaded := by
  have hsame : σ.SameData σ := ⟨rfl, rfl, rfl⟩
  by_cases hloaded : σ.mIsLoaded = true
  · exact ⟨σ, by simp [LoadConfig, hloaded], hsame, rfl⟩
  by_cases hfinds : ∃ fileSize, os.Finds fileSize
  · obtain ⟨fileSize, hfinds⟩ := hfinds
    have hloaded : σ.mIsLoaded = false := by simpa using hloaded
    -- `_LoadConfig` refuses the file before it parses it
    have hfile (τ : ServerConfig) : Returns (loadFile parse os configFile fileSize) τ false τ := by
      unfold loadFile
      by_cases hname : configFile = []
      · simp [hname]
      by_cases hempty : fileSize = 0 ∨ fileSize = 0xFFFFFFFFFFFFFFFF
      · simp [hname, hempty]
      by_cases hopen : os.isOpen = false
      · simp [hname, hempty, hopen]
      by_cases hfail : os.fail = true
      · simp [hname, hempty, hopen, hfail]
      · refine absurd ⟨hloaded, ⟨fileSize, hfinds, ?_, ?_⟩, hname, ?_, ?_⟩ h
        · exact fun heq => hempty (.inl heq)
        · exact fun heq => hempty (.inr heq)
        · simpa using hopen
        · simpa using hfail
    refine ⟨_, (returns_LoadConfig hloaded hfinds).mpr ⟨_, hfile _, rfl⟩, ⟨rfl, rfl, rfl⟩, ?_⟩
    exact hloaded.symm
  · refine ⟨σ, ?_, hsame, rfl⟩
    unfold LoadConfig
    by_cases hpath : os.currentPath = false
    · simp [hpath]
    by_cases hexists : os.exists' = false
    · simp [hpath, hexists]
    by_cases hregular : os.isRegularFile = false
    · simp [hpath, hexists, hregular]
    cases hsize : os.fileSize with
    | none => simp [hpath, hexists, hregular]
    | some fileSize =>
      refine absurd ⟨fileSize, ?_, ?_, ?_, hsize⟩ hfinds
      · simpa using hpath
      · simpa using hexists
      · simpa using hregular

/-- A call that reads the file and returns has read the whole document. -/
theorem LoadConfig_read (h : σ.Reads os configFile)
    (hempty : ∀ name, σ.mDBConfigDataMap name = none)
    (hreturns : Returns (LoadConfig parse os configFile) σ b σ') :
    b = true ∧ Readable (document parse os) ∧ ReadFrom (document parse os) σ' ∧
      σ'.mIsLoaded = true := by
  obtain ⟨hloaded, ⟨fileSize, hfinds, hzero, hmax⟩, hname, hopen, hfail⟩ := h
  obtain ⟨τ, hfile, rfl⟩ := (returns_LoadConfig hloaded hfinds).mp hreturns
  obtain ⟨rfl, τ₁, τ₂, τ₃, hmain, hdbs, hpool, hcount⟩ :=
    (returns_loadFile hname hzero hmax hopen hfail).mp hfile
  obtain ⟨data, hdata, _, rfl⟩ := returns_loadMainListener.mp hmain
  obtain ⟨members, hmembers, hloop⟩ := loadDBs_loaded hdbs
  obtain ⟨pool, htaken, rfl⟩ := returns_loadObjectPool.mp hpool
  obtain rfl := returns_loadCPUCount.mp hcount
  have hframe : data = τ₂.mServerConfigData := congrArg mServerConfigData hloop.frame
  have hnames (name : List UInt8) : DBAsked (document parse os) name ↔
      name ∈ members.map fun member => cString member.1 := by
    simp only [DBAsked, hmembers, Option.some.injEq, exists_eq_left']
  refine ⟨rfl, ⟨⟨data, hdata⟩, by rw [hmembers]; rfl, ?_, ⟨pool, htaken⟩⟩,
    ⟨?_, ?_, ?_, htaken⟩, rfl⟩
  · intro name hname
    exact hloop.complete name ((hnames name).mp hname)
  · rw [← hframe]
    exact hdata.setProcessorCount os.processorCount
  · intro name dbConfig hentry
    rcases hloop.taken name dbConfig hentry with hbefore | hdb
    · rw [hempty] at hbefore
      exact absurd hbefore.symm (Option.some_ne_none dbConfig)
    · exact hdb
  · intro name
    rw [hnames, hloop.isSome, hempty, Option.isSome_none]
    simp

/-- What calls of `LoadConfig` make of the configuration. A failed assertion ends the program. -/
inductive Reached (parse : List UInt8 → Option Value) : ServerConfig → Prop
  | construct : Reached parse .construct
  | call (os : System) (configFile : List UInt8) (b : Bool) {σ σ' : ServerConfig} :
      Reached parse σ → Returns (LoadConfig parse os configFile) σ b σ' → Reached parse σ'

/-- Before it is loaded the configuration has no databases. -/
theorem Reached.empty (h : Reached parse σ) (hloaded : σ.mIsLoaded = false) :
    ∀ name, σ.mDBConfigDataMap name = none := by
  induction h with
  | construct => exact fun _ => rfl
  | @call os configFile b σ σ' _ hreturns ih =>
    by_cases hreads : σ.Reads os configFile
    · obtain ⟨_, _, _, hloaded'⟩ := LoadConfig_read hreads (ih hreads.1) hreturns
      rw [hloaded] at hloaded'
      exact absurd hloaded' Bool.false_ne_true
    · obtain ⟨τ, hunread, hsame, heq⟩ := LoadConfig_unread hreads
      obtain ⟨_, rfl⟩ := hreturns.unique hunread
      rw [hsame.map]
      exact ih (heq.symm.trans hloaded)

end ServerConfig

section Document

variable {v w : Value} {name s text : List UInt8} {path : List (List UInt8)} {n : Int32}

theorem zero_notMem_cString (s : List UInt8) : 0 ∉ cString s := by
  intro hmem
  have hne := List.mem_takeWhile_imp hmem
  simp at hne

theorem cString_of_notMem (h : 0 ∉ s) : cString s = s := by
  apply List.takeWhile_eq_self_iff.mpr
  intro byte hbyte
  simp only [ne_eq, decide_eq_true_eq]
  rintro rfl
  exact h hbyte

/-- `FindMember` finds the first of the members of a name. -/
theorem Value.findMember_eq (v : Value) (name : List UInt8) :
    v.findMember name = (v.valuesOf name).head? := by
  cases v with
  | object members => rw [findMember, valuesOf, List.head?_map, List.head?_filter]
  | _ => rfl

theorem Value.Only.findMember (h : v.Only name w) : v.findMember name = some w := by
  rw [findMember_eq, h, List.head?_cons]

theorem Value.OnlyAt.at? (h : v.OnlyAt path w) : v.at? path = some w := by
  induction path generalizing v with
  | nil => exact congrArg some h
  | cons name path ih =>
    obtain ⟨u, hu, hrest⟩ := h
    rw [Value.at?, hu.findMember, Option.bind_some, ih hrest]

theorem Value.OnlyAt.intAt (h : v.OnlyAt path (.int n)) : v.intAt path = some n := by
  rw [Value.intAt, h.at?]
  rfl

/-- What `GetString` gives ends before the first NUL. -/
theorem Value.zero_notMem_stringAt (h : v.stringAt path = some text) : 0 ∉ text := by
  obtain ⟨w, _, hw⟩ := Option.bind_eq_some_iff.mp h
  cases w with
  | string s =>
    obtain rfl := Option.some.inj hw
    exact zero_notMem_cString s
  | _ => exact absurd hw.symm (Option.some_ne_none _)

theorem Value.HasInt.intAt_iff (h : v.HasInt path) :
    v.intAt path = some n ↔ v.OnlyAt path (.int n) := by
  obtain ⟨m, hm⟩ := h
  constructor
  · intro hread
    obtain rfl := Option.some.inj (hm.intAt.symm.trans hread)
    exact hm
  · exact Value.OnlyAt.intAt

/-- A string without NUL is read whole. -/
theorem Value.HasText.stringAt_iff (h : v.HasText path) :
    v.stringAt path = some text ↔ v.OnlyAt path (.string text) := by
  obtain ⟨s, hs, hzero⟩ := h
  have hread : v.stringAt path = some s := by
    rw [Value.stringAt, hs.at?, Option.bind_some, Value.asString, cString_of_notMem hzero]
  constructor
  · intro htext
    obtain rfl := Option.some.inj (hread.symm.trans htext)
    exact hs
  · intro htext
    have hsame := Option.some.inj (hs.at?.symm.trans htext.at?)
    obtain rfl := Value.string.inj hsame
    exact hread

theorem Value.HasInt.read (h : v.HasInt path) : ∃ n, v.intAt path = some n := by
  obtain ⟨n, hn⟩ := h
  exact ⟨n, hn.intAt⟩

theorem Value.HasText.read (h : v.HasText path) : ∃ text, v.stringAt path = some text := by
  obtain ⟨s, hs, hzero⟩ := h
  exact ⟨s, (Value.HasText.stringAt_iff ⟨s, hs, hzero⟩).mpr hs⟩

/-- The member of a name, where no two members have the same name. -/
theorem findMember_of_mem {members : List (List UInt8 × Value)}
    (hnames : (members.map Prod.fst).Nodup) {member : List UInt8 × Value}
    (hmem : member ∈ members) : (Value.object members).findMember member.1 = some member.2 := by
  obtain ⟨found, hfind⟩ := Option.isSome_iff_exists.mp
    (List.find?_isSome.mpr ⟨member, hmem, decide_eq_true rfl⟩ :
      (members.find? fun m => m.1 = member.1).isSome)
  have hname : found.1 = member.1 := by simpa using List.find?_some hfind
  have hsame := List.inj_on_of_nodup_map hnames (List.mem_of_find?_eq_some hfind) hmem hname
  rw [Value.findMember, hfind, hsame, Option.map_some]

variable {doc : Value} {data : ServerConfigData} {pool : ObjectPoolConfig}

theorem ListenerComplete.taken_iff (h : ListenerComplete doc) :
    DataRead doc data ↔ DataTaken doc data := by
  constructor
  · rintro ⟨hname, hmax, hport, hthreads, haddr⟩
    exact ⟨h.ProcessName.stringAt_iff.mp hname, h.MaxConnectCount.intAt_iff.mp hmax,
      h.BindPort.intAt_iff.mp hport, h.NetworkThreadCount.intAt_iff.mp hthreads,
      h.BindAddress.stringAt_iff.mp haddr⟩
  · rintro ⟨hname, hmax, hport, hthreads, haddr⟩
    exact ⟨h.ProcessName.stringAt_iff.mpr hname, hmax.intAt, hport.intAt, hthreads.intAt,
      h.BindAddress.stringAt_iff.mpr haddr⟩

theorem ListenerComplete.read (h : ListenerComplete doc) : ∃ data, DataRead doc data := by
  obtain ⟨processName, hname⟩ := h.ProcessName.read
  obtain ⟨maxConnectCount, hmax⟩ := h.MaxConnectCount.read
  obtain ⟨bindPort, hport⟩ := h.BindPort.read
  obtain ⟨networkThreadCount, hthreads⟩ := h.NetworkThreadCount.read
  obtain ⟨bindAddr, haddr⟩ := h.BindAddress.read
  exact ⟨⟨processName, maxConnectCount, bindPort, networkThreadCount, 0, bindAddr⟩, hname, hmax,
    hport, hthreads, haddr⟩

theorem PoolComplete.taken_iff (h : PoolComplete doc) : PoolRead doc pool ↔ PoolTaken doc pool := by
  constructor
  · rintro ⟨hpacket, hdbPacket, hjob⟩
    exact ⟨h.Packet.intAt_iff.mp hpacket, h.DBPacket.intAt_iff.mp hdbPacket,
      h.Job.intAt_iff.mp hjob⟩
  · rintro ⟨hpacket, hdbPacket, hjob⟩
    exact ⟨hpacket.intAt, hdbPacket.intAt, hjob.intAt⟩

theorem PoolComplete.read (h : PoolComplete doc) : ∃ pool, PoolRead doc pool := by
  obtain ⟨packet, hpacket⟩ := h.Packet.read
  obtain ⟨dbPacket, hdbPacket⟩ := h.DBPacket.read
  obtain ⟨job, hjob⟩ := h.Job.read
  exact ⟨⟨packet, dbPacket, job⟩, hpacket, hdbPacket, hjob⟩

section Databases

variable {members : List (List UInt8 × Value)} {member : List UInt8 × Value}
  {dbConfig : DBConfigData}

/-- What is read under the name of a member is read from that member. -/
theorem stringAt_member (hdb : doc.Only (bytes "DB") (.object members))
    (hnames : (members.map Prod.fst).Nodup) (hmem : member ∈ members) :
    doc.stringAt (bytes "DB" :: member.1 :: path) = member.2.stringAt path := by
  rw [Value.stringAt_member hdb.findMember, Value.stringAt_member (findMember_of_mem hnames hmem)]

theorem intAt_member (hdb : doc.Only (bytes "DB") (.object members))
    (hnames : (members.map Prod.fst).Nodup) (hmem : member ∈ members) :
    doc.intAt (bytes "DB" :: member.1 :: path) = member.2.intAt path := by
  rw [Value.intAt_member hdb.findMember, Value.intAt_member (findMember_of_mem hnames hmem)]

theorem DBComplete.taken (h : DBComplete member) (hdb : doc.Only (bytes "DB") (.object members))
    (hnames : (members.map Prod.fst).Nodup) (hmem : member ∈ members)
    (hread : DBRead doc member.1 dbConfig) : DBTaken member (member.1, dbConfig) := by
  obtain ⟨huid, hpwd, hdatabase, hhost, hport, hthreads⟩ := hread
  rw [stringAt_member hdb hnames hmem] at huid hpwd hdatabase hhost
  rw [intAt_member hdb hnames hmem] at hport hthreads
  exact ⟨rfl, h.UID.stringAt_iff.mp huid, h.PWD.stringAt_iff.mp hpwd,
    h.DATABASE.stringAt_iff.mp hdatabase, h.HOST.stringAt_iff.mp hhost, h.PORT.intAt_iff.mp hport,
    h.THREADS.intAt_iff.mp hthreads⟩

theorem DBComplete.read (h : DBComplete member) (hdb : doc.Only (bytes "DB") (.object members))
    (hnames : (members.map Prod.fst).Nodup) (hmem : member ∈ members) :
    ∃ dbConfig, DBRead doc member.1 dbConfig := by
  obtain ⟨uid, huid⟩ := h.UID.read
  obtain ⟨pwd, hpwd⟩ := h.PWD.read
  obtain ⟨database, hdatabase⟩ := h.DATABASE.read
  obtain ⟨host, hhost⟩ := h.HOST.read
  obtain ⟨port, hport⟩ := h.PORT.read
  obtain ⟨threads, hthreads⟩ := h.THREADS.read
  rw [← stringAt_member hdb hnames hmem] at huid hpwd hdatabase hhost
  rw [← intAt_member hdb hnames hmem] at hport hthreads
  exact ⟨⟨uid, pwd, database, host, port, threads⟩, huid, hpwd, hdatabase, hhost, hport, hthreads⟩

/-- The names of the loop are those of the members. -/
theorem DBAsked_iff (hdb : doc.Only (bytes "DB") (.object members))
    (hzero : ∀ member ∈ members, 0 ∉ member.1) :
    DBAsked doc name ↔ name ∈ members.map Prod.fst := by
  have hobject : (doc.at? [bytes "DB"]).bind Value.asObject = some members := by
    rw [Value.at?, hdb.findMember]
    rfl
  have hnames : (members.map fun member => cString member.1) = members.map Prod.fst :=
    List.map_congr_left fun member hmem => cString_of_notMem (hzero member hmem)
  simp only [DBAsked, hobject, Option.some.injEq, exists_eq_left', hnames]

theorem DBTaken.names {entries : List (List UInt8 × DBConfigData)}
    (h : List.Forall₂ DBTaken members entries) : entries.map Prod.fst = members.map Prod.fst := by
  induction h with
  | nil => rfl
  | cons hhead _ ih => rw [List.map_cons, List.map_cons, hhead.name, ih]

theorem DBTaken.exists_entry {entries : List (List UInt8 × DBConfigData)}
    (h : List.Forall₂ DBTaken members entries) (hmem : member ∈ members) :
    ∃ entry ∈ entries, DBTaken member entry := by
  induction h with
  | nil => exact absurd hmem List.not_mem_nil
  | @cons first entry rest entries hhead _ ih =>
    rcases List.mem_cons.mp hmem with rfl | hrest
    · exact ⟨entry, List.mem_cons_self, hhead⟩
    · obtain ⟨found, hfound, htaken⟩ := ih hrest
      exact ⟨found, List.mem_cons_of_mem entry hfound, htaken⟩

/-- What is taken of a member that the code reads has no NUL. -/
theorem DBTaken.complete {entry : List UInt8 × DBConfigData} (h : DBTaken member entry)
    (hname : 0 ∉ entry.1) (hread : DBRead doc entry.1 entry.2) : DBComplete member where
  name := h.name ▸ hname
  UID := ⟨_, h.UID, Value.zero_notMem_stringAt hread.UID⟩
  PWD := ⟨_, h.PWD, Value.zero_notMem_stringAt hread.PWD⟩
  DATABASE := ⟨_, h.DATABASE, Value.zero_notMem_stringAt hread.DATABASE⟩
  HOST := ⟨_, h.HOST, Value.zero_notMem_stringAt hread.HOST⟩
  PORT := ⟨_, h.PORT⟩
  THREADS := ⟨_, h.THREADS⟩

end Databases

variable {σ : ServerConfig}

/-- Of a complete document all that is read is taken. -/
theorem ReadFrom.taken (h : ReadFrom doc σ) (hdoc : Complete doc) : Taken doc σ := by
  obtain ⟨hlistener, ⟨members, hdb, hnames, hmembers⟩, hpool⟩ := hdoc
  have hzero : ∀ member ∈ members, 0 ∉ member.1 := fun member hmem => (hmembers member hmem).name
  have hasked (name : List UInt8) : (σ.mDBConfigDataMap name).isSome ↔
      name ∈ members.map Prod.fst := (h.names name).trans (DBAsked_iff hdb hzero)
  let entry : List UInt8 × Value → List UInt8 × DBConfigData := fun member =>
    (member.1, (σ.mDBConfigDataMap member.1).getD ⟨[], [], [], [], 0, 0⟩)
  have hentry : ∀ member ∈ members, σ.mDBConfigDataMap member.1 = some (entry member).2 := by
    intro member hmem
    obtain ⟨dbConfig, hconfig⟩ := Option.isSome_iff_exists.mp
      ((hasked member.1).mpr (List.mem_map_of_mem hmem))
    simp only [entry, hconfig, Option.getD_some]
  refine ⟨hlistener.taken_iff.mp h.data, ⟨members, members.map entry, hdb, ⟨?_, ?_⟩, ?_⟩,
    hpool.taken_iff.mp h.pool⟩
  · rwa [List.map_map]
  · intro name dbConfig
    constructor
    · intro hconfig
      obtain ⟨member, hmem, rfl⟩ := List.mem_map.mp
        ((hasked name).mp (Option.isSome_iff_exists.mpr ⟨dbConfig, hconfig⟩))
      obtain rfl := Option.some.inj (hconfig.symm.trans (hentry member hmem))
      exact List.mem_map_of_mem hmem
    · intro hmem
      obtain ⟨member, hmember, heq⟩ := List.mem_map.mp hmem
      obtain ⟨rfl, rfl⟩ := Prod.mk.inj heq
      exact hentry member hmember
  · apply List.forall₂_map_right_iff.mpr
    apply List.forall₂_same.mpr
    intro member hmem
    exact (hmembers member hmem).taken hdb hnames hmem (h.databases _ _ (hentry member hmem))

/-- A document of which all is taken as it stands is complete: the code reads no NUL. -/
theorem Taken.complete (h : Taken doc σ) (hread : ReadFrom doc σ) : Complete doc := by
  obtain ⟨hdata, ⟨members, entries, hdb, hentries, htaken⟩, hpool⟩ := h
  have hnames : (members.map Prod.fst).Nodup := by
    rw [← DBTaken.names htaken]
    exact hentries.nodup
  refine ⟨⟨⟨_, hdata.ProcessName, Value.zero_notMem_stringAt hread.data.ProcessName⟩,
      ⟨_, hdata.MaxConnectCount⟩, ⟨_, hdata.BindPort⟩, ⟨_, hdata.NetworkThreadCount⟩,
      ⟨_, hdata.BindAddress, Value.zero_notMem_stringAt hread.data.BindAddress⟩⟩,
    ⟨members, hdb, hnames, ?_⟩,
    ⟨⟨_, hpool.Packet⟩, ⟨_, hpool.DBPacket⟩, ⟨_, hpool.Job⟩⟩⟩
  intro member hmem
  obtain ⟨entry, hentry, hmember⟩ := DBTaken.exists_entry htaken hmem
  have hconfig := (hentries.mem entry.1 entry.2).mpr hentry
  obtain ⟨_, _, hasked⟩ := (hread.names entry.1).mp (Option.isSome_iff_exists.mpr ⟨_, hconfig⟩)
  obtain ⟨asked, _, heq⟩ := List.mem_map.mp hasked
  refine hmember.complete ?_ (hread.databases _ _ hconfig)
  rw [← heq]
  exact zero_notMem_cString asked.1

end Document

open ServerConfig

variable {parse : List UInt8 → Option Value} {σ : ServerConfig}

end ServerCore.Config
