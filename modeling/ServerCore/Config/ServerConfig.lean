import ServerCore.Framework.Asserting
import Mathlib.Logic.Function.Basic

namespace ServerCore.Config

open Framework Asserting

/-- The bytes of a literal. -/
def bytes (literal : String) : List UInt8 := literal.toList.map fun c => c.toNat.toUInt8

/-- What a `const char*` to the bytes tells of them. -/
def cString (s : List UInt8) : List UInt8 := s.takeWhile (· ≠ 0)

/-- `rapidjson::Value`. A `number` is one that is no 32-bit integer. -/
inductive Value where
  | null
  | bool (b : Bool)
  | int (n : Int32)
  | number
  | string (s : List UInt8)
  | array (elements : List Value)
  | object (members : List (List UInt8 × Value))

/-- The assertions of RapidJSON by the operation that makes them. -/
inductive Assertion where
  | operatorIndex
  | getString
  | getInt
  | memberBegin
  deriving DecidableEq

namespace Value

/-- `FindMember`, on objects. -/
def findMember : Value → List UInt8 → Option Value
  | .object members, name => (members.find? fun member => member.1 = name).map Prod.snd
  | _, _ => none

def asString : Value → Option (List UInt8)
  | .string s => some (cString s)
  | _ => none

def asInt : Value → Option Int32
  | .int n => some n
  | _ => none

def asObject : Value → Option (List (List UInt8 × Value))
  | .object members => some members
  | _ => none

variable {σ : Type}

/-- `operator[]`, which asserts that the value is an object with that member. -/
def index (v : Value) (name : List UInt8) : Asserting Assertion σ Value :=
  demand .operatorIndex (v.findMember name)

def getString (v : Value) : Asserting Assertion σ (List UInt8) := demand .getString v.asString

def getInt (v : Value) : Asserting Assertion σ Int32 := demand .getInt v.asInt

/-- What lies between `MemberBegin` and `MemberEnd`. -/
def members (v : Value) : Asserting Assertion σ (List (List UInt8 × Value)) :=
  demand .memberBegin v.asObject

/-- `v[name]`, and so on along a path of names. -/
def walk (v : Value) : List (List UInt8) → Asserting Assertion σ Value
  | [] => pure v
  | name :: path => do (← v.index name).walk path

def stringOf (v : Value) (path : List (List UInt8)) : Asserting Assertion σ (List UInt8) := do
  (← v.walk path).getString

def intOf (v : Value) (path : List (List UInt8)) : Asserting Assertion σ Int32 := do
  (← v.walk path).getInt

/-- The value at a path of names, without an assertion. -/
def at? : Value → List (List UInt8) → Option Value
  | v, [] => some v
  | v, name :: path => (v.findMember name).bind (·.at? path)

def stringAt (v : Value) (path : List (List UInt8)) : Option (List UInt8) :=
  (v.at? path).bind asString

def intAt (v : Value) (path : List (List UInt8)) : Option Int32 := (v.at? path).bind asInt

end Value

structure ServerConfigData where
  ProcessName : List UInt8
  MaxConnectCount : Int32
  BindPort : Int32
  NetworkThreadCount : Int32
  ProcessorCount : Int32
  BindAddr : List UInt8
  deriving DecidableEq

structure DBConfigData where
  UID : List UInt8
  PWD : List UInt8
  DATABASE : List UInt8
  HOST : List UInt8
  PORT : Int32
  THREAD_COUNT : Int32
  deriving DecidableEq

structure ObjectPoolConfig where
  Packet : Int32
  DBPacket : Int32
  Job : Int32
  deriving DecidableEq

structure ServerConfig where
  mIsLoaded : Bool
  mStrConfigFileName : List UInt8
  mServerConfigData : ServerConfigData
  mDBConfigDataMap : List UInt8 → Option DBConfigData
  mObjectPoolConfig : ObjectPoolConfig

/-- What the operating system answers during a call of `LoadConfig`. -/
structure System where
  /-- `current_path` reports no error. -/
  currentPath : Bool
  exists' : Bool
  isRegularFile : Bool
  /-- `file_size`, unless it reports an error. -/
  fileSize : Option UInt64
  isOpen : Bool
  fail : Bool
  json : List UInt8
  dwNumberOfProcessors : UInt32

/-- The file is there and has that size. -/
def System.Finds (os : System) (fileSize : UInt64) : Prop :=
  os.currentPath = true ∧ os.exists' = true ∧ os.isRegularFile = true ∧
    os.fileSize = some fileSize

/-- `ProcessorCount` after `_LoadCPUCount`. -/
def System.processorCount (os : System) : Int32 :=
  let count := os.dwNumberOfProcessors.toInt32
  if count ≤ 0 then 1 else count

namespace ServerConfig

def construct : ServerConfig :=
  ⟨false, [], ⟨[], 0, 0, 0, 0, []⟩, fun _ => none, ⟨0, 0, 0⟩⟩

/-- `mDBConfigDataMap.insert`, which keeps an entry that is there. -/
def insert (σ : ServerConfig) (name : List UInt8) (dbConfig : DBConfigData) : ServerConfig :=
  { σ with mDBConfigDataMap :=
      if (σ.mDBConfigDataMap name).isSome then σ.mDBConfigDataMap
      else Function.update σ.mDBConfigDataMap name (some dbConfig) }

abbrev Load (α : Type) : Type := Asserting Assertion ServerConfig α

/-- Changes `mServerConfigData`. -/
def setData (f : ServerConfigData → ServerConfigData) : Load Unit :=
  modify fun σ => { σ with mServerConfigData := f σ.mServerConfigData }

/-- Changes `mObjectPoolConfig`. -/
def setPool (f : ObjectPoolConfig → ObjectPoolConfig) : Load Unit :=
  modify fun σ => { σ with mObjectPoolConfig := f σ.mObjectPoolConfig }

/-- `_LoadCPUCount`. -/
def loadCPUCount (os : System) : Load Unit :=
  setData fun d => { d with ProcessorCount := os.processorCount }

/-- The first part of `_LoadConfig`. -/
def loadMainListener (doc : Value) : Load Unit := do
  let mainValue ← doc.index (bytes "MainListener")
  let processName ← mainValue.stringOf [bytes "ProcessName"]
  setData fun d => { d with ProcessName := processName }
  let maxConnectCount ← mainValue.intOf [bytes "MaxConnectCount"]
  setData fun d => { d with MaxConnectCount := maxConnectCount }
  let bindPort ← mainValue.intOf [bytes "BindPort"]
  setData fun d => { d with BindPort := bindPort }
  let networkThreadCount ← mainValue.intOf [bytes "NetworkThreadCount"]
  setData fun d => { d with NetworkThreadCount := networkThreadCount }
  let bindAddr ← mainValue.stringOf [bytes "BindAddress"]
  setData fun d => { d with BindAddr := bindAddr }

/-- One round of the loop over the databases. Each line looks the database up by its name. -/
def loadDB (dbValue : Value) (name : List UInt8) : Load Unit := do
  let uid ← dbValue.stringOf [name, bytes "UID"]
  let pwd ← dbValue.stringOf [name, bytes "PWD"]
  let database ← dbValue.stringOf [name, bytes "DATABASE"]
  let host ← dbValue.stringOf [name, bytes "HOST"]
  let port ← dbValue.intOf [name, bytes "PORT"]
  let threads ← dbValue.intOf [name, bytes "THREADS"]
  modify (·.insert name ⟨uid, pwd, database, host, port, threads⟩)

def loadDBs (doc : Value) : Load Unit := do
  let dbValue ← doc.index (bytes "DB")
  let members ← dbValue.members
  members.forM fun itr => loadDB dbValue (cString itr.1)

def loadObjectPool (doc : Value) : Load Unit := do
  let objectPoolValue ← doc.index (bytes "ObjectPool")
  let packet ← objectPoolValue.intOf [bytes "Packet"]
  setPool fun pool => { pool with Packet := packet }
  let dbPacket ← objectPoolValue.intOf [bytes "DBPacket"]
  setPool fun pool => { pool with DBPacket := dbPacket }
  let job ← objectPoolValue.intOf [bytes "Job"]
  setPool fun pool => { pool with Job := job }

/-- `doc.Parse(json.c_str())`. A text that `parse` refuses leaves the document null, and nothing
asks for the error. -/
def document (parse : List UInt8 → Option Value) (os : System) : Value :=
  (parse (cString os.json)).getD .null

/-- `_LoadConfig`. -/
def loadFile (parse : List UInt8 → Option Value) (os : System) (configFile : List UInt8)
    (fileSize : UInt64) : Load Bool := do
  if configFile = [] then return false
  if fileSize = 0 ∨ fileSize = 0xFFFFFFFFFFFFFFFF then return false
  if os.isOpen = false then return false
  if os.fail then return false
  let doc := document parse os
  loadMainListener doc
  loadDBs doc
  loadObjectPool doc
  loadCPUCount os
  return true

def LoadConfig (parse : List UInt8 → Option Value) (os : System) (configFile : List UInt8) :
    Load Bool := do
  if (← get).mIsLoaded then return false
  if os.currentPath = false then return false
  if os.exists' = false then return false
  if os.isRegularFile = false then return false
  match os.fileSize with
  | none => return false
  | some fileSize =>
    modify fun σ => { σ with mStrConfigFileName := configFile }
    let isLoaded ← loadFile parse os configFile fileSize
    modify fun σ => { σ with mIsLoaded := isLoaded }
    loadCPUCount os
    return (← get).mIsLoaded

end ServerConfig

end ServerCore.Config
