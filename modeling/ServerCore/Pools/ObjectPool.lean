import ServerCore.Framework.Machine

namespace ServerCore.Pools

open Framework

/-- An `ObjectPool<T>`. A pointer is a 64-bit address, null is 0. `raw` are the objects that
callers of `New` hold, `shared` those that a `shared_ptr` of `Acquire` owns. The last three fields
are history: all that `mi_malloc` returned, how often the destructor of an object ran since its
last construction, and all that was added to `mAllocCount`. -/
structure ObjectPool where
  mPool : List ℕ
  mAllocCount : ℕ
  raw : List ℕ
  shared : List ℕ
  allocated : List ℕ
  destroyed : ℕ → ℕ
  added : ℕ

/-- Positions between the sections of a call that hold `mLock`. -/
inductive ObjectFrame where
  /-- `New` called by a user of the pool; its section is next. -/
  | new
  /-- `New` called by `Acquire`; its section is next. -/
  | acquire
  /-- The construction of the `shared_ptr` is next. -/
  | makeShared (row : ℕ)
  /-- `Release` called by `Delete` or a deleter; its section is next. -/
  | release (obj : ℕ)
  /-- `Reserve`: `temp.reserve(size)` and the section that fills `temp` are next. -/
  | reserve (size : ℕ)
  /-- `Reserve`: `Release` of the first pointer of `temp` is next, or the read of `mAllocCount`. -/
  | releaseAll (temp : List ℕ) (size : ℕ)
  /-- `Reserve`: the write of `mAllocCount + size` is next. -/
  | writeCount (size mAllocCount : ℕ)
  | getUsingCount
  | getAllocCount
  /-- `std::bad_alloc` left the loop of `Reserve`. Nothing on the way from `main` catches it: the
  thread does not go on, and `temp` is not unwound. -/
  | badAlloc (temp : List ℕ)
  deriving DecidableEq

inductive ObjectChoice where
  | go
  | callNew
  | callAcquire
  | callDelete (obj : ℕ)
  | callReserve (size : ℕ)
  | callGetUsingCount
  | callGetAllocCount
  /-- The last `shared_ptr` to an object dies and runs its deleter. -/
  | lastOwner (obj : ℕ)
  /-- What `mi_malloc` returns, should it be called. -/
  | malloc (raw : ℕ)
  /-- What `mi_malloc` returns from call to call. -/
  | mallocs (raws : List ℕ)
  /-- `operator new` throws, for the control block of a `shared_ptr` or for `temp`. -/
  | noMemory
  deriving DecidableEq

namespace ObjectPool

def construct (p : ObjectPool) (ptr : ℕ) : ObjectPool :=
  { p with destroyed := Function.update p.destroyed ptr 0 }

/-- `mi_malloc` returns null or an address that is not in use. -/
def answers (p : ObjectPool) (raw : ℕ) : Prop := raw = 0 ∨ raw < 2 ^ 64 ∧ raw ∉ p.allocated

instance (p : ObjectPool) (raw : ℕ) : Decidable (p.answers raw) :=
  inferInstanceAs (Decidable (_ ∨ _))

/-- `make_mimalloc`; `none` is `std::bad_alloc`. -/
def makeMimalloc (p : ObjectPool) (raw : ℕ) : Option ObjectPool :=
  if raw = 0 then none
  else some (construct { p with allocated := raw :: p.allocated } raw)

/-- The section of `New`. No constructor of a pooled type calls its own pool. -/
def new (p : ObjectPool) (raw : ℕ) : Option (ObjectPool × ℕ) :=
  match p.mPool with
  | [] => (p.makeMimalloc raw).map fun p =>
      ({ p with mAllocCount := (p.mAllocCount + 1) % 2 ^ 64, added := p.added + 1 }, raw)
  | ptr :: rest => some ({ p.construct ptr with mPool := rest }, ptr)

/-- The section of `Release`. Objects that the destructor gives back under the recursive lock are
in the pool before the push: their sections come first. -/
def release (p : ObjectPool) (obj : ℕ) : ObjectPool :=
  if obj ≠ 0 then
    { p with
      destroyed := Function.update p.destroyed obj (p.destroyed obj + 1)
      mPool := obj :: p.mPool }
  else p

/-- The loop of `Reserve` over what `mi_malloc` returns: `temp`, and whether the loop ended without
`std::bad_alloc`. -/
def fill (p : ObjectPool) : List ℕ → Option (ObjectPool × List ℕ × Bool)
  | [] => some (p, [], true)
  | raw :: raws =>
      if p.answers raw then
        match p.makeMimalloc raw with
        | none => some (p, [], false)
        | some p' => (fill p' raws).map fun r => (r.1, raw :: r.2.1, r.2.2)
      else none

/-- `size_t` is unsigned. -/
def getUsingCount (p : ObjectPool) : Int := ((p.mAllocCount : Int) - p.mPool.length) % 2 ^ 64

def getAllocCount (p : ObjectPool) : ℕ := p.mAllocCount

end ObjectPool

variable {T : Type}

/-- An exception of a constructor, or of the push in `Release`, is not caught: a thread that throws
it takes no more steps. -/
def objectStep (p : ObjectPool) (_ : T) :
    ObjectFrame → ObjectChoice → Option (ObjectPool × List ObjectFrame)
  | .new, .malloc raw =>
      if p.answers raw then
        match p.new raw with
        | none => some (p, [])
        | some (p, ptr) => some ({ p with raw := ptr :: p.raw }, [])
      else none
  | .acquire, .malloc raw =>
      if p.answers raw then
        match p.new raw with
        | none => some (p, [])
        | some (p, row) => some (p, [.makeShared row])
      else none
  | .makeShared row, .go => some ({ p with shared := row :: p.shared }, [])
  -- the `shared_ptr` that cannot be made calls its deleter
  | .makeShared row, .noMemory => some (p, [.release row])
  | .release obj, .go => some (p.release obj, [])
  | .reserve _, .noMemory => some (p, [])
  | .reserve size, .mallocs raws =>
      if raws.length = size then
        (p.fill raws).map fun r =>
          (r.1, if r.2.2 then [.releaseAll r.2.1 size] else [.badAlloc r.2.1])
      else none
  | .releaseAll (ptr :: temp) size, .go => some (p.release ptr, [.releaseAll temp size])
  | .releaseAll [] size, .go => some (p, [.writeCount size p.mAllocCount])
  | .writeCount size count, .go =>
      some ({ p with mAllocCount := (count + size) % 2 ^ 64, added := p.added + size }, [])
  | .getUsingCount, .go | .getAllocCount, .go => some (p, [])
  | _, _ => none

/-- A call from outside the pool, or by a destructor that a section runs. Each object is given back
by the one that holds it. -/
def objectEnter (p : ObjectPool) (_ : T → List ObjectFrame) (_ : T) :
    ObjectChoice → Option (ObjectPool × ObjectFrame)
  | .callNew => some (p, .new)
  | .callAcquire => some (p, .acquire)
  | .callDelete obj =>
      if obj = 0 then some (p, .release 0)
      else if obj ∈ p.raw then some ({ p with raw := p.raw.erase obj }, .release obj)
      else none
  | .lastOwner obj =>
      if obj ∈ p.shared then some ({ p with shared := p.shared.erase obj }, .release obj) else none
  | .callReserve size => if size < 2 ^ 64 then some (p, .reserve size) else none
  | .callGetUsingCount => some (p, .getUsingCount)
  | .callGetAllocCount => some (p, .getAllocCount)
  | _ => none

/-- Any number of threads over one pool. -/
def objectMachine : Machine T ObjectPool ObjectFrame ObjectChoice :=
  ⟨objectEnter, objectStep, fun _ _ => none⟩

abbrev ObjectConf (T : Type) : Type := Conf T ObjectPool ObjectFrame

def objectStart : ObjectConf T := ⟨⟨[], 0, [], [], [], fun _ => 0, 0⟩, fun _ => []⟩

end ServerCore.Pools
