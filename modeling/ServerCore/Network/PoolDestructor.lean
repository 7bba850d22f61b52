import ServerCore.Framework.ConcurrentQueue

namespace ServerCore.Network

open Framework

/-- `try_dequeue` on a queue that no other thread uses: it fails exactly on the empty queue. -/
structure LawfulTryDequeue {T B : Type} [DecidableEq T]
    (tryDequeue : ConcurrentQueue T B → Option (B × ConcurrentQueue T B)) : Prop where
  none_iff : ∀ q, tryDequeue q = none ↔ q = []
  taken : ∀ q b rest, tryDequeue q = some (b, rest) →
    ∃ producer, ConcurrentQueue.takeFrom producer q = some (b, rest)

/-- What the destructor of `RegisteredBufferPool` has in hand: `ptr` is null at first, and `freed`
are the pointers that were passed to `mi_free`. `B` are the addresses of buffers, none of them
null: `AllocBuffer` throws instead, and `Release` checks. -/
structure Drain (T B : Type) where
  mQueue : ConcurrentQueue T B
  ptr : Option B
  freed : List B

namespace Drain

variable {T B : Type}

def start (q : ConcurrentQueue T B) : Drain T B := ⟨q, none, []⟩

/-- The body of the loop. -/
def body (d : Drain T B) : Drain T B :=
  match d.ptr with
  | none => d
  | some ptr => { d with freed := ptr :: d.freed }

/-- `while (!mQueue.try_dequeue(ptr))`, for at most `fuel` calls. -/
def loop (tryDequeue : ConcurrentQueue T B → Option (B × ConcurrentQueue T B)) :
    ℕ → Drain T B → Option (Drain T B)
  | 0, _ => none
  | fuel + 1, d =>
      match tryDequeue d.mQueue with
      | none => loop tryDequeue fuel d.body
      | some (ptr, rest) => some { d with mQueue := rest, ptr := some ptr }

/-- The loop ends, with an empty queue and each queued buffer freed once. -/
def FreesAll (tryDequeue : ConcurrentQueue T B → Option (B × ConcurrentQueue T B))
    (q : ConcurrentQueue T B) : Prop :=
  ∃ fuel d, loop tryDequeue fuel (start q) = some d ∧ d.mQueue = [] ∧
    d.freed.Perm (q.map Prod.snd)

variable [DecidableEq T]
  {tryDequeue : ConcurrentQueue T B → Option (B × ConcurrentQueue T B)}

/-- On an empty queue the loop goes on for ever. -/
theorem loop_empty (law : LawfulTryDequeue tryDequeue) (fuel : ℕ) :
    loop tryDequeue fuel (start []) = none := by
  have hnone := (law.none_iff []).mpr rfl
  induction fuel with
  | zero => rfl
  | succ fuel ih =>
    rw [loop, start, hnone]
    exact ih

/-- On any other queue it ends with the first buffer, and frees none. -/
theorem loop_cons (law : LawfulTryDequeue tryDequeue) {q : ConcurrentQueue T B} (hq : q ≠ [])
    {fuel : ℕ} {d : Drain T B} (h : loop tryDequeue fuel (start q) = some d) :
    d.freed = [] ∧ ∃ producer ptr, q.Perm ((producer, ptr) :: d.mQueue) ∧ d.ptr = some ptr := by
  cases fuel with
  | zero => exact absurd h.symm (Option.some_ne_none _)
  | succ fuel =>
    rw [loop, start] at h
    cases hdequeue : tryDequeue q with
    | none => exact absurd ((law.none_iff q).mp hdequeue) hq
    | some r =>
      obtain ⟨ptr, rest⟩ := r
      rw [hdequeue] at h
      obtain rfl := Option.some.inj h
      obtain ⟨producer, htake⟩ := law.taken q ptr rest hdequeue
      exact ⟨rfl, producer, ptr, (ConcurrentQueue.takeFrom_spec htake).1, rfl⟩

/-- Whatever is queued, the loop does not end or loses it. -/
theorem never_freesAll (law : LawfulTryDequeue tryDequeue) (q : ConcurrentQueue T B) :
    ¬FreesAll tryDequeue q := by
  rintro ⟨fuel, d, hloop, _, hfreed⟩
  by_cases hq : q = []
  · subst hq
    rw [loop_empty law fuel] at hloop
    exact absurd hloop.symm (Option.some_ne_none _)
  · obtain ⟨hnone, _⟩ := loop_cons law hq hloop
    rw [hnone] at hfreed
    exact hq (List.map_eq_nil_iff.mp hfreed.nil_eq.symm)

/-- Serves the oldest element of all. -/
def tryOldest : ConcurrentQueue T B → Option (B × ConcurrentQueue T B)
  | [] => none
  | e :: rest => some (e.2, rest)

theorem tryOldest_lawful : LawfulTryDequeue (tryOldest : ConcurrentQueue T B → _) := by
  constructor
  · intro q
    cases q <;> simp [tryOldest]
  · intro q b rest h
    cases q with
    | nil => exact absurd h.symm (Option.some_ne_none _)
    | cons e q =>
      obtain ⟨rfl, rfl⟩ := Prod.mk.inj (Option.some.inj h)
      exact ⟨e.1, by simp [ConcurrentQueue.takeFrom]⟩

/-- Two buffers, as `Initialize` enqueues them. -/
theorem two_not_freed : ¬FreesAll tryOldest [((), 8), ((), 16)] :=
  never_freesAll tryOldest_lawful _

/-- After one call the second buffer is still queued, and the first one is not freed. -/
theorem two_left : ¬∀ (tryDequeue : ConcurrentQueue Unit ℕ → Option (ℕ × ConcurrentQueue Unit ℕ)),
    LawfulTryDequeue tryDequeue → ∀ q, FreesAll tryDequeue q := by
  intro claim
  obtain ⟨fuel, d, hloop, hempty, _⟩ := claim tryOldest tryOldest_lawful [((), 8), ((), 16)]
  cases fuel with
  | zero => exact absurd hloop.symm (Option.some_ne_none _)
  | succ fuel =>
    obtain rfl := Option.some.inj hloop
    exact absurd hempty (List.cons_ne_nil _ _)

end Drain

end ServerCore.Network
