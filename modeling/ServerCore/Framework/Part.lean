import ServerCore.Framework.Machine

namespace ServerCore.Framework

/-- What a machine sees of a state of one that contains it: a part of the memory, and the frames
that `view` gives back. -/
def Conf.part {T σ σ' F F' : Type} (mem : σ → σ') (view : F → Option F') (s : Conf T σ F) :
    Conf T σ' F' := ⟨mem s.mem, fun t => (s.frames t).filterMap view⟩

section Part

variable {T σ σ' F F' C' : Type} [DecidableEq T] {mem : σ → σ'} {view : F → Option F'}
  {s : Conf T σ F} {t : T} {fs : List F} {m : σ}

theorem Conf.part_update (mem : σ → σ') (view : F → Option F') (m : σ) (frames : T → List F) (t : T)
    (fs : List F) : Conf.part mem view ⟨m, Function.update frames t fs⟩ =
      ⟨mem m, Function.update (fun u => (frames u).filterMap view) t (fs.filterMap view)⟩ := by
  apply congrArg (Conf.mk (mem m))
  funext u
  by_cases hu : u = t
  · subst hu
    simp only [Function.update_self]
  · simp only [Function.update_of_ne hu]

/-- A change that the machine does not see. -/
theorem Conf.part_quiet (hmem : mem m = mem s.mem)
    (hfs : fs.filterMap view = (s.frames t).filterMap view) :
    Conf.part mem view ⟨m, Function.update s.frames t fs⟩ = Conf.part mem view s := by
  rw [Conf.part_update, hmem, hfs]
  exact congrArg (Conf.mk (mem s.mem)) (Function.update_eq_self t _)

/-- A step of a frame that the machine sees. -/
theorem Conf.part_step (machine : Machine T σ' F' C') {f : F'} {c : C'} {new below : List F'}
    (hold : (s.frames t).filterMap view = f :: below)
    (hstep : machine.step (mem s.mem) t f c = some (mem m, new))
    (hfs : fs.filterMap view = new ++ below) :
    machine.next (Conf.part mem view s) (.step t c) =
      some (Conf.part mem view ⟨m, Function.update s.frames t fs⟩) := by
  have htop : (Conf.part mem view s).frames t = f :: below := hold
  have hstep' : machine.step (Conf.part mem view s).mem t f c = some (mem m, new) := hstep
  rw [Conf.part_update, hfs]
  simp only [Machine.next, htop, hstep', Option.map_some]
  rfl

/-- A call into the machine. -/
theorem Conf.part_enter (machine : Machine T σ' F' C') {f : F'} {c : C'}
    (henter : machine.enter (mem s.mem) (Conf.part mem view s).frames t c = some (mem m, f))
    (hfs : fs.filterMap view = f :: (s.frames t).filterMap view) :
    machine.next (Conf.part mem view s) (.enter t c) =
      some (Conf.part mem view ⟨m, Function.update s.frames t fs⟩) := by
  have henter' : machine.enter (Conf.part mem view s).mem (Conf.part mem view s).frames t c =
      some (mem m, f) := henter
  rw [Conf.part_update, hfs]
  simp only [Machine.next, henter', Option.map_some]
  rfl

end Part

end ServerCore.Framework
