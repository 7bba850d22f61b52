import ServerCore.Logging.LogManager
import Mathlib.Data.List.Induction
import Mathlib.Data.Finset.Max

namespace ServerCore.Logging

open Framework

/-- The lines that were pushed, with their numbers. -/
def numbered (pushed : List LogStruct) : List Entry := pushed.mapIdx Entry.mk

/-- The line is not one that the loop of `Launch` skips. -/
def Popped.shown (p : Popped) : Bool := p.caller = .destructor ∨ p.entry.line.log ≠ ""

/-- The popped lines that are to be viewed, in the order of the pops. -/
def toView (popped : List Popped) : List LogStruct :=
  (popped.filter Popped.shown).map fun p => p.entry.line

/-- The popped lines that are to be written. -/
def toWrite (popped : List Popped) : List LogStruct := (toView popped).filter LogStruct.write

/-- The frame is about to view the line. -/
def Frame.viewing (line : LogStruct) : Frame → ℕ
  | .view _ line' => if line' = line then 1 else 0
  | _ => 0

/-- The frame is to write the line. -/
def Frame.writing (line : LogStruct) : Frame → ℕ
  | .view _ line' => if line' = line ∧ line.write = true then 1 else 0
  | .write _ line' => if line' = line then 1 else 0
  | _ => 0

/-- A line that was popped gives way to no line that was there and is older. -/
def Oldest (popped : List Popped) (e : Entry) : Prop :=
  ∀ p ∈ popped, e.number < p.pushes → p.entry.line.time ≤ e.line.time

variable {T : Type} [Fintype T] [DecidableEq T]

/-- Where every line that was pushed is, over all threads. -/
structure Inv (logger : Bool) (offset : Int) (s : LogConf T) : Prop where
  logger_eq : s.mem.logger = logger
  offset_eq : s.mem.offset = offset
  kept : (s.mem.popped.map Popped.entry ++ s.mem.logs).Perm (numbered s.mem.pushed)
  pushes_le : ∀ p ∈ s.mem.popped, p.pushes ≤ s.mem.pushed.length
  oldest : ∀ e ∈ s.mem.logs, Oldest s.mem.popped e
  inOrder : s.mem.popped.Pairwise fun p p' =>
    p'.entry.number < p.pushes → p.entry.line.time ≤ p'.entry.line.time
  viewed : ∀ line, s.mem.viewed.count line + weight (Frame.viewing line) s.frames =
    (toView s.mem.popped).count line
  written : ∀ line, s.mem.written.count line + weight (Frame.writing line) s.frames =
    (toWrite s.mem.popped).count line
  printed : s.mem.logger = true →
    s.mem.console = s.mem.viewed.map s.mem.print ∧ s.mem.file = s.mem.written.map s.mem.print
  unprinted : s.mem.logger = false → s.mem.file = [] ∧
    s.mem.console.Perm ((s.mem.viewed ++ s.mem.written).map s.mem.print)
  flushed : ∀ i line, s.mem.file[i]? = some line → line.lv = .error → i < s.mem.flushed

omit [Fintype T] [DecidableEq T] in
theorem numbered_append (pushed : List LogStruct) (line : LogStruct) :
    numbered (pushed ++ [line]) = numbered pushed ++ [⟨pushed.length, line⟩] := by
  rw [numbered, numbered, List.mapIdx_concat]

omit [Fintype T] [DecidableEq T] in
theorem toView_append (popped : List Popped) (p : Popped) :
    toView (popped ++ [p]) = toView popped ++ if p.shown then [p.entry.line] else [] := by
  rw [toView, toView, List.filter_append, List.map_append]
  by_cases hshown : p.shown <;> simp [hshown]

omit [Fintype T] [DecidableEq T] in
/-- The loops go on to view just the lines that are shown. -/
theorem afterPop_eq (caller : Caller) (e : Entry) (pushes : ℕ) :
    afterPop caller e.line = if Popped.shown ⟨caller, e, pushes⟩ then .view caller e.line
      else .tryPop caller := by
  cases caller <;> by_cases hempty : e.line.log = "" <;>
    simp [afterPop, Popped.shown, hempty]

section Step

variable {logger : Bool} {offset : Int} {s : LogConf T} {t : T} {f : Frame} {fs new : List Frame}
  {m : LogManager}

/-- What a step leaves as it is, and the lines that its frames hold, keep the counts. -/
theorem Inv.frames (h : Inv logger offset s) (hs : s.frames t = f :: fs)
    (hview : ∀ line, stackWeight (Frame.viewing line) new = f.viewing line)
    (hwrite : ∀ line, stackWeight (Frame.writing line) new = f.writing line) :
    Inv logger offset ⟨s.mem, Function.update s.frames t (new ++ fs)⟩ := by
  refine { h with viewed := ?_, written := ?_ }
  · intro line
    have hsum := weight_step (Frame.viewing line) hs new
    have hline := h.viewed line
    have hnew := hview line
    dsimp only
    omega
  · intro line
    have hsum := weight_step (Frame.writing line) hs new
    have hline := h.written line
    have hnew := hwrite line
    dsimp only
    omega

theorem Inv.push (h : Inv logger offset s) (line : LogStruct) (hs : s.frames t = .push line :: fs) :
    Inv logger offset ⟨s.mem.push line, Function.update s.frames t ([] ++ fs)⟩ := by
  have hframes : Inv logger offset ⟨s.mem, Function.update s.frames t ([] ++ fs)⟩ :=
    h.frames hs (fun _ => rfl) fun _ => rfl
  refine { hframes with kept := ?_, pushes_le := ?_, oldest := ?_ }
  · simp only [LogManager.push, numbered_append]
    rw [← List.append_assoc]
    exact h.kept.append_right _
  · intro p hp
    have hle := h.pushes_le p hp
    simp only [LogManager.push, List.length_append, List.length_singleton]
    omega
  · intro e he
    rcases List.mem_append.mp he with he | he
    · exact h.oldest e he
    · -- the line is the newest of all
      rw [List.mem_singleton.mp he]
      intro p hp hlt
      have hle := h.pushes_le p hp
      dsimp only at hlt
      omega

theorem Inv.pop (h : Inv logger offset s) (caller : Caller) (e : Entry) (he : e ∈ s.mem.logs)
    (hleast : ∀ y ∈ s.mem.logs, e.line.time ≤ y.line.time)
    (hs : s.frames t = .tryPop caller :: fs) :
    Inv logger offset
      ⟨s.mem.pop caller e, Function.update s.frames t ([afterPop caller e.line] ++ fs)⟩ := by
  have hview (line : LogStruct) : stackWeight (Frame.viewing line) [afterPop caller e.line] +
      (toView s.mem.popped).count line =
      (toView (s.mem.popped ++ [⟨caller, e, s.mem.pushed.length⟩])).count line := by
    rw [toView_append, afterPop_eq caller e s.mem.pushed.length, List.count_append]
    split
    · simp [Frame.viewing, List.count_singleton, Nat.add_comm]
    · simp [Frame.viewing]
  have hwrite (line : LogStruct) : stackWeight (Frame.writing line) [afterPop caller e.line] +
      (toWrite s.mem.popped).count line =
      (toWrite (s.mem.popped ++ [⟨caller, e, s.mem.pushed.length⟩])).count line := by
    rw [toWrite, toWrite, toView_append, afterPop_eq caller e s.mem.pushed.length,
      List.filter_append, List.count_append]
    split
    · by_cases heq : e.line = line
      · by_cases hwrite : line.write = true <;> simp [Frame.writing, heq, hwrite, Nat.add_comm]
      · by_cases hwrite : e.line.write = true <;> simp [Frame.writing, heq, hwrite]
    · simp [Frame.writing]
  refine { h with kept := ?_, pushes_le := ?_, oldest := ?_, inOrder := ?_, viewed := ?_,
                  written := ?_ }
  · have hperm := List.perm_cons_erase he
    simp only [LogManager.pop, List.map_append, List.map_singleton, List.append_assoc]
    exact (hperm.symm.append_left _).trans h.kept
  · intro p hp
    rcases List.mem_append.mp hp with hp | hp
    · exact h.pushes_le p hp
    · rw [List.mem_singleton.mp hp]
      exact le_refl _
  · intro e' he' p hp hlt
    have hmem := List.mem_of_mem_erase he'
    rcases List.mem_append.mp hp with hp | hp
    · exact h.oldest e' hmem p hp hlt
    · rw [List.mem_singleton.mp hp]
      exact hleast e' hmem
  · refine List.pairwise_append.mpr ⟨h.inOrder, List.pairwise_singleton _ _, ?_⟩
    intro p hp p' hp' hlt
    rw [List.mem_singleton.mp hp'] at hlt ⊢
    exact h.oldest e he p hp hlt
  · intro line
    have hsum := weight_step (Frame.viewing line) hs [afterPop caller e.line]
    have hline := h.viewed line
    have hnew := hview line
    simp only [Frame.viewing, LogManager.pop] at hsum ⊢
    omega
  · intro line
    have hsum := weight_step (Frame.writing line) hs [afterPop caller e.line]
    have hline := h.written line
    have hnew := hwrite line
    simp only [Frame.writing, LogManager.pop] at hsum ⊢
    omega

theorem Inv.view (h : Inv logger offset s) (caller : Caller) (line : LogStruct)
    (hs : s.frames t = .view caller line :: fs) :
    Inv logger offset
      ⟨s.mem.view line, Function.update s.frames t ([afterView caller line] ++ fs)⟩ := by
  refine { h with viewed := ?_, written := ?_, printed := ?_, unprinted := ?_ }
  · intro line'
    have hsum := weight_step (Frame.viewing line') hs [afterView caller line]
    have hline := h.viewed line'
    have hnew : stackWeight (Frame.viewing line') [afterView caller line] = 0 := by
      rw [afterView]
      split <;> rfl
    simp only [Frame.viewing, LogManager.view, List.count_append, List.count_singleton,
      beq_iff_eq] at hsum ⊢
    omega
  · intro line'
    have hsum := weight_step (Frame.writing line') hs [afterView caller line]
    have hline := h.written line'
    have hnew : stackWeight (Frame.writing line') [afterView caller line] =
        Frame.writing line' (.view caller line) := by
      rw [afterView]
      by_cases heq : line = line'
      · by_cases hwrite : line'.write = true <;> simp [Frame.writing, heq, hwrite]
      · by_cases hwrite : line.write = true <;> simp [Frame.writing, heq, hwrite]
    simp only [LogManager.view] at hsum ⊢
    omega
  · intro hlogger
    obtain ⟨hconsole, hfile⟩ := h.printed hlogger
    refine ⟨?_, hfile⟩
    simp only [LogManager.view, hconsole, List.map_append]
    rfl
  · intro hlogger
    obtain ⟨hfile, hconsole⟩ := h.unprinted hlogger
    refine ⟨hfile, ?_⟩
    refine (hconsole.append_right [s.mem.print line]).trans ?_
    simp only [LogManager.view, List.map_append, List.append_assoc]
    exact List.perm_append_comm.append_left _

theorem Inv.write (h : Inv logger offset s) (caller : Caller) (line : LogStruct)
    (hs : s.frames t = .write caller line :: fs) :
    Inv logger offset
      ⟨s.mem.write line, Function.update s.frames t ([.tryPop caller] ++ fs)⟩ := by
  have hview (line' : LogStruct) : s.mem.viewed.count line' +
      weight (Frame.viewing line') (Function.update s.frames t ([.tryPop caller] ++ fs)) =
      (toView s.mem.popped).count line' := by
    have hsum := weight_step (Frame.viewing line') hs [.tryPop caller]
    have hline := h.viewed line'
    simp only [Frame.viewing, stackWeight_cons, stackWeight_nil] at hsum
    omega
  have hwrite (line' : LogStruct) : (s.mem.written ++ [line]).count line' +
      weight (Frame.writing line') (Function.update s.frames t ([.tryPop caller] ++ fs)) =
      (toWrite s.mem.popped).count line' := by
    have hsum := weight_step (Frame.writing line') hs [.tryPop caller]
    have hline := h.written line'
    simp only [Frame.writing, stackWeight_cons, stackWeight_nil] at hsum
    simp only [List.count_append, List.count_singleton, beq_iff_eq]
    omega
  by_cases hlogger : s.mem.logger = true
  · obtain ⟨hconsole, hfile⟩ := h.printed hlogger
    simp only [LogManager.write, if_pos hlogger]
    refine { h with viewed := hview, written := hwrite, printed := ?_, unprinted := ?_,
                    flushed := ?_ }
    · intro _
      refine ⟨hconsole, ?_⟩
      simp only [hfile, List.map_append]
      rfl
    · intro hnone
      exact absurd (hlogger.symm.trans hnone) (by decide)
    · intro i line' hi herror
      rcases Nat.lt_or_ge i s.mem.file.length with hlt | hge
      · rw [List.getElem?_append_left hlt] at hi
        have hold := h.flushed i line' hi herror
        dsimp only
        split <;> omega
      · -- the line is the one that is written now
        rw [List.getElem?_append_right hge] at hi
        obtain ⟨hzero, rfl⟩ : i - s.mem.file.length = 0 ∧ s.mem.print line = line' := by
          simpa [List.getElem?_singleton] using hi
        have herror' : line.lv = .error := herror
        dsimp only
        rw [if_pos herror']
        omega
  · simp only [LogManager.write, if_neg hlogger]
    refine { h with viewed := hview, written := hwrite, printed := ?_, unprinted := ?_ }
    · intro hsome
      exact absurd hsome hlogger
    · intro hnone
      obtain ⟨hfile, hconsole⟩ := h.unprinted hnone
      refine ⟨hfile, ?_⟩
      have hmore := hconsole.append_right [s.mem.print line]
      rwa [← List.map_singleton, ← List.map_append, List.append_assoc] at hmore

end Step

section Run

variable {logger : Bool} {offset : Int} {s : LogConf T}
  {ok : LogConf T → Action T Choice → Prop}

theorem Inv.enter (h : Inv logger offset s) (t : T) {f : Frame} (hview : ∀ line, f.viewing line = 0)
    (hwrite : ∀ line, f.writing line = 0) :
    Inv logger offset ⟨s.mem, Function.update s.frames t (f :: s.frames t)⟩ := by
  refine { h with viewed := ?_, written := ?_ }
  · intro line
    dsimp only
    rw [weight_push s.frames t (hview line)]
    exact h.viewed line
  · intro line
    dsimp only
    rw [weight_push s.frames t (hwrite line)]
    exact h.written line

omit [Fintype T] [DecidableEq T] in
/-- A call begins with no line in hand. -/
theorem enter_spec {m m' : LogManager} {frames : T → List Frame} {t : T} {c : Choice} {f : Frame}
    (h : enter m frames t c = some (m', f)) : m' = m ∧ frames t = [] ∧
      ((∃ lv view write log, f = .log lv view write log) ∨
        (∃ caller, f = .tryPop caller ∧ (c = .callLaunch ∨ c = .callDestructor))) := by
  cases c with
  | callLog lv view write log =>
    rw [Logging.enter] at h
    split at h
    · next hidle =>
      obtain ⟨rfl, rfl⟩ := Prod.mk.inj (Option.some.inj h)
      exact ⟨rfl, hidle, .inl ⟨lv, view, write, log, rfl⟩⟩
    · exact absurd h.symm (Option.some_ne_none _)
  | callLaunch =>
    rw [Logging.enter] at h
    split at h
    · next hidle =>
      obtain ⟨rfl, rfl⟩ := Prod.mk.inj (Option.some.inj h)
      exact ⟨rfl, hidle, .inr ⟨.launch, rfl, .inl rfl⟩⟩
    · exact absurd h.symm (Option.some_ne_none _)
  | callDestructor =>
    rw [Logging.enter] at h
    split at h
    · next hidle =>
      obtain ⟨rfl, rfl⟩ := Prod.mk.inj (Option.some.inj h)
      exact ⟨rfl, hidle, .inr ⟨.destructor, rfl, .inr rfl⟩⟩
    · exact absurd h.symm (Option.some_ne_none _)
  | _ => exact absurd h.symm (Option.some_ne_none _)

omit [DecidableEq T] in
theorem inv_start (logger : Bool) (offset : Int) :
    Inv logger offset (start (T := T) logger offset) where
  logger_eq := rfl
  offset_eq := rfl
  kept := List.Perm.nil
  pushes_le := by simp [start, LogManager.init]
  oldest := by simp [start, LogManager.init]
  inOrder := List.Pairwise.nil
  viewed _ := (Nat.zero_add _).trans (weight_idle _)
  written _ := (Nat.zero_add _).trans (weight_idle _)
  printed _ := ⟨rfl, rfl⟩
  unprinted _ := ⟨rfl, List.Perm.nil⟩
  flushed := by simp [start, LogManager.init]

theorem inv_reach (h : machine.Reach ok (start logger offset) s) : Inv logger offset s := by
  refine h.invariant (Inv logger offset) (inv_start logger offset) ?_
  intro s a s' _ hs _ hnext
  rcases Machine.next_cases hnext with ⟨t, c, mem, f, rfl, he, rfl⟩ |
    ⟨t, c, f, fs, mem, new, rfl, hf, he, rfl⟩ | ⟨c, mem, rfl, he, rfl⟩
  · obtain ⟨rfl, _, ⟨lv, view, write, log, rfl⟩ | ⟨caller, rfl, _⟩⟩ := enter_spec he
    · exact hs.enter t (fun _ => rfl) fun _ => rfl
    · exact hs.enter t (fun _ => rfl) fun _ => rfl
  · cases step_spec (t := t) he with
    | clock lv view write log now => exact hs.frames hf (fun _ => rfl) fun _ => rfl
    | push line => exact hs.push line hf
    | sleep => exact hs.frames hf (fun _ => rfl) fun _ => rfl
    | done => exact hs.frames hf (fun _ => rfl) fun _ => rfl
    | pop caller e hmem hleast => exact hs.pop caller e hmem hleast hf
    | view caller line => exact hs.view caller line hf
    | write caller line => exact hs.write caller line hf
    | wake => exact hs.frames hf (fun _ => rfl) fun _ => rfl
  · exact absurd he.symm (Option.some_ne_none _)

/-- The frame holds a line that was popped. -/
def Frame.inHand : Frame → Bool
  | .view _ _ | .write _ _ => true
  | _ => false

/-- What `LogManager` promises about the lines it was given. -/
structure LinesAccounted (s : LogConf T) : Prop where
  /-- A line was popped once or waits. -/
  kept : (s.mem.popped.map (fun p => p.entry.line) ++ s.mem.logs.map Entry.line).Perm s.mem.pushed
  viewed_once : List.Subperm s.mem.viewed (toView s.mem.popped)
  written_once : List.Subperm s.mem.written (toWrite s.mem.popped)
  /-- Nothing is left behind, and whether a line was to be viewed makes no difference. -/
  complete : s.mem.logs = [] → (∀ t, ∀ f ∈ s.frames t, f.inHand = false) →
    (∀ p ∈ s.mem.popped, p.caller = .launch) →
    s.mem.viewed.Perm (s.mem.pushed.filter fun line => line.log ≠ "") ∧
      s.mem.written.Perm ((s.mem.pushed.filter fun line => line.log ≠ "").filter LogStruct.write)
  printed : s.mem.logger = true →
    s.mem.console = s.mem.viewed.map s.mem.print ∧ s.mem.file = s.mem.written.map s.mem.print
  /-- Without a logger of its own, what is to be written is viewed a second time. -/
  unprinted : s.mem.logger = false → s.mem.file = [] ∧
    s.mem.console.Perm ((s.mem.viewed ++ s.mem.written).map s.mem.print)
  errors_flushed : ∀ i line, s.mem.file[i]? = some line → line.lv = .error → i < s.mem.flushed

omit [Fintype T] [DecidableEq T] in
theorem map_line_numbered (pushed : List LogStruct) :
    (numbered pushed).map Entry.line = pushed := by
  induction pushed using List.reverseRecOn with
  | nil => rfl
  | append_singleton pushed line ih => rw [numbered_append, List.map_append, ih, List.map_singleton]

omit [DecidableEq T] in
theorem Inv.accounted (h : Inv logger offset s) : LinesAccounted s := by
  have hkept := h.kept.map Entry.line
  rw [map_line_numbered, List.map_append, List.map_map] at hkept
  refine ⟨hkept, ?_, ?_, ?_, h.printed, h.unprinted, h.flushed⟩
  · apply List.subperm_ext_iff.mpr
    intro line _
    have hline := h.viewed line
    omega
  · apply List.subperm_ext_iff.mpr
    intro line _
    have hline := h.written line
    omega
  · intro hempty hidle hlaunch
    have hviewed : s.mem.viewed.Perm (toView s.mem.popped) := by
      apply List.perm_iff_count.mpr
      intro line
      have hnone : weight (Frame.viewing line) s.frames = 0 := by
        apply (weight_eq_zero _ _).mpr
        intro t f hf
        have hhand := hidle t f hf
        cases f <;> first | rfl | exact Bool.noConfusion hhand
      have hline := h.viewed line
      omega
    have hwritten : s.mem.written.Perm (toWrite s.mem.popped) := by
      apply List.perm_iff_count.mpr
      intro line
      have hnone : weight (Frame.writing line) s.frames = 0 := by
        apply (weight_eq_zero _ _).mpr
        intro t f hf
        have hhand := hidle t f hf
        cases f <;> first | rfl | exact Bool.noConfusion hhand
      have hline := h.written line
      omega
    have hview : toView s.mem.popped =
        (s.mem.popped.map fun p => p.entry.line).filter fun line => line.log ≠ "" := by
      rw [toView, List.filter_map]
      congr 1
      apply List.filter_congr
      intro p hp
      simp [Popped.shown, hlaunch p hp]
    rw [hempty, List.map_nil, List.append_nil] at hkept
    have hall : (toView s.mem.popped).Perm (s.mem.pushed.filter fun line => line.log ≠ "") := by
      rw [hview]
      exact hkept.filter _
    exact ⟨hviewed.trans hall, hwritten.trans (hall.filter _)⟩

/-- Over every interleaving of any number of threads that log, view or destroy, each line is popped
at most once, viewed at most once and written at most once, and none is lost. -/
theorem lines_accounted (h : machine.Reach ok (start logger offset) s) : LinesAccounted s :=
  (inv_reach h).accounted

/-- Thread `true` logs an error of time 7 and a line of time 5 that is not to be written. Thread
`false` runs the loop of `Launch` until it is to write the error. -/
def twoLines : List (Action Bool Choice) :=
  [.enter true (.callLog .error true true "a"), .step true (.clock 7), .step true .go,
    .enter true (.callLog .info true false "b"), .step true (.clock 5), .enter false .callLaunch,
    .step true .go, .step false (.pop (some 1)), .step false .go, .step false (.pop (some 0)),
    .step false .go]

theorem lines_accounted_twoLines :
    LinesAccounted (machine.final (start true 0) twoLines (by decide +kernel)) :=
  lines_accounted (machine.reach_final (start true 0) twoLines (by decide +kernel))

/-- A frame of one of the two loops. -/
def Frame.pops : Frame → Bool
  | .log .. | .push _ => false
  | _ => true

/-- The line that the frame is about to view. -/
def Frame.next : Frame → List LogStruct
  | .view _ line => [line]
  | _ => []

/-- What the default logger gets of a line: without a logger of its own the manager writes it
there too. -/
def LogManager.shows (m : LogManager) (line : LogStruct) : List Printed :=
  m.print line :: if line.write = true ∧ m.logger = false then [m.print line] else []

/-- What the default logger has still to get of the line that the frame holds. -/
def Frame.toConsole (m : LogManager) : Frame → List Printed
  | .view _ line => m.shows line
  | .write _ line => if m.logger then [] else [m.print line]
  | _ => []

/-- Only thread `c` pops, and views what it pops. -/
structure OnePops (c : T) (s : LogConf T) : Prop where
  others : ∀ u, u ≠ c → ∀ f ∈ s.frames u, f.pops = false
  one : (s.frames c).length ≤ 1
  viewed : s.mem.viewed ++ (s.frames c).flatMap Frame.next = toView s.mem.popped
  console : s.mem.console ++ (s.frames c).flatMap (Frame.toConsole s.mem) =
    (toView s.mem.popped).flatMap s.mem.shows

omit [Fintype T] [DecidableEq T] in
/-- What has been viewed and is still to be viewed follows the pops. -/
theorem LogStep.viewed {m m' : LogManager} {f : Frame} {new : List Frame}
    (h : LogStep m f m' new) (hviewed : m.viewed ++ f.next = toView m.popped) :
    m'.viewed ++ new.flatMap Frame.next = toView m'.popped := by
  cases h with
  | pop caller e _ _ =>
    have hview : toView (m.pop caller e).popped = toView m.popped ++
        if Popped.shown ⟨caller, e, m.pushed.length⟩ then [e.line] else [] := toView_append _ _
    have hbefore : (m.pop caller e).viewed = toView m.popped := by
      rw [← hviewed]
      exact (List.append_nil _).symm
    rw [hview, hbefore, afterPop_eq caller e m.pushed.length]
    split <;> simp [Frame.next]
  | view caller line =>
    have hpopped : (m.view line).popped = m.popped := rfl
    rw [hpopped, ← hviewed, afterView]
    split <;> simp [Frame.next, LogManager.view]
  | write caller line =>
    rw [LogManager.write]
    split <;> simpa [Frame.next] using hviewed
  | _ => simpa [Frame.next, LogManager.push] using hviewed

omit [Fintype T] [DecidableEq T] in
/-- What the console holds and is still to get follows the pops. -/
theorem LogStep.console {m m' : LogManager} {f : Frame} {new : List Frame}
    (h : LogStep m f m' new)
    (hconsole : m.console ++ f.toConsole m = (toView m.popped).flatMap m.shows) :
    m'.console ++ new.flatMap (Frame.toConsole m') = (toView m'.popped).flatMap m'.shows := by
  cases h with
  | pop caller e _ _ =>
    have hview : toView (m.pop caller e).popped = toView m.popped ++
        if Popped.shown ⟨caller, e, m.pushed.length⟩ then [e.line] else [] := toView_append _ _
    have hshows : (m.pop caller e).shows = m.shows := rfl
    have hbefore : (m.pop caller e).console = (toView m.popped).flatMap m.shows := by
      rw [← hconsole]
      exact (List.append_nil _).symm
    rw [hview, hshows, hbefore, List.flatMap_append, afterPop_eq caller e m.pushed.length]
    split <;> simp [Frame.toConsole, hshows]
  | view caller line =>
    have hshows : (m.view line).shows = m.shows := rfl
    have hpopped : (m.view line).popped = m.popped := rfl
    rw [hshows, hpopped, ← hconsole, afterView]
    by_cases hwrite : line.write = true <;> cases hlogger : m.logger <;>
      simp [Frame.toConsole, LogManager.view, LogManager.shows, LogManager.print, hwrite, hlogger]
  | write caller line =>
    have hshows : (m.write line).shows = m.shows := by
      rw [LogManager.write]
      split <;> rfl
    have hpopped : (m.write line).popped = m.popped := by
      rw [LogManager.write]
      split <;> rfl
    have hshown : (m.write line).console = m.console ++ Frame.toConsole m (.write caller line) := by
      rw [LogManager.write, Frame.toConsole]
      split
      · exact (List.append_nil _).symm
      · rfl
    rw [hshows, hpopped, ← hconsole, hshown]
    exact List.append_nil _
  | push line =>
    have hshows : (m.push line).shows = m.shows := rfl
    rw [hshows]
    simpa [Frame.toConsole, LogManager.push] using hconsole
  | _ => simpa [Frame.toConsole] using hconsole

omit [Fintype T] in
theorem OnePops.step {c t : T} (h : OnePops c s) {f : Frame} {fs new : List Frame} {m : LogManager}
    (hs : s.frames t = f :: fs) (hstep : LogStep s.mem f m new) :
    OnePops c ⟨m, Function.update s.frames t (new ++ fs)⟩ := by
  by_cases ht : t = c
  · subst ht
    have hone := h.one
    have hviewed := h.viewed
    have hconsole := h.console
    rw [hs] at hone hviewed hconsole
    obtain rfl : fs = [] := by
      apply List.length_eq_zero_iff.mp
      rw [List.length_cons] at hone
      omega
    refine ⟨?_, ?_, ?_, ?_⟩
    · intro u hu g hg
      have hother := Function.update_of_ne hu (new ++ []) s.frames
      exact h.others u hu g (hother ▸ hg)
    · dsimp only
      rw [Function.update_self]
      cases hstep <;> simp
    · dsimp only
      rw [Function.update_self, List.append_nil]
      exact hstep.viewed (by simpa using hviewed)
    · dsimp only
      rw [Function.update_self, List.append_nil]
      exact hstep.console (by simpa using hconsole)
  · have hf := h.others t ht f (by simp [hs])
    have hc : Function.update s.frames t (new ++ fs) c = s.frames c :=
      Function.update_of_ne (Ne.symm ht) _ _
    have hkept : m.viewed = s.mem.viewed ∧ m.popped = s.mem.popped ∧
        m.console = s.mem.console ∧ m.shows = s.mem.shows ∧
        Frame.toConsole m = Frame.toConsole s.mem ∧ ∀ g ∈ new, g.pops = false := by
      cases hstep with
      | clock lv view write log now => exact ⟨rfl, rfl, rfl, rfl, rfl, by simp [Frame.pops]⟩
      | push line => exact ⟨rfl, rfl, rfl, rfl, rfl, by simp⟩
      | _ => exact Bool.noConfusion hf
    obtain ⟨hviewed, hpopped, hconsole, hshows, htoConsole, hnew⟩ := hkept
    refine ⟨?_, ?_, ?_, ?_⟩
    · intro u hu g hg
      rcases mem_update new hg with ⟨_, hg⟩ | hg
      · exact hnew g hg
      · exact h.others u hu g (hg.mem hs)
    · dsimp only
      rw [hc]
      exact h.one
    · dsimp only
      rw [hc, hviewed, hpopped]
      exact h.viewed
    · dsimp only
      rw [hc, hpopped, hconsole, hshows, htoConsole]
      exact h.console

/-- Only thread `c` may be the one that `Launch` starts, or destroy the manager. -/
def OneConsumer (c : T) (_s : LogConf T) : Action T Choice → Bool
  | .enter t .callLaunch | .enter t .callDestructor => t = c
  | _ => true

omit [Fintype T] in
theorem onePops_reach {c : T}
    (h : machine.Reach (fun s a => OneConsumer c s a = true) (start logger offset) s) :
    OnePops c s := by
  refine h.invariant (OnePops c) ⟨by simp [start], by simp [start], rfl, rfl⟩ ?_
  intro s a s' _ hs hok hnext
  rcases Machine.next_cases hnext with ⟨t, x, mem, f, rfl, he, rfl⟩ |
    ⟨t, x, f, fs, mem, new, rfl, hf, he, rfl⟩ | ⟨x, mem, rfl, he, rfl⟩
  · obtain ⟨rfl, hidle, hcall⟩ := enter_spec he
    have hnext : f.next = [] ∧ f.toConsole s.mem = [] := by
      rcases hcall with ⟨lv, view, write, log, rfl⟩ | ⟨caller, rfl, _⟩ <;> exact ⟨rfl, rfl⟩
    have hpops : f.pops = true → t = c := by
      intro hf
      rcases hcall with ⟨lv, view, write, log, rfl⟩ | ⟨caller, rfl, hx⟩
      · exact Bool.noConfusion hf
      · rcases hx with rfl | rfl
        · exact of_decide_eq_true hok
        · exact of_decide_eq_true hok
    refine ⟨?_, ?_, ?_, ?_⟩
    · intro u hu g hg
      by_cases ht : u = t
      · rcases mem_push hg with rfl | hg
        · cases hp : g.pops with
          | false => rfl
          | true => exact absurd (ht.trans (hpops hp)) hu
        · exact hs.others u hu g hg
      · rcases mem_update [f] hg with ⟨heq, _⟩ | hg
        · exact absurd heq ht
        · rcases hg with ⟨heq, _⟩ | ⟨_, hg⟩
          · exact absurd heq ht
          · exact hs.others u hu g hg
    · by_cases ht : t = c
      · subst ht
        simp [hidle]
      · simpa [Ne.symm ht] using hs.one
    · by_cases ht : t = c
      · subst ht
        have hviewed := hs.viewed
        rw [hidle] at hviewed
        simpa [hidle, hnext.1] using hviewed
      · simpa [Ne.symm ht] using hs.viewed
    · by_cases ht : t = c
      · subst ht
        have hconsole := hs.console
        rw [hidle] at hconsole
        simpa [hidle, hnext.2] using hconsole
      · simpa [Ne.symm ht] using hs.console
  · exact hs.step hf (step_spec (t := t) he)
  · exact absurd he.symm (Option.some_ne_none _)

/-- With one thread popping, lines are viewed in the order of their pops, and the console shows them
in that order; and a line is popped before an older one only if that one was pushed later. -/
theorem viewed_in_order (c : T)
    (h : machine.Reach (fun s a => OneConsumer c s a = true) (start logger offset) s) :
    s.mem.viewed <+: toView s.mem.popped ∧
      s.mem.console <+: (toView s.mem.popped).flatMap s.mem.shows ∧
      s.mem.popped.Pairwise fun p p' =>
        p'.entry.number < p.pushes → p.entry.line.time ≤ p'.entry.line.time := by
  refine ⟨?_, ?_, (inv_reach h).inOrder⟩
  · rw [← (onePops_reach h).viewed]
    exact List.prefix_append _ _
  · rw [← (onePops_reach h).console]
    exact List.prefix_append _ _

theorem viewed_in_order_twoLines : ∃ s : LogConf Bool,
    [⟨.info, 5, "b", false⟩, ⟨.error, 7, "a", true⟩] <+: toView s.mem.popped ∧
      [⟨.info, 5, "b"⟩, ⟨.error, 7, "a"⟩] <+: (toView s.mem.popped).flatMap s.mem.shows := by
  have hr := machine.reach_finalChecked (OneConsumer false) (start true 0) twoLines
    (by decide +kernel)
  exact ⟨_, (viewed_in_order false hr).1, (viewed_in_order false hr).2.1⟩

/-- A frame of the thread that `Launch` starts. -/
def Frame.launched : Frame → Bool
  | .tryPop .launch | .view .launch _ | .write .launch _ | .sleep => true
  | _ => false

/-- What is left to do until the thread sleeps on an empty queue. -/
def Frame.effort (logs : List Entry) : Frame → ℕ
  | .tryPop _ => 1
  | .write _ _ => 2
  | .view _ _ => 3
  | .sleep => if logs = [] then 0 else 2
  | _ => 0

omit [Fintype T] [DecidableEq T] in
theorem exists_oldest {logs : List Entry} (h : logs ≠ []) :
    ∃ e ∈ logs, ∀ y ∈ logs, e.line.time ≤ y.line.time := by
  obtain ⟨e, he, hleast⟩ := logs.toFinset.exists_min_image (fun e => e.line.time)
    (List.toFinset_nonempty_iff _ |>.mpr h)
  exact ⟨e, List.mem_toFinset.mp he, fun y hy => hleast y (List.mem_toFinset.mpr hy)⟩

omit [Fintype T] [DecidableEq T] in
/-- The thread is never blocked. -/
theorem launched_step (m : LogManager) (t : T) {f : Frame} (h : f.launched = true) :
    ∃ x r, step m t f x = some r := by
  cases f with
  | tryPop caller =>
    by_cases hempty : m.logs = []
    · cases caller with
      | launch => exact ⟨.pop none, _, if_pos hempty⟩
      | destructor => exact Bool.noConfusion h
    · obtain ⟨e, he, hleast⟩ := exists_oldest hempty
      obtain ⟨i, hi⟩ := List.mem_iff_getElem?.mp he
      refine ⟨.pop (some i), (m.pop caller e, [afterPop caller e.line]), ?_⟩
      simp only [step, hi, if_pos hleast]
  | view caller line => exact ⟨.go, _, rfl⟩
  | write caller line => exact ⟨.go, _, rfl⟩
  | sleep => exact ⟨.go, _, rfl⟩
  | log | push => exact Bool.noConfusion h

omit [DecidableEq T] in
/-- What thread `c`, that `Launch` started, does by itself leaves it less to do. -/
theorem launched_effort {m m' : LogManager} {f : Frame} {new : List Frame}
    (h : LogStep m f m' new) (hf : f.launched = true) (hbusy : m.logs = [] → f ≠ .sleep) :
    m'.pushed = m.pushed ∧ ∃ g, new = [g] ∧ g.launched = true ∧
      4 * m'.logs.length + g.effort m'.logs < 4 * m.logs.length + f.effort m.logs := by
  cases h with
  | clock | push | done => exact Bool.noConfusion hf
  | sleep hempty => exact ⟨rfl, .sleep, rfl, rfl, by simp [Frame.effort, hempty]⟩
  | pop caller e he hleast =>
    have hlen := List.length_erase_of_mem he
    have hpos := List.length_pos_of_mem he
    cases caller with
    | destructor => exact Bool.noConfusion hf
    | launch =>
      refine ⟨rfl, afterPop .launch e.line, rfl, ?_, ?_⟩
      · rw [afterPop]
        split <;> rfl
      · have heffort : (afterPop .launch e.line).effort (m.pop .launch e).logs ≤ 3 := by
          rw [afterPop]
          split <;> simp [Frame.effort]
        simp only [LogManager.pop, Frame.effort] at heffort ⊢
        omega
  | view caller line =>
    cases caller with
    | destructor => exact Bool.noConfusion hf
    | launch =>
      refine ⟨rfl, afterView .launch line, rfl, ?_, ?_⟩
      · rw [afterView]
        split <;> rfl
      · rw [afterView]
        split <;> simp [Frame.effort, LogManager.view]
  | write caller line =>
    cases caller with
    | destructor => exact Bool.noConfusion hf
    | launch =>
      refine ⟨?_, .tryPop .launch, rfl, rfl, ?_⟩
      · rw [LogManager.write]
        split <;> rfl
      · rw [LogManager.write]
        split <;> simp [Frame.effort]
  | wake =>
    refine ⟨rfl, .tryPop .launch, rfl, rfl, ?_⟩
    have hfull : m.logs ≠ [] := fun hempty => hbusy hempty rfl
    simp [Frame.effort, hfull]

/-- Since `s` thread `c` has emptied the queue by itself and sleeps. -/
structure Drained (c : T) (s s' : LogConf T) : Prop where
  logs : s'.mem.logs = []
  sleep : s'.frames c = [.sleep]
  others : ∀ u, u ≠ c → s'.frames u = s.frames u
  pushed : s'.mem.pushed = s.mem.pushed
  /-- All that was popped is viewed and written, but for what other threads hold. -/
  viewed : ∀ line, s'.mem.viewed.count line +
    weight (Frame.viewing line) (Function.update s.frames c []) = (toView s'.mem.popped).count line
  written : ∀ line, s'.mem.written.count line +
    weight (Frame.writing line) (Function.update s.frames c []) = (toWrite s'.mem.popped).count line
  accounted : LinesAccounted s'

theorem Inv.drained {c : T} {s s' : LogConf T} (h : Inv logger offset s')
    (hlogs : s'.mem.logs = []) (hsleep : s'.frames c = [.sleep])
    (hothers : ∀ u, u ≠ c → s'.frames u = s.frames u) (hpushed : s'.mem.pushed = s.mem.pushed) :
    Drained c s s' := by
  have hweight (w : Frame → ℕ) (hw : w .sleep = 0) :
      weight w (Function.update s.frames c []) = weight w s'.frames := by
    have hframes : s'.frames = Function.update (Function.update s.frames c []) c
        (.sleep :: Function.update s.frames c [] c) := by
      funext u
      by_cases hu : u = c
      · subst hu
        simpa using hsleep
      · simpa [hu] using hothers u hu
    rw [hframes, weight_push _ c hw]
  refine ⟨hlogs, hsleep, hothers, hpushed, ?_, ?_, h.accounted⟩
  · intro line
    rw [hweight _ rfl]
    exact h.viewed line
  · intro line
    rw [hweight _ rfl]
    exact h.written line

/-- From every reached state the thread that `Launch` started empties the queue when no one pushes,
and then sleeps with all it popped viewed and written. -/
theorem launch_drains (h : machine.Reach ok (start logger offset) s) (c : T) {f : Frame}
    (hf : s.frames c = [f]) (hlaunched : f.launched = true) :
    machine.Leads (fun _ _ => True) c (Drained c s) s := by
  refine Machine.leads_until
    (fun s' => machine.Reach (fun _ _ => True) (start logger offset) s' ∧
      s'.mem.pushed = s.mem.pushed ∧ (∀ u, u ≠ c → s'.frames u = s.frames u) ∧
      ∃ f, s'.frames c = [f] ∧ f.launched = true)
    (fun s' => 4 * s'.mem.logs.length + stackWeight (Frame.effort s'.mem.logs) (s'.frames c))
    ?progress ?keep ⟨h.mono fun _ _ _ => trivial, rfl, fun _ _ => rfl, f, hf, hlaunched⟩
  case progress =>
    rintro s' ⟨_, _, _, f, hf, hlaunched⟩
    obtain ⟨x, r, hx⟩ := launched_step s'.mem c hlaunched
    refine .inr ⟨x, ⟨r.1, Function.update s'.frames c (r.2 ++ [])⟩, trivial, ?_⟩
    simp only [Machine.next, hf]
    exact congrArg (Option.map _) hx
  case keep =>
    rintro s' x s'' ⟨hr, hpushed, hothers, f, hf, hlaunched⟩ hnot hok hnext
    have hr' := Machine.Reach.next hr hok hnext
    have hbusy : s'.mem.logs = [] → f ≠ .sleep := by
      rintro hempty rfl
      exact hnot ((inv_reach hr).drained hempty hf hothers hpushed)
    rcases Machine.next_cases hnext with ⟨t, x, mem, f, ha, _, _⟩ |
      ⟨t, x, g, gs, mem, new, ha, hg, he, rfl⟩ | ⟨x, mem, ha, _, _⟩
    · cases ha
    · obtain ⟨rfl, rfl⟩ := Action.step.inj ha
      obtain ⟨rfl, rfl⟩ := List.cons.inj (hf.symm.trans hg)
      have hstep := step_spec (t := c) he
      obtain ⟨hkeep, g, rfl, hglaunched, hlt⟩ := launched_effort hstep hlaunched hbusy
      have hframes : Function.update s'.frames c ([g] ++ []) c = [g] := Function.update_self _ _ _
      refine ⟨⟨hr', hkeep.trans hpushed, ?_, g, hframes, hglaunched⟩, ?_⟩
      · intro u hu
        exact (Function.update_of_ne hu _ _).trans (hothers u hu)
      simp only [hframes, hf, stackWeight_cons, stackWeight_nil]
      omega
    · cases ha

/-- One line is about to be viewed and the other waits. -/
theorem launch_drains_twoLines : ∃ s : LogConf Bool,
    s.frames false = [.view .launch ⟨.info, 5, "b", false⟩] ∧
      s.mem.logs = [⟨0, ⟨.error, 7, "a", true⟩⟩] ∧
      machine.Leads (fun _ _ => True) false (Drained false s) s := by
  have hr := machine.reach_final (start true 0) (twoLines.take 8) (by decide +kernel)
  have hf : (machine.final (start true 0) (twoLines.take 8) (by decide +kernel)).frames false =
      [.view .launch ⟨.info, 5, "b", false⟩] := by decide +kernel
  exact ⟨_, hf, by decide +kernel, launch_drains hr false hf rfl⟩

end Run

end ServerCore.Logging
