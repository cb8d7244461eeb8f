import Mathlib.Data.List.Induction
import SignedEvents.Proofs.Logging.Frame

/-! # Setting up loggers

  A logger gets its sinks at the first call for it.  A call that cannot open the file breaks off
  after the stream has been attached, and the calls after it find a logger with sinks.  So what is
  known of a logger depends on whether a call for it has broken off.

  - **Registry.Call**, **Registry.run** — calls at any time, with any variables and files.
  - **Registry.Serves** — what a call does to its logger.
  - **Registry.Leaves** — what a call leaves alone.
  - **Registry.Standing** — what is known of a logger after some calls.
  - **Registry.serve_setsUp** — each call of a sequence.
-/

namespace SignedEvents

/-- Is a sink a file? -/
def Sink.isFile : Sink → Bool
  | .stream => false
  | .file _ => true

namespace Registry

/-! ## Section 1: Calls -/

/-- A call for a logger. -/
structure Call where
  now   : Int
  given : Variables
  /-- The directories and files at the time of the call, whatever has become of them since the
      one before. -/
  files : Files.Tree Text
  name  : Text
  level : Option Int

/-- The name under which the logger of a call is kept. -/
def Call.key (c : Call) : Text := keyOf c.name

/-- Calls and their results. -/
abbrev History := List (Call × Except Files.Fault Logger)

/-- Makes a call. -/
def serve (r : Registry) (c : Call) : Registry × Except Files.Fault Logger :=
  { r with files := c.files }.obtain c.now c.given c.name c.level

/-- Makes calls one after the other. -/
def run (r : Registry) (calls : List Call) : Registry × History :=
  calls.foldl (fun s c => ((s.1.serve c).1, s.2 ++ [(c, (s.1.serve c).2)])) (r, [])

/-- Has there been a call for a logger? -/
def Called (history : History) (key : Text) : Prop := ∃ e ∈ history, e.1.key = key

/-- Has a call for a logger broken off? -/
def BrokenOff (history : History) (key : Text) : Prop :=
  ∃ e ∈ history, e.1.key = key ∧ ∃ fault, e.2 = .error fault

/-! ## Section 2: Levels -/

/-- The level that is asked for: the one that is given, or else the one that the variable names,
    or else the usual one. -/
inductive Asks : Option Int → Option Text → Int → Prop where
  | given {level : Int} {setting : Option Text} : Asks (some level) setting level
  | named {setting : Text} {name : String} {level : Int} (hmem : (name, level) ∈ namedLevels)
      (hname : Text.ofString name = setting.map upperLetter) : Asks none (some setting) level
  | unset : Asks none none usualLevel
  | unknown {setting : Text}
      (hnone : ∀ l ∈ namedLevels, Text.ofString l.1 ≠ setting.map upperLetter) :
      Asks none (some setting) usualLevel

theorem asks_getD (level : Option Int) (setting : Option Text) :
    Asks level setting (level.getD (levelOf setting)) := by
  cases level with
  | some level => exact .given
  | none =>
    cases setting with
    | none => exact .unset
    | some t =>
      rw [Option.getD_none, levelOf]
      split
      · next name level hfind =>
        exact .named (List.mem_of_find?_eq_some hfind)
          (by simpa using List.find?_some hfind)
      · next hfind =>
        exact .unknown fun l hl hname => by simpa [hname] using List.find?_eq_none.mp hfind l hl

/-! ## Section 3: Sinks -/

/-- Some sinks are attached to a logger. -/
structure Attaches (key : Text) (sinks : List Sink) (r r' : Registry) : Prop where
  frame : Frame key r r'
  setUp : (r'.logger key).setUp =
    ((r.logger key).level, (r.logger key).passesOn, (r.logger key).sinks ++ sinks)

namespace Attaches

variable {key : Text} {sinks sinks' : List Sink} {r r' r'' : Registry}

theorem none_of_setUp (hframe : Frame key r r')
    (hsetUp : (r'.logger key).setUp = (r.logger key).setUp) : Attaches key [] r r' where
  frame := hframe
  setUp := by rw [List.append_nil, hsetUp, Logger.setUp]

theorem none_of_loggers (h : r'.loggers = r.loggers) : Attaches key [] r r' :=
  none_of_setUp (.of_loggers h) (by rw [r.logger_congr h])

theorem modify (hkey : (r.find? key).isSome = true) (sinks : List Sink) :
    Attaches key sinks r (r.modify key fun l => { l with sinks := l.sinks ++ sinks }) where
  frame := .modify r (fun _ => rfl) fun _ => rfl
  setUp := by
    rw [r.logger_modify_same (f := fun l => { l with sinks := l.sinks ++ sinks })
      (fun _ => rfl) hkey]
    rfl

theorem trans (h : Attaches key sinks r r') (h' : Attaches key sinks' r' r'') :
    Attaches key (sinks ++ sinks') r r'' where
  frame := h.frame.trans h'.frame
  setUp := by
    obtain ⟨hlevel, hpasses, hsinks⟩ : (r'.logger key).level = (r.logger key).level ∧
        (r'.logger key).passesOn = (r.logger key).passesOn ∧
        (r'.logger key).sinks = (r.logger key).sinks ++ sinks := by
      simpa [Logger.setUp] using h.setUp
    rw [h'.setUp, hlevel, hpasses, hsinks, List.append_assoc]

end Attaches

/-- No sink, or a file. -/
def IsFilePart (sinks : List Sink) : Prop := sinks = [] ∨ ∃ place, sinks = [.file place]

/-- Behind the stream there is then no other stream, and one file at most. -/
theorem IsFilePart.count_stream {file : List Sink} (hfile : IsFilePart file) :
    (Sink.stream :: file).count .stream = 1 ∧ (Sink.stream :: file).countP Sink.isFile ≤ 1 := by
  obtain rfl | ⟨place, rfl⟩ := hfile
  · decide
  · exact ⟨rfl, Nat.le_refl 1⟩

section attach

variable {r : Registry} {key : Text} (hkey : (r.find? key).isSome = true)

include hkey

/-- A logger gets a file or none, and none if that breaks off. -/
theorem attachFile_attaches (now : Int) (name : Text) (directory : Files.Path) :
    ∃ file, IsFilePart file ∧ Attaches key file r (r.attachFile now key name directory).1 ∧
      ∀ fault, (r.attachFile now key name directory).2 = some fault → file = [] := by
  unfold attachFile
  rcases r.files.makeDirectories directory with ⟨files, _ | fault⟩
  · dsimp only
    generalize (filePath directory name).place files.here = place
    cases files.openEnd [] place with
    | error fault =>
      -- the directories stay, and no sink is attached
      exact ⟨[], .inl rfl, .none_of_loggers rfl, fun _ _ => rfl⟩
    | ok opened =>
      have hfiles : Attaches key [] r { r with files := opened } := .none_of_loggers rfl
      have hattach := Attaches.modify (r := { r with files := opened }) hkey [.file place]
      exact ⟨[.file place], .inr ⟨place, rfl⟩, hfiles.trans hattach, fun fault h => by cases h⟩
  · dsimp only
    split
    · exact ⟨[], .inl rfl, .none_of_loggers rfl, fun _ _ => rfl⟩
    · -- without a directory there is a record of that, and the call goes on
      have hfiles : Attaches key [] r { r with files } := .none_of_loggers rfl
      obtain ⟨hframe, hsetUp⟩ := log_frame (r := { r with files }) hkey now warningLevel
        (directoryRecord directory)
      exact ⟨[], .inl rfl, hfiles.trans (.none_of_setUp hframe hsetUp), fun _ _ => rfl⟩

/-- A logger gets the stream, and then a file or none. -/
theorem attachSinks_attaches (now : Int) (given : Variables) (name : Text) :
    ∃ file, IsFilePart file ∧
      Attaches key (.stream :: file) r (r.attachSinks now given key name).1 ∧
      ∀ fault, (r.attachSinks now given key name).2 = some fault → file = [] := by
  have hstream := Attaches.modify hkey [.stream]
  have hknown := (hstream.frame.known key).trans hkey
  unfold attachSinks
  dsimp only
  cases given.directory with
  | none => exact ⟨[], .inl rfl, hstream, fun _ _ => rfl⟩
  | some t =>
    dsimp only
    split
    · exact ⟨[], .inl rfl, hstream, fun _ _ => rfl⟩
    · obtain ⟨file, hfile, hattaches, hfault⟩ :=
        attachFile_attaches hknown now name (.ofText t)
      exact ⟨file, hfile, hstream.trans hattaches, hfault⟩

/-- At the end of its first call a logger gets the level and stops passing records on. -/
theorem finish_spec (level : Int) :
    let r' := (r.setLevel key level).modify key fun l => { l with passesOn := false }
    Frame key r r' ∧ (r'.logger key).setUp = (level, false, (r.logger key).sinks) := by
  intro r'
  have hlevelled := r.setLevel_frame key level
  have hsetUp := setUp_setLevel hkey level
  simp only [Logger.setUp, Prod.mk.injEq] at hsetUp ⊢
  obtain ⟨hlevel, -, hsinks⟩ := hsetUp
  have hstop := logger_modify_same (r.setLevel key level)
    (f := fun l => { l with passesOn := false }) (fun _ => rfl) ((hlevelled.known key).trans hkey)
  refine ⟨hlevelled.trans (.modify _ (fun _ => rfl) fun _ => rfl), ?_⟩
  rw [show r'.logger key = _ from hstop]
  exact ⟨hlevel, rfl, hsinks⟩

end attach

/-! ## Section 4: What a call does -/

/-- What a call does to its logger. -/
inductive Serves (r : Registry) (c : Call) (r' : Registry) :
    Except Files.Fault Logger → Prop where
  /-- It has sinks already, and gets the level. -/
  | again {level : Int} (hused : (r.logger c.key).sinks ≠ [])
      (hasks : Asks c.level c.given.level level)
      (hsetUp : (r'.logger c.key).setUp =
        (level, (r.logger c.key).passesOn, (r.logger c.key).sinks)) :
      Serves r c r' (.ok (r'.logger c.key))
  /-- It gets its sinks and the level, and stops passing records on. -/
  | first {level : Int} {file : List Sink} (hunused : (r.logger c.key).sinks = [])
      (hasks : Asks c.level c.given.level level) (hfile : IsFilePart file)
      (hsetUp : (r'.logger c.key).setUp = (level, false, .stream :: file)) :
      Serves r c r' (.ok (r'.logger c.key))
  /-- It gets the stream, and then the call breaks off. -/
  | brokenOff {fault : Files.Fault} (hunused : (r.logger c.key).sinks = [])
      (hsetUp : (r'.logger c.key).setUp =
        ((r.logger c.key).level, (r.logger c.key).passesOn, [.stream])) :
      Serves r c r' (.error fault)

/-- What a call for a logger leaves alone: the set-up of all other loggers.  Only if the logger is
    new, others may be put under it. -/
structure Leaves (key : Text) (r r' : Registry) : Prop where
  setUp : ∀ name, name ≠ key → (r'.logger name).setUp = (r.logger name).setUp
  above : ∀ name, name ≠ key → (r'.logger name).above = (r.logger name).above ∨
    r.find? key = none ∧ (r'.logger name).above = some key
  known : (r'.find? key).isSome = true

theorem Enrolls.of_loggers {key : Text} {r r' r'' : Registry} (h : Enrolls key r' r'')
    (hloggers : r'.loggers = r.loggers) : Enrolls key r r'' where
  setUp name := by rw [h.setUp, r.logger_congr hloggers]
  above name hname := by
    have habove := h.above name hname
    rw [r.logger_congr hloggers, find?, hloggers] at habove
    exact habove
  known := h.known

theorem Enrolls.leaves {key : Text} {r r' r'' : Registry} (h : Enrolls key r r')
    (hframe : Frame key r' r'') : Leaves key r r'' where
  setUp name hname := (hframe.setUp name hname).trans (h.setUp name)
  above name hname := by
    rw [hframe.above]
    exact h.above name hname
  known := (hframe.known key).trans h.known

/-- A call does what the rules say. -/
theorem serve_spec (r : Registry) (c : Call) :
    Serves r c (r.serve c).1 (r.serve c).2 ∧ Leaves c.key r (r.serve c).1 := by
  have henrolls : Enrolls c.key r (enroll { r with files := c.files } c.key) :=
    (enroll_enrolls { r with files := c.files } c.key).of_loggers rfl
  have hasks := asks_getD c.level c.given.level
  unfold serve obtain
  dsimp only
  rw [show keyOf c.name = c.key from rfl]
  generalize enroll { r with files := c.files } c.key = enrolled at henrolls ⊢
  generalize c.level.getD (levelOf c.given.level) = level at hasks ⊢
  -- the logger that has been looked up has the set-up that it had before
  obtain ⟨hlevel, hpasses, hsinks⟩ :
      (enrolled.logger c.key).level = (r.logger c.key).level ∧
      (enrolled.logger c.key).passesOn = (r.logger c.key).passesOn ∧
      (enrolled.logger c.key).sinks = (r.logger c.key).sinks := by
    simpa [Logger.setUp] using henrolls.setUp c.key
  split
  · next hused =>
    have hlast := setUp_setLevel henrolls.known level
    rw [hpasses, hsinks] at hlast
    exact ⟨.again (by simpa [hsinks] using hused) hasks hlast,
      henrolls.leaves (enrolled.setLevel_frame c.key level)⟩
  · next hunused =>
    replace hunused : (r.logger c.key).sinks = [] := by simpa [hsinks] using hunused
    obtain ⟨file, hfile, hattaches, hfault⟩ :=
      attachSinks_attaches henrolls.known c.now c.given c.name
    generalize enrolled.attachSinks c.now c.given c.key c.name = attached at hattaches hfault ⊢
    obtain ⟨attached, fault⟩ := attached
    have hsetUp := hattaches.setUp
    rw [hlevel, hpasses, hsinks, hunused, List.nil_append] at hsetUp
    cases fault with
    | some fault =>
      obtain rfl := hfault fault rfl
      exact ⟨.brokenOff hunused hsetUp, henrolls.leaves hattaches.frame⟩
    | none =>
      have hknown := (hattaches.frame.known c.key).trans henrolls.known
      obtain ⟨hframe, hfinished⟩ := finish_spec (r := attached) hknown level
      have hattached : (attached.logger c.key).sinks = .stream :: file :=
        congrArg (·.2.2) hsetUp
      rw [hattached] at hfinished
      exact ⟨.first hunused hasks hfile hfinished,
        henrolls.leaves (hattaches.frame.trans hframe)⟩

/-- The logger that a call returns is the one that is kept, at the level that is asked for. -/
theorem Serves.of_ok {r r' : Registry} {c : Call} {l : Logger} (h : Serves r c r' (.ok l)) :
    r'.logger c.key = l ∧ Asks c.level c.given.level l.level := by
  cases h with
  | again _ hasks hsetUp =>
    obtain rfl := congrArg Prod.fst hsetUp
    exact ⟨rfl, hasks⟩
  | first _ hasks _ hsetUp =>
    obtain rfl := congrArg Prod.fst hsetUp
    exact ⟨rfl, hasks⟩

theorem Serves.of_used {r r' : Registry} {c : Call} {report : Except Files.Fault Logger}
    (h : Serves r c r' report) (hused : (r.logger c.key).sinks ≠ []) :
    report = .ok (r'.logger c.key) ∧ (r'.logger c.key).sinks = (r.logger c.key).sinks := by
  cases h with
  | again _ _ hsetUp => exact ⟨rfl, congrArg (·.2.2) hsetUp⟩
  | first hunused => exact absurd hunused hused
  | brokenOff hunused => exact absurd hunused hused

/-! ## Section 5: Runs -/

/-- What is known of a logger after some calls, if it had no sinks before them. -/
structure Standing (history : History) (key : Text) (l : Logger) : Prop where
  unused : ¬ Called history key → l.sinks = []
  used : Called history key → ∃ file, IsFilePart file ∧ l.sinks = .stream :: file
  stops : Called history key → ¬ BrokenOff history key → l.passesOn = false

section run

variable {history : History} {key : Text}

theorem called_concat (e : Call × Except Files.Fault Logger) :
    Called (history ++ [e]) key ↔ Called history key ∨ e.1.key = key := by
  simp [Called, or_and_right, exists_or]

theorem brokenOff_concat (e : Call × Except Files.Fault Logger) :
    BrokenOff (history ++ [e]) key ↔
      BrokenOff history key ∨ e.1.key = key ∧ ∃ fault, e.2 = .error fault := by
  simp only [BrokenOff, List.mem_append, List.mem_singleton, or_and_right, exists_or,
    exists_eq_left]

/-- What is known of a logger stays known if nothing has come of it since. -/
theorem Standing.of_same {history' : History} {l l' : Logger} (h : Standing history key l)
    (hcalled : Called history' key ↔ Called history key)
    (hbroken : BrokenOff history' key ↔ BrokenOff history key)
    (hpasses : l'.passesOn = l.passesOn) (hsinks : l'.sinks = l.sinks) :
    Standing history' key l' := by
  refine ⟨?_, ?_, ?_⟩
  · rw [hcalled, hsinks]
    exact h.unused
  · rw [hcalled, hsinks]
    exact h.used
  · rw [hcalled, hbroken, hpasses]
    exact h.stops

/-- A call keeps what is known of every logger up to date. -/
theorem Standing.serve {r : Registry} (h : Standing history key (r.logger key)) (c : Call) :
    Standing (history ++ [(c, (r.serve c).2)]) key ((r.serve c).1.logger key) := by
  obtain ⟨hserves, hleaves⟩ := r.serve_spec c
  generalize (r.serve c).1 = r' at hserves hleaves ⊢
  generalize (r.serve c).2 = report at hserves ⊢
  by_cases hkey : c.key = key
  · subst hkey
    have hcalled : Called (history ++ [(c, report)]) c.key := (called_concat _).mpr (.inr rfl)
    cases hserves with
    | again hused hasks hsetUp =>
      -- a logger with sinks has been called for before
      have hbefore : Called history c.key := by_contra fun hnot => hused (h.unused hnot)
      simp only [Logger.setUp, Prod.mk.injEq] at hsetUp
      obtain ⟨-, hpasses, hsinks⟩ := hsetUp
      exact h.of_same (iff_of_true hcalled hbefore) (by simp [brokenOff_concat]) hpasses hsinks
    | first hunused hasks hfile hsetUp =>
      simp only [Logger.setUp, Prod.mk.injEq] at hsetUp
      obtain ⟨-, hpasses, hsinks⟩ := hsetUp
      exact ⟨absurd hcalled, fun _ => ⟨_, hfile, hsinks⟩, fun _ _ => hpasses⟩
    | brokenOff hunused hsetUp =>
      simp only [Logger.setUp, Prod.mk.injEq] at hsetUp
      obtain ⟨-, -, hsinks⟩ := hsetUp
      exact ⟨absurd hcalled, fun _ => ⟨[], .inl rfl, hsinks⟩, fun _ hunbroken =>
        absurd ((brokenOff_concat _).mpr (.inr ⟨rfl, _, rfl⟩)) hunbroken⟩
  · -- the call is for another logger
    have hsetUp := hleaves.setUp key (Ne.symm hkey)
    simp only [Logger.setUp, Prod.mk.injEq] at hsetUp
    obtain ⟨-, hpasses, hsinks⟩ := hsetUp
    exact h.of_same (by simp [called_concat, hkey]) (by simp [brokenOff_concat, hkey])
      hpasses hsinks

end run

theorem run_concat (start : Registry) (calls : List Call) (c : Call) :
    start.run (calls ++ [c]) =
      (((start.run calls).1.serve c).1,
        (start.run calls).2 ++ [(c, ((start.run calls).1.serve c).2)]) := by
  rw [run, List.foldl_append]
  rfl

theorem called_run {start : Registry} {calls : List Call} {key : Text} :
    Called (start.run calls).2 key ↔ ∃ c ∈ calls, c.key = key := by
  induction calls using List.reverseRecOn with
  | nil => simp [Called, run]
  | append_singleton calls c ih =>
    rw [run_concat, called_concat, ih]
    simp [or_and_right, exists_or]

/-- A run keeps account of every logger that had no sinks before it. -/
theorem standing_run {start : Registry} {key : Text} (hfree : (start.logger key).sinks = [])
    (calls : List Call) : Standing (start.run calls).2 key ((start.run calls).1.logger key) := by
  induction calls using List.reverseRecOn with
  | nil =>
    have hnone : ¬ Called (start.run []).2 key := by simp [Called, run]
    exact ⟨fun _ => hfree, fun h => absurd h hnone, fun h => absurd h hnone⟩
  | append_singleton calls c ih =>
    rw [run_concat]
    exact ih.serve c

/-- The logger that a call returns has the stream once, a file at most, and the level that the call
    asks for; and unless an earlier call for it has broken off, it passes nothing on.  A call for a
    logger that has been called for before succeeds and keeps its sinks.  All other loggers keep
    their set-up, and only a new logger may be put above some of them. -/
theorem serve_setsUp (start : Registry) (before : List Call) (c : Call)
    (hfree : (start.logger c.key).sinks = []) :
    let r := (start.run before).1
    let history := (start.run before).2
    let r' := (r.serve c).1
    (∀ l, (r.serve c).2 = .ok l →
      r'.find? c.key = some l ∧ Asks c.level c.given.level l.level ∧
      l.sinks.count .stream = 1 ∧ l.sinks.countP Sink.isFile ≤ 1 ∧
      (¬ BrokenOff history c.key → l.passesOn = false)) ∧
    ((∃ d ∈ before, d.key = c.key) →
      (r.serve c).2 = .ok (r'.logger c.key) ∧
      (r'.logger c.key).sinks = (r.logger c.key).sinks) ∧
    Leaves c.key r r' := by
  intro r history r'
  obtain ⟨hserves, hleaves⟩ := r.serve_spec c
  have hbefore : Standing history c.key (r.logger c.key) := standing_run hfree before
  have hafter := hbefore.serve c
  have hcalled : Called (history ++ [(c, (r.serve c).2)]) c.key :=
    (called_concat _).mpr (.inr rfl)
  refine ⟨fun l hl => ?_, fun hagain => ?_, hleaves⟩
  · rw [hl] at hserves hafter hcalled
    obtain ⟨hlogger, hasks⟩ := hserves.of_ok
    rw [hlogger] at hafter
    obtain ⟨file, hfile, hsinks⟩ := hafter.used hcalled
    obtain ⟨hstream, hfiles⟩ := hfile.count_stream
    refine ⟨?_, hasks, by rw [hsinks, hstream], by rw [hsinks]; exact hfiles, fun hunbroken => ?_⟩
    · rw [← hlogger]
      exact r'.find?_of_isSome hleaves.known
    · refine hafter.stops hcalled fun hbroken => ?_
      obtain hbroken | ⟨-, fault, hfault⟩ := (brokenOff_concat _).mp hbroken
      · exact hunbroken hbroken
      · cases hfault
  · -- the stream is there from the first call on, even if that has broken off
    obtain ⟨file, -, hsinks⟩ := hbefore.used (called_run.mpr hagain)
    exact hserves.of_used (by rw [hsinks]; exact List.cons_ne_nil _ _)

/-- A call without variables, in a directory where there is just one called `logs`. -/
def Call.of (name : Text) (level : Int) (directory : Option Text) : Call :=
  ⟨0, ⟨none, directory⟩, ⟨[], [["logs"]], []⟩, name, some level⟩

/-- No loggers but the root, and no files. -/
def bare : Registry := ofFiles ⟨[], [], []⟩

/-- A second call for a logger with a file, which lies above one without a level of its own. -/
theorem serve_setsUp_again :
    let before := [Call.of "a.b" 0 none, Call.of "a" 40 (some "logs")]
    let c := Call.of "a" 10 none
    let r := (bare.run before).1
    let r' := (r.serve c).1
    (bare.logger c.key).sinks = [] ∧ (r.serve c).2 = .ok (r'.logger c.key) ∧
      Asks (some 10) none (r'.logger c.key).level ∧ (r'.logger c.key).passesOn = false ∧
      (r'.logger c.key).sinks = [.stream, .file ["logs", "a.log"]] ∧ Leaves c.key r r' := by
  intro before c r r'
  have hfree : (bare.logger c.key).sinks = [] := by decide +kernel
  obtain ⟨hreturned, hagain, hleaves⟩ := serve_setsUp bare before c hfree
  obtain ⟨hok, hsinks⟩ := hagain ⟨Call.of "a" 40 (some "logs"), by simp [before], by decide⟩
  obtain ⟨-, hasks, -, -, hpasses⟩ := hreturned _ hok
  have hwhole : (bare.run before).2.all (·.2.toBool) = true := by decide +kernel
  refine ⟨hfree, hok, hasks, hpasses ?_, hsinks.trans (by decide +kernel), hleaves⟩
  rintro ⟨e, he, -, fault, hfault⟩
  have := List.all_eq_true.mp hwhole e he
  rw [hfault] at this
  cases this

/-- A logger that is put under a new one takes its level from it, if it has none of its own.  And
    after a call that has broken off the next one returns a logger that passes records on. -/
theorem setUp_half_done :
    (let r := (bare.run [Call.of "a.b" 0 none]).1
     let r' := (r.serve (Call.of "a" 10 none)).1
     (r.logger "a.b").above = some rootName ∧ (r'.logger "a.b").above = some "a" ∧
       r.effectiveLevel "a.b" = 30 ∧ r'.effectiveLevel "a.b" = 10) ∧
    (let c := Call.of "a/b" 20 (some "logs")
     let r := (bare.run [c]).1
     (bare.logger c.key).sinks = [] ∧
       (r.serve c).2.toOption.map (·.passesOn) = some true) := by
  decide +kernel

end Registry

end SignedEvents
