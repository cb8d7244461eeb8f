import SignedEvents.Logging.Registry

/-! # What an operation on one logger leaves alone

  Every operation on a logger changes the set-up of that logger at most.  Only a new logger does
  more: it may be put above loggers that there are.

  - **Logger.setUp** — level, passing on, and sinks.
  - **Registry.logger_modify_same**, **Registry.logger_modify_other** — a change of one logger.
  - **Registry.Frame** — all other loggers keep their set-up, and all keep their places.
  - **Registry.enroll_setUp**, **Registry.enroll_above** — a new logger.
-/

namespace SignedEvents

/-- What is set up of a logger. -/
def Logger.setUp (l : Logger) : Int × Bool × List Sink := (l.level, l.passesOn, l.sinks)

namespace Registry

/-! ## Section 1: Changes of one logger -/

section modify

variable (r : Registry) {name other : Text} {f : Logger → Logger}

theorem name_of_find? {l : Logger} (h : r.find? name = some l) : l.name = name :=
  of_decide_eq_true (List.find?_some (p := fun l : Logger => l.name = name) h)

theorem find?_map {g : Logger → Logger} (hg : ∀ l, (g l).name = l.name) (other : Text) :
    find? { r with loggers := r.loggers.map g } other = (r.find? other).map g := by
  have hname : (fun l : Logger => decide (l.name = other)) ∘ g =
      fun l => decide (l.name = other) := by
    funext l
    rw [Function.comp, hg]
  rw [find?, List.find?_map, hname]
  rfl

theorem find?_modify (hf : ∀ l, (f l).name = l.name) :
    (r.modify name f).find? other =
      (r.find? other).map fun l => if l.name = name then f l else l := by
  refine r.find?_map (fun l => ?_) other
  split
  · exact hf l
  · rfl

theorem isSome_find?_modify (hf : ∀ l, (f l).name = l.name) :
    ((r.modify name f).find? other).isSome = (r.find? other).isSome := by
  rw [r.find?_modify hf, Option.isSome_map]

theorem logger_of_find? {l : Logger} (h : r.find? name = some l) : r.logger name = l := by
  rw [logger, h]
  rfl

theorem find?_of_isSome (h : (r.find? name).isSome = true) :
    r.find? name = some (r.logger name) := by
  obtain ⟨l, hl⟩ := Option.isSome_iff_exists.mp h
  rw [r.logger_of_find? hl, hl]

theorem logger_modify_same (hf : ∀ l, (f l).name = l.name) (h : (r.find? name).isSome = true) :
    (r.modify name f).logger name = f (r.logger name) := by
  have hfind := r.find?_of_isSome h
  refine logger_of_find? _ ?_
  rw [r.find?_modify hf, hfind, Option.map_some, if_pos (r.name_of_find? hfind)]

theorem logger_modify_other (hf : ∀ l, (f l).name = l.name) (h : other ≠ name) :
    (r.modify name f).logger other = r.logger other := by
  rw [logger, logger, r.find?_modify hf]
  cases hfind : r.find? other with
  | none => rfl
  | some l =>
    have hname := r.name_of_find? hfind
    rw [Option.map_some, if_neg (by rw [hname]; exact h)]

/-- A logger is as the change makes it, or as it was. -/
theorem logger_modify_or (hf : ∀ l, (f l).name = l.name) (name other : Text) :
    (r.modify name f).logger other = f (r.logger other) ∨
      (r.modify name f).logger other = r.logger other := by
  by_cases hother : other = name
  · subst hother
    cases hknown : (r.find? other).isSome with
    | true => exact .inl (r.logger_modify_same hf hknown)
    | false =>
      have hnone := Option.isSome_eq_false_iff.mp hknown
      refine .inr ?_
      rw [logger, logger, r.find?_modify hf, Option.isNone_iff_eq_none.mp hnone]
      rfl
  · exact .inr (r.logger_modify_other hf hother)

/-- What a change keeps of every logger is kept of each. -/
theorem logger_modify_keeps {α : Type} {g : Logger → α} (hf : ∀ l, (f l).name = l.name)
    (hg : ∀ l, g (f l) = g l) : g ((r.modify name f).logger other) = g (r.logger other) := by
  obtain h | h := r.logger_modify_or hf name other
  · rw [h, hg]
  · rw [h]

theorem logger_congr {r' : Registry} (h : r'.loggers = r.loggers) :
    r'.logger other = r.logger other := by
  rw [logger, logger, find?, find?, h]

end modify

/-! ## Section 2: Frames -/

/-- All loggers but one keep their set-up, and all keep their places.  None is made. -/
structure Frame (key : Text) (r r' : Registry) : Prop where
  setUp : ∀ name, name ≠ key → (r'.logger name).setUp = (r.logger name).setUp
  above : ∀ name, (r'.logger name).above = (r.logger name).above
  known : ∀ name, (r'.find? name).isSome = (r.find? name).isSome

namespace Frame

variable {key : Text} {r r' r'' : Registry}

theorem of_loggers (h : r'.loggers = r.loggers) : Frame key r r' where
  setUp name _ := by rw [r.logger_congr h]
  above name := by rw [r.logger_congr h]
  known name := by rw [find?, find?, h]

theorem trans (h : Frame key r r') (h' : Frame key r' r'') : Frame key r r'' where
  setUp name hname := (h'.setUp name hname).trans (h.setUp name hname)
  above name := (h'.above name).trans (h.above name)
  known name := (h'.known name).trans (h.known name)

theorem modify (r : Registry) {f : Logger → Logger} (hname : ∀ l, (f l).name = l.name)
    (habove : ∀ l, (f l).above = l.above) : Frame key r (r.modify key f) where
  setUp name hother := by rw [r.logger_modify_other hname hother]
  above name := r.logger_modify_keeps hname habove
  known name := r.isSome_find?_modify hname

end Frame

variable (r : Registry) (key : Text)

/-! ## Section 3: Records -/

theorem loggers_write (text : Text) (s : Sink) : (r.write text s).loggers = r.loggers := by
  cases s <;> rfl

theorem loggers_hand (now : Int) (level : Int) (message : Text) :
    (r.hand now key level message).loggers = r.loggers := by
  -- the sinks take the text one after the other
  have hfold (sinks : List Sink) (text : Text) (r : Registry) :
      (sinks.foldl (fun r s => r.write text s) r).loggers = r.loggers := by
    induction sinks generalizing r with
    | nil => rfl
    | cons s sinks ih => rw [List.foldl_cons, ih, loggers_write]
  unfold hand
  split
  · split <;> rfl
  · exact hfold _ _ r

theorem enroll_of_known {r : Registry} {key : Text} (hkey : (r.find? key).isSome = true) :
    r.enroll key = r := if_pos hkey

theorem consider_frame (level : Int) :
    Frame key r (r.consider key level).1 ∧
      ((r.consider key level).1.logger key).setUp = (r.logger key).setUp := by
  unfold consider
  split
  · exact ⟨.of_loggers rfl, rfl⟩
  · exact ⟨.modify r (fun _ => rfl) fun _ => rfl,
      r.logger_modify_keeps (fun _ => rfl) fun _ => rfl⟩

/-- A record changes no set-up, not that of its own logger either. -/
theorem log_frame {r : Registry} {key : Text} (hkey : (r.find? key).isSome = true)
    (now level : Int) (message : Text) :
    Frame key r (r.log now key level message).1 ∧
      ((r.log now key level message).1.logger key).setUp = (r.logger key).setUp := by
  obtain ⟨hframe, hsetUp⟩ := r.consider_frame key level
  unfold log
  rw [enroll_of_known hkey]
  dsimp only
  generalize r.consider key level = considered at hframe hsetUp
  obtain ⟨r', finding⟩ := considered
  cases finding with
  | false => exact ⟨hframe, hsetUp⟩
  | true =>
    have hloggers := r'.loggers_hand key now level message
    exact ⟨hframe.trans (.of_loggers hloggers), by rw [r'.logger_congr hloggers]; exact hsetUp⟩

/-! ## Section 4: Levels -/

theorem find?_setLevel (level : Int) (name : Text) :
    (r.setLevel key level).find? name =
      (r.find? name).map fun l =>
        { (if l.name = key then { l with level } else l) with findings := [] } := by
  -- all loggers forget their findings, since any of them may depend on the level
  have hforget := (r.modify key fun l => { l with level }).find?_map
    (g := fun l => { l with findings := [] }) (fun _ => rfl) name
  rw [setLevel, hforget, r.find?_modify (f := fun l => { l with level }) fun _ => rfl,
    Option.map_map]
  rfl

theorem setLevel_frame (level : Int) : Frame key r (r.setLevel key level) where
  setUp name hname := by
    rw [logger, logger, find?_setLevel]
    cases hfind : r.find? name with
    | none => rfl
    | some l =>
      rw [Option.map_some, if_neg (by rw [r.name_of_find? hfind]; exact hname)]
      rfl
  above name := by
    rw [logger, logger, find?_setLevel]
    cases r.find? name with
    | none => rfl
    | some l =>
      rw [Option.map_some]
      split <;> rfl
  known name := by rw [find?_setLevel, Option.isSome_map]

theorem setUp_setLevel {r : Registry} {key : Text} (hkey : (r.find? key).isSome = true)
    (level : Int) :
    ((r.setLevel key level).logger key).setUp =
      (level, (r.logger key).passesOn, (r.logger key).sinks) := by
  have hfind := r.find?_of_isSome hkey
  rw [logger, find?_setLevel, hfind, Option.map_some, if_pos (r.name_of_find? hfind)]
  rfl

/-! ## Section 5: New loggers -/

/-- A logger may be put above others.  Nothing else changes. -/
structure Adopts (key : Text) (r r' : Registry) : Prop where
  setUp : ∀ name, (r'.logger name).setUp = (r.logger name).setUp
  above : ∀ name, (r'.logger name).above = (r.logger name).above ∨
    (r'.logger name).above = some key
  known : ∀ name, (r'.find? name).isSome = (r.find? name).isSome

namespace Adopts

variable {key : Text} {r r' r'' : Registry}

theorem of_loggers (h : r'.loggers = r.loggers) : Adopts key r r' where
  setUp name := by rw [r.logger_congr h]
  above name := .inl (by rw [r.logger_congr h])
  known name := by rw [find?, find?, h]

theorem trans (h : Adopts key r r') (h' : Adopts key r' r'') : Adopts key r r'' where
  setUp name := (h'.setUp name).trans (h.setUp name)
  above name := by
    obtain hsame | hnew := h'.above name
    · rw [hsame]
      exact h.above name
    · exact .inr hnew
  known name := (h'.known name).trans (h.known name)

end Adopts

theorem takeOver_adopts (below : Text) : Adopts key r (r.takeOver key below) := by
  unfold takeOver
  split
  · exact .of_loggers rfl
  · refine ⟨fun name => r.logger_modify_keeps (fun _ => rfl) fun _ => rfl, fun name => ?_,
      fun name => r.isSome_find?_modify fun _ => rfl⟩
    obtain h | h := r.logger_modify_or (f := fun l => { l with above := some key })
      (fun _ => rfl) below name
    · exact .inr (by rw [h])
    · exact .inl (by rw [h])

theorem takeOverAll_adopts (below : List Text) :
    Adopts key r (below.foldl (fun r child => r.takeOver key child) r) := by
  induction below generalizing r with
  | nil => exact .of_loggers rfl
  | cons child below ih => exact (r.takeOver_adopts key child).trans (ih _)

theorem loggers_findAbove (name : Text) (candidates : List Text) :
    (r.findAbove name candidates).1.loggers = r.loggers := by
  -- a name that has no logger only takes note of who waits for one
  have hawait (r : Registry) (candidate : Text) : (r.await candidate name).loggers = r.loggers := by
    unfold await
    split <;> rfl
  induction candidates generalizing r with
  | nil => rfl
  | cons candidate rest ih =>
    rw [findAbove]
    split
    · rfl
    · rw [ih, hawait]

theorem find?_append (l : Logger) (name : Text) :
    find? { r with loggers := r.loggers ++ [l] } name =
      (r.find? name).or (if l.name = name then some l else none) := by
  rw [find?, List.find?_append, List.find?_singleton]
  simp only [find?, decide_eq_true_eq]

/-- A registry with a logger of some name.  If it is new, it may have been put above others. -/
structure Enrolls (key : Text) (r r' : Registry) : Prop where
  setUp : ∀ name, (r'.logger name).setUp = (r.logger name).setUp
  above : ∀ name, name ≠ key → (r'.logger name).above = (r.logger name).above ∨
    r.find? key = none ∧ (r'.logger name).above = some key
  known : (r'.find? key).isSome = true

/-- A logger of a name that is not known yet is put behind the others. -/
theorem Adopts.enrolls {key : Text} {r found : Registry} (hadopts : Adopts key r found)
    (hnone : r.find? key = none) (above : Text) :
    Enrolls key r { found with loggers := found.loggers ++ [fresh key above] } := by
  have hfind (name : Text) := found.find?_append (fresh key above) name
  have hfound : found.find? key = none := by
    have h := hadopts.known key
    rw [hnone] at h
    exact Option.isNone_iff_eq_none.mp (Option.isSome_eq_false_iff.mp h)
  have hother (name : Text) (hname : name ≠ key) :
      logger { found with loggers := found.loggers ++ [fresh key above] } name =
        found.logger name := by
    rw [logger, hfind, name_fresh, if_neg hname.symm, Option.or_none]
    rfl
  refine ⟨fun name => ?_, fun name hname => ?_, ?_⟩
  · by_cases hname : name = key
    · -- what is told of an unknown logger is the set-up of a fresh one
      subst hname
      rw [logger, hfind, hfound, name_fresh, if_pos rfl, logger, hnone]
      rfl
    · rw [hother name hname]
      exact hadopts.setUp name
  · rw [hother name hname]
    exact (hadopts.above name).imp_right fun hnew => ⟨hnone, hnew⟩
  · rw [hfind, hfound, name_fresh, if_pos rfl]
    rfl

theorem enroll_enrolls : Enrolls key r (r.enroll key) := by
  unfold enroll
  split
  · next hknown => exact ⟨fun _ => rfl, fun _ _ => .inl rfl, hknown⟩
  · next hunknown =>
    have hnone : r.find? key = none := by simpa using hunknown
    dsimp only
    generalize ((r.waiting.find? (·.1 = key)).map (·.2)).getD [] = below
    -- the loggers below are taken over, and then one is looked for above
    have hwaiting : Adopts key r { r with waiting := r.waiting.filter (·.1 ≠ key) } :=
      .of_loggers rfl
    have hadopts := hwaiting.trans (takeOverAll_adopts _ key below)
    generalize below.foldl _ _ = adopted at hadopts
    replace hadopts := hadopts.trans (.of_loggers (adopted.loggers_findAbove key (namesAbove key)))
    generalize adopted.findAbove key (namesAbove key) = found at hadopts
    exact hadopts.enrolls hnone found.2

end Registry

end SignedEvents
