import SignedEvents.Proofs.Json.Tree

/-! # The stack machine and syntax trees

  The machine accepts exactly the tokens of a syntax tree with a value, and gives that value.

  - **run_tokens** — over the tokens of a tree the machine computes the value of the tree, or
    stops with the error that the tree has.
  - **Reached** — which tokens lead to a state, and what they have to do with its stack.
  - **reached_step**, **reached_run** — every step and every run keeps to that.
-/

namespace SignedEvents.Json

variable {rules : Rules}

/-! ## Section 1: From trees to runs -/

theorem run_cons (state : State) (t : Located) (rest : List Located) :
    run rules state (t :: rest) = step rules state t >>= fun next => run rules next rest := by
  rw [run]
  cases step rules state t <;> rfl

theorem ok_bind {α β : Type} (a : α) (f : α → Except Error β) :
    (Except.ok a >>= f) = f a := rfl

theorem error_bind {α β : Type} (e : Error) (f : α → Except Error β) :
    (Except.error e >>= f) = .error e := rfl

/-- A tree starts with a token that does not close an array. -/
theorem Tree.tokens_head (d : Tree) : ∃ t ts, d.tokens = t :: ts ∧ t ≠ .closeArray := by
  cases d <;> exact ⟨_, _, rfl, by simp⟩

/-- What the machine does with the tokens of a tree. -/
def Tree.Runs (rules : Rules) (d : Tree) : Prop :=
  ∀ (stack : List Frame) (ts rest : List Located), ts.map Located.token = d.tokens →
    run rules (.value stack) (ts ++ rest) =
      d.eval rules stack.length >>= fun v => run rules (settle v stack) rest

theorem runs_scalar {d : Tree} {token : Token} (hd : d.tokens = [token])
    (hstep : ∀ (stack : List Frame) (t : Located), t.token = token →
      stepValue rules stack t = d.eval rules stack.length >>= fun v => .ok (settle v stack)) :
    d.Runs rules := by
  intro stack ts rest hts
  rw [hd] at hts
  obtain ⟨t, rfl, ht⟩ := List.map_eq_singleton_iff.mp hts
  rw [List.singleton_append, run_cons]
  show stepValue rules stack t >>= _ = _
  rw [hstep stack t ht, bind_assoc]
  rfl

theorem run_firstItem (stack : List Frame) (d : Tree) {ts : List Located}
    (rest : List Located) (hts : ts.map Located.token = d.tokens) :
    run rules (.firstItem stack) (ts ++ rest) =
      run rules (.value (.items [] :: stack)) (ts ++ rest) := by
  obtain ⟨head, tail, htokens, hclose⟩ := d.tokens_head
  rw [htokens, List.map_eq_cons_iff] at hts
  obtain ⟨t, ts, rfl, rfl, rfl⟩ := hts
  have hstep : step rules (.firstItem stack) t = step rules (.value (.items [] :: stack)) t := by
    simp only [step]
  rw [List.cons_append, run_cons, run_cons, hstep]

/-- The items after the first one, and the end of the array. -/
theorem run_items (stack : List Frame) (items : List Tree) (hitems : ∀ d ∈ items, d.Runs rules) :
    ∀ (done : List Value) (ts : List Located) (close : Located) (rest : List Located),
      ts.map Located.token = (Tree.itemTokens items).flatMap (.comma :: ·) →
      close.token = .closeArray →
      run rules (.afterItem done stack) (ts ++ close :: rest) =
        Tree.evalItems rules (stack.length + 1) items >>= fun values =>
          run rules (settle (.arr (done.reverse ++ values)) stack) rest := by
  induction items with
  | nil =>
    intro done ts close rest hts hclose
    rw [Tree.itemTokens, List.flatMap_nil, List.map_eq_nil_iff] at hts
    rw [hts, List.nil_append, run_cons, Tree.evalItems]
    simp only [step, hclose, ok_bind, List.append_nil]
  | cons d items ih =>
    intro done ts close rest hts hclose
    rw [Tree.itemTokens, List.flatMap_cons, List.cons_append, List.map_eq_cons_iff] at hts
    obtain ⟨comma, ts, rfl, hcomma, hts⟩ := hts
    obtain ⟨first, more, rfl, hfirst, hmore⟩ := List.map_eq_append_iff.mp hts
    have hd := hitems d (List.mem_cons_self ..)
    have hrest := ih fun d hd => hitems d (List.mem_cons_of_mem _ hd)
    rw [List.cons_append, run_cons, List.append_assoc]
    simp only [step, hcomma, ok_bind]
    -- the item is read on top of the array that waits for it
    rw [hd _ _ _ hfirst, Tree.evalItems, List.length_cons, bind_assoc]
    congr 1
    funext v
    show run rules (.afterItem (v :: done) stack) (more ++ close :: rest) = _
    rw [hrest _ _ _ _ hmore hclose, bind_assoc]
    simp only [pure_bind, List.reverse_cons, List.append_assoc, List.singleton_append]

/-- The members after the first one, and the end of the object. -/
theorem run_members (stack : List Frame) (members : List (Text × Tree))
    (hmembers : ∀ m ∈ members, m.2.Runs rules) :
    ∀ (done : Members) (ts : List Located) (close : Located) (rest : List Located),
      ts.map Located.token = (Tree.memberTokens members).flatMap (.comma :: ·) →
      close.token = .closeObject →
      run rules (.afterMember done stack) (ts ++ close :: rest) =
        Tree.evalMembers rules (stack.length + 1) members >>= fun values =>
          rules.repeated.object (done.reverse ++ values) >>= fun v =>
            run rules (settle v stack) rest := by
  induction members with
  | nil =>
    intro done ts close rest hts hclose
    rw [Tree.memberTokens, List.flatMap_nil, List.map_eq_nil_iff] at hts
    rw [hts, List.nil_append, run_cons, Tree.evalMembers]
    simp only [step, hclose, ok_bind, List.append_nil, closeObject]
    cases rules.repeated.object done.reverse <;> rfl
  | cons m members ih =>
    obtain ⟨name, d⟩ := m
    intro done ts close rest hts hclose
    rw [Tree.memberTokens, List.flatMap_cons, List.cons_append, List.map_eq_cons_iff] at hts
    obtain ⟨comma, ts, rfl, hcomma, hts⟩ := hts
    rw [List.cons_append, List.cons_append, List.map_eq_cons_iff] at hts
    obtain ⟨str, ts, rfl, hstr, hts⟩ := hts
    obtain ⟨colon, ts, rfl, hcolon, hts⟩ := List.map_eq_cons_iff.mp hts
    obtain ⟨first, more, rfl, hfirst, hmore⟩ := List.map_eq_append_iff.mp hts
    have hd := hmembers (name, d) (List.mem_cons_self ..)
    have hrest := ih fun m hm => hmembers m (List.mem_cons_of_mem _ hm)
    rw [List.cons_append, List.cons_append, List.cons_append, run_cons, List.append_assoc]
    -- a comma, a name and a colon come before the value
    simp only [step, hcomma, ok_bind]
    rw [run_cons]
    simp only [step, stepName, hstr, ok_bind]
    rw [run_cons]
    simp only [step, hcolon, ok_bind]
    rw [hd _ _ _ hfirst, Tree.evalMembers, List.length_cons, bind_assoc]
    congr 1
    funext v
    show run rules (.afterMember ((name, v) :: done) stack) (more ++ close :: rest) = _
    rw [hrest _ _ _ _ hmore hclose, bind_assoc]
    simp only [pure_bind, List.reverse_cons, List.append_assoc, List.singleton_append]

theorem runs_arr {items : List Tree} (hitems : ∀ d ∈ items, d.Runs rules) :
    (Tree.arr items).Runs rules := by
  intro stack ts rest hts
  rw [Tree.tokens, List.cons_append, List.map_eq_cons_iff] at hts
  obtain ⟨start, ts, rfl, hstart, hts⟩ := hts
  obtain ⟨ts, end', rfl, hinner, hend⟩ := List.map_eq_append_iff.mp hts
  obtain ⟨close, rfl, hclose⟩ := List.map_eq_singleton_iff.mp hend
  rw [List.cons_append, run_cons, Tree.eval, List.append_assoc, List.singleton_append]
  simp only [step, stepValue, hstart, Rules.hasRoom_eq]
  by_cases hroom : rules.allows stack.length = true
  · rw [if_pos hroom, if_pos hroom, ok_bind]
    cases items with
    | nil =>
      rw [Tree.itemTokens, joinTokens, List.map_eq_nil_iff] at hinner
      rw [hinner, List.nil_append, run_cons, Tree.evalItems]
      simp only [step, hclose, ok_bind]
      rfl
    | cons d items =>
      rw [Tree.itemTokens, joinTokens] at hinner
      obtain ⟨first, more, rfl, hfirst, hmore⟩ := List.map_eq_append_iff.mp hinner
      obtain ⟨hd, hitems⟩ := List.forall_mem_cons.mp hitems
      rw [List.append_assoc, run_firstItem stack d _ hfirst, hd _ _ _ hfirst, Tree.evalItems,
        List.length_cons, bind_assoc, bind_assoc]
      congr 1
      funext v
      show run rules (.afterItem [v] stack) (more ++ close :: rest) = _
      rw [run_items stack items hitems _ _ _ _ hmore hclose]
      simp only [bind_assoc, pure_bind, List.reverse_singleton, List.singleton_append]
  · -- too deep, and nothing of the array is read
    rw [if_neg hroom, if_neg hroom, error_bind, error_bind]

theorem runs_obj {members : List (Text × Tree)} (hmembers : ∀ m ∈ members, m.2.Runs rules) :
    (Tree.obj members).Runs rules := by
  intro stack ts rest hts
  rw [Tree.tokens, List.cons_append, List.map_eq_cons_iff] at hts
  obtain ⟨start, ts, rfl, hstart, hts⟩ := hts
  obtain ⟨ts, end', rfl, hinner, hend⟩ := List.map_eq_append_iff.mp hts
  obtain ⟨close, rfl, hclose⟩ := List.map_eq_singleton_iff.mp hend
  rw [List.cons_append, run_cons, Tree.eval, List.append_assoc, List.singleton_append]
  simp only [step, stepValue, hstart, Rules.hasRoom_eq]
  by_cases hroom : rules.allows stack.length = true
  · rw [if_pos hroom, if_pos hroom, ok_bind]
    cases members with
    | nil =>
      rw [Tree.memberTokens, joinTokens, List.map_eq_nil_iff] at hinner
      rw [hinner, List.nil_append, run_cons, Tree.evalMembers]
      simp only [step, hclose, ok_bind, closeObject, List.reverse_nil]
      cases rules.repeated.object [] <;> rfl
    | cons m members =>
      obtain ⟨name, d⟩ := m
      rw [Tree.memberTokens, joinTokens, List.cons_append, List.map_eq_cons_iff] at hinner
      obtain ⟨str, ts, rfl, hstr, hinner⟩ := hinner
      rw [List.cons_append, List.map_eq_cons_iff] at hinner
      obtain ⟨colon, ts, rfl, hcolon, hinner⟩ := hinner
      obtain ⟨first, more, rfl, hfirst, hmore⟩ := List.map_eq_append_iff.mp hinner
      obtain ⟨hd, hmembers⟩ := List.forall_mem_cons.mp hmembers
      rw [List.cons_append, List.cons_append, List.append_assoc, run_cons]
      simp only [step, stepName, hstr, ok_bind]
      rw [run_cons]
      simp only [step, hcolon, ok_bind]
      rw [hd _ _ _ hfirst, Tree.evalMembers, List.length_cons, bind_assoc, bind_assoc]
      congr 1
      funext v
      show run rules (.afterMember [(name, v)] stack) (more ++ close :: rest) = _
      rw [run_members stack members hmembers _ _ _ _ hmore hclose]
      simp only [bind_assoc, pure_bind, List.reverse_singleton, List.singleton_append]
  · -- too deep, and nothing of the object is read
    rw [if_neg hroom, if_neg hroom, error_bind, error_bind]

/-- Over the tokens of a tree the machine computes the value of the tree, or stops with the
    first error that the tree has. -/
theorem run_tokens (d : Tree) : d.Runs rules := by
  induction d using Tree.induction with
  | null => exact runs_scalar rfl fun stack t ht => by simp only [stepValue, ht, Tree.eval, ok_bind]
  | bool b =>
    exact runs_scalar rfl fun stack t ht => by simp only [stepValue, ht, Tree.eval, ok_bind]
  | nan => exact runs_scalar rfl fun stack t ht => by simp only [stepValue, ht, Tree.eval, ok_bind]
  | infinity negative =>
    exact runs_scalar rfl fun stack t ht => by simp only [stepValue, ht, Tree.eval, ok_bind]
  | number n =>
    refine runs_scalar rfl fun stack t ht => ?_
    simp only [stepValue, ht, Tree.eval]
    cases n.value rules.digits <;> rfl
  | str s =>
    exact runs_scalar rfl fun stack t ht => by simp only [stepValue, ht, Tree.eval, ok_bind]
  | arr items ih => exact runs_arr ih
  | obj members ih => exact runs_obj ih

/-! ## Section 2: From runs to trees -/

/-- The tokens that have opened a stack.  The items and members so far are trees with the values
    that stand on the stack. -/
inductive Opened (rules : Rules) : List Frame → List Token → Prop where
  | empty : Opened rules [] []
  | items {stack : List Frame} {ts : List Token} {items : List Tree} {values : List Value} :
      Opened rules stack ts → rules.allows stack.length = true →
      Tree.evalItems rules (stack.length + 1) items = .ok values →
      Opened rules (.items values.reverse :: stack)
        (ts ++ .openArray :: (Tree.itemTokens items).flatMap (· ++ [.comma]))
  | member {stack : List Frame} {ts : List Token} {members : List (Text × Tree)}
      {values : Members} (name : Text) :
      Opened rules stack ts → rules.allows stack.length = true →
      Tree.evalMembers rules (stack.length + 1) members = .ok values →
      Opened rules (.member values.reverse name :: stack)
        (ts ++ .openObject :: (Tree.memberTokens members).flatMap (· ++ [.comma]) ++
          [.str name, .colon])

/-- The tokens that lead to a state. -/
inductive Reached (rules : Rules) : State → List Token → Prop where
  | value {stack : List Frame} {ts : List Token} :
      Opened rules stack ts → Reached rules (.value stack) ts
  | firstItem {stack : List Frame} {ts : List Token} :
      Opened rules stack ts → rules.allows stack.length = true →
      Reached rules (.firstItem stack) (ts ++ [.openArray])
  | firstName {stack : List Frame} {ts : List Token} :
      Opened rules stack ts → rules.allows stack.length = true →
      Reached rules (.firstName stack) (ts ++ [.openObject])
  | nextName {stack : List Frame} {ts : List Token} {members : List (Text × Tree)}
      {values : Members} :
      Opened rules stack ts → rules.allows stack.length = true →
      Tree.evalMembers rules (stack.length + 1) members = .ok values →
      Reached rules (.nextName values.reverse stack)
        (ts ++ .openObject :: (Tree.memberTokens members).flatMap (· ++ [.comma]))
  | colon {stack : List Frame} {ts : List Token} {members : List (Text × Tree)}
      {values : Members} (name : Text) :
      Opened rules stack ts → rules.allows stack.length = true →
      Tree.evalMembers rules (stack.length + 1) members = .ok values →
      Reached rules (.colon values.reverse name stack)
        (ts ++ .openObject :: (Tree.memberTokens members).flatMap (· ++ [.comma]) ++ [.str name])
  | afterItem {stack : List Frame} {ts : List Token} {items : List Tree} {values : List Value} :
      Opened rules stack ts → rules.allows stack.length = true → items ≠ [] →
      Tree.evalItems rules (stack.length + 1) items = .ok values →
      Reached rules (.afterItem values.reverse stack)
        (ts ++ .openArray :: joinTokens (Tree.itemTokens items))
  | afterMember {stack : List Frame} {ts : List Token} {members : List (Text × Tree)}
      {values : Members} :
      Opened rules stack ts → rules.allows stack.length = true → members ≠ [] →
      Tree.evalMembers rules (stack.length + 1) members = .ok values →
      Reached rules (.afterMember values.reverse stack)
        (ts ++ .openObject :: joinTokens (Tree.memberTokens members))
  | complete {d : Tree} {v : Value} (ends : List Token) :
      d.eval rules 0 = .ok v → (∀ t ∈ ends, t = .endOfText) →
      Reached rules (.complete v) (d.tokens ++ ends)

/-- A tree that has been read leaves its value to the innermost array or object. -/
theorem reached_settle {stack : List Frame} {ts : List Token} {d : Tree} {v : Value}
    (hstack : Opened rules stack ts) (hd : d.eval rules stack.length = .ok v) :
    Reached rules (settle v stack) (ts ++ d.tokens) := by
  cases hstack with
  | empty =>
    -- nothing is open: the tree is the whole text
    have h := Reached.complete [] hd (by simp)
    rwa [List.append_nil] at h
  | items hstack hroom hitems =>
    -- one item more
    have h := Reached.afterItem hstack hroom (by simp) (evalItems_concat hitems hd)
    rw [List.reverse_append, Tree.itemTokens_append, Tree.itemTokens, Tree.itemTokens,
      joinTokens_concat] at h
    rwa [List.append_assoc, List.cons_append]
  | member name hstack hroom hmembers =>
    -- one member more
    have h := Reached.afterMember hstack hroom (by simp)
      (evalMembers_concat name hmembers hd)
    rw [List.reverse_append, Tree.memberTokens_append, Tree.memberTokens, Tree.memberTokens,
      joinTokens_concat] at h
    simp only [List.reverse_singleton, List.append_assoc, List.cons_append,
      List.nil_append] at h ⊢
    exact h

theorem reached_stepValue {stack : List Frame} {ts : List Token} {t : Located} {next : State}
    (hstack : Opened rules stack ts) (hstep : stepValue rules stack t = .ok next) :
    Reached rules next (ts ++ [t.token]) := by
  unfold stepValue at hstep
  split at hstep
  · next ht =>
    rw [ht]
    split at hstep
    · next hroom =>
      cases hstep
      exact .firstItem hstack (rules.hasRoom_eq stack ▸ hroom)
    · cases hstep
  · next ht =>
    rw [ht]
    split at hstep
    · next hroom =>
      cases hstep
      exact .firstName hstack (rules.hasRoom_eq stack ▸ hroom)
    · cases hstep
  · next ht =>
    rw [ht]
    cases hstep
    exact reached_settle (d := .null) hstack rfl
  · next b ht =>
    rw [ht]
    cases hstep
    exact reached_settle (d := .bool b) hstack rfl
  · next ht =>
    rw [ht]
    cases hstep
    exact reached_settle (d := .nan) hstack rfl
  · next negative ht =>
    rw [ht]
    cases hstep
    exact reached_settle (d := .infinity negative) hstack rfl
  · next n ht =>
    rw [ht]
    split at hstep
    · next v hv =>
      cases hstep
      exact reached_settle (d := .number n) hstack hv
    · cases hstep
  · next s ht =>
    rw [ht]
    cases hstep
    exact reached_settle (d := .str s) hstack rfl
  · cases hstep
  · cases hstep

theorem reached_closeObject {stack : List Frame} {ts : List Token}
    {members : List (Text × Tree)} {values : Members} {next : State}
    (hstack : Opened rules stack ts) (hroom : rules.allows stack.length = true)
    (hmembers : Tree.evalMembers rules (stack.length + 1) members = .ok values)
    (hstep : closeObject rules values.reverse stack = .ok next) :
    Reached rules next
      (ts ++ .openObject :: joinTokens (Tree.memberTokens members) ++ [.closeObject]) := by
  unfold closeObject at hstep
  rw [List.reverse_reverse] at hstep
  split at hstep
  · next v hv =>
    cases hstep
    have hd : (Tree.obj members).eval rules stack.length = .ok v := by
      rw [Tree.eval, if_pos hroom, hmembers, ok_bind, hv]
    have h := reached_settle hstack hd
    rw [Tree.tokens] at h
    simpa only [List.append_assoc, List.cons_append] using h
  · cases hstep

theorem reached_stepName {stack : List Frame} {ts : List Token} {members : List (Text × Tree)}
    {values : Members} {t : Located} {next : State} (hstack : Opened rules stack ts)
    (hroom : rules.allows stack.length = true)
    (hmembers : Tree.evalMembers rules (stack.length + 1) members = .ok values)
    (hstep : stepName values.reverse stack t = .ok next) :
    Reached rules next
      (ts ++ .openObject :: (Tree.memberTokens members).flatMap (· ++ [.comma]) ++ [t.token]) := by
  unfold stepName at hstep
  split at hstep
  · next name ht =>
    cases hstep
    rw [ht]
    exact .colon name hstack hroom hmembers
  · cases hstep
  · cases hstep

/-- One step keeps the state in line with the tokens read. -/
theorem reached_step {state next : State} {ts : List Token} {t : Located}
    (hstate : Reached rules state ts) (hstep : step rules state t = .ok next) :
    Reached rules next (ts ++ [t.token]) := by
  cases hstate with
  | value hstack => exact reached_stepValue hstack hstep
  | @firstItem stack ts hstack hroom =>
    by_cases ht : t.token = .closeArray
    · -- an empty array
      simp only [step, ht] at hstep
      cases hstep
      have hd : (Tree.arr []).eval rules stack.length = .ok (.arr []) := by
        rw [Tree.eval, if_pos hroom]
        rfl
      rw [ht, List.append_assoc]
      exact reached_settle hstack hd
    · simp only [step] at hstep
      exact reached_stepValue (.items hstack hroom evalItems_nil) hstep
  | @firstName stack ts hstack hroom =>
    by_cases ht : t.token = .closeObject
    · -- an empty object
      simp only [step, ht] at hstep
      rw [ht]
      exact reached_closeObject hstack hroom evalMembers_nil hstep
    · simp only [step] at hstep
      exact reached_stepName hstack hroom evalMembers_nil hstep
  | nextName hstack hroom hmembers => exact reached_stepName hstack hroom hmembers hstep
  | colon name hstack hroom hmembers =>
    simp only [step] at hstep
    split at hstep
    · next ht =>
      cases hstep
      rw [ht, List.append_assoc]
      exact .value (.member name hstack hroom hmembers)
    · cases hstep
  | @afterItem stack ts items values hstack hroom hitems heval =>
    have hrows : Tree.itemTokens items ≠ [] := by
      cases items with
      | nil => exact absurd rfl hitems
      | cons d items => exact List.cons_ne_nil _ _
    simp only [step] at hstep
    split at hstep
    · next ht =>
      cases hstep
      rw [ht, List.append_assoc, List.cons_append, joinTokens_comma hrows]
      exact .value (.items hstack hroom heval)
    · next ht =>
      cases hstep
      have hd : (Tree.arr items).eval rules stack.length = .ok (.arr values) := by
        rw [Tree.eval, if_pos hroom, heval]
        rfl
      rw [ht, List.append_assoc, List.reverse_reverse]
      exact reached_settle hstack hd
    · cases hstep
  | @afterMember stack ts members values hstack hroom hmembers heval =>
    have hrows : Tree.memberTokens members ≠ [] := by
      cases members with
      | nil => exact absurd rfl hmembers
      | cons m members => exact List.cons_ne_nil _ _
    simp only [step] at hstep
    split at hstep
    · next ht =>
      cases hstep
      rw [ht, List.append_assoc, List.cons_append, joinTokens_comma hrows]
      exact .nextName hstack hroom heval
    · next ht =>
      rw [ht]
      exact reached_closeObject hstack hroom heval hstep
    · cases hstep
  | complete ends hd hends =>
    simp only [step] at hstep
    split at hstep
    · next ht =>
      -- only ends of text may follow, and they change nothing
      cases hstep
      rw [ht, List.append_assoc]
      refine .complete _ hd fun t ht => ?_
      rcases List.mem_append.mp ht with h | h
      · exact hends t h
      · exact List.mem_singleton.mp h
    · cases hstep

theorem reached_run {state final : State} {ts : List Token} {us : List Located}
    (hstate : Reached rules state ts) (hrun : run rules state us = .ok final) :
    Reached rules final (ts ++ us.map Located.token) := by
  induction us generalizing state ts with
  | nil =>
    cases hrun
    rwa [List.map_nil, List.append_nil]
  | cons t us ih =>
    rw [run] at hrun
    split at hrun
    · next next hstep =>
      have h := ih (reached_step hstate hstep) hrun
      rwa [List.append_assoc] at h
    · cases hrun

/-! ## Section 3: What the machine accepts -/

/-- The tokens of a tree, up to the end of the text, have the value of the tree. -/
theorem readTokens_of_tokens {d : Tree} {ts : List Located}
    (hts : ts.map Located.token = d.tokens ++ [.endOfText]) :
    readTokens rules ts = d.eval rules 0 := by
  obtain ⟨ts, ends, rfl, htree, hends⟩ := List.map_eq_append_iff.mp hts
  obtain ⟨last, rfl, hlast⟩ := List.map_eq_singleton_iff.mp hends
  rw [readTokens, run_tokens d [] ts [last] htree, List.length_nil]
  cases d.eval rules 0 with
  | error e => rfl
  | ok v =>
    rw [ok_bind, settle, run_cons]
    simp only [step, hlast]
    rfl

/-- Tokens with a value are the tokens of a tree, and nothing but the end of the text comes after
    them. -/
theorem tokens_of_readTokens {v : Value} {ts : List Located}
    (h : readTokens rules ts = .ok v) :
    ∃ d ends, ts.map Located.token = Tree.tokens d ++ ends ∧ (∀ t ∈ ends, t = .endOfText) ∧
      d.eval rules 0 = .ok v := by
  unfold readTokens at h
  split at h
  · next w hrun =>
    cases h
    have hreached := reached_run (.value .empty) hrun
    rw [List.nil_append] at hreached
    generalize ts.map Located.token = us at hreached
    cases hreached with
    | complete ends hd hends => exact ⟨_, ends, rfl, hends, hd⟩
  · cases h
  · cases h

end SignedEvents.Json
