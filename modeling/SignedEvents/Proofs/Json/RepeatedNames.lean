import SignedEvents.Proofs.Json.Reading

/-! # Repeated names

  A reader that refuses repeated names, one that takes the first value of a name and one that
  takes the last agree on every text that the first of them accepts.

  - **get?_firstWins**, **get?_lastWins** — which value of a repeated name stands.
  - **eval_eq_of_distinct** — without repeated names the policy does not matter.
  - **namesDistinct_of_eval** — what is accepted under refusal repeats no name.
  - **read_wire_unambiguous** — both for texts.
-/

namespace SignedEvents.Json

/-! ## Section 1: Policies -/

theorem firstRepeated?_eq_none_iff (seen : List Text) (members : Members) :
    firstRepeated? seen members = none ↔
      (members.map (·.1)).Nodup ∧ ∀ m ∈ members, m.1 ∉ seen := by
  induction members generalizing seen with
  | nil => simp [firstRepeated?]
  | cons m members ih =>
    obtain ⟨name, v⟩ := m
    rw [firstRepeated?]
    by_cases hseen : name ∈ seen
    · -- the name has been seen
      rw [if_pos hseen]
      constructor
      · intro h
        cases h
      · rintro ⟨-, hnew⟩
        exact absurd hseen (hnew _ (List.mem_cons_self ..))
    rw [if_neg hseen, ih, List.map_cons, List.nodup_cons, List.forall_mem_cons]
    constructor
    · rintro ⟨hdistinct, hrest⟩
      refine ⟨⟨fun hmem => ?_, hdistinct⟩, hseen, fun m hm hold => ?_⟩
      · obtain ⟨m, hm, hname⟩ := List.mem_map.mp hmem
        exact hrest m hm (hname ▸ List.mem_cons_self ..)
      · exact hrest m hm (List.mem_cons_of_mem _ hold)
    · rintro ⟨⟨hnew, hdistinct⟩, -, hrest⟩
      refine ⟨hdistinct, fun m hm hold => ?_⟩
      rcases List.mem_cons.mp hold with hname | hold
      · exact hnew (List.mem_map.mpr ⟨m, hm, hname⟩)
      · exact hrest m hm hold

theorem firstRepeated?_nil_eq_none_iff (members : Members) :
    firstRepeated? [] members = none ↔ (members.map (·.1)).Nodup := by
  rw [firstRepeated?_eq_none_iff]
  simp

/-- Members of different names make the same object under every policy. -/
theorem object_of_nodup (policy : RepeatedNames) {members : Members}
    (h : (members.map (·.1)).Nodup) : policy.object members = .ok (.obj members) := by
  rw [RepeatedNames.object, (firstRepeated?_nil_eq_none_iff members).mpr h]

theorem nodup_of_object_refused {members : Members} {v : Value}
    (h : RepeatedNames.refused.object members = .ok v) : (members.map (·.1)).Nodup := by
  rw [← firstRepeated?_nil_eq_none_iff]
  unfold RepeatedNames.object at h
  split at h
  · assumption
  · cases h

theorem any_name_iff {members : Members} {name : Text} :
    members.any (·.1 = name) = true ↔ (members.get? name).isSome = true := by
  rw [Members.get?, Option.isSome_map, List.find?_isSome, List.any_eq_true]

theorem get?_append (members more : Members) (name : Text) :
    Members.get? (members ++ more) name = (members.get? name).or (Members.get? more name) := by
  rw [Members.get?, List.find?_append, Members.get?, Members.get?]
  cases members.find? (·.1 = name) <;> rfl

theorem get?_insertNew (members : Members) (name : Text) (v : Value) (other : Text) :
    (members.insertNew name v).get? other =
      (members.get? other).or (if name = other then some v else none) := by
  unfold Members.insertNew
  by_cases hold : members.any (·.1 = name) = true
  · -- the name is there, and its value stays
    rw [if_pos hold]
    by_cases hname : name = other
    · subst hname
      obtain ⟨w, hw⟩ := Option.isSome_iff_exists.mp (any_name_iff.mp hold)
      rw [hw, Option.some_or]
    · rw [if_neg hname, Option.or_none]
  · rw [if_neg hold, get?_append]
    congr 1
    by_cases hname : name = other <;> simp [Members.get?, hname]

theorem get?_cons (m : Text × Value) (members : Members) (name : Text) :
    Members.get? (m :: members) name = if m.1 = name then some m.2 else members.get? name := by
  by_cases h : m.1 = name <;> simp [Members.get?, h]

/-- Giving a value to the members of one name leaves the other names as they are. -/
theorem get?_replaced (members : Members) (name : Text) (v : Value) (other : Text) :
    Members.get? (members.map fun m => if m.1 = name then (m.1, v) else m) other =
      if name = other then (members.get? other).map fun _ => v else members.get? other := by
  induction members with
  | nil => simp [Members.get?]
  | cons m members ih =>
    rw [List.map_cons, get?_cons, get?_cons, ih]
    by_cases hname : name = other
    · subst hname
      by_cases hm : m.1 = name <;> simp [hm]
    · by_cases hm : m.1 = name
      · simp [hname, hm]
      · simp [hname, hm]

theorem get?_insert (members : Members) (name : Text) (v : Value) (other : Text) :
    (members.insert name v).get? other = if name = other then some v else members.get? other := by
  unfold Members.insert
  by_cases hold : members.any (·.1 = name) = true
  · -- the name is there, and gets the value
    rw [if_pos hold, get?_replaced]
    by_cases hname : name = other
    · subst hname
      obtain ⟨w, hw⟩ := Option.isSome_iff_exists.mp (any_name_iff.mp hold)
      rw [hw]
      rfl
    · rw [if_neg hname, if_neg hname]
  · rw [if_neg hold, get?_append]
    by_cases hname : name = other
    · subst hname
      have hnone : members.get? name = none := by
        rw [← Option.not_isSome_iff_eq_none, ← any_name_iff]
        exact hold
      rw [hnone, if_pos rfl]
      simp [Members.get?]
    · rw [if_neg hname]
      simp [Members.get?, hname]

/-- Under the policy of first values the first value of a name stands. -/
theorem get?_foldl_insertNew (members before : Members) (name : Text) :
    (members.foldl (fun ms m => Members.insertNew ms m.1 m.2) before).get? name =
      (before.get? name).or (members.get? name) := by
  induction members generalizing before with
  | nil =>
    show before.get? name = (before.get? name).or none
    rw [Option.or_none]
  | cons m members ih =>
    rw [List.foldl_cons, ih, get?_insertNew, Option.or_assoc, ← List.singleton_append,
      get?_append]
    congr 2
    by_cases hname : m.1 = name <;> simp [Members.get?, hname]

theorem get?_foldl_insert (members before : Members) (name : Text) :
    (members.foldl (fun ms m => Members.insert ms m.1 m.2) before).get? name =
      (Members.get? members.reverse name).or (before.get? name) := by
  induction members generalizing before with
  | nil => rfl
  | cons m members ih =>
    rw [List.foldl_cons, ih, get?_insert, List.reverse_cons, get?_append, Option.or_assoc,
      get?_cons]
    by_cases hname : m.1 = name <;> simp [hname, Members.get?]

/-- An insertion that puts new names behind others keeps members of different names as they
    are. -/
theorem foldl_of_nodup (insert : Members → Text → Value → Members)
    (hinsert : ∀ members name v, members.any (·.1 = name) = false →
      insert members name v = members ++ [(name, v)])
    (members before : Members) (h : ((before ++ members).map (·.1)).Nodup) :
    members.foldl (fun ms m => insert ms m.1 m.2) before = before ++ members := by
  induction members generalizing before with
  | nil => rw [List.foldl_nil, List.append_nil]
  | cons m members ih =>
    rw [← List.singleton_append, ← List.append_assoc] at h ⊢
    have hbefore := h
    rw [List.map_append, List.map_append] at hbefore
    have hnew : before.any (·.1 = m.1) = false := by
      rw [List.any_eq_false]
      intro n hn hname
      have hdisjoint := (List.nodup_append.mp (List.nodup_append.mp hbefore).1).2.2
      exact hdisjoint n.1 (List.mem_map_of_mem hn) m.1 (List.mem_singleton_self _)
        (of_decide_eq_true hname)
    rw [List.singleton_append, List.foldl_cons, hinsert before m.1 m.2 hnew, ih _ h]

/-- Under the policy of first values the value of a name is the first one. -/
theorem object_firstWins (members : Members) :
    ∃ kept : Members, RepeatedNames.firstWins.object members = .ok (.obj kept) ∧
      ∀ name, kept.get? name = members.get? name := by
  refine ⟨members.foldl (fun ms m => Members.insertNew ms m.1 m.2) [], ?_, fun name =>
    get?_foldl_insertNew members [] name⟩
  rw [RepeatedNames.object]
  cases h : firstRepeated? [] members with
  | some name => rfl
  | none =>
    have hdistinct := (firstRepeated?_nil_eq_none_iff members).mp h
    have hkept := foldl_of_nodup Members.insertNew
      (fun members name v hnew => by rw [Members.insertNew, hnew]; rfl) members [] hdistinct
    rw [hkept]
    rfl

/-- Under the policy of last values the value of a name is the last one. -/
theorem object_lastWins (members : Members) :
    ∃ kept : Members, RepeatedNames.lastWins.object members = .ok (.obj kept) ∧
      ∀ name, kept.get? name = Members.get? members.reverse name := by
  refine ⟨members.foldl (fun ms m => Members.insert ms m.1 m.2) [], ?_, fun name =>
    (get?_foldl_insert members [] name).trans (Option.or_none ..)⟩
  rw [RepeatedNames.object]
  cases h : firstRepeated? [] members with
  | some name => rfl
  | none =>
    have hdistinct := (firstRepeated?_nil_eq_none_iff members).mp h
    have hkept := foldl_of_nodup Members.insert
      (fun members name v hnew => by rw [Members.insert, hnew]; rfl) members [] hdistinct
    rw [hkept]
    rfl

/-! ## Section 2: Trees -/

theorem itemsDistinct_iff (items : List Tree) :
    Tree.ItemsDistinct items ↔ ∀ d ∈ items, d.NamesDistinct := by
  induction items with
  | nil => simp [Tree.ItemsDistinct]
  | cons d items ih => rw [Tree.ItemsDistinct, ih, List.forall_mem_cons]

theorem membersDistinct_iff (members : List (Text × Tree)) :
    Tree.MembersDistinct members ↔ ∀ m ∈ members, m.2.NamesDistinct := by
  induction members with
  | nil => simp [Tree.MembersDistinct]
  | cons m members ih => rw [Tree.MembersDistinct, ih, List.forall_mem_cons]

variable {rules : Rules} {depth : Nat}

theorem evalItems_congr {items : List Tree} {other : Rules}
    (h : ∀ d ∈ items, d.eval rules depth = d.eval other depth) :
    Tree.evalItems rules depth items = Tree.evalItems other depth items := by
  induction items with
  | nil => rfl
  | cons d items ih =>
    obtain ⟨hd, hitems⟩ := List.forall_mem_cons.mp h
    rw [Tree.evalItems, Tree.evalItems, hd, ih hitems]

theorem evalMembers_congr {members : List (Text × Tree)} {other : Rules}
    (h : ∀ m ∈ members, m.2.eval rules depth = m.2.eval other depth) :
    Tree.evalMembers rules depth members = Tree.evalMembers other depth members := by
  induction members with
  | nil => rfl
  | cons m members ih =>
    obtain ⟨hm, hmembers⟩ := List.forall_mem_cons.mp h
    rw [Tree.evalMembers, Tree.evalMembers, hm, ih hmembers]

/-- A tree without repeated names has one value, or one error, under all policies. -/
theorem eval_eq_of_distinct (policy : RepeatedNames) {d : Tree} (h : d.NamesDistinct) :
    d.eval { rules with repeated := policy } depth = d.eval rules depth := by
  induction d using Tree.induction generalizing depth with
  | arr items ih =>
    have hitems := (itemsDistinct_iff items).mp h
    have heval : Tree.evalItems { rules with repeated := policy } (depth + 1) items =
        Tree.evalItems rules (depth + 1) items :=
      evalItems_congr fun d hd => ih d hd (hitems d hd)
    rw [Tree.eval, Tree.eval, heval]
    rfl
  | obj members ih =>
    obtain ⟨hnames, hmembers⟩ := h
    have hmembers := (membersDistinct_iff members).mp hmembers
    have heval : Tree.evalMembers { rules with repeated := policy } (depth + 1) members =
        Tree.evalMembers rules (depth + 1) members :=
      evalMembers_congr fun m hm => ih m hm (hmembers m hm)
    rw [Tree.eval, Tree.eval, heval]
    -- the policy is asked only here, and finds different names
    cases hvalues : Tree.evalMembers rules (depth + 1) members with
    | error e => rfl
    | ok values =>
      have hdistinct : (values.map (·.1)).Nodup := names_of_evalMembers hvalues ▸ hnames
      rw [ok_bind, ok_bind, object_of_nodup _ hdistinct, object_of_nodup _ hdistinct]
      rfl
  | _ => rfl

/-- A tree with a value under refusal repeats no name. -/
theorem namesDistinct_of_eval {d : Tree} {v : Value} (hrules : rules.repeated = .refused)
    (h : d.eval rules depth = .ok v) : d.NamesDistinct := by
  induction d using Tree.induction generalizing depth v with
  | arr items ih =>
    rw [Tree.eval] at h
    split at h
    · cases hvalues : Tree.evalItems rules (depth + 1) items with
      | error e => rw [hvalues] at h; cases h
      | ok values =>
        rw [Tree.NamesDistinct, itemsDistinct_iff]
        intro d hd
        obtain ⟨w, -, hw⟩ := mem_of_evalItems hvalues d hd
        exact ih d hd hw
    · cases h
  | obj members ih =>
    rw [Tree.eval] at h
    split at h
    · cases hvalues : Tree.evalMembers rules (depth + 1) members with
      | error e => rw [hvalues] at h; cases h
      | ok values =>
        -- the check of the object itself, then those of its values
        rw [hvalues, ok_bind, hrules] at h
        have hnames := nodup_of_object_refused h
        rw [names_of_evalMembers hvalues] at hnames
        rw [Tree.NamesDistinct, membersDistinct_iff]
        refine ⟨hnames, fun m hm => ?_⟩
        obtain ⟨w, -, hw⟩ := mem_of_evalMembers hvalues m hm
        exact ih m hm hw
    · cases h
  | _ => trivial

/-! ## Section 3: Texts -/

/-- A text that repeats no name is read the same under all policies. -/
theorem read_eq_of_distinct (rules : Rules) (policy : RepeatedNames) {raw : Text} {d : Tree}
    (hraw : Written raw d) (h : d.NamesDistinct) :
    read { rules with repeated := policy } (.text raw) = read rules (.text raw) := by
  rw [read_of_written hraw, read_of_written hraw, eval_eq_of_distinct policy h]

/-- No text that is accepted repeats a name. -/
theorem namesDistinct_of_read {raw : Text} {v : Value} {d : Tree}
    (hrules : rules.repeated = .refused) (h : read rules (.text raw) = .ok v)
    (hraw : Written raw d) : d.NamesDistinct := by
  rw [read_of_written hraw] at h
  exact namesDistinct_of_eval hrules h

/-- The texts that are accepted are those that a parser that takes last values accepts and that
    repeat no name.  That parser, and one that takes first values, find the same value. -/
theorem read_wire_unambiguous (raw : Text) (v : Value) :
    (read .wire (.text raw) = .ok v ↔
      read { Rules.wire with repeated := .lastWins } (.text raw) = .ok v ∧
        ∀ d, Written raw d → d.NamesDistinct) ∧
    (read .wire (.text raw) = .ok v →
      read { Rules.wire with repeated := .firstWins } (.text raw) = .ok v ∧
        ∃ d, Written raw d) := by
  refine ⟨⟨fun h => ?_, fun ⟨h, hdistinct⟩ => ?_⟩, fun h => ?_⟩
  · have hdistinct d (hraw : Written raw d) : d.NamesDistinct := namesDistinct_of_read rfl h hraw
    obtain ⟨d, hraw, -⟩ := written_of_read h
    exact ⟨(read_eq_of_distinct _ .lastWins hraw (hdistinct d hraw)).trans h, hdistinct⟩
  · obtain ⟨d, hraw, -⟩ := written_of_read h
    have hsame : read .wire (.text raw) =
        read { Rules.wire with repeated := .lastWins } (.text raw) :=
      read_eq_of_distinct { Rules.wire with repeated := .lastWins } .refused hraw (hdistinct d hraw)
    exact hsame.trans h
  · obtain ⟨d, hraw, -⟩ := written_of_read h
    have hdistinct := namesDistinct_of_read rfl h hraw
    exact ⟨(read_eq_of_distinct _ .firstWins hraw hdistinct).trans h, d, hraw⟩

end SignedEvents.Json
