import SignedEvents.Proofs.Json.RepeatedNames

/-! # Objects and the order of their members

  A look at a name finds the same value wherever the member stands, if no name is repeated.  What
  looks only at some names does not see the members of other names.

  - **lookUp_eq_some_iff**, **lookUp_perm** — the order of members does not matter to a look-up.
  - **eval_obj_ok_iff**, **get?_evalMembers** — the members of an object and their values.
  - **Surplus** — members that nobody looks at.
  - **exists_eval_obj_iff** — order and surplus members do not matter to what looks elsewhere.
  - **Tree.Reordered** — trees that differ in the order of members, at any depth.
  - **exists_eval_reordered_iff** — this order does not matter to what looks at no objects.
-/

namespace SignedEvents.Json

/-! ## Section 1: Look-ups -/

section lookUp

variable {α : Type} {l l' : List (Text × α)}

/-- The first thing of a name. -/
def lookUp (l : List (Text × α)) (name : Text) : Option α := (l.find? (·.1 = name)).map (·.2)

theorem lookUp_cons (m : Text × α) (l : List (Text × α)) (name : Text) :
    lookUp (m :: l) name = if m.1 = name then some m.2 else lookUp l name := by
  by_cases h : m.1 = name <;> simp [lookUp, h]

/-- If no name is repeated, then everything can be found under its name. -/
theorem lookUp_eq_some_iff (h : (l.map (·.1)).Nodup) (name : Text) (a : α) :
    lookUp l name = some a ↔ (name, a) ∈ l := by
  induction l with
  | nil => simp [lookUp]
  | cons m l ih =>
    obtain ⟨hnew, hrest⟩ := List.nodup_cons.mp h
    rw [lookUp_cons, List.mem_cons]
    by_cases hname : m.1 = name
    · rw [if_pos hname]
      constructor
      · intro ha
        obtain rfl := Option.some.inj ha
        exact .inl (by rw [← hname])
      · rintro (hm | hmem)
        · rw [← hm]
        · -- the name would be repeated
          exact absurd (List.mem_map.mpr ⟨_, hmem, hname.symm⟩) hnew
    · rw [if_neg hname, ih hrest]
      constructor
      · exact .inr
      · rintro (hm | hmem)
        · exact absurd (by rw [← hm]) hname
        · exact hmem

theorem nodup_of_perm (hperm : l.Perm l') (h : (l.map (·.1)).Nodup) : (l'.map (·.1)).Nodup :=
  (hperm.map _).nodup_iff.mp h

theorem lookUp_perm (hperm : l.Perm l') (h : (l.map (·.1)).Nodup) (name : Text) :
    lookUp l name = lookUp l' name := by
  have h' := nodup_of_perm hperm h
  refine Option.ext fun a => ?_
  rw [lookUp_eq_some_iff h, lookUp_eq_some_iff h', hperm.mem_iff]

theorem lookUp_append_left {name : Text} (h : name ∉ l'.map (·.1)) :
    lookUp (l ++ l') name = lookUp l name := by
  have hnone : l'.find? (·.1 = name) = none := by
    rw [List.find?_eq_none]
    intro m hm hname
    exact h (List.mem_map.mpr ⟨m, hm, of_decide_eq_true hname⟩)
  rw [lookUp, List.find?_append, hnone, Option.or_none]
  rfl

end lookUp

/-! ## Section 2: Values of objects -/

variable {rules : Rules} {depth : Nat}

/-- The value of a tree, if it has one. -/
def Tree.value? (rules : Rules) (depth : Nat) (d : Tree) : Option Value :=
  (d.eval rules depth).toOption

theorem Tree.value?_eq_some_iff {d : Tree} {v : Value} :
    d.value? rules depth = some v ↔ d.eval rules depth = .ok v := by
  unfold Tree.value?
  cases d.eval rules depth <;> simp [Except.toOption]

/-- A tree has a value inside so many arrays and objects: no name is repeated in it, and nothing is
    too deep or too long. -/
def Tree.Readable (rules : Rules) (depth : Nat) (d : Tree) : Prop :=
  ∃ v, d.eval rules depth = .ok v

theorem exists_evalItems_iff (items : List Tree) :
    (∃ values, Tree.evalItems rules depth items = .ok values) ↔
      ∀ d ∈ items, d.Readable rules depth := by
  constructor
  · rintro ⟨values, hvalues⟩ d hd
    obtain ⟨v, -, hv⟩ := mem_of_evalItems hvalues d hd
    exact ⟨v, hv⟩
  · intro h
    induction items with
    | nil => exact ⟨[], rfl⟩
    | cons d items ih =>
      obtain ⟨⟨v, hv⟩, hitems⟩ := List.forall_mem_cons.mp h
      obtain ⟨values, hvalues⟩ := ih hitems
      refine ⟨v :: values, ?_⟩
      rw [Tree.evalItems, hv, hvalues]
      rfl

theorem exists_evalMembers_iff (members : List (Text × Tree)) :
    (∃ values, Tree.evalMembers rules depth members = .ok values) ↔
      ∀ m ∈ members, m.2.Readable rules depth := by
  constructor
  · rintro ⟨values, hvalues⟩ m hm
    obtain ⟨v, -, hv⟩ := mem_of_evalMembers hvalues m hm
    exact ⟨v, hv⟩
  · intro h
    induction members with
    | nil => exact ⟨[], rfl⟩
    | cons m members ih =>
      obtain ⟨⟨v, hv⟩, hmembers⟩ := List.forall_mem_cons.mp h
      obtain ⟨values, hvalues⟩ := ih hmembers
      refine ⟨(m.1, v) :: values, ?_⟩
      rw [Tree.evalMembers, hv, hvalues]
      rfl

/-- The value of a name is the value of what stands under the name. -/
theorem get?_evalMembers {members : List (Text × Tree)} {values : Members}
    (h : Tree.evalMembers rules depth members = .ok values) (name : Text) :
    values.get? name = (lookUp members name).bind (Tree.value? rules depth) := by
  induction members generalizing values with
  | nil =>
    cases h
    rfl
  | cons m members ih =>
    obtain ⟨v, vs, hv, hvs, rfl⟩ := evalMembers_cons_ok h
    rw [get?_cons, lookUp_cons, ih hvs]
    by_cases hname : m.1 = name
    · rw [if_pos hname, if_pos hname, Option.bind_some, Tree.value?_eq_some_iff.mpr hv]
    · rw [if_neg hname, if_neg hname]

theorem eval_arr_ok_iff {items : List Tree} {v : Value} :
    (Tree.arr items).eval rules depth = .ok v ↔
      rules.allows depth = true ∧
        ∃ values, Tree.evalItems rules (depth + 1) items = .ok values ∧ v = .arr values := by
  rw [Tree.eval]
  by_cases hroom : rules.allows depth = true
  · rw [if_pos hroom]
    cases hvalues : Tree.evalItems rules (depth + 1) items with
    | error e =>
      constructor
      · intro h
        cases h
      · rintro ⟨-, values, h, -⟩
        cases h
    | ok values =>
      constructor
      · intro h
        exact ⟨hroom, values, rfl, (Except.ok.inj h).symm⟩
      · rintro ⟨-, values', hvalues', rfl⟩
        obtain rfl := Except.ok.inj hvalues'
        rfl
  · rw [if_neg hroom]
    constructor
    · intro h
      cases h
    · rintro ⟨h, -⟩
      exact absurd h hroom

/-- Under refusal an object has a value if its members have and no name is repeated. -/
theorem eval_obj_ok_iff (hrules : rules.repeated = .refused) {members : List (Text × Tree)}
    {v : Value} :
    (Tree.obj members).eval rules depth = .ok v ↔
      rules.allows depth = true ∧ (members.map (·.1)).Nodup ∧
        ∃ values, Tree.evalMembers rules (depth + 1) members = .ok values ∧ v = .obj values := by
  rw [Tree.eval]
  by_cases hroom : rules.allows depth = true
  · rw [if_pos hroom]
    cases hvalues : Tree.evalMembers rules (depth + 1) members with
    | error e =>
      constructor
      · intro h
        cases h
      · rintro ⟨-, -, values, h, -⟩
        cases h
    | ok values =>
      have hnames := names_of_evalMembers hvalues
      rw [ok_bind, hrules]
      constructor
      · intro h
        have hdistinct := nodup_of_object_refused h
        rw [object_of_nodup _ hdistinct] at h
        exact ⟨hroom, hnames ▸ hdistinct, values, rfl, (Except.ok.inj h).symm⟩
      · rintro ⟨-, hdistinct, values', hvalues', rfl⟩
        obtain rfl := Except.ok.inj hvalues'
        exact object_of_nodup _ (hnames.symm ▸ hdistinct)
  · rw [if_neg hroom]
    constructor
    · intro h
      cases h
    · rintro ⟨h, -⟩
      exact absurd h hroom

theorem readable_arr_iff {items : List Tree} :
    (Tree.arr items).Readable rules depth ↔
      rules.allows depth = true ∧ ∀ d ∈ items, d.Readable rules (depth + 1) := by
  rw [← exists_evalItems_iff]
  constructor
  · rintro ⟨v, hv⟩
    obtain ⟨hroom, values, hvalues, -⟩ := eval_arr_ok_iff.mp hv
    exact ⟨hroom, values, hvalues⟩
  · rintro ⟨hroom, values, hvalues⟩
    exact ⟨_, eval_arr_ok_iff.mpr ⟨hroom, values, hvalues, rfl⟩⟩

theorem readable_obj_iff (hrules : rules.repeated = .refused) {members : List (Text × Tree)} :
    (Tree.obj members).Readable rules depth ↔
      rules.allows depth = true ∧ (members.map (·.1)).Nodup ∧
        ∀ m ∈ members, m.2.Readable rules (depth + 1) := by
  rw [← exists_evalMembers_iff]
  constructor
  · rintro ⟨v, hv⟩
    obtain ⟨hroom, hdistinct, values, hvalues, -⟩ := (eval_obj_ok_iff hrules).mp hv
    exact ⟨hroom, hdistinct, values, hvalues⟩
  · rintro ⟨hroom, hdistinct, values, hvalues⟩
    exact ⟨_, (eval_obj_ok_iff hrules).mpr ⟨hroom, hdistinct, values, hvalues, rfl⟩⟩

/-- What can be said about the values of an object's members. -/
theorem exists_eval_obj (hrules : rules.repeated = .refused) {members : List (Text × Tree)}
    {P : Members → Prop} :
    (∃ values, (Tree.obj members).eval rules depth = .ok (.obj values) ∧ P values) ↔
      (Tree.obj members).Readable rules depth ∧
        ∃ values, Tree.evalMembers rules (depth + 1) members = .ok values ∧ P values := by
  constructor
  · rintro ⟨values, hvalues, h⟩
    obtain ⟨-, -, values', hvalues', heq⟩ := (eval_obj_ok_iff hrules).mp hvalues
    obtain rfl := Value.obj.inj heq
    exact ⟨⟨_, hvalues⟩, values, hvalues', h⟩
  · rintro ⟨⟨v, hv⟩, values, hvalues, h⟩
    obtain ⟨hroom, hdistinct, -⟩ := (eval_obj_ok_iff hrules).mp hv
    exact ⟨values, (eval_obj_ok_iff hrules).mpr ⟨hroom, hdistinct, values, hvalues, rfl⟩, h⟩

theorem exists_eval_obj_congr (hrules : rules.repeated = .refused)
    {members members' : List (Text × Tree)} {P : Members → Prop}
    (hreadable : (Tree.obj members).Readable rules depth ↔ (Tree.obj members').Readable rules depth)
    (hP : (Tree.obj members).Readable rules depth → ∀ values values',
      Tree.evalMembers rules (depth + 1) members = .ok values →
      Tree.evalMembers rules (depth + 1) members' = .ok values' → (P values ↔ P values')) :
    (∃ values, (Tree.obj members).eval rules depth = .ok (.obj values) ∧ P values) ↔
      ∃ values, (Tree.obj members').eval rules depth = .ok (.obj values) ∧ P values := by
  rw [exists_eval_obj hrules, exists_eval_obj hrules, ← hreadable]
  refine and_congr_right fun hroom => ?_
  -- both can be read, so there are values on both sides to compare
  obtain ⟨-, -, hmembers⟩ := (readable_obj_iff hrules).mp hroom
  obtain ⟨-, -, hmembers'⟩ := (readable_obj_iff hrules).mp (hreadable.mp hroom)
  obtain ⟨values, hvalues⟩ := (exists_evalMembers_iff members).mpr hmembers
  obtain ⟨values', hvalues'⟩ := (exists_evalMembers_iff members').mpr hmembers'
  have hsame := hP hroom values values' hvalues hvalues'
  rw [hvalues, hvalues']
  simp only [Except.ok.injEq, exists_eq_left', hsame]

/-! ## Section 3: Members that nobody looks at -/

/-- Members of new names, none of them twice, whose values can be read where they stand: inside so
    many arrays and objects, and without a repeated name in them. -/
structure Surplus (known : List Text) (depth : Nat) (members : List (Text × Tree)) : Prop where
  fresh    : ∀ m ∈ members, m.1 ∉ known
  distinct : (members.map (·.1)).Nodup
  readable : ∀ m ∈ members, m.2.Readable .wire depth

theorem Surplus.nil (known : List Text) (depth : Nat) : Surplus known depth [] where
  fresh _ hm := absurd hm List.not_mem_nil
  distinct := .nil
  readable _ hm := absurd hm List.not_mem_nil

/-- A condition on members that asks only for the values of some names. -/
def LooksOnlyAt (known : List Text) (P : Members → Prop) : Prop :=
  ∀ values values' : Members, (∀ name ∈ known, values.get? name = values'.get? name) →
    (P values ↔ P values')

/-- What looks only at some names sees neither the order of members nor the surplus ones. -/
theorem exists_eval_obj_iff {known : List Text} {P : Members → Prop} (hP : LooksOnlyAt known P)
    {members counted surplus : List (Text × Tree)} (hperm : members.Perm (counted ++ surplus))
    (hknown : ∀ m ∈ counted, m.1 ∈ known) (hsurplus : Surplus known (depth + 1) surplus) :
    (∃ values, (Tree.obj members).eval .wire depth = .ok (.obj values) ∧ P values) ↔
      ∃ values, (Tree.obj counted).eval .wire depth = .ok (.obj values) ∧ P values := by
  -- names of the one kind are none of the other
  have hapart : ∀ name ∈ known, name ∉ surplus.map (·.1) := by
    intro name hname hmem
    obtain ⟨m, hm, rfl⟩ := List.mem_map.mp hmem
    exact hsurplus.fresh m hm hname
  have hdistinct : (members.map (·.1)).Nodup ↔ (counted.map (·.1)).Nodup := by
    rw [(hperm.map _).nodup_iff, List.map_append, List.nodup_append]
    constructor
    · exact fun h => h.1
    · intro h
      refine ⟨h, hsurplus.distinct, ?_⟩
      rintro name hcounted _ hother rfl
      obtain ⟨m, hm, rfl⟩ := List.mem_map.mp hcounted
      exact hapart m.1 (hknown m hm) hother
  have hreadable : (∀ m ∈ members, m.2.Readable .wire (depth + 1)) ↔
      ∀ m ∈ counted, m.2.Readable .wire (depth + 1) := by
    constructor
    · exact fun h m hm => h m (hperm.mem_iff.mpr (List.mem_append_left _ hm))
    · intro h m hm
      rcases List.mem_append.mp (hperm.mem_iff.mp hm) with hcounted | hother
      · exact h m hcounted
      · exact hsurplus.readable m hother
  refine exists_eval_obj_congr rfl ?_ fun hroom values values' hvalues hvalues' => ?_
  · rw [readable_obj_iff rfl, readable_obj_iff rfl, hdistinct, hreadable]
  · obtain ⟨-, hmembers, -⟩ := (readable_obj_iff rfl).mp hroom
    refine hP values values' fun name hname => ?_
    rw [get?_evalMembers hvalues, get?_evalMembers hvalues', lookUp_perm hperm hmembers,
      lookUp_append_left (hapart name hname)]

/-! ## Section 4: Order at any depth -/

mutual

/-- Two trees that differ at most in the order of members, in whatever objects. -/
inductive Tree.Reordered : Tree → Tree → Prop where
  | same (d : Tree) : Tree.Reordered d d
  | arr {items items' : List Tree} :
      Tree.ItemsReordered items items' → Tree.Reordered (.arr items) (.arr items')
  | obj {members between members' : List (Text × Tree)} :
      Tree.MembersReordered members between → between.Perm members' →
      Tree.Reordered (.obj members) (.obj members')

/-- Items that differ at most in the order of members, one by one. -/
inductive Tree.ItemsReordered : List Tree → List Tree → Prop where
  | nil : Tree.ItemsReordered [] []
  | cons {d d' : Tree} {items items' : List Tree} :
      Tree.Reordered d d' → Tree.ItemsReordered items items' →
      Tree.ItemsReordered (d :: items) (d' :: items')

/-- Members of the same names whose values differ at most in the order of members, one by one. -/
inductive Tree.MembersReordered : List (Text × Tree) → List (Text × Tree) → Prop where
  | nil : Tree.MembersReordered [] []
  | cons {name : Text} {d d' : Tree} {members members' : List (Text × Tree)} :
      Tree.Reordered d d' → Tree.MembersReordered members members' →
      Tree.MembersReordered ((name, d) :: members) ((name, d') :: members')

end

theorem Tree.MembersReordered.refl (members : List (Text × Tree)) :
    MembersReordered members members := by
  induction members with
  | nil => exact .nil
  | cons m members ih => exact .cons (.same m.2) ih

mutual

/-- There is no object in the tree. -/
def Tree.Flat : Tree → Prop
  | .arr items => Tree.ItemsFlat items
  | .obj _ => False
  | _ => True

/-- There is no object in the items. -/
def Tree.ItemsFlat : List Tree → Prop
  | [] => True
  | d :: rest => d.Flat ∧ Tree.ItemsFlat rest

end

theorem Tree.itemsFlat_iff (items : List Tree) : ItemsFlat items ↔ ∀ d ∈ items, d.Flat := by
  induction items with
  | nil => simp [ItemsFlat]
  | cons d items ih => rw [ItemsFlat, ih, List.forall_mem_cons]

mutual

/-- Without objects there is only one order. -/
theorem Tree.Reordered.eq : ∀ {d d' : Tree}, d.Reordered d' → d.Flat ∨ d'.Flat → d = d'
  | _, _, .same _, _ => rfl
  | _, _, .arr hitems, hflat => by
    rw [hitems.eq hflat]
  | _, _, .obj _ _, hflat => by
    rcases hflat with hflat | hflat <;> cases hflat

theorem Tree.ItemsReordered.eq : ∀ {items items' : List Tree}, ItemsReordered items items' →
    ItemsFlat items ∨ ItemsFlat items' → items = items'
  | _, _, .nil, _ => rfl
  | _, _, .cons hd hitems, hflat => by
    have hhead := hd.eq (hflat.imp And.left And.left)
    have htail := hitems.eq (hflat.imp And.right And.right)
    rw [hhead, htail]

end

theorem Tree.MembersReordered.names_eq {members members' : List (Text × Tree)}
    (h : MembersReordered members members') : members'.map (·.1) = members.map (·.1) := by
  induction members generalizing members' with
  | nil =>
    cases h
    rfl
  | cons m members ih =>
    cases h with
    | cons _ hmembers => rw [List.map_cons, List.map_cons, ih hmembers]

mutual

/-- There is no object in the value. -/
def Value.Flat : Value → Prop
  | .arr items => ValuesFlat items
  | .obj _ => False
  | _ => True

/-- There is no object in the values. -/
def ValuesFlat : List Value → Prop
  | [] => True
  | v :: rest => v.Flat ∧ ValuesFlat rest

end

theorem valuesFlat_iff (items : List Value) : ValuesFlat items ↔ ∀ v ∈ items, v.Flat := by
  induction items with
  | nil => simp [ValuesFlat]
  | cons v items ih => rw [ValuesFlat, ih, List.forall_mem_cons]

/-- A value without objects is written without objects. -/
theorem Tree.flat_of_eval (hrules : rules.repeated = .refused) {d : Tree} {v : Value}
    (h : d.eval rules depth = .ok v) (hflat : v.Flat) : d.Flat := by
  induction d using Tree.induction generalizing depth v with
  | arr items ih =>
    obtain ⟨-, values, hvalues, rfl⟩ := eval_arr_ok_iff.mp h
    rw [Tree.Flat, Tree.itemsFlat_iff]
    rw [Value.Flat, valuesFlat_iff] at hflat
    intro d hd
    obtain ⟨w, hw, heval⟩ := mem_of_evalItems hvalues d hd
    exact ih d hd heval (hflat w hw)
  | obj members ih =>
    obtain ⟨-, -, values, -, rfl⟩ := (eval_obj_ok_iff hrules).mp h
    exact absurd hflat id
  | _ => trivial

mutual

/-- Whether a tree can be read does not depend on order. -/
theorem Tree.Reordered.readable_iff (hrules : rules.repeated = .refused) :
    ∀ {depth : Nat} {d d' : Tree}, d.Reordered d' →
      (d.Readable rules depth ↔ d'.Readable rules depth)
  | _, _, _, .same _ => Iff.rfl
  | _, _, _, .arr hitems => by
    rw [readable_arr_iff, readable_arr_iff, hitems.readable_iff hrules]
  | depth, _, _, @Tree.Reordered.obj members between _ hmembers hperm => by
    have hnames : (members.map (·.1)).Nodup ↔ (between.map (·.1)).Nodup := by
      rw [hmembers.names_eq]
    have hvalues : (∀ m ∈ members, m.2.Readable rules (depth + 1)) ↔
        ∀ m ∈ between, m.2.Readable rules (depth + 1) := hmembers.readable_iff hrules
    rw [readable_obj_iff hrules, readable_obj_iff hrules, hnames, hvalues,
      (hperm.map _).nodup_iff]
    simp only [hperm.mem_iff]

theorem Tree.ItemsReordered.readable_iff (hrules : rules.repeated = .refused) :
    ∀ {depth : Nat} {items items' : List Tree}, ItemsReordered items items' →
      ((∀ d ∈ items, d.Readable rules depth) ↔ ∀ d ∈ items', d.Readable rules depth)
  | _, _, _, .nil => Iff.rfl
  | _, _, _, .cons hd hitems => by
    rw [List.forall_mem_cons, List.forall_mem_cons, hd.readable_iff hrules,
      hitems.readable_iff hrules]

theorem Tree.MembersReordered.readable_iff (hrules : rules.repeated = .refused) :
    ∀ {depth : Nat} {members members' : List (Text × Tree)}, MembersReordered members members' →
      ((∀ m ∈ members, m.2.Readable rules depth) ↔ ∀ m ∈ members', m.2.Readable rules depth)
  | _, _, _, .nil => Iff.rfl
  | _, _, _, .cons hd hmembers => by
    rw [List.forall_mem_cons, List.forall_mem_cons, hd.readable_iff hrules,
      hmembers.readable_iff hrules]

end

theorem Tree.MembersReordered.lookUp {members members' : List (Text × Tree)}
    (h : MembersReordered members members') (name : Text) :
    (Json.lookUp members name = none ∧ Json.lookUp members' name = none) ∨
      ∃ d d', Json.lookUp members name = some d ∧ Json.lookUp members' name = some d' ∧
        d.Reordered d' := by
  induction members generalizing members' with
  | nil =>
    cases h
    exact .inl ⟨rfl, rfl⟩
  | cons m members ih =>
    cases h with
    | @cons first d d' _ members' hd hmembers =>
      rw [lookUp_cons, lookUp_cons]
      by_cases hname : first = name
      · rw [if_pos hname, if_pos hname]
        exact .inr ⟨d, d', rfl, rfl, hd⟩
      · rw [if_neg hname, if_neg hname]
        exact ih hmembers

/-- Trees that differ in order have the same value if there is no object in it. -/
theorem Tree.Reordered.eval_iff (hrules : rules.repeated = .refused) {d d' : Tree}
    (h : d.Reordered d') {v : Value} (hflat : v.Flat) :
    d.eval rules depth = .ok v ↔ d'.eval rules depth = .ok v := by
  -- the tree that has the value has no object in it either, so there is nothing to reorder
  constructor
  · intro hd
    rw [← h.eq (.inl (flat_of_eval hrules hd hflat))]
    exact hd
  · intro hd'
    rw [h.eq (.inr (flat_of_eval hrules hd' hflat))]
    exact hd'

/-- A condition on members that asks only which names are there, and whether a name has this or
    that value without objects. -/
def LooksOnlyAtFlat (P : Members → Prop) : Prop :=
  ∀ values values' : Members,
    (∀ name, values.get? name = none ↔ values'.get? name = none) →
    (∀ name (v : Value), v.Flat → (values.get? name = some v ↔ values'.get? name = some v)) →
    (P values ↔ P values')

theorem get?_eq_none_iff (members : Members) (name : Text) :
    members.get? name = none ↔ name ∉ members.map (·.1) := by
  rw [Members.get?, Option.map_eq_none_iff, List.find?_eq_none]
  constructor
  · intro h hmem
    obtain ⟨m, hm, hname⟩ := List.mem_map.mp hmem
    exact h m hm (decide_eq_true hname)
  · intro h m hm hname
    exact h (List.mem_map.mpr ⟨m, hm, of_decide_eq_true hname⟩)

/-- What looks only at values without objects does not see the order in the values. -/
theorem exists_eval_reordered_iff {P : Members → Prop} (hP : LooksOnlyAtFlat P)
    {members members' : List (Text × Tree)} (h : Tree.MembersReordered members members') :
    (∃ values, (Tree.obj members).eval .wire depth = .ok (.obj values) ∧ P values) ↔
      ∃ values, (Tree.obj members').eval .wire depth = .ok (.obj values) ∧ P values := by
  have hobjects : (Tree.obj members).Reordered (.obj members') := .obj h (.refl _)
  refine exists_eval_obj_congr rfl (hobjects.readable_iff rfl) fun _ values values' hvalues
    hvalues' => hP values values' (fun name => ?_) fun name v hflat => ?_
  · rw [get?_eq_none_iff, get?_eq_none_iff, names_of_evalMembers hvalues,
      names_of_evalMembers hvalues', h.names_eq]
  · rw [get?_evalMembers hvalues, get?_evalMembers hvalues']
    rcases h.lookUp name with ⟨hnone, hnone'⟩ | ⟨d, d', hd, hd', hsame⟩
    · rw [hnone, hnone']
    · rw [hd, hd', Option.bind_some, Option.bind_some, Tree.value?_eq_some_iff,
        Tree.value?_eq_some_iff]
      exact hsame.eval_iff rfl hflat

end SignedEvents.Json
