import SignedEvents.Json.Reader

/-! # Syntax trees of JSON text

  What a text says before anyone decides what to make of it: numbers as they are written, and
  every member of every object, repeated names included.

  - **Tree** — a syntax tree.
  - **Tree.tokens** — the tokens that spell a tree.
  - **Tree.eval** — the value of a tree under the rules of a reader.
  - **Tree.NamesDistinct** — no object of the tree repeats a name.
-/

namespace SignedEvents.Json

/-! ## Section 1: Trees -/

/-- A JSON text as it is written. -/
inductive Tree where
  | null
  | bool (b : Bool)
  | nan
  | infinity (negative : Bool)
  | number (n : Numeral)
  | str (t : Text)
  | arr (items : List Tree)
  | obj (members : List (Text × Tree))

namespace Tree

/-- Induction over trees: what holds of all items of an array holds of the array, and what holds
    of the values of all members holds of the object. -/
@[elab_as_elim]
theorem induction {motive : Tree → Prop}
    (null : motive .null) (bool : ∀ b, motive (.bool b)) (nan : motive .nan)
    (infinity : ∀ negative, motive (.infinity negative)) (number : ∀ n, motive (.number n))
    (str : ∀ t, motive (.str t))
    (arr : ∀ items : List Tree, (∀ d ∈ items, motive d) → motive (.arr items))
    (obj : ∀ members : List (Text × Tree), (∀ m ∈ members, motive m.2) → motive (.obj members))
    (d : Tree) : motive d :=
  d.rec (motive_1 := motive) (motive_2 := fun items => ∀ d ∈ items, motive d)
    (motive_3 := fun members => ∀ m ∈ members, motive m.2) (motive_4 := fun m => motive m.2)
    null bool nan infinity number str arr obj
    (by simp) (fun _ _ hd hrest => by simpa using ⟨hd, hrest⟩)
    (by simp) (fun _ _ hm hrest => by simpa using ⟨hm, fun a b => hrest (a, b)⟩)
    (fun _ _ hd => hd)

end Tree

/-! ## Section 2: Tokens -/

/-- Rows of tokens with a comma between each two. -/
def joinTokens : List (List Token) → List Token
  | [] => []
  | row :: rest => row ++ rest.flatMap (.comma :: ·)

mutual

/-- The tokens that spell a tree. -/
def Tree.tokens : Tree → List Token
  | .null => [.null]
  | .bool b => [.bool b]
  | .nan => [.nan]
  | .infinity negative => [.infinity negative]
  | .number n => [.number n]
  | .str t => [.str t]
  | .arr items => .openArray :: joinTokens (Tree.itemTokens items) ++ [.closeArray]
  | .obj members => .openObject :: joinTokens (Tree.memberTokens members) ++ [.closeObject]

/-- The tokens of each item. -/
def Tree.itemTokens : List Tree → List (List Token)
  | [] => []
  | d :: rest => d.tokens :: Tree.itemTokens rest

/-- The tokens of each member. -/
def Tree.memberTokens : List (Text × Tree) → List (List Token)
  | [] => []
  | (name, d) :: rest => (.str name :: .colon :: d.tokens) :: Tree.memberTokens rest

end

theorem Tree.itemTokens_eq_map (items : List Tree) : itemTokens items = items.map tokens := by
  induction items with
  | nil => rfl
  | cons d items ih => rw [itemTokens, ih, List.map_cons]

theorem Tree.memberTokens_eq_map (members : List (Text × Tree)) :
    memberTokens members = members.map fun m => .str m.1 :: .colon :: m.2.tokens := by
  induction members with
  | nil => rfl
  | cons m members ih => rw [memberTokens, ih, List.map_cons]

theorem Tree.itemTokens_append (items more : List Tree) :
    itemTokens (items ++ more) = itemTokens items ++ itemTokens more := by
  rw [itemTokens_eq_map, itemTokens_eq_map, itemTokens_eq_map, List.map_append]

theorem Tree.memberTokens_append (members more : List (Text × Tree)) :
    memberTokens (members ++ more) = memberTokens members ++ memberTokens more := by
  rw [memberTokens_eq_map, memberTokens_eq_map, memberTokens_eq_map, List.map_append]

/-- The last row stands behind the others and their commas. -/
theorem joinTokens_concat (rows : List (List Token)) (row : List Token) :
    joinTokens (rows ++ [row]) = rows.flatMap (· ++ [.comma]) ++ row := by
  cases rows with
  | nil => simp [joinTokens]
  | cons first rows =>
    have shift : ∀ rows : List (List Token),
        rows.flatMap (.comma :: ·) ++ [Token.comma] =
          .comma :: rows.flatMap (· ++ [.comma]) := by
      intro rows
      induction rows with
      | nil => rfl
      | cons r rows ih => simp [List.append_assoc, ih]
    have h := shift rows
    simp only [List.cons_append, joinTokens, List.flatMap_append, List.flatMap_cons,
      List.flatMap_nil, List.append_nil, List.append_assoc]
    rw [← List.singleton_append, ← List.append_assoc (rows.flatMap _), h]
    simp

/-- Rows that are followed by another comma are each followed by one. -/
theorem joinTokens_comma {rows : List (List Token)} (h : rows ≠ []) :
    joinTokens rows ++ [.comma] = rows.flatMap (· ++ [.comma]) := by
  obtain ⟨before, row, rfl⟩ : ∃ before row, rows = before ++ [row] :=
    ⟨_, _, (List.dropLast_concat_getLast h).symm⟩
  rw [joinTokens_concat]
  simp

/-! ## Section 3: Values -/

/-- May an array or object be opened inside so many others? -/
def Rules.allows (rules : Rules) (depth : Nat) : Bool :=
  match rules.depth with
  | some most => depth < most
  | none => true

theorem Rules.hasRoom_eq (rules : Rules) (stack : List Frame) :
    rules.hasRoom stack = rules.allows stack.length := by
  unfold Rules.hasRoom Rules.allows
  cases rules.depth <;> rfl

mutual

/-- The value of a tree that stands inside so many arrays and objects. -/
def Tree.eval (rules : Rules) (depth : Nat) : Tree → Except Error Value
  | .null => .ok .null
  | .bool b => .ok (.bool b)
  | .nan => .ok (.float .nan)
  | .infinity negative => .ok (.float (.infinite negative))
  | .number n => n.value rules.digits
  | .str t => .ok (.str t)
  | .arr items =>
    if rules.allows depth then do
      let values ← Tree.evalItems rules (depth + 1) items
      return .arr values
    else .error (.tooDeep .array)
  | .obj members =>
    if rules.allows depth then do
      let values ← Tree.evalMembers rules (depth + 1) members
      rules.repeated.object values
    else .error (.tooDeep .object)

/-- The values of items, from left to right. -/
def Tree.evalItems (rules : Rules) (depth : Nat) : List Tree → Except Error (List Value)
  | [] => .ok []
  | d :: rest => do
    let value ← d.eval rules depth
    let values ← Tree.evalItems rules depth rest
    return value :: values

/-- The members with their values, from left to right. -/
def Tree.evalMembers (rules : Rules) (depth : Nat) :
    List (Text × Tree) → Except Error Members
  | [] => .ok []
  | (name, d) :: rest => do
    let value ← d.eval rules depth
    let values ← Tree.evalMembers rules depth rest
    return (name, value) :: values

end

section evaluation

variable {rules : Rules} {depth : Nat}

theorem evalItems_nil : Tree.evalItems rules depth [] = .ok [] := rfl

theorem evalMembers_nil : Tree.evalMembers rules depth [] = .ok [] := rfl

theorem evalItems_cons_ok {d : Tree} {items : List Tree} {values : List Value}
    (h : Tree.evalItems rules depth (d :: items) = .ok values) :
    ∃ v vs, d.eval rules depth = .ok v ∧ Tree.evalItems rules depth items = .ok vs ∧
      values = v :: vs := by
  rw [Tree.evalItems] at h
  cases hd : d.eval rules depth with
  | error e => rw [hd] at h; cases h
  | ok v =>
    cases hitems : Tree.evalItems rules depth items with
    | error e => rw [hd, hitems] at h; cases h
    | ok vs =>
      rw [hd, hitems] at h
      cases h
      exact ⟨v, vs, rfl, rfl, rfl⟩

theorem evalMembers_cons_ok {m : Text × Tree} {members : List (Text × Tree)} {values : Members}
    (h : Tree.evalMembers rules depth (m :: members) = .ok values) :
    ∃ v vs, m.2.eval rules depth = .ok v ∧ Tree.evalMembers rules depth members = .ok vs ∧
      values = (m.1, v) :: vs := by
  rw [Tree.evalMembers] at h
  cases hd : m.2.eval rules depth with
  | error e => rw [hd] at h; cases h
  | ok v =>
    cases hmembers : Tree.evalMembers rules depth members with
    | error e => rw [hd, hmembers] at h; cases h
    | ok vs =>
      rw [hd, hmembers] at h
      cases h
      exact ⟨v, vs, rfl, rfl, rfl⟩

theorem mem_of_evalItems {items : List Tree} {values : List Value}
    (h : Tree.evalItems rules depth items = .ok values) :
    ∀ d ∈ items, ∃ v ∈ values, d.eval rules depth = .ok v := by
  induction items generalizing values with
  | nil => exact fun d hd => absurd hd List.not_mem_nil
  | cons d items ih =>
    obtain ⟨v, vs, hv, hvs, rfl⟩ := evalItems_cons_ok h
    refine List.forall_mem_cons.mpr ⟨⟨v, List.mem_cons_self .., hv⟩, fun d hd => ?_⟩
    obtain ⟨w, hw, heval⟩ := ih hvs d hd
    exact ⟨w, List.mem_cons_of_mem _ hw, heval⟩

theorem mem_of_evalMembers {members : List (Text × Tree)} {values : Members}
    (h : Tree.evalMembers rules depth members = .ok values) :
    ∀ m ∈ members, ∃ v, (m.1, v) ∈ values ∧ m.2.eval rules depth = .ok v := by
  induction members generalizing values with
  | nil => exact fun m hm => absurd hm List.not_mem_nil
  | cons m members ih =>
    obtain ⟨v, vs, hv, hvs, rfl⟩ := evalMembers_cons_ok h
    refine List.forall_mem_cons.mpr ⟨⟨v, List.mem_cons_self .., hv⟩, fun m hm => ?_⟩
    obtain ⟨w, hw, heval⟩ := ih hvs m hm
    exact ⟨w, List.mem_cons_of_mem _ hw, heval⟩

/-- The values of members stand under the names of the members. -/
theorem names_of_evalMembers {members : List (Text × Tree)} {values : Members}
    (h : Tree.evalMembers rules depth members = .ok values) :
    values.map (·.1) = members.map (·.1) := by
  induction members generalizing values with
  | nil => cases h; rfl
  | cons m members ih =>
    obtain ⟨v, vs, -, hmembers, rfl⟩ := evalMembers_cons_ok h
    rw [List.map_cons, List.map_cons, ih hmembers]

theorem evalItems_concat {items : List Tree} {values : List Value} {d : Tree} {v : Value}
    (hitems : Tree.evalItems rules depth items = .ok values) (hd : d.eval rules depth = .ok v) :
    Tree.evalItems rules depth (items ++ [d]) = .ok (values ++ [v]) := by
  induction items generalizing values with
  | nil =>
    cases hitems
    rw [List.nil_append, Tree.evalItems, hd]
    rfl
  | cons first items ih =>
    obtain ⟨w, ws, hfirst, hrest, rfl⟩ := evalItems_cons_ok hitems
    rw [List.cons_append, Tree.evalItems, hfirst, ih hrest]
    rfl

theorem evalMembers_concat {members : List (Text × Tree)} {values : Members} (name : Text)
    {d : Tree} {v : Value} (hmembers : Tree.evalMembers rules depth members = .ok values)
    (hd : d.eval rules depth = .ok v) :
    Tree.evalMembers rules depth (members ++ [(name, d)]) = .ok (values ++ [(name, v)]) := by
  induction members generalizing values with
  | nil =>
    cases hmembers
    rw [List.nil_append, Tree.evalMembers, hd]
    rfl
  | cons first members ih =>
    obtain ⟨w, ws, hfirst, hrest, rfl⟩ := evalMembers_cons_ok hmembers
    rw [List.cons_append, Tree.evalMembers, hfirst, ih hrest]
    rfl

end evaluation

/-! ## Section 4: Repeated names -/

mutual

/-- No object of the tree, at any depth, has two members of one name. -/
def Tree.NamesDistinct : Tree → Prop
  | .arr items => Tree.ItemsDistinct items
  | .obj members => (members.map (·.1)).Nodup ∧ Tree.MembersDistinct members
  | _ => True

/-- No object of the items has two members of one name. -/
def Tree.ItemsDistinct : List Tree → Prop
  | [] => True
  | d :: rest => d.NamesDistinct ∧ Tree.ItemsDistinct rest

/-- No object of the members' values has two members of one name. -/
def Tree.MembersDistinct : List (Text × Tree) → Prop
  | [] => True
  | (_, d) :: rest => d.NamesDistinct ∧ Tree.MembersDistinct rest

end

end SignedEvents.Json
