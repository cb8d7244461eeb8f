import Mathlib.Data.List.Forall2
import SignedEvents.Proofs.Json.Objects

/-! # The values of trees

  What a reader makes of a tree, said without the reader: one rule for each kind of tree.  The rules
  tell integers from other numbers by the way they are written, and keep the names of members apart.

  - **Tree.Means** — which value a tree has.
  - **Tree.means_of_eval** — a reader that refuses repeated names follows the rules.
  - **Value.Arises** — the values that trees have; no name is repeated in them.
  - **Members.Has** — what stands under a name.
-/

namespace SignedEvents.Json

/-! ## Section 1: Rules -/

/-- The value of a tree, for a reader that refuses repeated names.  A number is an integer exactly
    if it is written without a fraction and without an exponent; how other numbers are rounded is
    left open. -/
inductive Tree.Means : Tree → Value → Prop where
  | null : Means .null .null
  | bool (b : Bool) : Means (.bool b) (.bool b)
  | nan : Means .nan (.float .nan)
  | infinity (negative : Bool) : Means (.infinity negative) (.float (.infinite negative))
  | integer {n : Numeral} {k : Int} (hfraction : n.fraction = none) (hexponent : n.exponent = none)
      (hk : k = if n.negative then -(valueOf n.whole : Int) else valueOf n.whole) :
      Means (.number n) (.int k)
  | decimal {n : Numeral} (x : Binary64) (h : n.fraction ≠ none ∨ n.exponent ≠ none) :
      Means (.number n) (.float x)
  | str (t : Text) : Means (.str t) (.str t)
  | arr {items : List Tree} {values : List Value} (h : List.Forall₂ Means items values) :
      Means (.arr items) (.arr values)
  | obj {members : List (Text × Tree)} {values : Members} (hdistinct : (members.map (·.1)).Nodup)
      (hnames : values.map (·.1) = members.map (·.1))
      (hvalues : List.Forall₂ Means (members.map (·.2)) (values.map (·.2))) :
      Means (.obj members) (.obj values)

/-! ## Section 2: Readers follow the rules -/

section reading

variable {rules : Rules} {depth : Nat}

theorem forall₂_of_evalItems {R : Tree → Value → Prop} {items : List Tree} {values : List Value}
    (h : Tree.evalItems rules depth items = .ok values)
    (hR : ∀ d ∈ items, ∀ v, d.eval rules depth = .ok v → R d v) :
    List.Forall₂ R items values := by
  induction items generalizing values with
  | nil =>
    obtain rfl := Except.ok.inj h
    exact .nil
  | cons d items ih =>
    obtain ⟨v, vs, hv, hvs, rfl⟩ := evalItems_cons_ok h
    obtain ⟨hd, hitems⟩ := List.forall_mem_cons.mp hR
    exact .cons (hd v hv) (ih hvs hitems)

theorem forall₂_of_evalMembers {R : Tree → Value → Prop} {members : List (Text × Tree)}
    {values : Members} (h : Tree.evalMembers rules depth members = .ok values)
    (hR : ∀ m ∈ members, ∀ v, m.2.eval rules depth = .ok v → R m.2 v) :
    List.Forall₂ R (members.map (·.2)) (values.map (·.2)) := by
  induction members generalizing values with
  | nil =>
    obtain rfl := Except.ok.inj h
    exact .nil
  | cons m members ih =>
    obtain ⟨v, vs, hv, hvs, rfl⟩ := evalMembers_cons_ok h
    obtain ⟨hm, hmembers⟩ := List.forall_mem_cons.mp hR
    exact .cons (hm v hv) (ih hvs hmembers)

theorem means_of_numeral {n : Numeral} {limit : Option Nat} {v : Value}
    (h : n.value limit = .ok v) : (Tree.number n).Means v := by
  unfold Numeral.value at h
  split at h
  · next hfraction hexponent =>
    dsimp only at h
    split at h
    · -- with a limit, there is only a value if the integer is not too long
      split at h
      · cases h
      · cases h
        exact .integer hfraction hexponent rfl
    · cases h
      exact .integer hfraction hexponent rfl
  · next hnot =>
    cases h
    apply Tree.Means.decimal
    by_contra hplain
    push Not at hplain
    exact hnot hplain.1 hplain.2

/-- What a reader makes of a tree is the value of the tree. -/
theorem Tree.means_of_eval (hrules : rules.repeated = .refused) {d : Tree} {v : Value}
    (h : d.eval rules depth = .ok v) : d.Means v := by
  induction d using Tree.induction generalizing depth v with
  | null => cases h; exact .null
  | bool b => cases h; exact .bool b
  | nan => cases h; exact .nan
  | infinity negative => cases h; exact .infinity negative
  | number n => exact means_of_numeral h
  | str t => cases h; exact .str t
  | arr items ih =>
    obtain ⟨-, values, hvalues, rfl⟩ := eval_arr_ok_iff.mp h
    exact .arr (forall₂_of_evalItems hvalues fun d hd w hw => ih d hd hw)
  | obj members ih =>
    obtain ⟨-, hdistinct, values, hvalues, rfl⟩ := (eval_obj_ok_iff hrules).mp h
    exact .obj hdistinct (names_of_evalMembers hvalues)
      (forall₂_of_evalMembers hvalues fun m hm w hw => ih m hm hw)

end reading

/-! ## Section 3: What is in a value -/

/-- Something has the value: it can be the value of a text, or stand anywhere in one. -/
def Value.Arises (v : Value) : Prop := ∃ d : Tree, d.Means v

theorem exists_of_mem_right {α β : Type} {R : α → β → Prop} {as : List α} {bs : List β}
    (h : List.Forall₂ R as bs) : ∀ b ∈ bs, ∃ a, R a b := by
  induction h with
  | nil => exact List.forall_mem_nil _
  | cons hab _ ih => exact List.forall_mem_cons.mpr ⟨⟨_, hab⟩, ih⟩

theorem Value.Arises.items {values : List Value} (h : (Value.arr values).Arises) :
    ∀ v ∈ values, v.Arises := by
  -- only an array means an array
  obtain ⟨d, hd⟩ := h
  cases hd with
  | arr hitems => exact exists_of_mem_right hitems

theorem Value.Arises.members {values : Members} (h : (Value.obj values).Arises) :
    ∀ m ∈ values, m.2.Arises := by
  obtain ⟨d, hd⟩ := h
  cases hd with
  | obj _ _ hvalues =>
    exact fun m hm => exists_of_mem_right hvalues m.2 (List.mem_map_of_mem hm)

/-- A member of the name stands for the value. -/
def Members.Has (members : Members) (name : Text) (v : Value) : Prop := (name, v) ∈ members

/-- What stands under a name is found there, since no name is repeated. -/
theorem Value.Arises.get?_iff {values : Members} (h : (Value.obj values).Arises) (name : Text)
    (v : Value) : values.get? name = some v ↔ values.Has name v := by
  obtain ⟨d, hd⟩ := h
  cases hd with
  | obj hdistinct hnames _ => exact lookUp_eq_some_iff (hnames ▸ hdistinct) name v

theorem get?_eq_none_iff_not_has (values : Members) (name : Text) :
    values.get? name = none ↔ ∀ v, ¬ values.Has name v := by
  rw [get?_eq_none_iff]
  constructor
  · exact fun h v hv => h (List.mem_map.mpr ⟨_, hv, rfl⟩)
  · intro h hmem
    obtain ⟨⟨_, v⟩, hv, rfl⟩ := List.mem_map.mp hmem
    exact h v hv

end SignedEvents.Json
