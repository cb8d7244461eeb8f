import SignedEvents.Json.Printer
import SignedEvents.Proofs.Json.RepeatedNames
import SignedEvents.Proofs.Text.Numeral

/-! # Printed text is read back

  - **Value.tree** — the tree that a value is printed as.
  - **Value.Fits** — a value that a reader can hold.
  - **written_print** — a printed value is written for its tree.
  - **eval_tree** — the tree has the value.
  - **read_print** — so what has been printed is read back.
  - **hasSurrogate_print** — the printer adds no surrogate, and escapes none.
-/

namespace SignedEvents.Json

/-! ## Section 1: Strings and numbers -/

theorem hexQuad?_hexDigit {n : Nat} (h : n < 0x10000) :
    hexQuad? (.hexDigit (n / Nat.pow 16 3)) (.hexDigit (n / Nat.pow 16 2))
      (.hexDigit (n / Nat.pow 16 1)) (.hexDigit (n / Nat.pow 16 0)) = some n := by
  simp only [hexQuad?, CodePoint.hexValue?_hexDigit, Option.some.injEq, Nat.pow_eq]
  omega

theorem mem_of_letterEscape? {c : CodePoint} {t : Text} (h : letterEscape? c = some t) :
    ∃ e : CodePoint, t = [backslash, e] ∧ (e.val, c.val) ∈ letterEscapes := by
  unfold letterEscape? at h
  split at h
  · next hc => cases h; rw [val_of_is hc]; exact ⟨.ofChar '"', rfl, by decide⟩
  split at h
  · next hc => cases h; rw [val_of_is hc]; exact ⟨.ofChar '\\', rfl, by decide⟩
  split at h
  · next hc => cases h; rw [hc]; exact ⟨.ofChar 'b', rfl, by decide⟩
  split at h
  · next hc => cases h; rw [hc]; exact ⟨.ofChar 'f', rfl, by decide⟩
  split at h
  · next hc => cases h; rw [hc]; exact ⟨.ofChar 'n', rfl, by decide⟩
  split at h
  · next hc => cases h; rw [hc]; exact ⟨.ofChar 'r', rfl, by decide⟩
  split at h
  · next hc => cases h; rw [hc]; exact ⟨.ofChar 't', rfl, by decide⟩
  · cases h

theorem ne_of_letterEscape?_eq_none {c : CodePoint} (h : letterEscape? c = none) :
    c.val ≠ 0x22 ∧ c.val ≠ 0x5C := by
  unfold letterEscape? at h
  constructor
  · intro hval
    rw [if_pos (is_of_val hval)] at h
    cases h
  · intro hval
    have hquote : ¬ c.is '"' = true := by
      rw [is_of_val_ne (by rw [hval]; decide)]
      exact Bool.false_ne_true
    rw [if_neg hquote, if_pos (is_of_val hval)] at h
    cases h

/-- What the printer makes of a code point is a piece that stands for it. -/
theorem piece_of_escapeControl (c : CodePoint) :
    ∃ p : Piece, p.text = escapeControl c ∧ p.point = c ∧ p.isHigh = false := by
  unfold escapeControl
  cases hletter : letterEscape? c with
  | some t =>
    -- a letter
    obtain ⟨e, rfl, hescape⟩ := mem_of_letterEscape? hletter
    exact ⟨.letter e c hescape, rfl, rfl, rfl⟩
  | none =>
    by_cases hcontrol : c.val < 0x20
    · -- a number, which is no surrogate's
      have hnumber := hexQuad?_hexDigit (n := c.val) (by omega)
      refine ⟨.numbered _ _ _ _ c hnumber, ?_, rfl, ?_⟩
      · simp only [if_pos hcontrol]
        rfl
      · simp only [Piece.isHigh, CodePoint.isHighSurrogate, Bool.and_eq_false_iff,
          decide_eq_false_iff_not]
        omega
    · -- itself
      obtain ⟨hquote, hslash⟩ := ne_of_letterEscape?_eq_none hletter
      exact ⟨.plain c ⟨Nat.le_of_not_lt hcontrol, hquote, hslash⟩, (if_neg hcontrol).symm, rfl, rfl⟩

theorem lexeme_printString (t : Text) : Lexeme (.str t) (printString .compact t) := by
  have hpieces : ∃ ps : List Piece, ps.flatMap Piece.text = t.flatMap escapeControl ∧
      ps.map Piece.point = t ∧ ∀ p ∈ ps, p.isHigh = false := by
    induction t with
    | nil => exact ⟨[], rfl, rfl, fun p hp => absurd hp List.not_mem_nil⟩
    | cons c t ih =>
      obtain ⟨p, htext, hpoint, hhigh⟩ := piece_of_escapeControl c
      obtain ⟨ps, htexts, hpoints, hhighs⟩ := ih
      refine ⟨p :: ps, ?_, ?_, List.forall_mem_cons.mpr ⟨hhigh, hhighs⟩⟩
      · rw [List.flatMap_cons, List.flatMap_cons, htext, htexts]
      · rw [List.map_cons, hpoint, hpoints]
  obtain ⟨ps, htext, hpoint, hhigh⟩ := hpieces
  have hlexeme := Lexeme.str ps
  rw [Piece.meaning_eq_map hhigh, hpoint, htext] at hlexeme
  exact hlexeme

/-- The numeral of an integer. -/
def numeralOf (n : Int) : Numeral := ⟨n < 0, digitsOf n.natAbs, none, none⟩

theorem written_ofInt (n : Int) : (numeralOf n).Written (Text.ofInt n) := by
  have hdigits (m : Nat) : DigitsWritten (digitsOf m) (Text.ofNat m) :=
    ⟨digitsOf_ne_nil m, digitsOf_small m, rfl⟩
  have hzero (m : Nat) (h : (digitsOf m).head? = some 0) : digitsOf m = [0] := by
    rw [digitsOf_head h, digitsOf_of_lt (by decide)]
  have hwritten : Numeral.Written ⟨n < 0, digitsOf n.natAbs, none, none⟩ _ :=
    .mk (hdigits n.natAbs) (hzero n.natAbs) .absent .absent
  rw [List.append_nil, List.append_nil] at hwritten
  cases n with
  | ofNat m => exact hwritten
  | negSucc m =>
    have hnegative : decide (Int.negSucc m < 0) = true := decide_eq_true (Int.negSucc_lt_zero m)
    rw [hnegative] at hwritten
    rw [numeralOf, hnegative]
    exact hwritten

/-! ## Section 2: The tree of a value -/

mutual

/-- The tree that a value is printed as.  A number that is no integer stands for the word that it
    has, if it has one. -/
def Value.tree : Value → Tree
  | .null => .null
  | .bool b => .bool b
  | .int n => .number (numeralOf n)
  | .float (.infinite negative) => .infinity negative
  | .float _ => .nan
  | .str t => .str t
  | .arr items => .arr (itemTrees items)
  | .obj members => .obj (memberTrees members)

/-- The trees of items. -/
def itemTrees : List Value → List Tree
  | [] => []
  | v :: rest => v.tree :: itemTrees rest

/-- The trees of members. -/
def memberTrees : List (Text × Value) → List (Text × Tree)
  | [] => []
  | (name, v) :: rest => (name, v.tree) :: memberTrees rest

end

/-- May an integer have so many digits? -/
def Rules.admits (rules : Rules) (n : Int) : Prop :=
  ∀ most ∈ rules.digits, (digitsOf n.natAbs).length ≤ most

mutual

/-- A value that a reader can hold inside so many arrays and objects: not too deep, no integer
    too long, no name repeated.  Numbers that are no integers are left out, because they are
    printed only up to rounding. -/
def Value.Fits (rules : Rules) (depth : Nat) : Value → Prop
  | .int n => rules.admits n
  | .float _ => False
  | .arr items => rules.allows depth = true ∧ ItemsFit rules (depth + 1) items
  | .obj members =>
    rules.allows depth = true ∧ (members.map (·.1)).Nodup ∧ MembersFit rules (depth + 1) members
  | _ => True

/-- Items that a reader can hold. -/
def ItemsFit (rules : Rules) (depth : Nat) : List Value → Prop
  | [] => True
  | v :: rest => v.Fits rules depth ∧ ItemsFit rules depth rest

/-- Members that a reader can hold. -/
def MembersFit (rules : Rules) (depth : Nat) : List (Text × Value) → Prop
  | [] => True
  | (_, v) :: rest => v.Fits rules depth ∧ MembersFit rules depth rest

end

variable {rules : Rules} {depth : Nat}

theorem itemsFit_iff (items : List Value) :
    ItemsFit rules depth items ↔ ∀ v ∈ items, v.Fits rules depth := by
  induction items with
  | nil => simp [ItemsFit]
  | cons v items ih => rw [ItemsFit, ih, List.forall_mem_cons]

/-- An integer below a power of ten is no longer than that. -/
theorem admits_of_lt {n : Int} {k : Nat} (hn : n.natAbs < Nat.pow 10 (k + 1))
    (hk : ∀ most ∈ rules.digits, k + 1 ≤ most) : rules.admits n := fun most hmost =>
  Nat.le_trans (length_digitsOf_le hn) (hk most hmost)

/-! ## Section 3: What is printed is written -/

theorem Spaced.append {ts us : List Token} {t u : Text} (ht : Spaced ts t) (hu : Spaced us u) :
    Spaced (ts ++ us) (t ++ u) := by
  induction ht with
  | done hblank => exact hu.blank_append hblank
  | @next blank w rest token ts hblank hlexeme hrest ih =>
    rw [List.append_assoc, List.append_assoc]
    exact .next hblank hlexeme ih

theorem spaced_lexeme {token : Token} {w : Text} (h : Lexeme token w) : Spaced [token] w := by
  have hnil : Blank [] := fun c hc => absurd hc List.not_mem_nil
  have hspaced := Spaced.next hnil h (.done hnil)
  rwa [List.append_nil] at hspaced

/-- Rows of tokens with commas are written as their texts with commas. -/
theorem spaced_join {rows : List (List Token)} {texts : List Text}
    (h : List.Forall₂ Spaced rows texts) : Spaced (joinTokens rows) (Text.join "," texts) := by
  cases h with
  | nil => exact .done fun c hc => absurd hc List.not_mem_nil
  | @cons row text rows texts hrow hrows =>
    refine hrow.append ?_
    induction hrows with
    | nil => exact .done fun c hc => absurd hc List.not_mem_nil
    | @cons row text rows texts hrow hrows ih =>
      rw [List.flatMap_cons, List.flatMap_cons]
      exact ((spaced_lexeme .comma).append hrow).append ih

mutual

/-- A value that fits is printed as its tree is written. -/
theorem spaced_print : ∀ {depth : Nat} (v : Value), v.Fits rules depth →
    Spaced v.tree.tokens (print .compact v)
  | _, .null, _ => spaced_lexeme .null
  | _, .bool true, _ => spaced_lexeme .true
  | _, .bool false, _ => spaced_lexeme .false
  | _, .int n, _ => spaced_lexeme (.number (written_ofInt n))
  | _, .str t, _ => spaced_lexeme (lexeme_printString t)
  | _, .arr items, h =>
    ((spaced_lexeme .openArray).append (spaced_join (spaced_printItems items h.2))).append
      (spaced_lexeme .closeArray)
  | _, .obj members, h =>
    ((spaced_lexeme .openObject).append (spaced_join (spaced_printMembers members h.2.2))).append
      (spaced_lexeme .closeObject)

theorem spaced_printItems : ∀ {depth : Nat} (items : List Value), ItemsFit rules depth items →
    List.Forall₂ Spaced (Tree.itemTokens (itemTrees items)) (printItems .compact items)
  | _, [], _ => .nil
  | _, v :: rest, h => .cons (spaced_print v h.1) (spaced_printItems rest h.2)

theorem spaced_printMembers : ∀ {depth : Nat} (members : List (Text × Value)),
    MembersFit rules depth members →
    List.Forall₂ Spaced (Tree.memberTokens (memberTrees members)) (printMembers .compact members)
  | _, [], _ => .nil
  | _, (name, v) :: rest, h =>
    .cons (((spaced_lexeme (lexeme_printString name)).append (spaced_lexeme .colon)).append
      (spaced_print v h.1)) (spaced_printMembers rest h.2)

end

/-! ## Section 4: What is printed is read back -/

theorem value_numeralOf {n : Int} (h : rules.admits n) :
    (numeralOf n).value rules.digits = .ok (.int n) := by
  have hvalue : (if decide (n < 0) = true then -(n.natAbs : Int) else n.natAbs) = n := by
    split
    · next hneg =>
      have hneg := of_decide_eq_true hneg
      omega
    · next hneg =>
      have hneg := of_decide_eq_false (Bool.eq_false_iff.mpr hneg)
      omega
  have hlength (most : Nat) (hmost : rules.digits = some most) :
      ¬ (digitsOf n.natAbs).length > most := Nat.not_lt.mpr (h most hmost)
  simp only [Numeral.value, numeralOf, valueOf_digitsOf, hvalue]
  split
  · next most hmost => rw [if_neg (hlength most hmost)]
  · rfl

mutual

/-- The tree of a value that fits has the value. -/
theorem eval_tree : ∀ {depth : Nat} (v : Value), v.Fits rules depth →
    v.tree.eval rules depth = .ok v
  | _, .null, _ => rfl
  | _, .bool _, _ => rfl
  | _, .int n, h => value_numeralOf h
  | _, .str _, _ => rfl
  | depth, .arr items, h => by
    rw [Value.tree, Tree.eval, if_pos h.1, evalItems_itemTrees items h.2]
    rfl
  | depth, .obj members, h => by
    rw [Value.tree, Tree.eval, if_pos h.1, evalMembers_memberTrees members h.2.2, ok_bind,
      object_of_nodup _ h.2.1]

theorem evalItems_itemTrees : ∀ {depth : Nat} (items : List Value), ItemsFit rules depth items →
    Tree.evalItems rules depth (itemTrees items) = .ok items
  | _, [], _ => rfl
  | _, v :: rest, h => by
    rw [itemTrees, Tree.evalItems, eval_tree v h.1, evalItems_itemTrees rest h.2]
    rfl

theorem evalMembers_memberTrees : ∀ {depth : Nat} (members : List (Text × Value)),
    MembersFit rules depth members →
    Tree.evalMembers rules depth (memberTrees members) = .ok members
  | _, [], _ => rfl
  | _, (name, v) :: rest, h => by
    rw [memberTrees, Tree.evalMembers, eval_tree v h.1, evalMembers_memberTrees rest h.2]
    rfl

end

theorem written_print {v : Value} (h : v.Fits rules 0) : Written (print .compact v) v.tree :=
  spaced_print v h

/-- What has been printed is read back. -/
theorem read_print {v : Value} (h : v.Fits rules 0) :
    read rules (.text (print .compact v)) = .ok v := by
  rw [read_of_written (written_print h), eval_tree v h]

/-! ## Section 5: Surrogates -/

mutual

/-- Does a string in the value hold a surrogate? -/
def Value.hasSurrogate : Value → Bool
  | .str t => t.hasSurrogate
  | .arr items => itemsHaveSurrogate items
  | .obj members => membersHaveSurrogate members
  | _ => false

/-- Does a string in the items hold a surrogate? -/
def itemsHaveSurrogate : List Value → Bool
  | [] => false
  | v :: rest => v.hasSurrogate || itemsHaveSurrogate rest

/-- Does a name, or a string in the value of a member, hold a surrogate? -/
def membersHaveSurrogate : List (Text × Value) → Bool
  | [] => false
  | (name, v) :: rest => name.hasSurrogate || v.hasSurrogate || membersHaveSurrogate rest

end

theorem itemsHaveSurrogate_eq_any (items : List Value) :
    itemsHaveSurrogate items = items.any Value.hasSurrogate := by
  induction items with
  | nil => rfl
  | cons v items ih => rw [itemsHaveSurrogate, ih, List.any_cons]

theorem hasSurrogate_append (t u : Text) :
    Text.hasSurrogate (t ++ u) = (t.hasSurrogate || u.hasSurrogate) := List.any_append

theorem hasSurrogate_join (texts : List Text) :
    (Text.join "," texts).hasSurrogate = texts.any Text.hasSurrogate := by
  cases texts with
  | nil => rfl
  | cons t texts =>
    rw [Text.join, hasSurrogate_append, List.any_cons]
    congr 1
    induction texts with
    | nil => rfl
    | cons u texts ih =>
      rw [List.flatMap_cons, hasSurrogate_append, hasSurrogate_append, ih, List.any_cons]
      rfl

theorem isSurrogate_hexDigit (d : Nat) : (CodePoint.hexDigit d).isSurrogate = false := by
  have hlt : (CodePoint.hexDigit d).val < 0x80 :=
    CodePoint.IsHex.val_lt (.inl (CodePoint.isLowerHex_hexDigit d))
  exact CodePoint.isSurrogate_of_lt (by omega)

theorem letterEscapes_lt : ∀ entry ∈ letterEscapes, entry.1 < 0xD800 ∧ entry.2 < 0xD800 := by
  decide

theorem hasSurrogate_escapeControl (c : CodePoint) :
    (escapeControl c).hasSurrogate = c.isSurrogate := by
  unfold escapeControl
  cases hletter : letterEscape? c with
  | some t =>
    obtain ⟨e, rfl, hescape⟩ := mem_of_letterEscape? hletter
    obtain ⟨he, hc⟩ := letterEscapes_lt _ hescape
    rw [CodePoint.isSurrogate_of_lt hc]
    show (backslash.isSurrogate || (e.isSurrogate || false)) = false
    rw [CodePoint.isSurrogate_of_lt he]
    rfl
  | none =>
    by_cases hcontrol : c.val < 0x20
    · have hdigits : Text.hasSurrogate (Text.ofHex 4 c.val) = false := by
        simp only [Text.hasSurrogate, Text.ofHex, List.any_cons, List.any_nil,
          isSurrogate_hexDigit, Bool.or_false]
      simp only [if_pos hcontrol]
      rw [numberedEscape, hasSurrogate_append, hdigits, CodePoint.isSurrogate_of_lt (by omega)]
      rfl
    · simp only [if_neg hcontrol]
      exact Bool.or_false _

theorem hasSurrogate_printString (t : Text) :
    (printString .compact t).hasSurrogate = t.hasSurrogate := by
  have hbody : Text.hasSurrogate (t.flatMap escapeControl) = t.hasSurrogate := by
    induction t with
    | nil => rfl
    | cons c t ih =>
      rw [List.flatMap_cons, hasSurrogate_append, hasSurrogate_escapeControl, ih]
      rfl
  rw [printString, hasSurrogate_append, hasSurrogate_append]
  show (false || Text.hasSurrogate (t.flatMap escapeControl) || false) = _
  rw [Bool.or_false, Bool.false_or, hbody]

theorem hasSurrogate_ofInt (n : Int) : (Text.ofInt n).hasSurrogate = false := by
  have hdigits (m : Nat) : (Text.ofNat m).hasSurrogate = false := by
    rw [Text.hasSurrogate, List.any_eq_false]
    intro c hc
    obtain ⟨d, -, rfl⟩ := List.mem_map.mp hc
    have hval : (CodePoint.digit d).val < 0xD800 := by
      show 0x30 + d % 10 < 0xD800
      omega
    rw [CodePoint.isSurrogate_of_lt hval]
    exact Bool.false_ne_true
  cases n with
  | ofNat m => exact hdigits m
  | negSucc m => exact hdigits (m + 1)

theorem hasSurrogate_brackets {left right : String} (hleft : (left : Text).hasSurrogate = false)
    (hright : (right : Text).hasSurrogate = false) (t : Text) :
    Text.hasSurrogate (left ++ t ++ right) = t.hasSurrogate := by
  rw [hasSurrogate_append, hasSurrogate_append, hleft, hright, Bool.false_or, Bool.or_false]

mutual

/-- A printed text holds a surrogate exactly if a string in the value does. -/
theorem hasSurrogate_print : ∀ {depth : Nat} (v : Value), v.Fits rules depth →
    (print .compact v).hasSurrogate = v.hasSurrogate
  | _, .null, _ => rfl
  | _, .bool true, _ => rfl
  | _, .bool false, _ => rfl
  | _, .int n, _ => hasSurrogate_ofInt n
  | _, .str t, _ => hasSurrogate_printString t
  | _, .arr items, h => by
    rw [print, hasSurrogate_brackets rfl rfl, Value.hasSurrogate]
    exact (hasSurrogate_join _).trans (hasSurrogate_printItems items h.2)
  | _, .obj members, h => by
    rw [print, hasSurrogate_brackets rfl rfl, Value.hasSurrogate]
    exact (hasSurrogate_join _).trans (hasSurrogate_printMembers members h.2.2)

theorem hasSurrogate_printItems : ∀ {depth : Nat} (items : List Value),
    ItemsFit rules depth items →
    (printItems .compact items).any Text.hasSurrogate = itemsHaveSurrogate items
  | _, [], _ => rfl
  | _, v :: rest, h => by
    rw [printItems, List.any_cons, hasSurrogate_print v h.1, hasSurrogate_printItems rest h.2,
      itemsHaveSurrogate]

theorem hasSurrogate_printMembers : ∀ {depth : Nat} (members : List (Text × Value)),
    MembersFit rules depth members →
    (printMembers .compact members).any Text.hasSurrogate = membersHaveSurrogate members
  | _, [], _ => rfl
  | _, (name, v) :: rest, h => by
    have hcolon : Text.hasSurrogate Layout.compact.colon = false := rfl
    rw [printMembers, List.any_cons, hasSurrogate_append, hasSurrogate_append,
      hasSurrogate_printString, hcolon, Bool.or_false, hasSurrogate_print v h.1,
      hasSurrogate_printMembers rest h.2, membersHaveSurrogate]

end

end SignedEvents.Json
