import Mathlib.Data.List.Forall2
import SignedEvents.Proofs.Json.Margins
import SignedEvents.Proofs.Json.Objects
import SignedEvents.Proofs.Json.RoundTrip

/-! # Standard JSON text

  The grammar of JSON, rule by rule, over code points and with no reference to tokens, trees or
  values.  Each rule is quoted above its definition.  Words that may stand for values beside those
  of the standard are a parameter.

  - **IsText** — a text of the grammar.  `IsText []` is the standard.
  - **constants** — the words that are read beyond the standard.
  - **IsText.exists_written**, **isText_of_written** — the texts of the grammar are those that are
    written for a tree.
  - **isText_iff** — so they can be told from the tokens and from a reader without limits.
  - **isText_nil_iff**, **isText_of_read** — what is read is standard but for the constants.
-/

namespace SignedEvents.Json

/-! ## Section 1: The grammar -/

/-- `ws = *( %x20 / %x09 / %x0A / %x0D )` -/
def IsWs (t : Text) : Prop :=
  ∀ c ∈ t, c.val = 0x20 ∨ c.val = 0x09 ∨ c.val = 0x0A ∨ c.val = 0x0D

/-- A structural character, such as `begin-array = ws %x5B ws`. -/
inductive IsStructural (k : Text) : Text → Prop where
  | mk {before after : Text} : IsWs before → IsWs after → IsStructural k (before ++ (k ++ after))

/-- `1*DIGIT`, where `DIGIT = %x30-39` -/
def IsDigits (t : Text) : Prop := t ≠ [] ∧ ∀ c ∈ t, 0x30 ≤ c.val ∧ c.val ≤ 0x39

/-- `int = zero / ( digit1-9 *DIGIT )` -/
inductive IsWhole : Text → Prop where
  | zero : IsWhole "0"
  | nonzero {c : CodePoint} {t : Text} :
      0x31 ≤ c.val ∧ c.val ≤ 0x39 → (∀ d ∈ t, 0x30 ≤ d.val ∧ d.val ≤ 0x39) → IsWhole (c :: t)

/-- `[ frac ]`, where `frac = decimal-point 1*DIGIT` -/
inductive IsFraction : Text → Prop where
  | absent : IsFraction []
  | present {t : Text} : IsDigits t → IsFraction (.ofChar '.' :: t)

/-- `[ exp ]`, where `exp = e [ minus / plus ] 1*DIGIT` -/
inductive IsExponent : Text → Prop where
  | absent : IsExponent []
  | present {mark : CodePoint} {sign t : Text} :
      mark = .ofChar 'e' ∨ mark = .ofChar 'E' →
      sign = [] ∨ sign = [.ofChar '-'] ∨ sign = [.ofChar '+'] → IsDigits t →
      IsExponent (mark :: (sign ++ t))

/-- `number = [ minus ] int [ frac ] [ exp ]` -/
inductive IsNumber : Text → Prop where
  | mk {sign whole fraction exponent : Text} :
      sign = [] ∨ sign = [.ofChar '-'] → IsWhole whole → IsFraction fraction →
      IsExponent exponent → IsNumber (sign ++ (whole ++ (fraction ++ exponent)))

/-- `char = unescaped / escape ( … )` -/
inductive IsChar : Text → Prop where
  /-- `unescaped = %x20-21 / %x23-5B / %x5D-10FFFF` -/
  | unescaped {c : CodePoint} :
      (0x20 ≤ c.val ∧ c.val ≤ 0x21) ∨ (0x23 ≤ c.val ∧ c.val ≤ 0x5B) ∨ 0x5D ≤ c.val → IsChar [c]
  /-- `escape ( %x22 / %x5C / %x2F / %x62 / %x66 / %x6E / %x72 / %x74 )` -/
  | letter {e : CodePoint} :
      e.val ∈ [0x22, 0x5C, 0x2F, 0x62, 0x66, 0x6E, 0x72, 0x74] → IsChar [.ofChar '\\', e]
  /-- `escape %x75 4HEXDIG` -/
  | numbered {a b c d : CodePoint} :
      a.IsHex → b.IsHex → c.IsHex → d.IsHex → IsChar [.ofChar '\\', .ofChar 'u', a, b, c, d]

/-- `string = quotation-mark *char quotation-mark` -/
inductive IsString : Text → Prop where
  | mk {parts : List Text} : (∀ part ∈ parts, IsChar part) →
      IsString (.ofChar '"' :: (parts.flatten ++ [.ofChar '"']))

/-- `[ part *( value-separator part ) ]` -/
inductive Separated : List Text → Text → Prop where
  | none : Separated [] []
  | one (part : Text) : Separated [part] part
  | more {part next separator rest : Text} {parts : List Text} :
      IsStructural "," separator → Separated (next :: parts) rest →
      Separated (part :: next :: parts) (part ++ (separator ++ rest))

/-- `member = string name-separator value`, in its three parts. -/
structure MemberText where
  name      : Text
  separator : Text
  value     : Text

/-- The text of a member. -/
def MemberText.text (m : MemberText) : Text := m.name ++ (m.separator ++ m.value)

/-- `value = false / null / true / object / array / number / string`, and the words beside it. -/
inductive IsValue (words : List Text) : Text → Prop where
  | word {t : Text} : t ∈ words → IsValue words t
  | false : IsValue words "false"
  | null : IsValue words "null"
  | true : IsValue words "true"
  /-- `object = begin-object [ member *( value-separator member ) ] end-object` -/
  | object {members : List MemberText} {opening inner closing : Text} :
      IsStructural "\x7b" opening →
      (∀ m ∈ members, IsString m.name) → (∀ m ∈ members, IsStructural ":" m.separator) →
      (∀ m ∈ members, IsValue words m.value) → Separated (members.map MemberText.text) inner →
      IsStructural "\x7d" closing → IsValue words (opening ++ (inner ++ closing))
  /-- `array = begin-array [ value *( value-separator value ) ] end-array` -/
  | array {items : List Text} {opening inner closing : Text} :
      IsStructural "[" opening → (∀ item ∈ items, IsValue words item) → Separated items inner →
      IsStructural "]" closing → IsValue words (opening ++ (inner ++ closing))
  | number {t : Text} : IsNumber t → IsValue words t
  | string {t : Text} : IsString t → IsValue words t

/-- `ws part ws` -/
inductive Padded (P : Text → Prop) : Text → Prop where
  | mk {before part after : Text} :
      IsWs before → P part → IsWs after → Padded P (before ++ (part ++ after))

/-- `JSON-text = ws value ws` -/
def IsText (words : List Text) : Text → Prop := Padded (IsValue words)

/-- The words that are read although the standard does not have them. -/
def constants : List Text := ["NaN", "Infinity", "-Infinity"]

/-! ## Section 2: Numbers and strings -/

theorem isWs_iff_blank {t : Text} : IsWs t ↔ Blank t := by
  simp only [IsWs, Blank, isSpace, Bool.or_eq_true, beq_iff_eq, or_assoc]

theorem isDigit_iff {c : CodePoint} : c.isDigit = true ↔ 0x30 ≤ c.val ∧ c.val ≤ 0x39 := by
  rw [CodePoint.isDigit, Bool.and_eq_true, decide_eq_true_eq, decide_eq_true_eq]

theorem IsDigits.exists_written {t : Text} (h : IsDigits t) :
    ∃ digits, DigitsWritten digits t := by
  obtain ⟨hne, hdigits⟩ := h
  have hdigit (c : CodePoint) (hc : c ∈ t) :
      CodePoint.digit (c.val - 0x30) = c ∧ c.val - 0x30 < 10 :=
    digit_val (isDigit_iff.mpr (hdigits c hc))
  refine ⟨t.map fun c => c.val - 0x30, ?_, ?_, ?_⟩
  · intro h
    exact hne (List.map_eq_nil_iff.mp h)
  · intro d hd
    obtain ⟨c, hc, rfl⟩ := List.mem_map.mp hd
    exact (hdigit c hc).2
  · rw [List.map_map]
    exact (List.map_id t).symm.trans (List.map_congr_left fun c hc => (hdigit c hc).1.symm)

theorem DigitsWritten.isDigits {digits : List Nat} {t : Text} (h : DigitsWritten digits t) :
    IsDigits t := by
  obtain ⟨hne, -, rfl⟩ := h
  refine ⟨fun h => hne (List.map_eq_nil_iff.mp h), ?_⟩
  exact List.forall_mem_map.mpr fun d _ => isDigit_iff.mp (isDigit_digit d)

/-- Digits of which the first is no zero, unless it is the only one. -/
theorem isWhole_iff {t : Text} :
    IsWhole t ↔ ∃ whole, DigitsWritten whole t ∧ (whole.head? = some 0 → whole = [0]) := by
  constructor
  · intro h
    cases h with
    | zero => exact ⟨[0], ⟨List.cons_ne_nil _ _, by decide, rfl⟩, fun _ => rfl⟩
    | @nonzero c t hc ht =>
      have hdigits : IsDigits (c :: t) :=
        ⟨List.cons_ne_nil _ _, List.forall_mem_cons.mpr ⟨⟨by omega, hc.2⟩, ht⟩⟩
      obtain ⟨whole, hwhole⟩ := hdigits.exists_written
      refine ⟨whole, hwhole, fun hzero => ?_⟩
      -- the first digit is written as `c`, which is no zero
      obtain ⟨tail, rfl⟩ := List.head?_eq_some_iff.mp hzero
      have hhead : c = .digit 0 := (List.cons.inj hwhole.text).1
      rw [hhead] at hc
      exact absurd hc.1 (by decide)
  · rintro ⟨whole, hwhole, hzero⟩
    obtain ⟨d, digits, rfl⟩ := List.exists_cons_of_ne_nil hwhole.nonempty
    by_cases hd : d = 0
    · subst hd
      obtain rfl : digits = [] := (List.cons.inj (hzero rfl)).2
      rw [hwhole.text]
      exact .zero
    · obtain ⟨hlt, hdigits⟩ := List.forall_mem_cons.mp hwhole.small
      rw [hwhole.text, List.map_cons]
      refine .nonzero ?_ ?_
      · show 0x31 ≤ 0x30 + d % 10 ∧ 0x30 + d % 10 ≤ 0x39
        omega
      · exact List.forall_mem_map.mpr fun d _ => isDigit_iff.mp (isDigit_digit d)

theorem isFraction_iff {t : Text} : IsFraction t ↔ ∃ fraction, FractionWritten fraction t := by
  constructor
  · intro h
    cases h with
    | absent => exact ⟨none, .absent⟩
    | present hdigits =>
      obtain ⟨digits, hwritten⟩ := hdigits.exists_written
      exact ⟨some digits, .present hwritten⟩
  · rintro ⟨fraction, h⟩
    cases h with
    | absent => exact .absent
    | present hdigits => exact .present hdigits.isDigits

theorem isExponent_iff {t : Text} : IsExponent t ↔ ∃ exponent, ExponentWritten exponent t := by
  constructor
  · intro h
    cases h with
    | absent => exact ⟨none, .absent⟩
    | present hmark hsign hdigits =>
      obtain ⟨digits, hwritten⟩ := hdigits.exists_written
      rcases hsign with rfl | rfl | rfl
      · exact ⟨_, .present hmark .absent hwritten⟩
      · exact ⟨_, .present hmark .minus hwritten⟩
      · exact ⟨_, .present hmark .plus hwritten⟩
  · rintro ⟨exponent, h⟩
    cases h with
    | absent => exact .absent
    | present hmark hsign hdigits =>
      refine .present hmark ?_ hdigits.isDigits
      cases hsign <;> simp

/-- The numbers of the grammar are those that are read. -/
theorem isNumber_iff {t : Text} : IsNumber t ↔ ∃ n : Numeral, n.Written t := by
  constructor
  · intro h
    cases h with
    | mk hsign hwhole hfraction hexponent =>
      obtain ⟨whole, hwhole, hzero⟩ := isWhole_iff.mp hwhole
      obtain ⟨fraction, hfraction⟩ := isFraction_iff.mp hfraction
      obtain ⟨exponent, hexponent⟩ := isExponent_iff.mp hexponent
      have hwritten (negative : Bool) : Numeral.Written ⟨negative, whole, fraction, exponent⟩ _ :=
        .mk hwhole hzero hfraction hexponent
      rcases hsign with rfl | rfl
      · exact ⟨_, hwritten false⟩
      · exact ⟨_, hwritten true⟩
  · rintro ⟨n, h⟩
    cases h with
    | @mk negative whole fraction exponent t f e hwhole hzero hfraction hexponent =>
      refine .mk ?_ (isWhole_iff.mpr ⟨whole, hwhole, hzero⟩) (isFraction_iff.mpr ⟨_, hfraction⟩)
        (isExponent_iff.mpr ⟨_, hexponent⟩)
      cases negative
      · exact .inl rfl
      · exact .inr rfl

/-- The characters of the grammar are the pieces of which strings are read. -/
theorem isChar_iff {t : Text} : IsChar t ↔ ∃ p : Piece, p.text = t := by
  constructor
  · intro h
    cases h with
    | @unescaped c hc => exact ⟨.plain c (by omega), rfl⟩
    | @letter e he =>
      have hletters : ∀ n ∈ [0x22, 0x5C, 0x2F, 0x62, 0x66, 0x6E, 0x72, 0x74],
          ∃ entry ∈ letterEscapes, entry.1 = n ∧ entry.2 < 0x110000 := by
        decide
      obtain ⟨⟨_, n⟩, hmem, rfl, hn⟩ := hletters _ he
      exact ⟨.letter e ⟨n, hn⟩ hmem, rfl⟩
    | @numbered a b c d ha hb hc hd =>
      obtain ⟨_, ha⟩ := CodePoint.exists_hexValue? ha
      obtain ⟨_, hb⟩ := CodePoint.exists_hexValue? hb
      obtain ⟨_, hc⟩ := CodePoint.exists_hexValue? hc
      obtain ⟨_, hd⟩ := CodePoint.exists_hexValue? hd
      obtain ⟨n, hn⟩ : ∃ n, hexQuad? a b c d = some n := by
        simp only [hexQuad?, ha, hb, hc, hd, Option.some.injEq, exists_eq']
      have hlt : n < 0x110000 := Nat.lt_trans (hexQuad?_lt hn) (by decide)
      exact ⟨.numbered a b c d ⟨n, hlt⟩ hn, rfl⟩
  · rintro ⟨p, rfl⟩
    cases p with
    | plain c hc => exact .unescaped (by omega)
    | letter e c he =>
      have hletters : ∀ entry ∈ letterEscapes,
          entry.1 ∈ [0x22, 0x5C, 0x2F, 0x62, 0x66, 0x6E, 0x72, 0x74] := by
        decide
      exact .letter (hletters _ he)
    | numbered a b c d _ hn =>
      have hdigits := isHex_of_hexQuad? hn
      simp only [List.forall_mem_cons] at hdigits
      obtain ⟨ha, hb, hc, hd, -⟩ := hdigits
      exact .numbered ha hb hc hd

/-- The strings of the grammar are those that are read. -/
theorem isString_iff {t : Text} :
    IsString t ↔ ∃ ps : List Piece, quoteMark :: (ps.flatMap Piece.text ++ [quoteMark]) = t := by
  constructor
  · rintro @⟨parts, hparts⟩
    have hpieces : ∃ ps : List Piece, ps.map Piece.text = parts := by
      induction parts with
      | nil => exact ⟨[], rfl⟩
      | cons part parts ih =>
        obtain ⟨hpart, hrest⟩ := List.forall_mem_cons.mp hparts
        obtain ⟨p, rfl⟩ := isChar_iff.mp hpart
        obtain ⟨ps, rfl⟩ := ih hrest
        exact ⟨p :: ps, rfl⟩
    obtain ⟨ps, rfl⟩ := hpieces
    exact ⟨ps, rfl⟩
  · rintro ⟨ps, rfl⟩
    exact .mk (List.forall_mem_map.mpr fun p _ => isChar_iff.mpr ⟨p, rfl⟩)

/-! ## Section 3: From texts to trees -/

/-- The word of a token that the standard does not have. -/
def Token.constant? : Token → Option Text
  | .nan => some "NaN"
  | .infinity false => some "Infinity"
  | .infinity true => some "-Infinity"
  | _ => none

/-- All constants among some tokens are among some words. -/
def Within (words : List Text) (ts : List Token) : Prop :=
  ∀ token ∈ ts, ∀ w ∈ token.constant?, w ∈ words

section texts

variable {words : List Text}

theorem within_append (ts us : List Token) :
    Within words (ts ++ us) ↔ Within words ts ∧ Within words us := List.forall_mem_append

theorem within_singleton {token : Token} (h : token.constant? = none) : Within words [token] := by
  refine List.forall_mem_singleton.mpr fun w hw => ?_
  rw [h] at hw
  cases hw

/-- There are no more constants than those that are read. -/
theorem within_constants (ts : List Token) : Within constants ts := by
  intro token _ w hw
  unfold Token.constant? at hw
  split at hw <;> cases hw <;> simp [constants]

theorem within_nil_iff {ts : List Token} :
    Within [] ts ↔ ∀ token ∈ ts, token.constant? = none := by
  simp only [Within, List.not_mem_nil, Option.mem_def, imp_false, Option.eq_none_iff_forall_ne_some,
    ne_eq]

theorem IsStructural.spaced {k t : Text} {token : Token} (hk : Lexeme token k)
    (h : IsStructural k t) : Spaced [token] t := by
  cases h with
  | mk hbefore hafter =>
    have htoken := (spaced_lexeme hk).append_blank (isWs_iff_blank.mp hafter)
    exact htoken.blank_append (isWs_iff_blank.mp hbefore)

/-- Separated parts are written as rows of tokens with commas between them. -/
theorem Separated.spaced {parts : List Text} {t : Text} (h : Separated parts t)
    {rows : List (List Token)} (hrows : List.Forall₂ Spaced rows parts) :
    Spaced (joinTokens rows) t := by
  -- the separator stands before a part, so the tail is never empty where it is split
  induction h generalizing rows with
  | none =>
    cases hrows
    exact .done fun c hc => absurd hc List.not_mem_nil
  | one part =>
    obtain ⟨row, _, hrow, hnil, rfl⟩ := List.forall₂_cons_right_iff.mp hrows
    cases hnil
    rwa [joinTokens, List.flatMap_nil, List.append_nil]
  | more hseparator _ ih =>
    obtain ⟨row, rest, hrow, hrest, rfl⟩ := List.forall₂_cons_right_iff.mp hrows
    have htail := ih hrest
    obtain ⟨next, rest, -, -, rfl⟩ := List.forall₂_cons_right_iff.mp hrest
    exact hrow.append ((hseparator.spaced .comma).append htail)

/-- What can be had for each part can be had for all of them. -/
theorem exists_forall₂ {α β : Type} {R : α → β → Prop} {l : List β} (h : ∀ b ∈ l, ∃ a, R a b) :
    ∃ as, List.Forall₂ R as l := by
  induction l with
  | nil => exact ⟨[], .nil⟩
  | cons b l ih =>
    obtain ⟨⟨a, ha⟩, hl⟩ := List.forall_mem_cons.mp h
    obtain ⟨as, has⟩ := ih hl
    exact ⟨a :: as, .cons ha has⟩

/-- What stands in brackets is written as its tokens in brackets. -/
theorem spaced_brackets {opening inner closing k k' : Text} {token token' : Token}
    {ts : List Token} (hk : Lexeme token k) (hopening : IsStructural k opening)
    (hinner : Spaced ts inner) (hk' : Lexeme token' k') (hclosing : IsStructural k' closing) :
    Spaced (token :: ts ++ [token']) (opening ++ (inner ++ closing)) :=
  (hopening.spaced hk).append (hinner.append (hclosing.spaced hk'))

theorem within_brackets {token token' : Token} {ts : List Token} (h : token.constant? = none)
    (h' : token'.constant? = none) :
    Within words (token :: ts ++ [token']) ↔ Within words ts := by
  have hopening : Within words [token] := within_singleton h
  have hclosing : Within words [token'] := within_singleton h'
  rw [within_append, ← List.singleton_append, within_append]
  simp only [hopening, hclosing, true_and, and_true]

theorem mem_joinTokens {rows : List (List Token)} {row : List Token} {token : Token}
    (hrow : row ∈ rows) (h : token ∈ row) : token ∈ joinTokens rows := by
  cases rows with
  | nil => exact absurd hrow List.not_mem_nil
  | cons first rows =>
    rcases List.mem_cons.mp hrow with rfl | hrow
    · exact List.mem_append_left _ h
    · apply List.mem_append_right
      exact List.mem_flatMap.mpr ⟨row, hrow, List.mem_cons_of_mem _ h⟩

theorem within_joinTokens {rows : List (List Token)} :
    Within words (joinTokens rows) ↔ ∀ row ∈ rows, Within words row := by
  constructor
  · intro h row hrow token htoken
    exact h token (mem_joinTokens hrow htoken)
  · intro h
    refine forall_mem_joinTokens (fun w hw => ?_) h
    -- a comma is no constant
    cases hw

/-- A value of the grammar is written for a tree, and all constants of the tree are words that the
    grammar admits. -/
theorem exists_tree_of_isValue {t : Text} (hwords : ∀ w ∈ words, w ∈ constants)
    (h : IsValue words t) : ∃ d : Tree, Within words d.tokens ∧ Spaced d.tokens t := by
  -- on the derivation; a constant has a token of its own, and is a word by assumption
  induction h with
  | word hw =>
    have hmem := hwords _ hw
    have hwithin {token : Token} {w : Text} (hw : w ∈ words) (htoken : token.constant? = some w) :
        Within words [token] := by
      refine List.forall_mem_singleton.mpr fun w' hw' => ?_
      rw [htoken] at hw'
      obtain rfl := Option.some.inj hw'
      exact hw
    simp only [constants, List.mem_cons, List.not_mem_nil, or_false] at hmem
    rcases hmem with rfl | rfl | rfl
    · exact ⟨.nan, hwithin hw rfl, spaced_lexeme .nan⟩
    · exact ⟨.infinity false, hwithin hw rfl, spaced_lexeme .infinity⟩
    · exact ⟨.infinity true, hwithin hw rfl, spaced_lexeme .minusInfinity⟩
  | false => exact ⟨.bool false, within_singleton rfl, spaced_lexeme .false⟩
  | null => exact ⟨.null, within_singleton rfl, spaced_lexeme .null⟩
  | true => exact ⟨.bool true, within_singleton rfl, spaced_lexeme .true⟩
  | number hnumber =>
    obtain ⟨n, hn⟩ := isNumber_iff.mp hnumber
    exact ⟨.number n, within_singleton rfl, spaced_lexeme (.number hn)⟩
  | string hstring =>
    obtain ⟨ps, rfl⟩ := isString_iff.mp hstring
    exact ⟨.str (Piece.meaning ps), within_singleton rfl, spaced_lexeme (.str ps)⟩
  | array hopening _ hinner hclosing ih =>
    obtain ⟨ds, hds⟩ := exists_forall₂ ih
    obtain ⟨hwithin, hspaced⟩ := (List.forall₂_and_left _ _).mp hds
    refine ⟨.arr ds, ?_, ?_⟩
    · rw [Tree.tokens, within_brackets rfl rfl, Tree.itemTokens_eq_map]
      exact within_joinTokens.mpr (List.forall_mem_map.mpr hwithin)
    · have hrows : List.Forall₂ Spaced (ds.map Tree.tokens) _ :=
        List.forall₂_map_left_iff.mpr hspaced
      rw [Tree.tokens, Tree.itemTokens_eq_map]
      exact spaced_brackets .openArray hopening (hinner.spaced hrows) .closeArray hclosing
  | @object members _ _ _ hopening hnames hseparators _ hinner hclosing ih =>
    -- a name and a tree for each member
    have hmember : ∀ m ∈ members, ∃ entry : Text × Tree, Within words entry.2.tokens ∧
        Spaced (.str entry.1 :: .colon :: entry.2.tokens) m.text := by
      intro m hm
      obtain ⟨ps, hps⟩ := isString_iff.mp (hnames m hm)
      obtain ⟨d, hwithin, hd⟩ := ih m hm
      have hname : Spaced [.str (Piece.meaning ps)] m.name := by
        rw [← hps]
        exact spaced_lexeme (.str ps)
      have hvalue := ((hseparators m hm).spaced .colon).append hd
      exact ⟨(Piece.meaning ps, d), hwithin, hname.append hvalue⟩
    obtain ⟨entries, hentries⟩ := exists_forall₂ hmember
    obtain ⟨hwithin, hspaced⟩ := (List.forall₂_and_left _ _).mp hentries
    refine ⟨.obj entries, ?_, ?_⟩
    · rw [Tree.tokens, within_brackets rfl rfl, Tree.memberTokens_eq_map]
      refine within_joinTokens.mpr (List.forall_mem_map.mpr fun entry hentry => ?_)
      have hname : Within words [.str entry.1, .colon] := by
        rw [← List.singleton_append, within_append]
        exact ⟨within_singleton rfl, within_singleton rfl⟩
      exact (within_append [.str entry.1, .colon] _).mpr ⟨hname, hwithin entry hentry⟩
    · have hrows : List.Forall₂ Spaced
          (entries.map fun m => .str m.1 :: .colon :: m.2.tokens) (members.map MemberText.text) :=
        List.forall₂_map_left_iff.mpr (List.forall₂_map_right_iff.mpr hspaced)
      rw [Tree.tokens, Tree.memberTokens_eq_map]
      exact spaced_brackets .openObject hopening (hinner.spaced hrows) .closeObject hclosing

/-- A text of the grammar is written for a tree, and all constants of the tree are words that the
    grammar admits. -/
theorem IsText.exists_written {t : Text} (hwords : ∀ w ∈ words, w ∈ constants)
    (h : IsText words t) : ∃ d : Tree, Written t d ∧ Within words d.tokens := by
  cases h with
  | mk hbefore hvalue hafter =>
    obtain ⟨d, hwithin, hspaced⟩ := exists_tree_of_isValue hwords hvalue
    have hpadded := hspaced.append_blank (isWs_iff_blank.mp hafter)
    exact ⟨d, hpadded.blank_append (isWs_iff_blank.mp hbefore), hwithin⟩

/-! ## Section 4: From trees to texts -/

theorem isWs_nil : IsWs [] := List.forall_mem_nil _

theorem IsWs.append {t u : Text} (ht : IsWs t) (hu : IsWs u) : IsWs (t ++ u) :=
  List.forall_mem_append.mpr ⟨ht, hu⟩

/-- More blanks around a structural character belong to it. -/
theorem IsStructural.pad {k t before after : Text} (hbefore : IsWs before)
    (h : IsStructural k t) (hafter : IsWs after) : IsStructural k (before ++ (t ++ after)) := by
  cases h with
  | @mk inner outer hinner houter =>
    have hpadded : IsStructural k ((before ++ inner) ++ (k ++ (outer ++ after))) :=
      .mk (hbefore.append hinner) (houter.append hafter)
    simpa only [List.append_assoc] using hpadded

/-- Tokens in a row are written in a row. -/
theorem Spaced.split (ts : List Token) {us : List Token} {t : Text} (h : Spaced (ts ++ us) t) :
    ∃ t₁ t₂, t = t₁ ++ t₂ ∧ Spaced ts t₁ ∧ Spaced us t₂ := by
  -- blanks go with the token that they stand in front of
  induction ts generalizing t with
  | nil => exact ⟨[], t, rfl, .done fun c hc => absurd hc List.not_mem_nil, h⟩
  | cons token ts ih =>
    cases h with
    | @next blank w rest _ _ hblank hlexeme hrest =>
      obtain ⟨t₁, t₂, rfl, hts, hus⟩ := ih hrest
      refine ⟨blank ++ (w ++ t₁), t₂, ?_, .next hblank hlexeme hts, hus⟩
      simp only [List.append_assoc]

/-- A token is written with blanks around it. -/
theorem Spaced.padded {token : Token} {t : Text} (h : Spaced [token] t) :
    Padded (Lexeme token) t := by
  cases h with
  | next hblank hlexeme hrest =>
    cases hrest with
    | done hafter => exact .mk (isWs_iff_blank.mpr hblank) hlexeme (isWs_iff_blank.mpr hafter)

theorem isStructural_of_spaced {token : Token} {k t : Text} (hk : ∀ w, Lexeme token w → w = k)
    (h : Spaced [token] t) : IsStructural k t := by
  obtain ⟨hbefore, hlexeme, hafter⟩ := h.padded
  obtain rfl := hk _ hlexeme
  exact .mk hbefore hafter

section parts

variable {P : Text → Prop}

/-- Rows of tokens with commas between them are written as separated parts, if each row is written
    as one. -/
theorem exists_separated {rows : List (List Token)} {t : Text}
    (hrows : ∀ row ∈ rows, ∀ u, Spaced row u → Padded P u) (h : Spaced (joinTokens rows) t) :
    ∃ parts, (∀ part ∈ parts, P part) ∧ Padded (Separated parts) t := by
  cases rows with
  | nil =>
    cases h with
    | done hblank =>
      have hpadded : Padded (Separated []) (t ++ ([] ++ [])) :=
        .mk (isWs_iff_blank.mpr hblank) .none isWs_nil
      rw [List.append_nil, List.append_nil] at hpadded
      exact ⟨[], fun part hpart => absurd hpart List.not_mem_nil, hpadded⟩
  | cons row rows =>
    -- a comma needs a part on its right, so the induction keeps the first part in sight
    have hcons : ∃ part parts, (∀ p ∈ part :: parts, P p) ∧
        Padded (Separated (part :: parts)) t := by
      induction rows generalizing row t with
      | nil =>
        rw [joinTokens, List.flatMap_nil, List.append_nil] at h
        obtain ⟨hbefore, hpart, hafter⟩ := hrows row (List.mem_cons_self ..) t h
        exact ⟨_, [], List.forall_mem_singleton.mpr hpart, .mk hbefore (.one _) hafter⟩
      | cons next rows ih =>
        obtain ⟨hrow, hrest⟩ := List.forall_mem_cons.mp hrows
        obtain ⟨t₁, t₂, rfl, hfirst, hmore⟩ := Spaced.split _ h
        obtain ⟨t₃, t₄, rfl, hcomma, htail⟩ := Spaced.split [.comma] hmore
        have hseparator : IsStructural "," t₃ :=
          isStructural_of_spaced (fun w hw => by cases hw; rfl) hcomma
        obtain ⟨second, parts, hparts, hpadded⟩ := ih next hrest htail
        obtain @⟨before, part, between, hbefore, hpart, hbetween⟩ := hrow t₁ hfirst
        obtain @⟨between', inner, after, hbetween', hinner, hafter⟩ := hpadded
        refine ⟨part, second :: parts, List.forall_mem_cons.mpr ⟨hpart, hparts⟩, ?_⟩
        have hseparated : Separated (part :: second :: parts) _ :=
          .more (hseparator.pad hbetween hbetween') hinner
        have hresult := Padded.mk hbefore hseparated hafter
        simpa only [List.append_assoc] using hresult
    obtain ⟨part, parts, hparts, hpadded⟩ := hcons
    exact ⟨part :: parts, hparts, hpadded⟩

/-- Tokens in brackets are written as brackets around separated parts. -/
theorem exists_brackets {rows : List (List Token)} {token token' : Token} {k k' t : Text}
    (hk : ∀ w, Lexeme token w → w = k) (hk' : ∀ w, Lexeme token' w → w = k')
    (hrows : ∀ row ∈ rows, ∀ u, Spaced row u → Padded P u)
    (h : Spaced (token :: joinTokens rows ++ [token']) t) :
    ∃ opening inner closing parts, t = opening ++ (inner ++ closing) ∧ IsStructural k opening ∧
      (∀ part ∈ parts, P part) ∧ Separated parts inner ∧ IsStructural k' closing := by
  rw [List.cons_append] at h
  obtain ⟨t₁, t₂, rfl, hopening, hrest⟩ := Spaced.split [token] h
  obtain ⟨t₃, t₄, rfl, hinner, hclosing⟩ := Spaced.split _ hrest
  obtain ⟨parts, hparts, hpadded⟩ := exists_separated hrows hinner
  obtain @⟨before, inner, after, hbefore, hseparated, hafter⟩ := hpadded
  have hopening := (isStructural_of_spaced hk hopening).pad isWs_nil hbefore
  have hclosing := (isStructural_of_spaced hk' hclosing).pad hafter isWs_nil
  refine ⟨_, inner, _, parts, ?_, hopening, hparts, hseparated, hclosing⟩
  simp only [List.nil_append, List.append_nil, List.append_assoc]

end parts

theorem isText_of_isValue {t : Text} (h : IsValue words t) : IsText words t := by
  have hpadded : Padded (IsValue words) ([] ++ (t ++ [])) := .mk isWs_nil h isWs_nil
  rwa [List.nil_append, List.append_nil] at hpadded

/-- `member = string name-separator value`, of some text. -/
structure IsMember (words : List Text) (t : Text) (m : MemberText) : Prop where
  name      : IsString m.name
  separator : IsStructural ":" m.separator
  value     : IsValue words m.value
  text      : m.text = t

/-- A name, a colon and a value are written as a member. -/
theorem padded_member {name : Text} {ts : List Token} {t : Text}
    (hvalue : ∀ u, Spaced ts u → IsText words u) (h : Spaced (.str name :: .colon :: ts) t) :
    Padded (fun part => ∃ m, IsMember words part m) t := by
  obtain ⟨t₁, t₂, rfl, hfirst, hrest⟩ := Spaced.split [.str name] h
  obtain ⟨t₃, t₄, rfl, hcolon, hlast⟩ := Spaced.split [.colon] hrest
  have hseparator : IsStructural ":" t₃ :=
    isStructural_of_spaced (fun w hw => by cases hw; rfl) hcolon
  obtain @⟨before, w, between, hbefore, hlexeme, hbetween⟩ := hfirst.padded
  obtain @⟨between', v, after, hbetween', hv, hafter⟩ := hvalue t₄ hlast
  have hname : IsString w := by
    cases hlexeme with
    | str ps => exact isString_iff.mpr ⟨ps, rfl⟩
  -- the blanks on both sides of the colon belong to it
  have hmember : IsMember words _ ⟨w, between ++ (t₃ ++ between'), v⟩ :=
    ⟨hname, hseparator.pad hbetween hbetween', hv, rfl⟩
  have hpadded : Padded (fun part => ∃ m, IsMember words part m) _ :=
    .mk hbefore ⟨_, hmember⟩ hafter
  simpa only [MemberText.text, List.append_assoc] using hpadded

/-- Parts that are members are the texts of a list of members. -/
theorem exists_members {parts : List Text} (h : ∀ part ∈ parts, ∃ m, IsMember words part m) :
    ∃ members : List MemberText, members.map MemberText.text = parts ∧
      ∀ m ∈ members, IsMember words m.text m := by
  induction parts with
  | nil => exact ⟨[], rfl, List.forall_mem_nil _⟩
  | cons part parts ih =>
    obtain ⟨⟨m, hm⟩, hparts⟩ := List.forall_mem_cons.mp h
    obtain ⟨members, rfl, hmembers⟩ := ih hparts
    obtain rfl := hm.text
    exact ⟨m :: members, rfl, List.forall_mem_cons.mpr ⟨hm, hmembers⟩⟩

/-- A text that is written for a tree is one of the grammar that admits the constants of the
    tree. -/
theorem isText_of_spaced (d : Tree) : ∀ t, Spaced d.tokens t → Within words d.tokens →
    IsText words t := by
  -- a token by itself is a value of the grammar
  have htoken {token : Token} {t : Text} (h : Spaced [token] t)
      (hvalue : ∀ w, Lexeme token w → IsValue words w) : IsText words t := by
    obtain ⟨hbefore, hlexeme, hafter⟩ := h.padded
    exact .mk hbefore (hvalue _ hlexeme) hafter
  have hword {token : Token} (hwithin : Within words [token]) {w : Text}
      (hw : token.constant? = some w) : IsValue words w :=
    .word (List.forall_mem_singleton.mp hwithin w hw)
  induction d using Tree.induction with
  | null => exact fun t h _ => htoken h fun w hw => by cases hw; exact .null
  | bool b =>
    intro t h _
    refine htoken h fun w hw => ?_
    cases hw
    · exact .true
    · exact .false
  | nan =>
    intro t h hwithin
    refine htoken h fun w hw => ?_
    cases hw
    exact hword hwithin rfl
  | infinity negative =>
    intro t h hwithin
    refine htoken h fun w hw => ?_
    cases hw
    · exact hword hwithin rfl
    · exact hword hwithin rfl
  | number n =>
    intro t h _
    refine htoken h fun w hw => ?_
    cases hw with
    | number hn => exact .number (isNumber_iff.mpr ⟨n, hn⟩)
  | str s =>
    intro t h _
    refine htoken h fun w hw => ?_
    cases hw with
    | str ps => exact .string (isString_iff.mpr ⟨ps, rfl⟩)
  | arr items ih =>
    intro t h hwithin
    rw [Tree.tokens, within_brackets rfl rfl, within_joinTokens] at hwithin
    rw [Tree.tokens] at h
    rw [Tree.itemTokens_eq_map] at h hwithin
    have hrows : ∀ row ∈ items.map Tree.tokens, ∀ u, Spaced row u → IsText words u :=
      List.forall_mem_map.mpr fun d hd u hu =>
        ih d hd u hu (List.forall_mem_map.mp hwithin d hd)
    have hopen : ∀ w, Lexeme .openArray w → w = "[" := fun w hw => by cases hw; rfl
    have hclose : ∀ w, Lexeme .closeArray w → w = "]" := fun w hw => by cases hw; rfl
    obtain ⟨opening, inner, closing, parts, rfl, hopening, hparts, hinner, hclosing⟩ :=
      exists_brackets hopen hclose hrows h
    exact isText_of_isValue (.array hopening hparts hinner hclosing)
  | obj members ih =>
    intro t h hwithin
    rw [Tree.tokens, within_brackets rfl rfl, within_joinTokens] at hwithin
    rw [Tree.tokens] at h
    rw [Tree.memberTokens_eq_map] at h hwithin
    have hrows : ∀ row ∈ members.map fun m => .str m.1 :: .colon :: m.2.tokens, ∀ u,
        Spaced row u → Padded (fun part => ∃ m, IsMember words part m) u := by
      refine List.forall_mem_map.mpr fun m hm u hu => padded_member (fun v hv => ?_) hu
      have htree := List.forall_mem_map.mp hwithin m hm
      exact ih m hm v hv ((within_append [.str m.1, .colon] _).mp htree).2
    have hopen : ∀ w, Lexeme .openObject w → w = "\x7b" := fun w hw => by cases hw; rfl
    have hclose : ∀ w, Lexeme .closeObject w → w = "\x7d" := fun w hw => by cases hw; rfl
    obtain ⟨opening, inner, closing, parts, rfl, hopening, hparts, hinner, hclosing⟩ :=
      exists_brackets hopen hclose hrows h
    obtain ⟨texts, rfl, htexts⟩ := exists_members hparts
    exact isText_of_isValue (.object hopening (fun m hm => (htexts m hm).name)
      (fun m hm => (htexts m hm).separator) (fun m hm => (htexts m hm).value) hinner hclosing)

/-- A text that is written for a tree is one of the grammar that admits the constants of the
    tree. -/
theorem isText_of_written {t : Text} {d : Tree} (h : Written t d) (hd : Within words d.tokens) :
    IsText words t := isText_of_spaced d t h hd

/-! ## Section 5: What a reader says about it -/

/-- The rules of a reader that has no limits and lets the last value of a name stand. -/
def Rules.lenient : Rules := ⟨none, none, .lastWins⟩

theorem readable_lenient (d : Tree) (depth : Nat) : d.Readable .lenient depth := by
  induction d using Tree.induction generalizing depth with
  | number n =>
    unfold Tree.Readable Tree.eval Numeral.value
    split
    · exact ⟨_, rfl⟩
    · exact ⟨_, rfl⟩
  | arr items ih => exact readable_arr_iff.mpr ⟨rfl, fun d hd => ih d hd _⟩
  | obj members ih =>
    have hmembers : ∃ values, Tree.evalMembers .lenient (depth + 1) members = .ok values :=
      (exists_evalMembers_iff members).mpr fun m hm => ih m hm _
    obtain ⟨values, hvalues⟩ := hmembers
    -- a repeated name is no reason to refuse the object
    have hobject : ∃ v, RepeatedNames.lastWins.object values = .ok v := by
      unfold RepeatedNames.object
      split
      · exact ⟨_, rfl⟩
      · exact ⟨_, rfl⟩
    obtain ⟨v, hv⟩ := hobject
    refine ⟨v, ?_⟩
    have hroom : Rules.lenient.allows depth = true := rfl
    rw [Tree.eval, if_pos hroom, hvalues, ok_bind]
    exact hv
  | _ => exact ⟨_, rfl⟩

/-- The texts of the grammar are those that a lenient reader reads, as far as the constants in them
    are words that the grammar admits. -/
theorem isText_iff (hwords : ∀ w ∈ words, w ∈ constants) {t : Text} :
    IsText words t ↔
      (∃ v, readText .lenient t = .ok v) ∧ Within words ((tokens t).map Located.token) := by
  have hend : Within words [.endOfText] := within_singleton rfl
  constructor
  · intro h
    obtain ⟨d, hwritten, hwithin⟩ := h.exists_written hwords
    obtain ⟨v, hv⟩ := readable_lenient d 0
    refine ⟨⟨v, (readText_of_written hwritten).trans hv⟩, ?_⟩
    rw [written_iff.mp hwritten]
    exact (within_append _ _).mpr ⟨hwithin, hend⟩
  · rintro ⟨⟨v, hv⟩, hwithin⟩
    obtain ⟨d, hwritten, -⟩ := written_of_readText hv
    rw [written_iff.mp hwritten] at hwithin
    exact isText_of_written hwritten ((within_append _ _).mp hwithin).1

end texts

/-- With all three words beside the standard's, the grammar is that of a lenient reader. -/
theorem isText_constants_iff {t : Text} :
    IsText constants t ↔ ∃ v, readText .lenient t = .ok v := by
  rw [isText_iff fun w hw => hw, and_iff_left (within_constants _)]

/-- A text is of the standard if none of the three words is among its tokens. -/
theorem isText_nil_iff {t : Text} :
    IsText [] t ↔ IsText constants t ∧
      ∀ token ∈ (tokens t).map Located.token, token.constant? = none := by
  rw [isText_iff (List.forall_mem_nil _), isText_constants_iff, within_nil_iff]

/-- Whatever the rules of a reader, the texts that it reads are of the grammar with the three
    words. -/
theorem isText_of_read {rules : Rules} {t : Text} {v : Value} (h : read rules (.text t) = .ok v) :
    IsText constants t := by
  obtain ⟨d, hwritten, -⟩ := written_of_read h
  exact isText_of_written hwritten (within_constants _)

end SignedEvents.Json
