import SignedEvents.Proofs.Json.Tree
import SignedEvents.Proofs.Text.Hex

/-! # The grammar of JSON text

  How tokens are written, with no reference to how they are read.  Besides what JSON allows there
  are the words `NaN`, `Infinity` and `-Infinity`.

  - **Piece** — a code point of a string as it is written: itself, or an escape.
  - **Piece.meaning** — the text that pieces stand for.
  - **Numeral.Written** — how a number is written.
  - **Lexeme** — how a token is written.
  - **Spaced** — tokens with blanks around them.
  - **Written** — how a tree is written.
-/

namespace SignedEvents

theorem CodePoint.is_iff {c : CodePoint} {k : Char} : c.is k = true ↔ c = .ofChar k := by
  unfold CodePoint.is
  rw [beq_iff_eq]
  constructor
  · intro h
    exact CodePoint.ext_val h
  · rintro rfl
    rfl

namespace Json

/-! ## Section 1: Strings -/

/-- The code point of a quote. -/
def quoteMark : CodePoint := .ofChar '"'

/-- The code point of a backslash. -/
def backslash : CodePoint := .ofChar '\\'

/-- The letter of each one-letter escape, and the code point that it stands for: quote,
    backslash, slash, backspace, form feed, line feed, carriage return, tab. -/
def letterEscapes : List (Nat × Nat) :=
  [(0x22, 0x22), (0x5C, 0x5C), (0x2F, 0x2F), (0x62, 0x08), (0x66, 0x0C), (0x6E, 0x0A),
    (0x72, 0x0D), (0x74, 0x09)]

/-- A number is read from hexadecimal digits. -/
theorem isHex_of_hexQuad? {h₁ h₂ h₃ h₄ : CodePoint} {n : Nat}
    (h : hexQuad? h₁ h₂ h₃ h₄ = some n) : ∀ c ∈ [h₁, h₂, h₃, h₄], c.IsHex := by
  unfold hexQuad? at h
  split at h
  · next ha hb hc hd =>
    simp only [List.forall_mem_cons]
    exact ⟨(CodePoint.isHex_of_hexValue? ha).1, (CodePoint.isHex_of_hexValue? hb).1,
      (CodePoint.isHex_of_hexValue? hc).1, (CodePoint.isHex_of_hexValue? hd).1, by simp⟩
  · cases h

/-- A code point of a string as it is written. -/
inductive Piece where
  /-- The code point itself. -/
  | plain (c : CodePoint) (isPlain : 0x20 ≤ c.val ∧ c.val ≠ 0x22 ∧ c.val ≠ 0x5C)
  /-- A backslash and a letter. -/
  | letter (e c : CodePoint) (isEscape : (e.val, c.val) ∈ letterEscapes)
  /-- A backslash, the letter `u` and the four hexadecimal digits of a number. -/
  | numbered (h₁ h₂ h₃ h₄ c : CodePoint) (isNumber : hexQuad? h₁ h₂ h₃ h₄ = some c.val)

namespace Piece

/-- The piece as it is written. -/
def text : Piece → Text
  | plain c _ => [c]
  | letter e _ _ => [backslash, e]
  | numbered h₁ h₂ h₃ h₄ _ _ => [backslash, .ofChar 'u', h₁, h₂, h₃, h₄]

/-- The code point that the piece stands for by itself. -/
def point : Piece → CodePoint
  | plain c _ => c
  | letter _ c _ => c
  | numbered _ _ _ _ c _ => c

/-- Is this the number of the first half of a surrogate pair? -/
def isHigh : Piece → Bool
  | numbered _ _ _ _ c _ => c.isHighSurrogate
  | _ => false

/-- Is this the number of the second half of a surrogate pair? -/
def isLow : Piece → Bool
  | numbered _ _ _ _ c _ => c.isLowSurrogate
  | _ => false

/-- What pieces stand for.  Two numbers that make a surrogate pair stand for one code point. -/
def meaning : List Piece → Text
  | [] => []
  | [p] => [p.point]
  | p :: q :: rest =>
    if p.isHigh && q.isLow then .ofPair p.point q.point :: meaning rest
    else p.point :: meaning (q :: rest)

theorem meaning_cons {p : Piece} (ps : List Piece) (hp : p.isHigh = false) :
    meaning (p :: ps) = p.point :: meaning ps := by
  cases ps with
  | nil => rfl
  | cons q ps => simp [meaning, hp]

theorem meaning_cons_cons {p q : Piece} (ps : List Piece) (hq : q.isLow = false) :
    meaning (p :: q :: ps) = p.point :: meaning (q :: ps) := by
  simp [meaning, hq]

theorem meaning_pair {p q : Piece} (ps : List Piece) (hp : p.isHigh = true)
    (hq : q.isLow = true) : meaning (p :: q :: ps) = .ofPair p.point q.point :: meaning ps := by
  simp [meaning, hp, hq]

/-- Pieces without halves of surrogate pairs stand for one code point each. -/
theorem meaning_eq_map {ps : List Piece} (h : ∀ p ∈ ps, p.isHigh = false) :
    meaning ps = ps.map point := by
  induction ps with
  | nil => rfl
  | cons p ps ih =>
    rw [meaning_cons ps (h p (List.mem_cons_self ..)), List.map_cons,
      ih fun q hq => h q (List.mem_cons_of_mem _ hq)]

end Piece

/-! ## Section 2: Numbers -/

/-- At least one digit. -/
structure DigitsWritten (digits : List Nat) (t : Text) : Prop where
  nonempty : digits ≠ []
  small    : ∀ d ∈ digits, d < 10
  text     : t = digits.map CodePoint.digit

/-- A point and digits, or nothing. -/
inductive FractionWritten : Option (List Nat) → Text → Prop where
  | absent : FractionWritten none []
  | present {digits : List Nat} {t : Text} :
      DigitsWritten digits t → FractionWritten (some digits) (.ofChar '.' :: t)

/-- The sign of an exponent, and whether it is a minus. -/
inductive SignWritten : Bool → Text → Prop where
  | absent : SignWritten false []
  | plus : SignWritten false [.ofChar '+']
  | minus : SignWritten true [.ofChar '-']

/-- The mark of an exponent, a sign and digits, or nothing. -/
inductive ExponentWritten : Option Int → Text → Prop where
  | absent : ExponentWritten none []
  | present {mark : CodePoint} {negative : Bool} {digits : List Nat} {sign t : Text} :
      (mark = .ofChar 'e' ∨ mark = .ofChar 'E') → SignWritten negative sign →
      DigitsWritten digits t →
      ExponentWritten (some (if negative then -(valueOf digits : Int) else valueOf digits))
        (mark :: (sign ++ t))

/-- The minus of a negative number. -/
def minusSign (negative : Bool) : Text := if negative then [.ofChar '-'] else []

@[simp] theorem length_minusSign (negative : Bool) :
    (minusSign negative).length = negative.toNat := by
  cases negative <;> rfl

/-- A number: a minus or nothing, digits of which the first is no zero unless it is the only one,
    a fraction, an exponent. -/
inductive Numeral.Written : Numeral → Text → Prop where
  | mk {negative : Bool} {whole : List Nat} {fraction : Option (List Nat)}
      {exponent : Option Int} {t f e : Text} :
      DigitsWritten whole t → (whole.head? = some 0 → whole = [0]) →
      FractionWritten fraction f → ExponentWritten exponent e →
      Numeral.Written ⟨negative, whole, fraction, exponent⟩
        (minusSign negative ++ (t ++ (f ++ e)))

/-! ## Section 3: Tokens -/

/-- How a token is written. -/
inductive Lexeme : Token → Text → Prop where
  | openArray : Lexeme .openArray "["
  | closeArray : Lexeme .closeArray "]"
  | openObject : Lexeme .openObject "\x7b"
  | closeObject : Lexeme .closeObject "\x7d"
  | comma : Lexeme .comma ","
  | colon : Lexeme .colon ":"
  | null : Lexeme .null "null"
  | true : Lexeme (.bool true) "true"
  | false : Lexeme (.bool false) "false"
  | nan : Lexeme .nan "NaN"
  | infinity : Lexeme (.infinity false) "Infinity"
  | minusInfinity : Lexeme (.infinity true) "-Infinity"
  | number {n : Numeral} {t : Text} : n.Written t → Lexeme (.number n) t
  | str (ps : List Piece) :
      Lexeme (.str (Piece.meaning ps)) (quoteMark :: (ps.flatMap Piece.text ++ [quoteMark]))

/-- Blanks between tokens. -/
def Blank (t : Text) : Prop := ∀ c ∈ t, isSpace c = true

/-- Tokens with blanks around them. -/
inductive Spaced : List Token → Text → Prop where
  | done {blank : Text} : Blank blank → Spaced [] blank
  | next {blank t rest : Text} {token : Token} {ts : List Token} :
      Blank blank → Lexeme token t → Spaced ts rest → Spaced (token :: ts) (blank ++ (t ++ rest))

/-- A text that is written for a tree. -/
def Written (t : Text) (d : Tree) : Prop := Spaced d.tokens t

end Json

end SignedEvents
