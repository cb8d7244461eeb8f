import Mathlib.Data.List.TakeWhile
import SignedEvents.Proofs.Json.ControlCharacters
import SignedEvents.Proofs.Json.Reading
import SignedEvents.Text.Blank

/-! # Blanks around JSON text

  A line is trimmed before it is read, and more code points count as blank there than in JSON.
  What is trimmed off matters only if JSON does not allow it.

  - **Text.margin** — what trimming takes off.
  - **Text.front_strip_back** — what it leaves.
  - **Lexeme.graphic_ends** — no token has a blank at its ends.
  - **spaced_iff_strip** — tokens before and after trimming.
  - **read_ok_iff_strip** — values before and after trimming.
-/

namespace SignedEvents

/-! ## Section 1: Trimming -/

theorem CodePoint.IsGraphic.not_blank {c : CodePoint} (h : c.IsGraphic) : c.isBlank = false := by
  obtain ⟨hmin, hmax⟩ := h
  have hascii : c.isAsciiBlank = false := by
    simp only [isAsciiBlank, Bool.or_eq_false_iff, Bool.and_eq_false_iff, decide_eq_false_iff_not,
      beq_eq_false_iff_ne]
    omega
  have hwide : c.isWideBlank = false := by
    simp only [isWideBlank, Bool.or_eq_false_iff, Bool.and_eq_false_iff, decide_eq_false_iff_not,
      beq_eq_false_iff_ne]
    omega
  simp only [isBlank, isWhiteSpace, hascii, hwide, Bool.or_false, Bool.false_or,
    Bool.and_eq_false_iff, decide_eq_false_iff_not]
  omega

namespace Text

variable (blank : CodePoint → Bool) (t : Text)

/-- The blanks in front of a text. -/
def front : Text := t.takeWhile blank

/-- The blanks behind what is left of a text without those in front. -/
def back : Text := ((t.dropWhile blank).reverse.takeWhile blank).reverse

/-- All that trimming takes off. -/
def margin : Text := t.front blank ++ t.back blank

/-- Trimming takes a text apart. -/
theorem front_strip_back : t.front blank ++ (t.strip blank ++ t.back blank) = t := by
  have hrest : t.strip blank ++ t.back blank = t.dropWhile blank := by
    rw [strip, back, ← List.reverse_append, List.takeWhile_append_dropWhile, List.reverse_reverse]
  rw [hrest]
  exact List.takeWhile_append_dropWhile

variable {blank t}

theorem blank_of_mem_front {c : CodePoint} (hc : c ∈ t.front blank) : blank c = true :=
  List.all_eq_true.mp List.all_takeWhile c hc

theorem blank_of_mem_back {c : CodePoint} (hc : c ∈ t.back blank) : blank c = true :=
  List.all_eq_true.mp List.all_takeWhile c (List.mem_reverse.mp hc)

/-- Nothing is left exactly of a text of blanks. -/
theorem strip_eq_nil_iff : t.strip blank = [] ↔ ∀ c ∈ t, blank c = true := by
  constructor
  · intro h c hc
    have hsplit := t.front_strip_back blank
    rw [h, List.nil_append] at hsplit
    rw [← hsplit] at hc
    rcases List.mem_append.mp hc with hfront | hback
    · exact blank_of_mem_front hfront
    · exact blank_of_mem_back hback
  · intro h
    have hdrop : t.dropWhile blank = [] := List.dropWhile_eq_nil_iff.mpr h
    rw [strip, hdrop]
    rfl

end Text

namespace Json

/-! ## Section 2: Tokens -/

/-- A token starts and ends with printed characters of ASCII. -/
theorem Lexeme.graphic_ends {token : Token} {w : Text} (h : Lexeme token w) :
    (∀ c ∈ w.head?, c.IsGraphic) ∧ ∀ c ∈ w.getLast?, c.IsGraphic := by
  cases h with
  | number hwritten =>
    have hgraphic := hwritten.graphic
    exact ⟨fun c hc => hgraphic c (List.mem_of_mem_head? hc),
      fun c hc => hgraphic c (List.mem_of_mem_getLast? hc)⟩
  | str ps =>
    -- the ends of a string are its quotes
    have hquote : quoteMark.IsGraphic := by decide
    constructor
    · intro c hc
      obtain rfl := Option.some.inj hc
      exact hquote
    · intro c hc
      rw [← List.cons_append, List.getLast?_concat] at hc
      obtain rfl := Option.some.inj hc
      exact hquote
  | _ =>
    constructor <;> decide

variable {ts : List Token} {t : Text}

/-- A blank in front of tokens is one that JSON allows. -/
theorem Spaced.of_cons {c : CodePoint} (h : Spaced ts (c :: t)) (hc : c.isBlank = true) :
    isSpace c = true ∧ Spaced ts t := by
  generalize hu : c :: t = u at h
  cases h with
  | done hblank =>
    subst hu
    obtain ⟨hspace, hrest⟩ := List.forall_mem_cons.mp hblank
    exact ⟨hspace, .done hrest⟩
  | @next blank w rest token ts hblank hlexeme hrest =>
    cases blank with
    | nil =>
      -- the token would start with a blank
      obtain ⟨d, tail, rfl⟩ : ∃ d tail, w = d :: tail :=
        List.exists_cons_of_ne_nil hlexeme.ne_nil
      obtain ⟨rfl, -⟩ := List.cons.inj hu
      have hgraphic := hlexeme.graphic_ends.1 c rfl
      rw [hgraphic.not_blank] at hc
      cases hc
    | cons space blank =>
      obtain ⟨rfl, rfl⟩ := List.cons.inj hu
      obtain ⟨hspace, hblank⟩ := List.forall_mem_cons.mp hblank
      exact ⟨hspace, .next hblank hlexeme hrest⟩

/-- A blank behind tokens is one that JSON allows. -/
theorem Spaced.of_concat {c : CodePoint} (h : Spaced ts (t ++ [c])) (hc : c.isBlank = true) :
    isSpace c = true ∧ Spaced ts t := by
  generalize hu : t ++ [c] = u at h
  induction h generalizing t with
  | done hblank =>
    subst hu
    obtain ⟨hrest, hspace⟩ := List.forall_mem_append.mp hblank
    exact ⟨hspace c (List.mem_singleton_self c), .done hrest⟩
  | @next blank w rest token ts hblank hlexeme hrest ih =>
    rcases List.eq_nil_or_concat rest with rfl | ⟨before, d, rfl⟩
    · -- the last token would end with a blank
      obtain ⟨before, d, rfl⟩ : ∃ before d, w = before ++ [d] := by
        rcases List.eq_nil_or_concat w with hnil | ⟨before, d, h⟩
        · exact absurd hnil hlexeme.ne_nil
        · exact ⟨before, d, h.trans List.concat_eq_append⟩
      rw [List.append_nil, ← List.append_assoc] at hu
      obtain ⟨-, hlast⟩ := List.append_inj' hu rfl
      obtain rfl := List.singleton_inj.mp hlast
      have hgraphic := hlexeme.graphic_ends.2 c (by rw [List.getLast?_concat]; rfl)
      rw [hgraphic.not_blank] at hc
      cases hc
    · rw [List.concat_eq_append, ← List.append_assoc, ← List.append_assoc] at hu
      obtain ⟨rfl, hlast⟩ := List.append_inj' hu rfl
      obtain ⟨hspace, hbefore⟩ := ih (by rw [List.concat_eq_append, hlast])
      rw [List.append_assoc]
      exact ⟨hspace, .next hblank hlexeme hbefore⟩

theorem Spaced.of_front {front : Text} (h : Spaced ts (front ++ t))
    (hfront : ∀ c ∈ front, c.isBlank = true) : Blank front ∧ Spaced ts t := by
  induction front with
  | nil => exact ⟨fun c hc => absurd hc List.not_mem_nil, h⟩
  | cons c front ih =>
    obtain ⟨hc, hfront⟩ := List.forall_mem_cons.mp hfront
    obtain ⟨hspace, hrest⟩ := h.of_cons hc
    obtain ⟨hblank, hspaced⟩ := ih hrest hfront
    exact ⟨List.forall_mem_cons.mpr ⟨hspace, hblank⟩, hspaced⟩

theorem Spaced.of_back {back : Text} (h : Spaced ts (t ++ back))
    (hback : ∀ c ∈ back, c.isBlank = true) : Blank back ∧ Spaced ts t := by
  induction back using List.reverseRecOn with
  | nil =>
    rw [List.append_nil] at h
    exact ⟨fun c hc => absurd hc List.not_mem_nil, h⟩
  | append_singleton back c ih =>
    obtain ⟨hback, hc⟩ := List.forall_mem_append.mp hback
    rw [← List.append_assoc] at h
    obtain ⟨hspace, hrest⟩ := h.of_concat (hc c (List.mem_singleton_self c))
    obtain ⟨hblank, hspaced⟩ := ih hrest hback
    refine ⟨List.forall_mem_append.mpr ⟨hblank, ?_⟩, hspaced⟩
    exact List.forall_mem_singleton.mpr hspace

theorem Spaced.append_blank {blank : Text} (h : Spaced ts t) (hblank : Blank blank) :
    Spaced ts (t ++ blank) := by
  induction h with
  | done ht => exact .done (List.forall_mem_append.mpr ⟨ht, hblank⟩)
  | next hspace hlexeme hrest ih =>
    rw [List.append_assoc, List.append_assoc]
    exact .next hspace hlexeme ih

/-- Tokens are written in a text exactly if they are written in what trimming leaves, and JSON
    allows the blanks that it takes off. -/
theorem spaced_iff_strip :
    Spaced ts t ↔ Blank (t.margin (·.isBlank)) ∧ Spaced ts (t.strip (·.isBlank)) := by
  constructor
  · intro h
    rw [← t.front_strip_back (·.isBlank)] at h
    obtain ⟨hfront, hrest⟩ := h.of_front fun c => Text.blank_of_mem_front
    obtain ⟨hback, hspaced⟩ := hrest.of_back fun c => Text.blank_of_mem_back
    exact ⟨List.forall_mem_append.mpr ⟨hfront, hback⟩, hspaced⟩
  · rintro ⟨hmargin, hspaced⟩
    obtain ⟨hfront, hback⟩ := List.forall_mem_append.mp hmargin
    have hwhole := (hspaced.append_blank hback).blank_append hfront
    rwa [t.front_strip_back (·.isBlank)] at hwhole

/-! ## Section 3: Values -/

/-- A text has a value exactly if what trimming leaves has it, and JSON allows the blanks that
    trimming takes off. -/
theorem read_ok_iff_strip {rules : Rules} {v : Value} :
    read rules (.text t) = .ok v ↔
      Blank (t.margin (·.isBlank)) ∧ read rules (.text (t.strip (·.isBlank))) = .ok v := by
  constructor
  · intro h
    obtain ⟨d, hwritten, hd⟩ := written_of_read h
    obtain ⟨hmargin, hstrip⟩ := spaced_iff_strip.mp hwritten
    exact ⟨hmargin, (read_of_written hstrip).trans hd⟩
  · rintro ⟨hmargin, h⟩
    obtain ⟨d, hwritten, hd⟩ := written_of_read h
    have hwhole : Written t d := spaced_iff_strip.mpr ⟨hmargin, hwritten⟩
    exact (read_of_written hwhole).trans hd

end Json

end SignedEvents
