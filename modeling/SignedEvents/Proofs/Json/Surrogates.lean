import SignedEvents.Proofs.Json.Margins
import SignedEvents.Proofs.Json.Objects
import SignedEvents.Proofs.Json.RoundTrip

/-! # Surrogates of JSON text

  A surrogate of a text stands in a string of it, written as itself, and so shows in the value.

  - **Piece.mem_meaning_of_plain** — what is written as itself is meant.
  - **Spaced.clean** — a text without surrogates in its strings has none.
  - **hasSurrogate_of_read** — a surrogate of a text shows in its value.
-/

namespace SignedEvents.Json

/-! ## Section 1: Strings -/

/-- What is written as itself is meant. -/
theorem Piece.mem_meaning_of_plain {c : CodePoint} {isPlain : 0x20 ≤ c.val ∧ c.val ≠ 0x22 ∧ c.val ≠ 0x5C}
    {ps : List Piece} (h : .plain c isPlain ∈ ps) : c ∈ meaning ps := by
  fun_induction meaning ps with
  | case1 => cases h
  | case2 p =>
    obtain rfl := List.mem_singleton.mp h
    exact List.mem_singleton_self c
  | case3 p q rest hpair ih =>
    -- neither half of a pair is written as itself
    rw [Bool.and_eq_true] at hpair
    rcases List.mem_cons.mp h with rfl | h
    · cases hpair.1
    rcases List.mem_cons.mp h with rfl | h
    · cases hpair.2
    exact List.mem_cons_of_mem _ (ih h)
  | case4 p q rest hpair ih =>
    rcases List.mem_cons.mp h with rfl | h
    · exact List.mem_cons_self ..
    · exact List.mem_cons_of_mem _ (ih h)

/-- Only what is written as itself can be a surrogate. -/
theorem Piece.isSurrogate_of_mem {p : Piece} {c : CodePoint} (hc : c ∈ p.text)
    (hsurrogate : c.isSurrogate = true) : ∃ isPlain, p = .plain c isPlain := by
  cases p with
  | plain d isPlain =>
    obtain rfl := List.mem_singleton.mp hc
    exact ⟨isPlain, rfl⟩
  | letter e d isEscape =>
    have he := CodePoint.isSurrogate_of_lt (letterEscapes_lt _ isEscape).1
    have hnone : ∀ c ∈ [backslash, e], c.isSurrogate = false := by
      simp only [List.forall_mem_cons]
      exact ⟨rfl, he, by simp⟩
    rw [hnone c hc] at hsurrogate
    cases hsurrogate
  | numbered h₁ h₂ h₃ h₄ d isNumber =>
    have hdigits : ∀ c ∈ [h₁, h₂, h₃, h₄], c.isSurrogate = false := by
      intro c hc
      have hlt := (isHex_of_hexQuad? isNumber c hc).val_lt
      exact CodePoint.isSurrogate_of_lt (by omega)
    have hnone : ∀ c ∈ [backslash, .ofChar 'u', h₁, h₂, h₃, h₄], c.isSurrogate = false :=
      List.forall_mem_cons.mpr ⟨rfl, List.forall_mem_cons.mpr ⟨rfl, hdigits⟩⟩
    rw [hnone c hc] at hsurrogate
    cases hsurrogate

/-! ## Section 2: Tokens -/

/-- A token that holds no surrogate. -/
def Token.Clean (token : Token) : Prop := ∀ s, token = .str s → s.hasSurrogate = false

theorem isSurrogate_of_mem_clean {t : Text} (h : t.hasSurrogate = false) {c : CodePoint}
    (hc : c ∈ t) : c.isSurrogate = false :=
  Bool.eq_false_iff.mpr (List.any_eq_false.mp h c hc)

theorem isSurrogate_of_lexeme {token : Token} {w : Text} (h : Lexeme token w)
    (hclean : token.Clean) :
    ∀ c ∈ w, c.isSurrogate = false := by
  cases h with
  | number hwritten =>
    intro c hc
    have hgraphic := hwritten.graphic c hc
    have hmax : c.val ≤ 0x7E := hgraphic.2
    exact CodePoint.isSurrogate_of_lt (by omega)
  | str ps =>
    -- a surrogate between the quotes would be meant, too
    have hmeaning := hclean _ rfl
    have hpieces : ∀ c ∈ ps.flatMap Piece.text, c.isSurrogate = false := by
      intro c hc
      obtain ⟨p, hp, hc⟩ := List.mem_flatMap.mp hc
      rw [Bool.eq_false_iff]
      intro hsurrogate
      obtain ⟨isPlain, rfl⟩ := Piece.isSurrogate_of_mem hc hsurrogate
      rw [isSurrogate_of_mem_clean hmeaning (Piece.mem_meaning_of_plain hp)] at hsurrogate
      cases hsurrogate
    refine List.forall_mem_cons.mpr ⟨rfl, List.forall_mem_append.mpr ⟨hpieces, ?_⟩⟩
    exact List.forall_mem_singleton.mpr rfl
  | _ => decide

/-- A text without surrogates in its strings has none. -/
theorem Spaced.clean {ts : List Token} {t : Text} (h : Spaced ts t)
    (hclean : ∀ token ∈ ts, token.Clean) : ∀ c ∈ t, c.isSurrogate = false := by
  have hspace {blank : Text} (hblank : Blank blank) : ∀ c ∈ blank, c.isSurrogate = false := by
    intro c hc
    have hval := hblank c hc
    simp only [isSpace, Bool.or_eq_true, beq_iff_eq] at hval
    exact CodePoint.isSurrogate_of_lt (by omega)
  induction h with
  | done hblank => exact hspace hblank
  | next hblank hlexeme _ ih =>
    obtain ⟨htoken, hrest⟩ := List.forall_mem_cons.mp hclean
    simp only [List.forall_mem_append]
    exact ⟨hspace hblank, isSurrogate_of_lexeme hlexeme htoken, ih hrest⟩

/-! ## Section 3: Values -/

variable {rules : Rules} {depth : Nat}

theorem membersHaveSurrogate_eq_any (members : Members) :
    membersHaveSurrogate members = members.any fun m => m.1.hasSurrogate || m.2.hasSurrogate := by
  induction members with
  | nil => rfl
  | cons m members ih => rw [membersHaveSurrogate, ih, List.any_cons]

/-- The strings of a tree are those of its value. -/
theorem Tree.tokens_clean (hrules : rules.repeated = .refused) {d : Tree} {v : Value}
    (h : d.eval rules depth = .ok v) (hclean : v.hasSurrogate = false) :
    ∀ token ∈ d.tokens, token.Clean := by
  have hother {token : Token} (htoken : ∀ s, token ≠ .str s) : token.Clean :=
    fun s heq => absurd heq (htoken s)
  -- on the tree, because tokens are put together along it
  induction d using Tree.induction generalizing depth v with
  | arr items ih =>
    obtain ⟨-, values, hvalues, rfl⟩ := eval_arr_ok_iff.mp h
    rw [Value.hasSurrogate, itemsHaveSurrogate_eq_any, List.any_eq_false] at hclean
    have hrows : ∀ row ∈ itemTokens items, ∀ token ∈ row, token.Clean := by
      rw [itemTokens_eq_map]
      refine List.forall_mem_map.mpr fun d hd => ?_
      obtain ⟨w, hw, heval⟩ := mem_of_evalItems hvalues d hd
      exact ih d hd heval (Bool.eq_false_iff.mpr (hclean w hw))
    have hinner := forall_mem_joinTokens (hother (by simp)) hrows
    rw [tokens, List.forall_mem_append, List.forall_mem_cons, List.forall_mem_singleton]
    exact ⟨⟨hother (by simp), hinner⟩, hother (by simp)⟩
  | obj members ih =>
    obtain ⟨-, -, values, hvalues, rfl⟩ := (eval_obj_ok_iff hrules).mp h
    rw [Value.hasSurrogate, membersHaveSurrogate_eq_any, List.any_eq_false] at hclean
    have hrows : ∀ row ∈ memberTokens members, ∀ token ∈ row, token.Clean := by
      rw [memberTokens_eq_map]
      refine List.forall_mem_map.mpr fun m hm => ?_
      obtain ⟨w, hw, heval⟩ := mem_of_evalMembers hvalues m hm
      have hmember := Bool.eq_false_iff.mpr (hclean _ hw)
      rw [Bool.or_eq_false_iff] at hmember
      rw [List.forall_mem_cons, List.forall_mem_cons]
      refine ⟨fun s heq => ?_, hother (by simp), ih m hm heval hmember.2⟩
      obtain rfl := Token.str.inj heq
      exact hmember.1
    have hinner := forall_mem_joinTokens (hother (by simp)) hrows
    rw [tokens, List.forall_mem_append, List.forall_mem_cons, List.forall_mem_singleton]
    exact ⟨⟨hother (by simp), hinner⟩, hother (by simp)⟩
  | str t =>
    obtain rfl := Except.ok.inj h
    rw [tokens, List.forall_mem_singleton]
    intro s heq
    obtain rfl := Token.str.inj heq
    exact hclean
  | _ =>
    rw [tokens, List.forall_mem_singleton]
    exact hother (by simp)

/-- A surrogate of a text shows in its value. -/
theorem hasSurrogate_of_read (hrules : rules.repeated = .refused) {t : Text} {v : Value}
    (h : read rules (.text t) = .ok v) (hsurrogate : t.hasSurrogate = true) :
    v.hasSurrogate = true := by
  obtain ⟨d, hwritten, heval⟩ := written_of_read h
  rw [← Bool.not_eq_false]
  intro hclean
  obtain ⟨c, hc, hsurrogate⟩ := List.any_eq_true.mp hsurrogate
  have hnone := Spaced.clean hwritten (Tree.tokens_clean hrules heval hclean) c hc
  rw [hsurrogate] at hnone
  cases hnone

end SignedEvents.Json
