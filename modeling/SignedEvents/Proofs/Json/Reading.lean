import Mathlib.Data.List.Chain
import SignedEvents.Proofs.Json.Machine
import SignedEvents.Proofs.Json.Scanner

/-! # What a reader reads

  A text has a value exactly if it is written for a tree that has one.

  - **tokensFrom_spaced** — written tokens are read back.
  - **tokensFrom_spec** — what is read up to the end of a text is written there.
  - **read_of_written**, **written_of_read** — the two directions for values.
-/

namespace SignedEvents.Json

/-! ## Section 1: Written tokens are read back -/

/-- Is this a number? -/
def Token.isNumber : Token → Bool
  | .number _ => true
  | _ => false

/-- Not both numbers: two numbers in a row can be read as one. -/
def Apart (a b : Token) : Prop := a.isNumber = false ∨ b.isNumber = false

theorem tokensFrom_skip (place : Place) (done : List Located) (w rest : Text) :
    ∃ next, tokensFrom place w.length done (w ++ rest) = tokensFrom next 0 done rest := by
  induction w generalizing place with
  | nil => exact ⟨place, rfl⟩
  | cons c w ih =>
    obtain ⟨next, hnext⟩ := ih (place.after c)
    exact ⟨next, hnext⟩

theorem tokensFrom_space {c : CodePoint} (hc : isSpace c = true) (place : Place)
    (done : List Located) (rest : Text) :
    tokensFrom place 0 done (c :: rest) = tokensFrom (place.after c) 0 done rest := by
  rw [tokensFrom, if_pos hc]

theorem tokensFrom_blank {blank : Text} (h : Blank blank) (place : Place) (done : List Located)
    (rest : Text) :
    ∃ next, tokensFrom place 0 done (blank ++ rest) = tokensFrom next 0 done rest := by
  induction blank generalizing place with
  | nil => exact ⟨place, rfl⟩
  | cons c blank ih =>
    have hblank : Blank blank := fun c hc => h c (List.mem_cons_of_mem _ hc)
    obtain ⟨next, hnext⟩ := ih hblank (place.after c)
    refine ⟨next, ?_⟩
    rw [List.cons_append, tokensFrom_space (h c (List.mem_cons_self ..)), hnext]

theorem tokensFrom_lexeme {token : Token} {w : Text} (h : Lexeme token w) (place : Place)
    (done : List Located) {rest : Text} (hrest : token.EndsBefore rest) :
    ∃ next, tokensFrom place 0 done (w ++ rest) =
      tokensFrom next 0 (⟨place, token⟩ :: done) rest := by
  obtain ⟨c, tail, rfl, hspace, hlast, hscan⟩ := scanToken_lexeme h place hrest
  obtain ⟨next, hnext⟩ := tokensFrom_skip (place.after c) (⟨place, token⟩ :: done) tail rest
  refine ⟨next, ?_⟩
  rw [List.cons_append, tokensFrom, ← hnext]
  simp only [hspace, hscan, hlast, Bool.false_eq_true, if_false, List.length_cons,
    Nat.add_sub_cancel]

theorem continuesNumber_of_isSpace {c : CodePoint} (h : isSpace c = true) :
    continuesNumber c = false := by
  simp only [isSpace, Bool.or_eq_true, beq_iff_eq] at h
  have hval : c = .ofNat c.val := (CodePoint.ofNat_val c).symm
  rcases h with ((h | h) | h) | h <;> rw [hval, h] <;> rfl

/-- Only a number starts like the rest of one. -/
theorem stops_of_lexeme {token : Token} {w : Text} (h : Lexeme token w)
    (hnumber : token.isNumber = false) : ∀ c ∈ w.head?, continuesNumber c = false := by
  intro c hc
  cases h with
  | number hwritten => cases hnumber
  | _ =>
    obtain rfl := Option.some.inj hc
    rfl

/-- A number does not go on with what is written for tokens that do not start with one. -/
theorem Spaced.endsBefore {token : Token} {ts : List Token} {t : Text} (h : Spaced ts t)
    (hts : (token :: ts).IsChain Apart) : token.EndsBefore t := by
  unfold Token.EndsBefore
  split
  · next n =>
    intro c hc
    cases h with
    | done hblank => exact continuesNumber_of_isSpace (hblank c (List.mem_of_mem_head? hc))
    | @next blank w rest token ts hblank hlexeme hrest =>
      cases blank with
      | cons space blank =>
        obtain rfl := Option.some.inj hc
        exact continuesNumber_of_isSpace (hblank _ (List.mem_cons_self ..))
      | nil =>
        -- nothing stands between, so the next token must be no number
        have happart := (List.isChain_cons_cons.mp hts).1
        have hnumber : token.isNumber = false := happart.resolve_left Bool.noConfusion
        rw [List.nil_append, List.head?_append_of_ne_nil _ hlexeme.ne_nil] at hc
        exact stops_of_lexeme hlexeme hnumber c hc
  · trivial

/-- Written tokens are read back, with the end of the text behind them. -/
theorem tokensFrom_spaced {ts : List Token} {t : Text} (h : Spaced ts t)
    (hts : ts.IsChain Apart) (place : Place) (done : List Located) :
    (tokensFrom place 0 done t).map Located.token =
      done.reverse.map Located.token ++ ts ++ [.endOfText] := by
  induction h generalizing place done with
  | @done blank hblank =>
    obtain ⟨next, hnext⟩ := tokensFrom_blank hblank place done []
    rw [List.append_nil] at hnext
    rw [hnext, tokensFrom]
    simp
  | @next blank w rest token ts hblank hlexeme hrest ih =>
    -- past the blank, then past the token, which ends before the rest
    obtain ⟨start, hstart⟩ := tokensFrom_blank hblank place done (w ++ rest)
    obtain ⟨next, hnext⟩ := tokensFrom_lexeme hlexeme start done (hrest.endsBefore hts)
    rw [hstart, hnext, ih hts.tail]
    simp

/-! ## Section 2: What is read is written -/

theorem Spaced.blank_append {ts : List Token} {blank t : Text} (hblank : Blank blank)
    (h : Spaced ts t) : Spaced ts (blank ++ t) := by
  cases h with
  | done hrest =>
    refine .done fun c hc => ?_
    rcases List.mem_append.mp hc with hc | hc
    · exact hblank c hc
    · exact hrest c hc
  | next hrest hlexeme hnext =>
    rw [← List.append_assoc]
    refine .next (fun c hc => ?_) hlexeme hnext
    rcases List.mem_append.mp hc with hc | hc
    · exact hblank c hc
    · exact hrest c hc

/-- What reading leaves: tokens, and a last one.  If that is the end of the text, then the tokens
    are written in the text. -/
theorem tokensFrom_spec (t : Text) (place : Place) (done : List Located) :
    ∃ ts last, (tokensFrom place 0 done t).map Located.token =
        done.reverse.map Located.token ++ ts ++ [last] ∧
      (∀ token ∈ ts, token.isLast = false) ∧ last.isLast = true ∧
      (last = .endOfText → Spaced ts t) := by
  induction hn : t.length using Nat.strongRecOn generalizing t place done with
  | ind n ih =>
    -- on the length, because a token takes many code points at once
    subst hn
    cases t with
    | nil =>
      refine ⟨[], .endOfText, by simp [tokensFrom], by simp, rfl, fun _ => .done ?_⟩
      exact fun c hc => absurd hc List.not_mem_nil
    | cons c rest =>
      by_cases hspace : isSpace c = true
      · -- a blank
        obtain ⟨ts, last, hmap, hts, hlast, hspaced⟩ :=
          ih rest.length (Nat.lt_succ_self _) rest (place.after c) done rfl
        rw [tokensFrom_space hspace]
        have hblank : Blank [c] := fun d hd => List.mem_singleton.mp hd ▸ hspace
        exact ⟨ts, last, hmap, hts, hlast, fun hend => (hspaced hend).blank_append hblank⟩
      obtain ⟨token, size, hscan⟩ : ∃ token size, scanToken place c rest = (token, size) :=
        ⟨_, _, rfl⟩
      rw [tokensFrom]
      simp only [hspace, hscan, Bool.false_eq_true, if_false]
      cases hlast : token.isLast with
      | true =>
        -- what stops the reading
        refine ⟨[], token, by simp, by simp, hlast, fun hend => ?_⟩
        have hne := scanToken_ne_endOfText place c rest
        rw [hscan] at hne
        exact absurd hend hne
      | false =>
        -- a token: the reading goes on behind it
        obtain ⟨w, after, hsplit, hsize, hlexeme⟩ := lexeme_of_scanToken hscan hlast
        obtain ⟨d, tail, rfl⟩ : ∃ d tail, w = d :: tail :=
          List.exists_cons_of_ne_nil hlexeme.ne_nil
        obtain ⟨rfl, rfl⟩ : c = d ∧ rest = tail ++ after := List.cons.inj hsplit
        subst hsize
        obtain ⟨next, hnext⟩ := tokensFrom_skip (place.after c) (⟨place, token⟩ :: done) tail after
        have hlength : after.length < (c :: (tail ++ after)).length := by
          rw [List.length_cons, List.length_append]
          omega
        obtain ⟨ts, last, hmap, hts, hfinal, hspaced⟩ :=
          ih after.length hlength after next (⟨place, token⟩ :: done) rfl
        refine ⟨token :: ts, last, ?_, ?_, hfinal, fun hend => ?_⟩
        · rw [if_neg Bool.false_ne_true, List.length_cons, Nat.add_sub_cancel, hnext, hmap]
          simp
        · exact List.forall_mem_cons.mpr ⟨hlast, hts⟩
        · have hnil : Blank [] := fun c hc => absurd hc List.not_mem_nil
          exact .next hnil hlexeme (hspaced hend)

/-! ## Section 3: The tokens of a tree -/

theorem isChain_delimited (ts : List Token) {us : List Token} {delimiter : Token}
    (hdelimiter : delimiter.isNumber = false) (hts : ts.IsChain Apart) (hus : us.IsChain Apart) :
    (ts ++ delimiter :: us).IsChain Apart := by
  rw [List.isChain_append]
  refine ⟨hts, ?_, fun x _ y hy => ?_⟩
  · rw [List.isChain_cons]
    exact ⟨fun y _ => .inl hdelimiter, hus⟩
  · obtain rfl := Option.some.inj hy
    exact .inr hdelimiter

theorem isChain_joinTokens {rows : List (List Token)} (h : ∀ row ∈ rows, row.IsChain Apart) :
    (joinTokens rows).IsChain Apart := by
  cases rows with
  | nil => exact .nil
  | cons row rows =>
    rw [joinTokens]
    induction rows generalizing row with
    | nil =>
      rw [List.flatMap_nil, List.append_nil]
      exact h row (List.mem_cons_self ..)
    | cons next rows ih =>
      obtain ⟨hrow, hrows⟩ := List.forall_mem_cons.mp h
      exact isChain_delimited row rfl hrow (ih next hrows)

/-- No two numbers stand in a row. -/
theorem Tree.tokens_isChain (d : Tree) : d.tokens.IsChain Apart := by
  induction d using Tree.induction with
  | arr items ih =>
    have hrows : ∀ row ∈ itemTokens items, row.IsChain Apart := by
      rw [itemTokens_eq_map]
      exact List.forall_mem_map.mpr ih
    exact isChain_delimited [] rfl .nil
      (isChain_delimited _ rfl (isChain_joinTokens hrows) .nil)
  | obj members ih =>
    have hrows : ∀ row ∈ memberTokens members, row.IsChain Apart := by
      rw [memberTokens_eq_map]
      refine List.forall_mem_map.mpr fun m hm => ?_
      exact isChain_delimited [.str m.1] rfl (.singleton _) (ih m hm)
    exact isChain_delimited [] rfl .nil
      (isChain_delimited _ rfl (isChain_joinTokens hrows) .nil)
  | _ => exact .singleton _

theorem forall_mem_joinTokens {p : Token → Prop} {rows : List (List Token)}
    (hcomma : p .comma) (h : ∀ row ∈ rows, ∀ token ∈ row, p token) :
    ∀ token ∈ joinTokens rows, p token := by
  cases rows with
  | nil => exact fun token htoken => absurd htoken List.not_mem_nil
  | cons row rows =>
    obtain ⟨hrow, hrows⟩ := List.forall_mem_cons.mp h
    intro token htoken
    rcases List.mem_append.mp htoken with htoken | htoken
    · exact hrow token htoken
    · obtain ⟨next, hnext, htoken⟩ := List.mem_flatMap.mp htoken
      rcases List.mem_cons.mp htoken with rfl | htoken
      · exact hcomma
      · exact hrows next hnext token htoken

/-- No token of a tree stops the reading. -/
theorem Tree.isLast_of_mem_tokens (d : Tree) : ∀ token ∈ d.tokens, token.isLast = false := by
  induction d using Tree.induction with
  | arr items ih =>
    have hrows : ∀ row ∈ itemTokens items, ∀ token ∈ row, token.isLast = false := by
      rw [itemTokens_eq_map]
      exact List.forall_mem_map.mpr ih
    have hinner := forall_mem_joinTokens (p := (·.isLast = false)) rfl hrows
    rw [tokens, List.forall_mem_append, List.forall_mem_cons, List.forall_mem_singleton]
    exact ⟨⟨rfl, hinner⟩, rfl⟩
  | obj members ih =>
    have hrows : ∀ row ∈ memberTokens members, ∀ token ∈ row, token.isLast = false := by
      rw [memberTokens_eq_map]
      refine List.forall_mem_map.mpr fun m hm => ?_
      rw [List.forall_mem_cons, List.forall_mem_cons]
      exact ⟨rfl, rfl, ih m hm⟩
    have hinner := forall_mem_joinTokens (p := (·.isLast = false)) rfl hrows
    rw [tokens, List.forall_mem_append, List.forall_mem_cons, List.forall_mem_singleton]
    exact ⟨⟨rfl, hinner⟩, rfl⟩
  | _ =>
    rw [tokens, List.forall_mem_singleton]
    rfl

/-! ## Section 4: Values -/

variable {rules : Rules}

/-- A text is written for a tree exactly if the tokens of the tree are read from it. -/
theorem written_iff {t : Text} {d : Tree} :
    Written t d ↔ (tokens t).map Located.token = d.tokens ++ [.endOfText] := by
  constructor
  · intro h
    exact tokensFrom_spaced h d.tokens_isChain .start []
  · intro h
    obtain ⟨ts, last, hspec, -, -, hspaced⟩ := tokensFrom_spec t .start []
    obtain ⟨hts, hlast⟩ := List.append_inj' (hspec.symm.trans h) rfl
    obtain rfl : ts = d.tokens := hts
    exact hspaced (List.singleton_inj.mp hlast)

/-- Whether a text is written for a tree can be computed. -/
instance (t : Text) (d : Tree) : Decidable (Written t d) := decidable_of_iff _ written_iff.symm

/-- A text that is written for a tree has the value of the tree, or its error. -/
theorem readText_of_written {t : Text} {d : Tree} (h : Written t d) :
    readText rules t = d.eval rules 0 :=
  readTokens_of_tokens (written_iff.mp h)

/-- A text with a value is written for a tree of that value. -/
theorem written_of_readText {t : Text} {v : Value} (h : readText rules t = .ok v) :
    ∃ d, Written t d ∧ d.eval rules 0 = .ok v := by
  obtain ⟨d, ends, hmap, hends, hd⟩ := tokens_of_readTokens h
  obtain ⟨ts, last, hspec, hts, hlast, hspaced⟩ := tokensFrom_spec t .start []
  have heq : d.tokens ++ ends = ts ++ [last] := hmap.symm.trans hspec
  rcases List.eq_nil_or_concat ends with rfl | ⟨before, final, rfl⟩
  · -- the last token cannot be one of the tree
    rw [List.append_nil] at heq
    have hmem : last ∈ d.tokens := heq ▸ List.mem_append_right _ (List.mem_singleton_self last)
    rw [d.isLast_of_mem_tokens last hmem] at hlast
    cases hlast
  · -- the ends can be no more than the last token, because those before it stop no reading
    rw [List.concat_eq_append, ← List.append_assoc] at heq
    obtain ⟨htree, hfinal⟩ := List.append_inj' heq rfl
    obtain rfl := List.singleton_inj.mp hfinal
    have hend : final = .endOfText := hends final (by simp)
    have hbefore : before = [] := by
      refine List.eq_nil_iff_forall_not_mem.mpr fun token htoken => ?_
      have hmem : token ∈ ts := htree ▸ List.mem_append_right _ htoken
      have hlast := hts token hmem
      rw [hends token (by simp [htoken])] at hlast
      cases hlast
    rw [hbefore, List.append_nil] at htree
    have hwritten := hspaced hend
    rw [← htree] at hwritten
    exact ⟨d, hwritten, hd⟩

theorem Lexeme.head_lt {token : Token} {w : Text} (h : Lexeme token w) :
    ∀ c ∈ w.head?, c.val < 0x80 := by
  intro c hc
  cases h with
  | number hwritten =>
    obtain ⟨first, rest, rfl, hfirst, -⟩ := hwritten.head
    obtain rfl := Option.some.inj hc
    rcases hfirst with hdigit | rfl
    · simp only [CodePoint.isDigit, Bool.and_eq_true, decide_eq_true_eq] at hdigit
      omega
    · decide
  | _ =>
    obtain rfl := Option.some.inj hc
    decide

/-- A written text starts with an ASCII code point, so with no byte-order mark. -/
theorem Spaced.head_lt {ts : List Token} {t : Text} (h : Spaced ts t) :
    ∀ c ∈ t.head?, c.val < 0x80 := by
  have hspace (c : CodePoint) (hc : isSpace c = true) : c.val < 0x80 := by
    simp only [isSpace, Bool.or_eq_true, beq_iff_eq] at hc
    omega
  intro c hc
  cases h with
  | done hblank => exact hspace c (hblank c (List.mem_of_mem_head? hc))
  | @next blank w rest token ts hblank hlexeme hrest =>
    cases blank with
    | cons space blank =>
      obtain rfl := Option.some.inj hc
      exact hspace _ (hblank _ (List.mem_cons_self ..))
    | nil =>
      rw [List.nil_append, List.head?_append_of_ne_nil _ hlexeme.ne_nil] at hc
      exact hlexeme.head_lt c hc

theorem read_of_written {t : Text} {d : Tree} (h : Written t d) :
    read rules (.text t) = d.eval rules 0 := by
  rw [← readText_of_written h]
  have hhead := h.head_lt
  cases t with
  | nil => rfl
  | cons c t =>
    have hmark : ¬ c.val = 0xFEFF := by
      have hc := hhead c rfl
      omega
    exact if_neg hmark

theorem written_of_read {t : Text} {v : Value} (h : read rules (.text t) = .ok v) :
    ∃ d, Written t d ∧ d.eval rules 0 = .ok v := by
  refine written_of_readText ?_
  cases t with
  | nil => exact h
  | cons c t =>
    simp only [read] at h
    split at h
    · cases h
    · exact h

end SignedEvents.Json
