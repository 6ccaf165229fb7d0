import Deltabase.Lib.Program
import Deltabase.Sql.LexerProgress

/-!
# The lexemes of a query

A query that is lexed is a row of **segments**, each of them a whitespace character
or the lexeme of one token (`segments_of_lexed`). What kind of token a lexeme
stands for, and with which value, can be read off the lexeme alone
(`Lexeme.unique`); the line and the position of the token follow from the
segments in front of it. Neither takes account of a line break in a quoted text.
-/

namespace Sql

namespace Lexer

/-! ## Lexemes -/

/-- The bytes of a word. -/
def isWordByte (c : UInt8) : Bool := isLetter c || isDigit c || c = 95

/-- **The lexeme of a token**, with the value and the detail of the token. -/
inductive Lexeme : Bytes → Bytes → SqlTokenDetail → Prop
  | word {c : UInt8} {str : Bytes} (hc : isAlpha c) (hstr : ∀ b ∈ str, isWordByte b) :
      Lexeme (c :: str) (toLower (c :: str)) (wordDetail (toLower (c :: str)))
  | string {str : Bytes} (hstr : 39 ∉ str) : Lexeme (39 :: (str ++ [39])) str (.literal .string)
  | quotedIdentifier {str : Bytes} (hstr : 34 ∉ str) :
      Lexeme (34 :: (str ++ [34])) str .identifier
  | integer {str : Bytes} (hne : str ≠ []) (hstr : ∀ b ∈ str, isDigit b) :
      Lexeme str str (.literal .integer)
  | real {whole part : Bytes} (hne : whole ≠ []) (hwhole : ∀ b ∈ whole, isDigit b)
      (hpart : ∀ b ∈ part, isDigit b) :
      Lexeme (whole ++ 46 :: part) (whole ++ 46 :: part) (.literal .real)
  | operator {c : UInt8} {str : Bytes} {op : SqlOperator} (hc : isOperatorByte c)
      (hop : operatorsMap.lookup (c :: str) = some op) :
      Lexeme (c :: str) (c :: str) (.operator op)
  | symbol {c : UInt8} {sym : SqlSymbol} (hsym : symbolsMap.lookup [c] = some sym) :
      Lexeme [c] [c] (.symbol sym)

/-- **The segments of a query** from a line and a position on, and its tokens. -/
inductive Segments : ℕ → ℕ → List Bytes → List SqlToken → Prop
  | nil {line pos : ℕ} : Segments line pos [] []
  | newline {line pos : ℕ} {segments : List Bytes} {tokens : List SqlToken}
      (h : Segments (line + 1) 0 segments tokens) : Segments line pos ([10] :: segments) tokens
  | space {line pos : ℕ} {c : UInt8} {segments : List Bytes} {tokens : List SqlToken}
      (hc : isSpace c) (hne : c ≠ 10) (h : Segments line (pos + 1) segments tokens) :
      Segments line pos ([c] :: segments) tokens
  | lexeme {line pos : ℕ} {str value : Bytes} {detail : SqlTokenDetail} {segments : List Bytes}
      {tokens : List SqlToken} (hstr : Lexeme str value detail)
      (h : Segments line (pos + str.length) segments tokens) :
      Segments line pos (str :: segments) ({ value, line, pos, detail } :: tokens)

/-! ## Numbers -/

/-- The bytes of a number behind its dot are digits. -/
theorem digit_of_take_number_true {str : Bytes} :
    ∀ b ∈ str.take (getNumberLength true str), isDigit b := by
  induction str with
  | nil => exact fun b hb => absurd hb List.not_mem_nil
  | cons c str ih =>
    rw [getNumberLength]
    by_cases hdigit : isDigit c = true
    · rw [if_pos hdigit, List.take_succ_cons]
      exact List.forall_mem_cons.mpr ⟨hdigit, ih⟩
    · rw [if_neg hdigit, Bool.not_true, Bool.false_and, if_neg Bool.false_ne_true, List.take_zero]
      exact fun b hb => absurd hb List.not_mem_nil

/-- **A number** is made of digits, or of digits, a dot and digits. -/
theorem take_number_false (str : Bytes) :
    (∀ b ∈ str.take (getNumberLength false str), isDigit b)
      ∨ ∃ whole part, str.take (getNumberLength false str) = whole ++ 46 :: part
        ∧ (∀ b ∈ whole, isDigit b) ∧ ∀ b ∈ part, isDigit b := by
  induction str with
  | nil => exact .inl fun b hb => absurd hb List.not_mem_nil
  | cons c str ih =>
    rw [getNumberLength]
    by_cases hdigit : isDigit c = true
    · rw [if_pos hdigit, List.take_succ_cons]
      rcases ih with hall | ⟨whole, part, heq, hwhole, hpart⟩
      · exact .inl (List.forall_mem_cons.mpr ⟨hdigit, hall⟩)
      · refine .inr ⟨c :: whole, part, ?_, List.forall_mem_cons.mpr ⟨hdigit, hwhole⟩, hpart⟩
        rw [heq, List.cons_append]
    · rw [if_neg hdigit, Bool.not_false, Bool.true_and]
      by_cases hdot : c = 46
      · rw [if_pos (decide_eq_true hdot), List.take_succ_cons, hdot]
        exact .inr ⟨[], _, rfl, fun b hb => absurd hb List.not_mem_nil, digit_of_take_number_true⟩
      · rw [if_neg (by simpa using hdot), List.take_zero]
        exact .inl fun b hb => absurd hb List.not_mem_nil

theorem digit_ne : ∀ {c : UInt8}, isDigit c → c ≠ 46 ∧ c ≠ 101 ∧ c ≠ 69 := by
  intro c hc
  refine ⟨?_, ?_, ?_⟩ <;> (rintro rfl; cases hc)

/-- Digits are an integer. -/
theorem numberDetail_digits {str : Bytes} (hstr : ∀ b ∈ str, isDigit b) :
    numberDetail str = .literal .integer := by
  refine if_neg fun h => ?_
  simp only [Bool.or_eq_true, List.contains_iff_mem] at h
  rcases h with (h | h) | h
  · exact (digit_ne (hstr _ h)).1 rfl
  · exact (digit_ne (hstr _ h)).2.1 rfl
  · exact (digit_ne (hstr _ h)).2.2 rfl

/-- What has a dot is a real. -/
theorem numberDetail_dot (whole part : Bytes) :
    numberDetail (whole ++ 46 :: part) = .literal .real := by
  refine if_pos ?_
  simp only [Bool.or_eq_true, List.contains_iff_mem]
  exact .inl (.inl (List.mem_append_right whole List.mem_cons_self))

/-- The lexeme of a number. -/
theorem lexeme_number {c : UInt8} {str : Bytes} (hc : isDigit c) :
    Lexeme ((c :: str).take (getNumberLength false (c :: str)))
      ((c :: str).take (getNumberLength false (c :: str)))
      (numberDetail ((c :: str).take (getNumberLength false (c :: str)))) := by
  have hhead : ∃ rest, (c :: str).take (getNumberLength false (c :: str)) = c :: rest := by
    rw [getNumberLength, if_pos hc, List.take_succ_cons]
    exact ⟨_, rfl⟩
  obtain ⟨rest, hrest⟩ := hhead
  rcases take_number_false (c :: str) with hall | ⟨whole, part, heq, hwhole, hpart⟩
  · rw [hrest] at hall ⊢
    rw [numberDetail_digits hall]
    exact .integer (List.cons_ne_nil c rest) hall
  · rw [heq, numberDetail_dot]
    refine .real ?_ hwhole hpart
    rintro rfl
    rw [hrest, List.nil_append] at heq
    exact (digit_ne hc).1 (List.cons.inj heq).1

/-! ## Lexemes determine tokens -/

/-- **The value and the detail of a lexeme.** -/
def lexemeToken : Bytes → Bytes × SqlTokenDetail
  | [] => ([], .unknown)
  | c :: str =>
    if isAlpha c then (toLower (c :: str), wordDetail (toLower (c :: str)))
    else if c = 39 then (str.dropLast, .literal .string)
    else if c = 34 then (str.dropLast, .identifier)
    else if isDigit c then (c :: str, numberDetail (c :: str))
    else match operatorsMap.lookup (c :: str), symbolsMap.lookup (c :: str) with
      | some op, _ => (c :: str, .operator op)
      | none, some sym => (c :: str, .symbol sym)
      | none, none => (c :: str, .unknown)

theorem digit_excludes (c : UInt8) (hc : isDigit c) : isAlpha c = false ∧ c ≠ 39 ∧ c ≠ 34 := by
  simp only [isDigit, isAlpha, isLetter, Bool.and_eq_true, decide_eq_true_eq,
    Bool.or_eq_false_iff, Bool.and_eq_false_iff, decide_eq_false_iff_not] at *
  grind

theorem operator_excludes_word (c : UInt8) (hc : isOperatorByte c) :
    isAlpha c = false ∧ isDigit c = false ∧ c ≠ 39 ∧ c ≠ 34 :=
  isOperatorByte.forall
    (P := fun c => isAlpha c = false ∧ isDigit c = false ∧ c ≠ 39 ∧ c ≠ 34) hc (by decide)

theorem symbol_excludes {c : UInt8} {sym : SqlSymbol} (h : symbolsMap.lookup [c] = some sym) :
    isAlpha c = false ∧ isDigit c = false ∧ c ≠ 39 ∧ c ≠ 34 ∧ operatorsMap.lookup [c] = none := by
  have hc : isSymbolByte c = true := by
    rw [← lookup_symbolsMap c, h]
    rfl
  simp only [isSymbolByte, Bool.or_eq_true, decide_eq_true_eq] at hc
  rw [operatorsMap_eq]
  rcases hc with (((rfl | rfl) | rfl) | rfl) | rfl <;> decide

/-- What starts with a digit is read as a number. -/
theorem lexemeToken_number {c : UInt8} {str : Bytes} (hc : isDigit c) :
    lexemeToken (c :: str) = (c :: str, numberDetail (c :: str)) := by
  obtain ⟨halpha, hquote, hdouble⟩ := digit_excludes c hc
  rw [lexemeToken, if_neg (Bool.eq_false_iff.mp halpha), if_neg hquote, if_neg hdouble, if_pos hc]

/-- **The token of a lexeme** can be read off it. -/
theorem Lexeme.token {str value : Bytes} {detail : SqlTokenDetail} (h : Lexeme str value detail) :
    lexemeToken str = (value, detail) := by
  cases h with
  | word hc _ => rw [lexemeToken, if_pos hc]
  | string _ =>
    rw [lexemeToken, if_neg (by decide), if_pos rfl, List.dropLast_concat]
  | quotedIdentifier _ =>
    rw [lexemeToken, if_neg (by decide), if_neg (by decide), if_pos rfl, List.dropLast_concat]
  | integer hne hstr =>
    cases str with
    | nil => exact absurd rfl hne
    | cons c str =>
      rw [lexemeToken_number (hstr c List.mem_cons_self), numberDetail_digits hstr]
  | @real whole part hne hwhole _ =>
    cases whole with
    | nil => exact absurd rfl hne
    | cons c whole =>
      rw [List.cons_append, lexemeToken_number (hwhole c List.mem_cons_self), ← List.cons_append,
        numberDetail_dot]
  | @operator c str op hc hop =>
    obtain ⟨halpha, hdigit, hquote, hdouble⟩ := operator_excludes_word c hc
    rw [lexemeToken, if_neg (Bool.eq_false_iff.mp halpha), if_neg hquote, if_neg hdouble,
      if_neg (Bool.eq_false_iff.mp hdigit), hop]
  | @symbol c sym hsym =>
    obtain ⟨halpha, hdigit, hquote, hdouble, hnone⟩ := symbol_excludes hsym
    rw [lexemeToken, if_neg (Bool.eq_false_iff.mp halpha), if_neg hquote, if_neg hdouble,
      if_neg (Bool.eq_false_iff.mp hdigit), hnone, hsym]

/-- **A lexeme is that of one token only.** -/
theorem Lexeme.unique {str value value' : Bytes} {detail detail' : SqlTokenDetail}
    (h : Lexeme str value detail) (h' : Lexeme str value' detail') :
    value = value' ∧ detail = detail' :=
  Prod.mk.inj (h.token.symm.trans h'.token)

/-! ## Every round of the loop reads a segment -/

/-- **A round of the loop that moves on** reads a segment off the query. -/
inductive ReadsSegment (line pos : ℕ) (query : Bytes) : Iteration → Prop
  | newline {rest : Bytes} (hquery : query = 10 :: rest) :
      ReadsSegment line pos query { consumed := 1, line := line + 1, pos := 0 }
  | space {c : UInt8} {rest : Bytes} (hquery : query = c :: rest) (hc : isSpace c) (hne : c ≠ 10) :
      ReadsSegment line pos query { consumed := 1, line, pos := pos + 1 }
  | lexeme {str rest value : Bytes} {detail : SqlTokenDetail} (hquery : query = str ++ rest)
      (hstr : Lexeme str value detail) :
      ReadsSegment line pos query (.ofToken value detail str.length line pos)

section

variable {c : UInt8} {str : Bytes} {line pos : ℕ} {round : Iteration}

theorem readsSegment_quoted {detail : SqlTokenDetail} {error : LexError}
    (hdetail : ∀ word : Bytes, c ∉ word → Lexeme (c :: (word ++ [c])) word detail)
    (h : quoted c detail error str line pos = .ok round) :
    ReadsSegment line pos (c :: str) round := by
  unfold quoted at h
  split_ifs at h with hclosed
  obtain ⟨word, rest, rfl, hword⟩ :=
    List.eq_append_cons_of_mem (List.contains_iff_mem.mp hclosed)
  rw [takeWhile_quote hword] at h
  obtain rfl := Except.ok.inj h
  have hlength : word.length + 2 = (c :: (word ++ [c])).length := by simp
  rw [hlength]
  have hsplit : c :: (word ++ c :: rest) = c :: (word ++ [c]) ++ rest := by simp
  exact .lexeme hsplit (hdetail word hword)

/-- An operator that is found is in the dictionary, and starts what is left. -/
theorem findOperator_spec (hc : isOperatorByte c) {n : ℕ} {op : Bytes × SqlOperator}
    (h : findOperator (c :: str) n = some op) :
    ∃ word rest, str = word ++ rest ∧ op.1 = c :: word
      ∧ operatorsMap.lookup (c :: word) = some op.2 := by
  induction n with
  | zero => cases h
  | succ n ih =>
    rw [findOperator] at h
    split_ifs at h with hlength
    dsimp only at h
    cases hlookup : operatorsMap.lookup (toLower ((c :: str).take (n + 1))) with
    | none =>
      rw [hlookup] at h
      exact ih h
    | some found =>
      rw [hlookup] at h
      obtain rfl := Option.some.inj h
      have hcons : toLower ((c :: str).take (n + 1)) = c :: toLower (str.take n) := by
        rw [List.take_succ_cons]
        exact congrArg (· :: toLower (str.take n)) (toLowerByte_operatorByte c hc)
      rw [hcons] at hlookup
      -- what is behind an operator byte in the dictionary is the same in lower case
      have hlower : toLower (str.take n) = str.take n := by
        by_contra hne
        by_cases hnil : toLower (str.take n) = []
        · rw [hnil] at hne
          exact hne (List.map_eq_nil_iff.mp hnil).symm
        · by_cases hassign : toLower (str.take n) = [61]
          · have htake : ∃ d, str.take n = [d] ∧ toLowerByte d = 61 := by
              obtain ⟨d, rest, hd, hbyte, hrest⟩ := List.map_eq_cons_iff.mp hassign
              rw [List.map_eq_nil_iff] at hrest
              exact ⟨d, hrest ▸ hd, hbyte⟩
            obtain ⟨d, hd, hbyte⟩ := htake
            obtain rfl := (toLowerByte_eq_assign d).mp hbyte
            rw [hassign, hd] at hne
            exact hne rfl
          · rw [lookup_operatorsMap_eq_none hc hnil hassign] at hlookup
            cases hlookup
      rw [hlower] at hlookup
      refine ⟨str.take n, str.drop n, (List.take_append_drop n str).symm, ?_, hlookup⟩
      rw [hcons, hlower]

/-- **Every round** that moves on reads a segment. -/
theorem readsSegment_iterate (h : iterate c str line pos = .ok round)
    (hmoves : 1 ≤ round.consumed) : ReadsSegment line pos (c :: str) round := by
  unfold iterate at h
  by_cases hspace : isSpace c = true
  · rw [if_pos hspace] at h
    split_ifs at h with hnewline
    · obtain rfl := Except.ok.inj h
      exact .newline (congrArg (· :: str) hnewline)
    · obtain rfl := Except.ok.inj h
      exact .space rfl hspace hnewline
  rw [if_neg hspace] at h
  by_cases halpha : isAlpha c = true
  · rw [if_pos halpha] at h
    obtain rfl := Except.ok.inj h
    have htake : (c :: str).take (getWordLength (c :: str))
        = (c :: str).takeWhile isWordByte :=
      (List.prefix_iff_eq_take.mp (List.takeWhile_prefix _)).symm
    have hword : (c :: str).takeWhile isWordByte = c :: str.takeWhile isWordByte :=
      List.takeWhile_cons_of_pos (wordByte_of_alpha c halpha)
    rw [length_toLower, htake, hword]
    have hsplit : c :: str = c :: str.takeWhile isWordByte ++ str.dropWhile isWordByte := by
      rw [List.cons_append, List.takeWhile_append_dropWhile]
    exact .lexeme hsplit (.word halpha fun b hb => List.all_eq_true.mp List.all_takeWhile b hb)
  rw [if_neg halpha] at h
  by_cases hquote : c = 39
  · subst hquote
    exact readsSegment_quoted (fun _ => .string) h
  rw [if_neg hquote] at h
  by_cases hdouble : c = 34
  · subst hdouble
    exact readsSegment_quoted (fun _ => .quotedIdentifier) h
  rw [if_neg hdouble] at h
  by_cases hdigit : isDigit c = true
  · rw [if_pos hdigit] at h
    obtain rfl := Except.ok.inj h
    exact .lexeme (List.take_append_drop _ _).symm (lexeme_number hdigit)
  rw [if_neg hdigit, startsAsOperator_eq c (Bool.eq_false_iff.mpr halpha)] at h
  by_cases hop : isOperatorByte c = true
  · rw [if_pos hop] at h
    cases hfound : findOperator (c :: str) 3 with
    | none =>
      rw [hfound] at h
      cases h
    | some op =>
      rw [hfound] at h
      obtain rfl := Except.ok.inj h
      obtain ⟨word, rest, rfl, hword, hlookup⟩ := findOperator_spec hop hfound
      rw [hword]
      exact .lexeme rfl (.operator hop hlookup)
  rw [if_neg hop] at h
  cases hsymbol : symbolsMap.lookup [c] with
  | some sym =>
    rw [hsymbol] at h
    obtain rfl := Except.ok.inj h
    have hsplit : c :: str = [c] ++ str := rfl
    exact .lexeme hsplit (.symbol hsymbol)
  | none =>
    rw [hsymbol] at h
    dsimp only at h
    split_ifs at h with hperiod
    · -- the period is among the symbols
      rw [hperiod, symbolsMap_eq] at hsymbol
      cases hsymbol
    · obtain rfl := Except.ok.inj h
      exact absurd hmoves (Nat.not_succ_le_zero 0)

end

/-! ## The whole query -/

/-- **What is lexed consists of segments**, from every line and position on. -/
theorem segments_of_lexLoop {fuel : ℕ} : ∀ {query : Bytes} {line pos : ℕ} {tokens : List SqlToken},
    lexLoop fuel query line pos = .ok tokens →
      ∃ segments : List Bytes, query = segments.flatten ∧ Segments line pos segments tokens := by
  induction fuel with
  | zero => exact fun h => nomatch h
  | succ fuel ih =>
    intro query line pos tokens h
    cases query with
    | nil =>
      obtain rfl := Except.ok.inj h
      exact ⟨[], rfl, .nil⟩
    | cons c str =>
      rw [lexLoop] at h
      obtain ⟨round, hround, h⟩ := bind_eq_ok.mp h
      obtain ⟨rest, hrest, h⟩ := bind_eq_ok.mp h
      obtain rfl := Except.ok.inj h
      rcases round_iterate c str line pos with ⟨e, herror, -⟩ | ⟨round', hround', hmoves, -⟩ |
        ⟨-, hstays⟩
      · rw [herror] at hround
        cases hround
      · obtain rfl := Except.ok.inj (hround'.symm.trans hround)
        obtain ⟨segments, hflatten, hsegments⟩ := ih hrest
        cases readsSegment_iterate hround hmoves with
        | newline hquery =>
          rw [hquery] at hflatten ⊢
          exact ⟨[10] :: segments, congrArg _ hflatten, .newline hsegments⟩
        | space hquery hc hne =>
          rw [hquery] at hflatten ⊢
          exact ⟨[_] :: segments, congrArg _ hflatten, .space hc hne hsegments⟩
        | @lexeme word tail value detail hquery hword =>
          have hdrop : (c :: str).drop word.length = tail := by
            rw [hquery, List.drop_left]
          have hflatten : tail = segments.flatten := hdrop ▸ hflatten
          refine ⟨word :: segments, ?_, .lexeme hword hsegments⟩
          rw [hquery, hflatten, List.flatten_cons]
      · -- the round stays where it is and adds nothing
        obtain rfl := Except.ok.inj (hstays.symm.trans hround)
        exact ih hrest

/-- **A query that is lexed** splits into whitespace characters and the lexemes of
its tokens, in order. -/
theorem segments_of_lexed {query : Bytes} {tokens : List SqlToken} (h : Lexed query tokens) :
    ∃ segments : List Bytes, query = segments.flatten ∧ Segments 1 0 segments tokens := by
  obtain ⟨fuel, h⟩ := h
  exact segments_of_lexLoop h

/-- `t.a1 >= 'x y'`, with a line break behind the dot. -/
theorem segments_of_lexed_comparison :
    ∃ segments : List Bytes, key "t.\na1 >= 'x y'" = segments.flatten
      ∧ Segments 1 0 segments
        [⟨key "t", 1, 0, .identifier⟩, ⟨key ".", 1, 1, .symbol .period⟩,
          ⟨key "a1", 2, 0, .identifier⟩, ⟨key ">=", 2, 3, .operator .gre⟩,
          ⟨key "x y", 2, 6, .literal .string⟩] :=
  segments_of_lexed ⟨20, by decide +kernel⟩

end Lexer

end Sql
