import Deltabase.Sql.Lexemes

/-!
# Queries with the same tokens

Outside of quotes the case of a letter makes no difference to the lexer: words and
operators are looked up in lower case, and that is how they are stored
(`lexed_of_sameLetters`).

Spaces behind a query do make a difference. The lexer looks for an operator only
where three bytes are left, so one that stands at the end of a query is an error,
and is read if there are spaces behind it. The queries of this kind (`CutOff`) are
the only ones (`sameOutcome_append_iff`).
-/

namespace Sql

namespace Lexer

/-! ## The case of letters -/

/-- A query without quotes. -/
def Unquoted (query : Bytes) : Prop := 39 ∉ query ∧ 34 ∉ query

/-- The lower case of a byte belongs to the same kinds of bytes. -/
theorem toLowerByte_kind : ∀ c : UInt8, toLowerByte (toLowerByte c) = toLowerByte c
    ∧ isSpace (toLowerByte c) = isSpace c ∧ isLetter (toLowerByte c) = isLetter c
    ∧ isDigit (toLowerByte c) = isDigit c ∧ (isLetter c = false → toLowerByte c = c) := by
  decide +kernel

/-- A byte that no letter stands for in lower case. -/
theorem toLowerByte_eq_iff {c b : UInt8} (hb : isLetter b = false) :
    toLowerByte c = b ↔ c = b := by
  obtain ⟨-, -, hletter, -, hsame⟩ := toLowerByte_kind c
  constructor
  · rintro rfl
    exact (hsame (hletter ▸ hb)).symm
  · rintro rfl
    exact hsame hb

theorem isWordByte_toLowerByte (c : UInt8) : isWordByte (toLowerByte c) = isWordByte c := by
  obtain ⟨-, -, hletter, hdigit, -⟩ := toLowerByte_kind c
  unfold isWordByte
  rw [hletter, hdigit, decide_eq_decide.mpr (toLowerByte_eq_iff (by decide))]

theorem toLower_toLower (str : Bytes) : toLower (toLower str) = toLower str := by
  unfold toLower
  rw [List.map_map]
  exact List.map_congr_left fun c _ => (toLowerByte_kind c).1

theorem take_toLower (n : ℕ) (str : Bytes) : (toLower str).take n = toLower (str.take n) :=
  List.map_take.symm

theorem getWordLength_toLower (str : Bytes) : getWordLength (toLower str) = getWordLength str := by
  show ((toLower str).takeWhile isWordByte).length = (str.takeWhile isWordByte).length
  unfold toLower
  rw [List.takeWhile_map, List.length_map]
  exact congrArg (fun p => (str.takeWhile p).length) (funext isWordByte_toLowerByte)

theorem getNumberLength_toLower (dotFound : Bool) (str : Bytes) :
    getNumberLength dotFound (toLower str) = getNumberLength dotFound str := by
  induction str generalizing dotFound with
  | nil => rfl
  | cons c str ih =>
    obtain ⟨-, -, -, hdigit, -⟩ := toLowerByte_kind c
    show getNumberLength dotFound (toLowerByte c :: toLower str) = _
    rw [getNumberLength, getNumberLength, hdigit, ih, ih,
      decide_eq_decide.mpr (toLowerByte_eq_iff (by decide))]

/-- The bytes of a number have no case. -/
theorem toLower_number (dotFound : Bool) (str : Bytes) :
    toLower (str.take (getNumberLength dotFound str))
      = str.take (getNumberLength dotFound str) := by
  induction str generalizing dotFound with
  | nil => rfl
  | cons c str ih =>
    rw [getNumberLength]
    split_ifs with hdigit hdot
    · rw [List.take_succ_cons]
      have hletter : isLetter c = false := by
        have halpha := (digit_excludes c hdigit).1
        exact (Bool.or_eq_false_iff.mp halpha).1
      exact congrArg₂ List.cons ((toLowerByte_kind c).2.2.2.2 hletter) (ih dotFound)
    · rw [List.take_succ_cons]
      have hbyte : c = 46 := of_decide_eq_true (Bool.and_eq_true_iff.mp hdot).2
      exact congrArg₂ List.cons (hbyte ▸ rfl) (ih true)
    · rfl

theorem findOperator_toLower (str : Bytes) (n : ℕ) :
    findOperator (toLower str) n = findOperator str n := by
  induction n with
  | zero => rfl
  | succ n ih => rw [findOperator, findOperator, length_toLower, take_toLower, toLower_toLower, ih]

/-- **A round of the loop** does not see the case of the letters in front of it, if
there are no quotes. -/
theorem iterate_toLower {c : UInt8} {str : Bytes} (hquote : c ≠ 39) (hdouble : c ≠ 34)
    (line pos : ℕ) : iterate (toLowerByte c) (toLower str) line pos = iterate c str line pos := by
  obtain ⟨-, hspace, hletter, hdigit, hsame⟩ := toLowerByte_kind c
  have hcons : toLowerByte c :: toLower str = toLower (c :: str) := rfl
  have halpha : isAlpha (toLowerByte c) = isAlpha c := by
    unfold isAlpha
    rw [hletter, decide_eq_decide.mpr (toLowerByte_eq_iff (by decide))]
  unfold iterate
  rw [hspace, halpha, hdigit, hcons, getWordLength_toLower, take_toLower, toLower_toLower,
    getNumberLength_toLower, take_toLower, toLower_number, findOperator_toLower]
  by_cases hword : isAlpha c = true
  · -- no letter is a line break
    have hnewline : c ≠ 10 := by
      rintro rfl
      cases hword
    have hnewline' : toLowerByte c ≠ 10 := fun h => hnewline ((toLowerByte_eq_iff (by decide)).mp h)
    rw [if_pos hword, if_pos hword, if_neg hnewline, if_neg hnewline']
  · have hnot : isLetter c = false :=
      (Bool.or_eq_false_iff.mp (Bool.eq_false_iff.mpr hword)).1
    rw [hsame hnot, if_neg hquote, if_neg hdouble, if_neg hquote, if_neg hdouble]

theorem lexLoop_toLower (fuel : ℕ) : ∀ {query : Bytes}, Unquoted query → ∀ line pos : ℕ,
    lexLoop fuel (toLower query) line pos = lexLoop fuel query line pos := by
  induction fuel with
  | zero => exact fun _ _ _ => rfl
  | succ fuel ih =>
    intro query hquery line pos
    cases query with
    | nil => rfl
    | cons c str =>
      show lexLoop (fuel + 1) (toLowerByte c :: toLower str) line pos = _
      have hquote : c ≠ 39 := fun h => hquery.1 (h ▸ List.mem_cons_self)
      have hdouble : c ≠ 34 := fun h => hquery.2 (h ▸ List.mem_cons_self)
      rw [lexLoop, lexLoop, iterate_toLower hquote hdouble]
      refine congrArg _ (funext fun round => ?_)
      have hdrop : (toLowerByte c :: toLower str).drop round.consumed
          = toLower ((c :: str).drop round.consumed) := by
        unfold toLower
        rw [List.map_drop, List.map_cons]
      have hrest : Unquoted ((c :: str).drop round.consumed) :=
        ⟨fun h => hquery.1 (List.mem_of_mem_drop h), fun h => hquery.2 (List.mem_of_mem_drop h)⟩
      rw [hdrop, ih hrest]

/-- **The case of letters outside quotes makes no difference**: a query that has the
same letters as one that is lexed, in upper or lower case, has the same tokens. -/
theorem lexed_of_sameLetters {query query' : Bytes} {tokens : List SqlToken}
    (hquery : Unquoted query) (hcase : toLower query' = toLower query)
    (h : Lexed query tokens) : Lexed query' tokens := by
  have hunquoted : Unquoted query' := by
    have hmem : ∀ b, isLetter b = false → b ∈ query' → b ∈ query := by
      intro b hb hmem
      have hlower : b ∈ toLower query := by
        rw [← hcase]
        exact List.mem_map.mpr ⟨b, hmem, (toLowerByte_eq_iff hb).mpr rfl⟩
      obtain ⟨c, hc, heq⟩ := List.mem_map.mp hlower
      exact (toLowerByte_eq_iff hb).mp heq ▸ hc
    exact ⟨fun h => hquery.1 (hmem 39 (by decide) h), fun h => hquery.2 (hmem 34 (by decide) h)⟩
  obtain ⟨fuel, h⟩ := h
  refine ⟨fuel, ?_⟩
  unfold lex at h ⊢
  rw [← lexLoop_toLower fuel hunquoted, hcase, lexLoop_toLower fuel hquery, h]

/-- `Select a1>=2` and `SELECT A1>=2`. -/
theorem lexed_of_sameLetters_select :
    Lexed (key "SELECT A1>=2 ")
      [⟨key "select", 1, 0, .keyword .select⟩, ⟨key "a1", 1, 7, .identifier⟩,
        ⟨key ">=", 1, 9, .operator .gre⟩, ⟨key "2", 1, 11, .literal .integer⟩] :=
  have hlexed : Lexed (key "Select a1>=2 ") _ := ⟨20, by decide +kernel⟩
  lexed_of_sameLetters ⟨by decide +kernel, by decide +kernel⟩ (by decide +kernel) hlexed

/-! ## Rounds with spaces behind them -/

section

variable {c d e q : UInt8} {str s : Bytes} {line pos : ℕ}

theorem takeWhile_append_of_neg {p : UInt8 → Bool} (hs : ∀ b ∈ s, p b = false) (str : Bytes) :
    (str ++ s).takeWhile p = str.takeWhile p := by
  induction str with
  | nil =>
    cases s with
    | nil => rfl
    | cons b s =>
      exact List.takeWhile_cons_of_neg (Bool.eq_false_iff.mp (hs b List.mem_cons_self))
  | cons c str ih =>
    rw [List.cons_append, List.takeWhile_cons, List.takeWhile_cons, ih]

/-- A space is no byte of a word, a number or a symbol, and no quote. -/
theorem space_excludes {b : UInt8} (hb : isSpace b) :
    isWordByte b = false ∧ isDigit b = false ∧ b ≠ 46 ∧ b ≠ 39 ∧ b ≠ 34 ∧ b ≠ 61 := by
  have hbyte : b = 32 ∨ b = 9 ∨ b = 10 ∨ b = 11 ∨ b = 12 ∨ b = 13 := by
    unfold isSpace at hb
    grind
  rcases hbyte with rfl | rfl | rfl | rfl | rfl | rfl <;> decide

theorem getWordLength_append (hs : ∀ b ∈ s, isSpace b) (str : Bytes) :
    getWordLength (str ++ s) = getWordLength str :=
  congrArg List.length
    (takeWhile_append_of_neg (fun b hb => (space_excludes (hs b hb)).1) str)

theorem getWordLength_le (str : Bytes) : getWordLength str ≤ str.length :=
  (List.takeWhile_prefix _).length_le

theorem getNumberLength_append (hs : ∀ b ∈ s, isSpace b) (dotFound : Bool) (str : Bytes) :
    getNumberLength dotFound (str ++ s) = getNumberLength dotFound str := by
  induction str generalizing dotFound with
  | nil =>
    cases s with
    | nil => rfl
    | cons b s =>
      obtain ⟨-, hdigit, hdot, -⟩ := space_excludes (hs b List.mem_cons_self)
      show getNumberLength dotFound (b :: s) = 0
      rw [getNumberLength, hdigit, decide_eq_false hdot, Bool.and_false]
      rfl
  | cons c str ih => rw [List.cons_append, getNumberLength, getNumberLength, ih, ih]

theorem getNumberLength_le (dotFound : Bool) (str : Bytes) :
    getNumberLength dotFound str ≤ str.length := by
  induction str generalizing dotFound with
  | nil => exact le_rfl
  | cons c str ih =>
    rw [getNumberLength]
    split_ifs
    · exact Nat.succ_le_succ (ih dotFound)
    · exact Nat.succ_le_succ (ih true)
    · exact Nat.zero_le _

theorem findOperator_append (s : Bytes) {n : ℕ} (hn : n ≤ str.length) :
    findOperator (str ++ s) n = findOperator str n := by
  induction n with
  | zero => rfl
  | succ n ih =>
    have hlong : n + 1 ≤ (str ++ s).length :=
      hn.trans (List.length_append ▸ Nat.le_add_right _ _)
    rw [findOperator, findOperator, if_pos hn, if_pos hlong, List.take_append_of_le_length hn,
      ih (Nat.le_of_succ_le hn)]

theorem quoted_append (hs : ∀ b ∈ s, isSpace b) (hq : q = 39 ∨ q = 34) (detail : SqlTokenDetail)
    (error : LexError) : quoted q detail error (str ++ s) line pos
      = quoted q detail error str line pos := by
  have hnot : q ∉ s := by
    intro hmem
    obtain ⟨-, -, -, hquote, hdouble, -⟩ := space_excludes (hs q hmem)
    exact hq.elim hquote hdouble
  unfold quoted
  by_cases hclosed : str.contains q = true
  · have hmem := List.contains_iff_mem.mp hclosed
    rw [if_pos hclosed, if_pos (List.contains_iff_mem.mpr (List.mem_append_left s hmem))]
    obtain ⟨word, rest, rfl, hword⟩ := List.eq_append_cons_of_mem hmem
    rw [List.append_assoc, List.cons_append, takeWhile_quote hword, takeWhile_quote hword]
  · rw [if_neg hclosed, if_neg]
    intro hmem
    refine (List.mem_append.mp (List.contains_iff_mem.mp hmem)).elim (fun h => ?_) hnot
    exact hclosed (List.contains_iff_mem.mpr h)

/-- **A round of the loop** does not see the spaces behind a query, unless it is at
an operator byte near the end. -/
theorem iterate_append (hs : ∀ b ∈ s, isSpace b) (hop : isOperatorByte c → 2 ≤ str.length) :
    iterate c (str ++ s) line pos = iterate c str line pos := by
  have hcons : c :: (str ++ s) = (c :: str) ++ s := rfl
  unfold iterate
  rw [hcons, getWordLength_append hs, List.take_append_of_le_length (getWordLength_le _),
    getNumberLength_append hs, List.take_append_of_le_length (getNumberLength_le false _)]
  by_cases hspace : isSpace c = true
  · rw [if_pos hspace, if_pos hspace]
  rw [if_neg hspace, if_neg hspace]
  by_cases halpha : isAlpha c = true
  · rw [if_pos halpha, if_pos halpha]
  rw [if_neg halpha, if_neg halpha, quoted_append hs (Or.inl rfl), quoted_append hs (Or.inr rfl),
    startsAsOperator_eq c (Bool.eq_false_iff.mpr halpha)]
  by_cases hbyte : isOperatorByte c = true
  · rw [findOperator_append s (Nat.succ_le_succ (hop hbyte))]
  · rw [if_neg hbyte, if_neg hbyte]

end

/-! ## What comes of a query -/

/-- `lex` comes back, with tokens or with an exception. -/
def Terminates (query : Bytes) : Prop := ∃ fuel, lex fuel query ≠ .error .outOfFuel

/-- `lex` throws. -/
def Throws (query : Bytes) : Prop := ∃ fuel e, lex fuel query = .error (.threw e)

/-- **Two queries with the same outcome**: the same tokens, or an error. -/
def SameOutcome (query query' : Bytes) : Prop :=
  (∃ tokens, Lexed query tokens ∧ Lexed query' tokens) ∨ (Throws query ∧ Throws query')

/-- **The end of a query that spaces behind it change**: an operator with less than
two bytes behind it that has them with `n` more. -/
inductive Stump (n : ℕ) : Bytes → Prop
  | operator {c : UInt8} (hc : isOperatorByte c) (hne : c ≠ 33) (hn : 2 ≤ n) : Stump n [c]
  | pair {c : UInt8} (hc : isPairByte c) (hn : 1 ≤ n) : Stump n [c, 61]
  | single {c d : UInt8} (hc : isOperatorByte c) (hne : c ≠ 33)
      (hd : isPairByte c = false ∨ d ≠ 61) (hn : 1 ≤ n) (hnext : isPlain d ∨ isUnknown d) :
      Stump n [c, d]
  | double {c d : UInt8} (hc : isOperatorByte c) (hne : c ≠ 33)
      (hd : isPairByte c = false ∨ d ≠ 61) (h : Stump n [d]) : Stump n [c, d]

/-- **A query that ends too early**: the lexer gets to a stump. -/
def CutOff (n : ℕ) (query : Bytes) : Prop := Meets (Stump n) query

/-- The tokens from a line and a position on. -/
def LexesFrom (str : Bytes) (line pos : ℕ) (tokens : List SqlToken) : Prop :=
  ∃ fuel, lexLoop fuel str line pos = .ok tokens

/-- The loop throws from a line and a position on. -/
def ThrowsFrom (str : Bytes) (line pos : ℕ) : Prop :=
  ∃ fuel e, lexLoop fuel str line pos = .error (.threw e)

/-- The same outcome from a line and a position on. -/
def SameFrom (str str' : Bytes) (line pos : ℕ) : Prop :=
  (∃ tokens, LexesFrom str line pos tokens ∧ LexesFrom str' line pos tokens)
    ∨ (ThrowsFrom str line pos ∧ ThrowsFrom str' line pos)

section

variable {c d e q : UInt8} {str str' s : Bytes} {line pos : ℕ} {round : Iteration}

theorem not_throwsFrom_nil : ¬ ThrowsFrom [] line pos := by
  rintro ⟨fuel, e, h⟩
  cases fuel with
  | zero => cases h
  | succ fuel => cases h

/-- A round that throws. -/
theorem throwsFrom_of_error {e : LexError} (h : iterate c str line pos = .error (.threw e)) :
    ThrowsFrom (c :: str) line pos := by
  refine ⟨1, e, ?_⟩
  rw [lexLoop, h]
  rfl

/-- **The tokens behind a round.** -/
theorem lexesFrom_cons (h : iterate c str line pos = .ok round) (tokens : List SqlToken) :
    LexesFrom (c :: str) line pos tokens ↔
      ∃ rest, LexesFrom ((c :: str).drop round.consumed) round.line round.pos rest
        ∧ tokens = round.token.toList ++ rest := by
  constructor
  · rintro ⟨fuel, hrun⟩
    cases fuel with
    | zero => cases hrun
    | succ fuel =>
      rw [lexLoop, h] at hrun
      change (lexLoop fuel ((c :: str).drop round.consumed) round.line round.pos >>= _) = _ at hrun
      obtain ⟨rest, hrest, hrun⟩ := bind_eq_ok.mp hrun
      exact ⟨rest, ⟨fuel, hrest⟩, (Except.ok.inj hrun).symm⟩
  · rintro ⟨rest, ⟨fuel, hrest⟩, rfl⟩
    refine ⟨fuel + 1, ?_⟩
    rw [lexLoop, h]
    show (lexLoop fuel ((c :: str).drop round.consumed) round.line round.pos >>= _) = _
    rw [hrest]
    rfl

/-- **An exception behind a round.** -/
theorem throwsFrom_cons (h : iterate c str line pos = .ok round) :
    ThrowsFrom (c :: str) line pos
      ↔ ThrowsFrom ((c :: str).drop round.consumed) round.line round.pos := by
  constructor
  · rintro ⟨fuel, e, hrun⟩
    cases fuel with
    | zero => cases hrun
    | succ fuel =>
      rw [lexLoop, h] at hrun
      change (lexLoop fuel ((c :: str).drop round.consumed) round.line round.pos >>= _) = _ at hrun
      refine ⟨fuel, ?_⟩
      cases hrest : lexLoop fuel ((c :: str).drop round.consumed) round.line round.pos with
      | ok tokens =>
        rw [hrest] at hrun
        cases hrun
      | error stop =>
        rw [hrest] at hrun
        exact ⟨e, hrun⟩
  · rintro ⟨fuel, e, hrest⟩
    refine ⟨fuel + 1, e, ?_⟩
    rw [lexLoop, h]
    show (lexLoop fuel ((c :: str).drop round.consumed) round.line round.pos >>= _) = _
    rw [hrest]
    rfl

/-- What throws has no tokens. -/
theorem not_throwsFrom_of_lexesFrom {fuel : ℕ} : ∀ {str : Bytes} {line pos : ℕ}
    {tokens : List SqlToken}, lexLoop fuel str line pos = .ok tokens →
      ¬ ThrowsFrom str line pos := by
  induction fuel with
  | zero =>
    intro str line pos tokens h
    cases h
  | succ fuel ih =>
    intro str line pos tokens h
    cases str with
    | nil => exact not_throwsFrom_nil
    | cons c str =>
      rw [lexLoop] at h
      obtain ⟨round, hround, h⟩ := bind_eq_ok.mp h
      obtain ⟨rest, hrest, -⟩ := bind_eq_ok.mp h
      rw [throwsFrom_cons hround]
      exact ih hrest

/-- Where two queries begin with the same round, what is behind it decides. -/
theorem sameFrom_cons (h : iterate c str line pos = .ok round)
    (h' : iterate c str' line pos = .ok round) :
    SameFrom (c :: str) (c :: str') line pos ↔ SameFrom ((c :: str).drop round.consumed)
      ((c :: str').drop round.consumed) round.line round.pos := by
  unfold SameFrom
  rw [throwsFrom_cons h, throwsFrom_cons h']
  refine or_congr ⟨?_, ?_⟩ Iff.rfl
  · rintro ⟨tokens, hlexes, hlexes'⟩
    obtain ⟨rest, hrest, rfl⟩ := (lexesFrom_cons h tokens).mp hlexes
    obtain ⟨rest', hrest', heq⟩ := (lexesFrom_cons h' _).mp hlexes'
    rw [List.append_cancel_left heq] at hrest
    exact ⟨rest', hrest, hrest'⟩
  · rintro ⟨rest, hrest, hrest'⟩
    exact ⟨_, (lexesFrom_cons h _).mpr ⟨rest, hrest, rfl⟩,
      (lexesFrom_cons h' _).mpr ⟨rest, hrest', rfl⟩⟩

end

/-! ## The end of a query -/

theorem final_stump (n : ℕ) : Final (Stump n) where
  plain {c _} hc h := by
    have hop := (plain_excludes c hc).2.2
    cases h with
    | operator h _ _ => exact ne_of_false_of_true hop h
    | pair h _ => exact ne_of_false_of_true hop (isOperatorByte_of_pair c h)
    | single h _ _ _ _ => exact ne_of_false_of_true hop h
    | double h _ _ _ => exact ne_of_false_of_true hop h
  quote {q _} hq h := by
    have hop := (quote_excludes q hq).2.2
    cases h with
    | operator h _ _ => exact ne_of_false_of_true hop h
    | pair h _ => exact ne_of_false_of_true hop (isOperatorByte_of_pair q h)
    | single h _ _ _ _ => exact ne_of_false_of_true hop h
    | double h _ _ _ => exact ne_of_false_of_true hop h
  operator _ h := nomatch h

section

variable {c d e q : UInt8} {str s : Bytes}

/-- The kinds of bytes are all there are. -/
theorem byte_kinds (d : UInt8) :
    isPlain d ∨ isUnknown d ∨ (d = 39 ∨ d = 34) ∨ isOperatorByte d := by
  unfold isPlain isUnknown
  grind

/-- Spaces are no tokens. -/
theorem lexesFrom_spaces (hs : ∀ b ∈ s, isSpace b) : ∀ line pos, LexesFrom s line pos [] := by
  induction s with
  | nil => exact fun _ _ => ⟨1, rfl⟩
  | cons b s ih =>
    intro line pos
    have hrest := ih fun b' hb' => hs b' (List.mem_cons_of_mem b hb')
    by_cases hnewline : b = 10
    · have hround : iterate b s line pos = .ok { consumed := 1, line := line + 1, pos := 0 } := by
        rw [iterate, if_pos (hs b List.mem_cons_self), if_pos hnewline]
      exact (lexesFrom_cons hround []).mpr ⟨[], hrest _ _, rfl⟩
    · have hround : iterate b s line pos = .ok { consumed := 1, line, pos := pos + 1 } := by
        rw [iterate, if_pos (hs b List.mem_cons_self), if_neg hnewline]
      exact (lexesFrom_cons hround []).mpr ⟨[], hrest _ _, rfl⟩

theorem not_throwsFrom_spaces (hs : ∀ b ∈ s, isSpace b) (line pos : ℕ) :
    ¬ ThrowsFrom s line pos := by
  obtain ⟨fuel, h⟩ := lexesFrom_spaces hs line pos
  exact not_throwsFrom_of_lexesFrom h

/-- **The piece that begins with an operator byte**: it and a `=`, or it alone. -/
theorem Piece.operator {piece rest : Bytes} (h : Piece piece rest)
    (hsplit : c :: str = piece ++ rest) (hc : isOperatorByte c) :
    (isPairByte c ∧ str = 61 :: rest ∧ 2 ≤ str.length)
      ∨ (c ≠ 33 ∧ (isPairByte c = false ∨ str.head? ≠ some 61) ∧ rest = str ∧ 2 ≤ str.length) := by
  obtain ⟨-, hplain, hquote⟩ := operator_excludes c hc
  cases h with
  | plain hne hword =>
    obtain ⟨b, word, rfl⟩ := List.exists_cons_of_ne_nil hne
    obtain rfl := (List.cons.inj hsplit).1
    exact (ne_of_false_of_true hplain (hword c List.mem_cons_self)).elim
  | quoted hq _ =>
    rw [(List.cons.inj hsplit).1] at hquote
    exact absurd hq hquote
  | pair hbyte =>
    rw [(List.cons.inj hsplit).1, (List.cons.inj hsplit).2]
    exact Or.inl ⟨hbyte, rfl, Nat.le_add_left 2 _⟩
  | single _ hne hd =>
    rw [(List.cons.inj hsplit).1, (List.cons.inj hsplit).2]
    exact Or.inr ⟨hne, hd.imp_right fun h heq => h (Option.some.inj heq), rfl,
      Nat.le_add_left 2 _⟩

/-- The piece that begins with a quote has another one. -/
theorem Piece.quote {piece rest : Bytes} (h : Piece piece rest)
    (hsplit : q :: str = piece ++ rest) (hq : q = 39 ∨ q = 34) : q ∈ str := by
  obtain ⟨-, hplain, hop⟩ := quote_excludes q hq
  cases h with
  | plain hne hword =>
    obtain ⟨b, word, rfl⟩ := List.exists_cons_of_ne_nil hne
    obtain rfl := (List.cons.inj hsplit).1
    exact (ne_of_false_of_true hplain (hword q List.mem_cons_self)).elim
  | quoted _ _ =>
    rw [(List.cons.inj hsplit).1, (List.cons.inj hsplit).2]
    simp
  | pair hbyte =>
    rw [(List.cons.inj hsplit).1] at hop
    exact (ne_of_false_of_true hop (isOperatorByte_of_pair _ hbyte)).elim
  | single hbyte _ _ =>
    rw [(List.cons.inj hsplit).1] at hop
    exact (ne_of_false_of_true hop hbyte).elim

/-- An operator byte with less than two bytes behind it. -/
theorem throwsFrom_short (hc : isOperatorByte c) (hstr : str.length < 2) (line pos : ℕ) :
    ThrowsFrom (c :: str) line pos := by
  rcases moves_iterate c str line pos with ⟨e, herror, -⟩ |
    ⟨round, piece, rest, -, hsplit, -, hpiece⟩ | ⟨hunknown, -⟩
  · exact throwsFrom_of_error herror
  · rcases hpiece.operator hsplit hc with ⟨-, -, hlong⟩ | ⟨-, -, -, hlong⟩
    · exact absurd hstr (Nat.not_lt.mpr hlong)
    · exact absurd hstr (Nat.not_lt.mpr hlong)
  · exact (ne_of_false_of_true (operator_excludes c hc).1 hunknown).elim

/-- **An operator byte with two bytes behind it**: a `!` alone throws, and else
what is behind the operator decides. -/
theorem throwsFrom_operator (hc : isOperatorByte c) (d e : UInt8) (str : Bytes) (line pos : ℕ) :
    (c = 33 ∧ d ≠ 61 ∧ ThrowsFrom (c :: d :: e :: str) line pos)
      ∨ (isPairByte c ∧ d = 61 ∧ ∃ line' pos',
          ThrowsFrom (c :: d :: e :: str) line pos ↔ ThrowsFrom (e :: str) line' pos')
      ∨ (c ≠ 33 ∧ (isPairByte c = false ∨ d ≠ 61) ∧ ∃ line' pos',
          ThrowsFrom (c :: d :: e :: str) line pos ↔ ThrowsFrom (d :: e :: str) line' pos') := by
  rcases moves_iterate c (d :: e :: str) line pos with ⟨_, herror, hstuck⟩ |
    ⟨round, piece, rest, hround, hsplit, hconsumed, hpiece⟩ | ⟨hunknown, -⟩
  · cases hstuck with
    | quote hq _ => exact absurd hq (operator_excludes c hc).2.2
    | short _ h => exact absurd h (Nat.not_lt.mpr (Nat.le_add_left 2 _))
    | bang hd => exact Or.inl ⟨rfl, hd, throwsFrom_of_error herror⟩
  · have hthrows := throwsFrom_cons hround
    rw [hconsumed, hsplit, List.drop_left, ← hsplit] at hthrows
    rcases hpiece.operator hsplit hc with ⟨hbyte, htail, -⟩ | ⟨hne, hd, rfl, -⟩
    · obtain ⟨rfl, rfl⟩ := List.cons.inj htail
      exact Or.inr (Or.inl ⟨hbyte, rfl, _, _, hthrows⟩)
    · have hnext : isPairByte c = false ∨ d ≠ 61 :=
        hd.imp_right fun h heq => h (congrArg some heq)
      exact Or.inr (Or.inr ⟨hne, hnext, _, _, hthrows⟩)
  · exact (ne_of_false_of_true (operator_excludes c hc).1 hunknown).elim

/-- A byte that can be passed, and spaces behind it. -/
theorem not_throwsFrom_plain (hd : isPlain d) (hs : ∀ b ∈ s, isSpace b) (line pos : ℕ) :
    ¬ ThrowsFrom (d :: s) line pos := by
  obtain ⟨hunknown, hquote, hop⟩ := plain_excludes d hd
  rcases moves_iterate d s line pos with ⟨_, -, hstuck⟩ |
    ⟨round, piece, rest, hround, hsplit, hconsumed, hpiece⟩ | ⟨hunknown', -⟩
  · exfalso
    cases hstuck with
    | quote hq _ => exact hquote hq
    | short h _ => exact ne_of_false_of_true hop h
    | bang _ => cases hop
  · rw [throwsFrom_cons hround, hconsumed, hsplit, List.drop_left]
    refine not_throwsFrom_spaces (fun b hb => hs b ?_) _ _
    -- the piece has the first byte in it
    obtain ⟨b', piece, rfl⟩ := List.exists_cons_of_length_pos hpiece.length_pos
    rw [(List.cons.inj hsplit).2]
    exact List.mem_append_right piece hb
  · exact (ne_of_false_of_true hunknown hunknown').elim

/-- An unknown byte is never passed. -/
theorem not_throwsFrom_unknown (hd : isUnknown d) (line pos : ℕ) :
    ¬ ThrowsFrom (d :: str) line pos := by
  rintro ⟨fuel, e, h⟩
  rw [MeetsUnknown.lexLoop_eq fuel (.here hd)] at h
  cases h

/-- A quote with spaces behind it is not closed. -/
theorem throwsFrom_quote (hq : q = 39 ∨ q = 34) (hs : ∀ b ∈ s, isSpace b) (line pos : ℕ) :
    ThrowsFrom (q :: s) line pos := by
  have hnot : q ∉ s := by
    intro hmem
    obtain ⟨-, -, -, hquote, hdouble, -⟩ := space_excludes (hs q hmem)
    exact hq.elim hquote hdouble
  rcases moves_iterate q s line pos with ⟨_, herror, -⟩ |
    ⟨_, _, _, -, hsplit, -, hpiece⟩ | ⟨hunknown, -⟩
  · exact throwsFrom_of_error herror
  · exact absurd (hpiece.quote hsplit hq) hnot
  · exact (ne_of_false_of_true (quote_excludes q hq).1 hunknown).elim

/-- **One operator byte and spaces.** -/
theorem throwsFrom_operator_iff (hc : isOperatorByte c) (hs : ∀ b ∈ s, isSpace b)
    (line pos : ℕ) : ThrowsFrom (c :: s) line pos ↔ ¬ Stump s.length [c] := by
  have hshort : s.length < 2 → (ThrowsFrom (c :: s) line pos ↔ ¬ Stump s.length [c]) := by
    intro hshort
    refine iff_of_true (throwsFrom_short hc hshort line pos) fun h => ?_
    cases h with
    | operator _ _ hn => exact Nat.not_le_of_lt hshort hn
  cases s with
  | nil => exact hshort Nat.zero_lt_two
  | cons d s =>
    cases s with
    | nil => exact hshort Nat.one_lt_two
    | cons e s =>
      have hd : d ≠ 61 := (space_excludes (hs d List.mem_cons_self)).2.2.2.2.2
      rcases throwsFrom_operator hc d e s line pos with ⟨hbang, -, hthrows⟩ | ⟨-, hassign, -⟩ |
        ⟨hne, -, line', pos', hthrows⟩
      · refine iff_of_true hthrows fun h => ?_
        cases h with
        | operator _ hne _ => exact hne hbang
      · exact absurd hassign hd
      · rw [hthrows]
        refine iff_of_false (not_throwsFrom_spaces hs line' pos') fun h => h ?_
        exact .operator hc hne (Nat.le_add_left 2 _)

/-- **An operator byte, a byte and spaces.** -/
theorem throwsFrom_pair_iff (hc : isOperatorByte c) (d : UInt8) (hs : ∀ b ∈ s, isSpace b)
    (line pos : ℕ) : ThrowsFrom (c :: d :: s) line pos ↔ ¬ Stump s.length [c, d] := by
  cases s with
  | nil =>
    have hstr : [d].length < 2 := Nat.one_lt_two
    refine iff_of_true (throwsFrom_short hc hstr line pos) fun h => ?_
    cases h with
    | pair _ hn => exact absurd hn (Nat.not_succ_le_zero 0)
    | single _ _ _ hn _ => exact absurd hn (Nat.not_succ_le_zero 0)
    | double _ _ _ h =>
      cases h with
      | operator _ _ hn => exact absurd hn (Nat.not_succ_le_zero 1)
  | cons e s =>
    have hpos : 1 ≤ (e :: s).length := Nat.le_add_left 1 _
    rcases throwsFrom_operator hc d e s line pos with ⟨rfl, hd, hthrows⟩ |
      ⟨hbyte, rfl, line', pos', hthrows⟩ | ⟨hne, hd, line', pos', hthrows⟩
    · refine iff_of_true hthrows fun h => ?_
      cases h with
      | pair _ _ => exact hd rfl
      | single _ hne _ _ _ => exact hne rfl
      | double _ hne _ _ => exact hne rfl
    · rw [hthrows]
      exact iff_of_false (not_throwsFrom_spaces hs line' pos') fun h => h (.pair hbyte hpos)
    · rw [hthrows]
      -- the byte behind the operator decides
      rcases byte_kinds d with hplain | hunknown | hquote | hop
      · exact iff_of_false (not_throwsFrom_plain hplain hs line' pos') fun h =>
          h (.single hc hne hd hpos (Or.inl hplain))
      · exact iff_of_false (not_throwsFrom_unknown hunknown line' pos') fun h =>
          h (.single hc hne hd hpos (Or.inr hunknown))
      · refine iff_of_true (throwsFrom_quote hquote hs line' pos') fun h => ?_
        obtain ⟨hnotUnknown, hnotPlain, hnotOperator⟩ := quote_excludes d hquote
        cases h with
        | pair hbyte _ => exact hd.elim (fun h => ne_of_false_of_true h hbyte) (fun h => h rfl)
        | single _ _ _ _ hnext =>
          exact hnext.elim (ne_of_false_of_true hnotPlain) (ne_of_false_of_true hnotUnknown)
        | double _ _ _ h =>
          cases h with
          | operator h _ _ => exact ne_of_false_of_true hnotOperator h
      · rw [throwsFrom_operator_iff hop hs line' pos']
        refine not_congr ⟨.double hc hne hd, fun h => ?_⟩
        obtain ⟨hnotUnknown, hnotPlain, -⟩ := operator_excludes d hop
        cases h with
        | pair hbyte _ =>
          exact (hd.elim (fun h => ne_of_false_of_true h hbyte) (fun h => h rfl)).elim
        | single _ _ _ _ hnext =>
          exact (hnext.elim (ne_of_false_of_true hnotPlain) (ne_of_false_of_true hnotUnknown)).elim
        | double _ _ _ h => exact h

/-- **Near the end of a query** only a stump makes a difference. -/
theorem sameFrom_short (hc : isOperatorByte c) (hstr : str.length < 2)
    (hs : ∀ b ∈ s, isSpace b) (line pos : ℕ) :
    SameFrom (c :: str) (c :: str ++ s) line pos ↔ ¬ CutOff s.length (c :: str) := by
  have hthrows := throwsFrom_short hc hstr line pos
  have hsame : SameFrom (c :: str) (c :: str ++ s) line pos
      ↔ ThrowsFrom (c :: str ++ s) line pos := by
    refine ⟨fun h => ?_, fun h => Or.inr ⟨hthrows, h⟩⟩
    rcases h with ⟨tokens, ⟨fuel, hlexes⟩, -⟩ | ⟨-, h⟩
    · exact absurd hthrows (not_throwsFrom_of_lexesFrom hlexes)
    · exact h
  have hcut : CutOff s.length (c :: str) ↔ Stump s.length (c :: str) := by
    refine ⟨fun h => ?_, .here⟩
    rcases h.operator hc with h | ⟨_, _, -, rfl, -⟩ | ⟨_, _, _, -, -, rfl, -⟩
    · exact h
    · exact absurd hstr (Nat.not_lt.mpr (Nat.le_add_left 2 _))
    · exact absurd hstr (Nat.not_lt.mpr (Nat.le_add_left 2 _))
  rw [hsame, hcut]
  match str, hstr with
  | [], _ => exact throwsFrom_operator_iff hc hs line pos
  | [d], _ => exact throwsFrom_pair_iff hc d hs line pos

/-- **Spaces behind what is left of a query**, as far as the loop comes. -/
theorem sameFrom_append_iff (hs : ∀ b ∈ s, isSpace b) {fuel : ℕ} :
    ∀ {str : Bytes} {line pos : ℕ}, lexLoop fuel str line pos ≠ .error .outOfFuel →
      (SameFrom str (str ++ s) line pos ↔ ¬ CutOff s.length str) := by
  induction fuel with
  | zero => exact fun h => absurd rfl h
  | succ fuel ih =>
    intro str line pos hrun
    cases str with
    | nil =>
      refine iff_of_true (Or.inl ⟨[], ⟨1, rfl⟩, lexesFrom_spaces hs line pos⟩) fun h => ?_
      cases h with
      | here h => cases h
    | cons c str =>
      by_cases hshort : isOperatorByte c ∧ str.length < 2
      · exact sameFrom_short hshort.1 hshort.2 hs line pos
      have hround : iterate c (str ++ s) line pos = iterate c str line pos :=
        iterate_append hs fun hc => Nat.not_lt.mp fun hstr => hshort ⟨hc, hstr⟩
      rcases moves_iterate c str line pos with ⟨e, herror, hstuck⟩ |
        ⟨round, piece, rest, hok, hsplit, hconsumed, hpiece⟩ | ⟨hunknown, hok⟩
      · -- both throw, and not at a stump
        refine iff_of_true (Or.inr ⟨throwsFrom_of_error herror,
          throwsFrom_of_error (hround.trans herror)⟩) ?_
        refine hstuck.not_meets (final_stump s.length) fun h => hshort ?_
        cases h with
        | operator hc _ _ => exact ⟨hc, Nat.lt_succ_of_lt Nat.zero_lt_one⟩
        | pair hc _ => exact ⟨isOperatorByte_of_pair c hc, Nat.lt_succ_self 1⟩
        | single hc _ _ _ _ => exact ⟨hc, Nat.lt_succ_self 1⟩
        | double hc _ _ _ => exact ⟨hc, Nat.lt_succ_self 1⟩
      · have hdrop : (c :: str).drop round.consumed = rest := by
          rw [hconsumed, hsplit, List.drop_left]
        have hdrop' : (c :: (str ++ s)).drop round.consumed = rest ++ s := by
          rw [hconsumed, ← List.cons_append, hsplit, List.append_assoc, List.drop_left]
        have hrest : lexLoop fuel rest round.line round.pos ≠ .error .outOfFuel := by
          intro hout
          rw [lexLoop, hok] at hrun
          refine hrun ?_
          show (lexLoop fuel ((c :: str).drop round.consumed) round.line round.pos >>= _) = _
          rw [hdrop, hout]
          rfl
        rw [List.cons_append, sameFrom_cons hok (hround.trans hok), hdrop, hdrop', ih hrest]
        rw [hsplit]
        exact not_congr (hpiece.meets (final_stump s.length)).symm
      · -- an unknown byte is never passed
        rw [MeetsUnknown.lexLoop_eq (fuel + 1) (.here hunknown)] at hrun
        exact absurd rfl hrun

/-- **Spaces behind a query** that is lexed or refused make no difference but to a
query that is cut off. -/
theorem sameOutcome_append_iff {query : Bytes} (hquery : Terminates query)
    (hs : ∀ b ∈ s, isSpace b) :
    SameOutcome query (query ++ s) ↔ ¬ CutOff s.length query := by
  obtain ⟨fuel, hrun⟩ := hquery
  exact sameFrom_append_iff hs hrun

/-- `a=1` with a space behind it. -/
theorem sameOutcome_append_assignment : SameOutcome (key "a=1") (key "a=1" ++ key " ")
    ↔ ¬ CutOff (key " ").length (key "a=1") := by
  have hquery : Terminates (key "a=1") := ⟨10, by decide +kernel⟩
  have hspace : ∀ b ∈ key " ", isSpace b := by decide +kernel
  exact sameOutcome_append_iff hquery hspace

/-- `=` is an error, and with two spaces behind it a token. -/
theorem not_sameOutcome_append : ¬ ∀ query s : Bytes, Terminates query →
    (∀ b ∈ s, isSpace b) → SameOutcome query (query ++ s) := by
  intro h
  have hquery : lex 1 (key "=") ≠ .error .outOfFuel := by decide +kernel
  have hspaces : ∀ b ∈ key "  ", isSpace b := by decide +kernel
  have hkeys : key "=" = [61] ∧ (key "  ").length = 2 := by decide +kernel
  have hcut : CutOff (key "  ").length (key "=") := by
    rw [hkeys.1, hkeys.2]
    exact .here (.operator (by decide) (by decide) le_rfl)
  exact (sameFrom_append_iff hspaces hquery).mp (h (key "=") (key "  ") ⟨1, hquery⟩ hspaces) hcut

end

end Lexer

end Sql
