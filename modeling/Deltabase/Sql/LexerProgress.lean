import Deltabase.Sql.Lexer
import Mathlib.Data.FinEnum

/-!
# When the lexer comes to an end

The loop of `lex` has a case for spaces, for words, for the two kinds of quotes,
for numbers, for operators and for symbols, and each of them moves on or throws.
There is no case for the other bytes: the loop finds the same byte again.

Such a byte does no harm in a quoted text, nor behind something that throws. So
the lexer fails to come to an end on exactly the queries that have one outside
quotes with nothing in front of it that throws (`MeetsUnknown`): no quote that is
not closed, no operator that does not exist and none that begins less than three
bytes before the end (`progresses_iff`).
-/

namespace Sql

namespace Lexer

/-! ## The dictionaries, byte by byte -/

theorem operatorsMap_eq : operatorsMap =
    [([61, 61], .eq), ([33, 61], .neq), ([62], .gr), ([62, 61], .gre), ([60], .lt),
      ([60, 61], .lte), ([105, 115], .is), ([97, 110, 100], .and), ([111, 114], .or),
      ([110, 111, 116], .not), ([43], .plus), ([45], .minus), ([42], .mul), ([47], .div),
      ([61], .assign)] := by
  decide +kernel

theorem symbolsMap_eq : symbolsMap =
    [([40], .lparen), ([41], .rparen), ([44], .comma), ([46], .period), ([59], .semicolon)] := by
  decide +kernel

/-- The operators that are not words start with one of these. -/
def isOperatorByte (c : UInt8) : Bool :=
  c = 61 || c = 33 || c = 62 || c = 60 || c = 43 || c = 45 || c = 42 || c = 47

/-- The bytes that are symbols. -/
def isSymbolByte (c : UInt8) : Bool := c = 40 || c = 41 || c = 44 || c = 46 || c = 59

theorem startsAsOperator_eq :
    ∀ c : UInt8, isAlpha c = false → startsAsOperator c = isOperatorByte c := by
  unfold startsAsOperator
  rw [operatorsMap_eq]
  decide +kernel

theorem lookup_symbolsMap : ∀ c : UInt8, (symbolsMap.lookup [c]).isSome = isSymbolByte c := by
  rw [symbolsMap_eq]
  decide +kernel

/-- The bytes that make an operator with a `=` behind them. -/
def isPairByte (c : UInt8) : Bool := c = 61 || c = 33 || c = 62 || c = 60

/-- What holds of each of the operator bytes. -/
theorem isOperatorByte.forall {P : UInt8 → Prop} {c : UInt8} (hc : isOperatorByte c)
    (h : P 61 ∧ P 33 ∧ P 62 ∧ P 60 ∧ P 43 ∧ P 45 ∧ P 42 ∧ P 47) : P c := by
  simp only [isOperatorByte, Bool.or_eq_true, decide_eq_true_eq] at hc
  obtain ⟨h61, h33, h62, h60, h43, h45, h42, h47⟩ := h
  rcases hc with ((((((rfl | rfl) | rfl) | rfl) | rfl) | rfl) | rfl) | rfl <;> assumption

theorem toLowerByte_operatorByte (c : UInt8) (hc : isOperatorByte c) : toLowerByte c = c :=
  isOperatorByte.forall (P := fun c => toLowerByte c = c) hc (by decide)

theorem toLowerByte_eq_assign : ∀ d : UInt8, toLowerByte d = 61 ↔ d = 61 := by
  decide +kernel

/-- An operator that starts with an operator byte is that byte, or that byte and
a `=`. -/
theorem operator_of_operatorByte : ∀ op ∈ operatorsMap, ∀ c ∈ op.1.head?, isOperatorByte c →
    op.1.tail = [] ∨ op.1.tail = [61] := by
  rw [operatorsMap_eq]
  decide +kernel

theorem lookup_operatorsMap_eq_none {c : UInt8} (hc : isOperatorByte c) {word : Bytes}
    (hnil : word ≠ []) (hassign : word ≠ [61]) : operatorsMap.lookup (c :: word) = none := by
  rw [List.lookup_eq_none_iff]
  intro op hop
  refine bne_iff_ne.mpr fun heq => ?_
  have htail := operator_of_operatorByte op hop c (by rw [← heq]; rfl) hc
  rw [← heq] at htail
  exact htail.elim hnil hassign

theorem lookup_pair (c : UInt8) (hc : isOperatorByte c) :
    (operatorsMap.lookup [c, 61]).isSome = isPairByte c := by
  rw [operatorsMap_eq]
  exact isOperatorByte.forall (P := fun c => (List.lookup [c, 61] _).isSome = isPairByte c) hc
    (by decide)

theorem lookup_single (c : UInt8) (hc : isOperatorByte c) :
    (operatorsMap.lookup [c]).isSome = !decide (c = 33) := by
  rw [operatorsMap_eq]
  exact isOperatorByte.forall (P := fun c => (List.lookup [c] _).isSome = !decide (c = 33)) hc
    (by decide)

/-! ## Operators -/

/-- Where fewer than three bytes are left no operator is found. -/
theorem findOperator_short {str : Bytes} (h : str.length < 3) : findOperator str 3 = none := by
  rw [findOperator, if_neg (Nat.not_le_of_lt h)]

/-- Where enough bytes are left, the longest candidate is looked up first. -/
theorem findOperator_succ {str : Bytes} {maxLen : ℕ} (h : maxLen + 1 ≤ str.length) :
    findOperator str (maxLen + 1)
      = ((operatorsMap.lookup (toLower (str.take (maxLen + 1)))).map
          (Prod.mk (toLower (str.take (maxLen + 1))))).or (findOperator str maxLen) := by
  rw [findOperator, if_pos h]
  dsimp only
  cases operatorsMap.lookup (toLower (str.take (maxLen + 1))) with
  | none => rfl
  | some op => rfl

/-- **An operator byte with two bytes behind it**: an operator of two bytes is
found before one of one byte. -/
theorem findOperator_long {c : UInt8} (hc : isOperatorByte c) (d e : UInt8) (str : Bytes) :
    (findOperator (c :: d :: e :: str) 3).map Prod.fst
      = if isPairByte c && d = 61 then some [c, 61] else if c = 33 then none else some [c] := by
  have hlower := toLowerByte_operatorByte c hc
  have hthree : operatorsMap.lookup [c, toLowerByte d, toLowerByte e] = none :=
    lookup_operatorsMap_eq_none hc (List.cons_ne_nil _ _) (by simp)
  have hlong : ∀ n, n ≤ 3 → n ≤ (c :: d :: e :: str).length := fun n hn =>
    hn.trans (Nat.le_add_left 3 str.length)
  rw [findOperator_succ (hlong 3 le_rfl)]
  show Option.map Prod.fst (((operatorsMap.lookup [toLowerByte c, toLowerByte d,
    toLowerByte e]).map _).or (findOperator (c :: d :: e :: str) 2)) = _
  rw [hlower, hthree]
  show (findOperator (c :: d :: e :: str) 2).map Prod.fst = _
  rw [findOperator_succ (hlong 2 (by decide))]
  show Option.map Prod.fst (((operatorsMap.lookup [toLowerByte c, toLowerByte d]).map
    (Prod.mk [toLowerByte c, toLowerByte d])).or (findOperator (c :: d :: e :: str) 1)) = _
  rw [hlower]
  have hone : (findOperator (c :: d :: e :: str) 1).map Prod.fst
      = if c = 33 then none else some [c] := by
    rw [findOperator_succ (hlong 1 (by decide))]
    show Option.map Prod.fst (((operatorsMap.lookup [toLowerByte c]).map
      (Prod.mk [toLowerByte c])).or (findOperator (c :: d :: e :: str) 0)) = _
    rw [hlower]
    have hsingle := lookup_single c hc
    cases hfound : operatorsMap.lookup [c] with
    | none =>
      rw [hfound] at hsingle
      rw [if_pos (by simpa using hsingle.symm)]
      rfl
    | some op =>
      rw [hfound] at hsingle
      rw [if_neg (by simpa using hsingle.symm)]
      rfl
  by_cases hd : d = 61
  · have hpair := lookup_pair c hc
    rw [(toLowerByte_eq_assign d).mpr hd, decide_eq_true hd, Bool.and_true]
    cases hfound : operatorsMap.lookup [c, 61] with
    | none =>
      rw [hfound] at hpair
      rw [← hpair]
      exact hone
    | some op =>
      rw [hfound] at hpair
      rw [← hpair]
      rfl
  · have hnone : operatorsMap.lookup [c, toLowerByte d] = none :=
      lookup_operatorsMap_eq_none hc (List.cons_ne_nil _ _) fun h =>
        hd ((toLowerByte_eq_assign d).mp (List.cons.inj h).1)
    rw [hnone, decide_eq_false hd, Bool.and_false]
    exact hone

/-! ## Queries on which it does not come to an end -/

/-- A byte that no case of the loop knows. -/
def isUnknown (c : UInt8) : Bool :=
  !(isSpace c || isAlpha c || c = 39 || c = 34 || isDigit c || isOperatorByte c || isSymbolByte c)

/-- A byte behind which the lexer can always go on: a space, a symbol or a byte of
a word or a number. -/
def isPlain (c : UInt8) : Bool := isSpace c || isAlpha c || isDigit c || isSymbolByte c

/-- **A query that has an unknown byte outside quotes**, with nothing in front of
it that throws: all quotes are closed, and the operators are operators and have
at least three bytes from where they begin. -/
inductive MeetsUnknown : Bytes → Prop
  | here {c : UInt8} {str : Bytes} (hc : isUnknown c) : MeetsUnknown (c :: str)
  | plain {c : UInt8} {str : Bytes} (hc : isPlain c) (h : MeetsUnknown str) :
      MeetsUnknown (c :: str)
  | quoted {q : UInt8} {word str : Bytes} (hq : q = 39 ∨ q = 34) (hword : q ∉ word)
      (h : MeetsUnknown str) : MeetsUnknown (q :: (word ++ q :: str))
  | pair {c e : UInt8} {str : Bytes} (hc : isPairByte c) (h : MeetsUnknown (e :: str)) :
      MeetsUnknown (c :: 61 :: e :: str)
  | single {c d e : UInt8} {str : Bytes} (hc : isOperatorByte c) (hne : c ≠ 33)
      (hd : isPairByte c = false ∨ d ≠ 61) (h : MeetsUnknown (d :: e :: str)) :
      MeetsUnknown (c :: d :: e :: str)

/-- The kinds of bytes exclude each other. -/
theorem quote_excludes (q : UInt8) (hq : q = 39 ∨ q = 34) :
    isUnknown q = false ∧ isPlain q = false ∧ isOperatorByte q = false := by
  rcases hq with rfl | rfl
  · decide
  · decide

theorem operator_excludes (c : UInt8) (hc : isOperatorByte c) :
    isUnknown c = false ∧ isPlain c = false ∧ ¬ (c = 39 ∨ c = 34) :=
  isOperatorByte.forall
    (P := fun c => isUnknown c = false ∧ isPlain c = false ∧ ¬ (c = 39 ∨ c = 34)) hc (by decide)

theorem ne_of_false_of_true {a : Bool} (h : a = false) (h' : a = true) : False :=
  Bool.false_ne_true (h.symm.trans h')

theorem plain_excludes (c : UInt8) (hc : isPlain c) :
    isUnknown c = false ∧ ¬ (c = 39 ∨ c = 34) ∧ isOperatorByte c = false := by
  refine ⟨?_, fun hq => ne_of_false_of_true (quote_excludes c hq).2.1 hc, ?_⟩
  · simp only [isPlain, Bool.or_eq_true] at hc
    unfold isUnknown
    rcases hc with ((h | h) | h) | h <;> simp [h]
  · exact Bool.eq_false_iff.mpr fun hop => ne_of_false_of_true (operator_excludes c hop).2.1 hc

theorem isOperatorByte_of_pair (c : UInt8) (hc : isPairByte c) : isOperatorByte c := by
  simp only [isPairByte, Bool.or_eq_true] at hc
  unfold isOperatorByte
  rcases hc with ((h | h) | h) | h <;> simp [h]

/-! ## What the loop gets to -/

/-- **A query in which something of a kind is met** outside quotes, with nothing in
front of it that throws. -/
inductive Meets (T : Bytes → Prop) : Bytes → Prop
  | here {str : Bytes} (h : T str) : Meets T str
  | plain {c : UInt8} {str : Bytes} (hc : isPlain c) (h : Meets T str) : Meets T (c :: str)
  | quoted {q : UInt8} {word str : Bytes} (hq : q = 39 ∨ q = 34) (hword : q ∉ word)
      (h : Meets T str) : Meets T (q :: (word ++ q :: str))
  | pair {c e : UInt8} {str : Bytes} (hc : isPairByte c) (h : Meets T (e :: str)) :
      Meets T (c :: 61 :: e :: str)
  | single {c d e : UInt8} {str : Bytes} (hc : isOperatorByte c) (hne : c ≠ 33)
      (hd : isPairByte c = false ∨ d ≠ 61) (h : Meets T (d :: e :: str)) :
      Meets T (c :: d :: e :: str)

/-- A kind of bytes that no round of the loop passes. -/
structure Final (T : Bytes → Prop) : Prop where
  plain : ∀ {c : UInt8} {str : Bytes}, isPlain c → ¬ T (c :: str)
  quote : ∀ {q : UInt8} {str : Bytes}, q = 39 ∨ q = 34 → ¬ T (q :: str)
  operator : ∀ {c d e : UInt8} {str : Bytes}, isOperatorByte c → ¬ T (c :: d :: e :: str)

section

variable {c d e q : UInt8} {str word : Bytes}

theorem all_ne (hword : q ∉ word) : ∀ b ∈ word, (b != q) = true := by
  intro b hb
  refine bne_iff_ne.mpr fun hbq => hword ?_
  rwa [← hbq]

theorem dropWhile_quote (hword : q ∉ word) :
    (word ++ q :: str).dropWhile (fun b => b != q) = q :: str := by
  rw [List.dropWhile_append_of_pos (all_ne hword), List.dropWhile_cons_of_neg]
  rw [bne_self_eq_false]
  exact Bool.false_ne_true

/-- The text in front of a quote. -/
theorem takeWhile_quote (hword : q ∉ word) :
    (word ++ q :: str).takeWhile (fun b => b != q) = word := by
  rw [List.takeWhile_append_of_pos (all_ne hword), List.takeWhile_cons_of_neg, List.append_nil]
  rw [bne_self_eq_false]
  exact Bool.false_ne_true

variable {T : Bytes → Prop}

theorem meets_plain (hT : Final T) (hc : isPlain c) : Meets T (c :: str) ↔ Meets T str := by
  obtain ⟨-, hquote, hop⟩ := plain_excludes c hc
  refine ⟨fun h => ?_, .plain hc⟩
  cases h with
  | here h => exact absurd h (hT.plain hc)
  | plain _ h => exact h
  | quoted hq _ _ => exact absurd hq hquote
  | pair h _ => exact (ne_of_false_of_true hop (isOperatorByte_of_pair c h)).elim
  | single h _ _ _ => exact (ne_of_false_of_true hop h).elim

/-- A word or a number is passed. -/
theorem meets_append (hT : Final T) (hword : ∀ b ∈ word, isPlain b) :
    Meets T (word ++ str) ↔ Meets T str := by
  induction word with
  | nil => exact Iff.rfl
  | cons b word ih =>
    rw [List.cons_append, meets_plain hT (hword b List.mem_cons_self)]
    exact ih fun b' hb' => hword b' (List.mem_cons_of_mem b hb')

/-- A quoted text is passed, whatever is in it. -/
theorem meets_quoted (hT : Final T) (hq : q = 39 ∨ q = 34) (hword : q ∉ word) :
    Meets T (q :: (word ++ q :: str)) ↔ Meets T str := by
  obtain ⟨-, hplain, hop⟩ := quote_excludes q hq
  refine ⟨fun h => ?_, .quoted hq hword⟩
  generalize htail : word ++ q :: str = tail at h
  cases h with
  | here h => exact absurd h (hT.quote hq)
  | plain h _ => exact (ne_of_false_of_true hplain h).elim
  | @quoted _ word' str' _ hword' h =>
    have hrest := congrArg (List.dropWhile fun b => b != q) htail
    rw [dropWhile_quote hword, dropWhile_quote hword'] at hrest
    rw [(List.cons.inj hrest).2]
    exact h
  | pair h _ => exact (ne_of_false_of_true hop (isOperatorByte_of_pair q h)).elim
  | single h _ _ _ => exact (ne_of_false_of_true hop h).elim

/-- A quote that is not closed is not passed. -/
theorem not_meets_quote (hT : Final T) (hq : q = 39 ∨ q = 34) (hstr : q ∉ str) :
    ¬ Meets T (q :: str) := by
  obtain ⟨-, hplain, hop⟩ := quote_excludes q hq
  intro h
  cases h with
  | here h => exact hT.quote hq h
  | plain h _ => exact ne_of_false_of_true hplain h
  | quoted _ _ _ => exact hstr (List.mem_append_right _ List.mem_cons_self)
  | pair h _ => exact ne_of_false_of_true hop (isOperatorByte_of_pair q h)
  | single h _ _ _ => exact ne_of_false_of_true hop h

/-- What is behind an operator byte if something is met. -/
theorem Meets.operator (h : Meets T (c :: str)) (hc : isOperatorByte c) :
    T (c :: str)
      ∨ (∃ e rest, isPairByte c ∧ str = 61 :: e :: rest ∧ Meets T (e :: rest))
      ∨ ∃ d e rest, c ≠ 33 ∧ (isPairByte c = false ∨ d ≠ 61) ∧ str = d :: e :: rest
        ∧ Meets T (d :: e :: rest) := by
  obtain ⟨-, hplain, hquote⟩ := operator_excludes c hc
  cases h with
  | here h => exact Or.inl h
  | plain h _ => exact (ne_of_false_of_true hplain h).elim
  | quoted hq _ _ => exact absurd hq hquote
  | pair hpair h => exact Or.inr (Or.inl ⟨_, _, hpair, rfl, h⟩)
  | single _ hne hd h => exact Or.inr (Or.inr ⟨_, _, _, hne, hd, rfl, h⟩)

end

/-- What begins with an unknown byte. -/
def BeginsUnknown (str : Bytes) : Prop := ∃ c ∈ str.head?, isUnknown c

theorem beginsUnknown_cons (c : UInt8) (str : Bytes) : BeginsUnknown (c :: str) ↔ isUnknown c := by
  refine ⟨fun ⟨_, hhead, h⟩ => ?_, fun h => ⟨c, rfl, h⟩⟩
  rwa [Option.some.inj hhead]

theorem final_beginsUnknown : Final BeginsUnknown where
  plain {c str} hc h :=
    ne_of_false_of_true (plain_excludes c hc).1 ((beginsUnknown_cons c str).mp h)
  quote {q str} hq h :=
    ne_of_false_of_true (quote_excludes q hq).1 ((beginsUnknown_cons q str).mp h)
  operator {c _ _ _} hc h :=
    ne_of_false_of_true (operator_excludes c hc).1 ((beginsUnknown_cons c _).mp h)

theorem meetsUnknown_iff (str : Bytes) : MeetsUnknown str ↔ Meets BeginsUnknown str := by
  constructor
  · intro h
    induction h with
    | here hc => exact .here ⟨_, rfl, hc⟩
    | plain hc _ ih => exact .plain hc ih
    | quoted hq hword _ ih => exact .quoted hq hword ih
    | pair hc _ ih => exact .pair hc ih
    | single hc hne hd _ ih => exact .single hc hne hd ih
  · intro h
    induction h with
    | @here str h =>
      obtain ⟨c, hhead, hc⟩ := h
      obtain ⟨rest, rfl⟩ := List.head?_eq_some_iff.mp hhead
      exact .here hc
    | plain hc _ ih => exact .plain hc ih
    | quoted hq hword _ ih => exact .quoted hq hword ih
    | pair hc _ ih => exact .pair hc ih
    | single hc hne hd _ ih => exact .single hc hne hd ih

/-! ## Every round of the loop -/

/-- **The bytes that a round passes**, with what is left behind them: bytes of a word
or a number or one that stands alone, a text with its quotes, or an operator. -/
inductive Piece : Bytes → Bytes → Prop
  | plain {word rest : Bytes} (hne : word ≠ []) (hword : ∀ b ∈ word, isPlain b) : Piece word rest
  | quoted {q : UInt8} {word rest : Bytes} (hq : q = 39 ∨ q = 34) (hword : q ∉ word) :
      Piece (q :: (word ++ [q])) rest
  | pair {c e : UInt8} {rest : Bytes} (hc : isPairByte c) : Piece [c, 61] (e :: rest)
  | single {c d e : UInt8} {rest : Bytes} (hc : isOperatorByte c) (hne : c ≠ 33)
      (hd : isPairByte c = false ∨ d ≠ 61) : Piece [c] (d :: e :: rest)

/-- **Where a round throws**: at a quote that is not closed, at an operator byte with
less than two bytes behind it, or at a `!` with no `=` behind it. -/
inductive Stuck : Bytes → Prop
  | quote {q : UInt8} {str : Bytes} (hq : q = 39 ∨ q = 34) (hstr : q ∉ str) : Stuck (q :: str)
  | short {c : UInt8} {str : Bytes} (hc : isOperatorByte c) (hstr : str.length < 2) :
      Stuck (c :: str)
  | bang {d : UInt8} {str : Bytes} (hd : d ≠ 61) : Stuck (33 :: d :: str)

section

variable {c : UInt8} {str piece rest : Bytes} {line pos : ℕ}

theorem Piece.length_pos (h : Piece piece rest) : 1 ≤ piece.length := by
  cases h with
  | plain hne _ => exact List.length_pos_iff.mpr hne
  | quoted _ _ => exact Nat.le_add_left 1 _
  | pair _ => exact Nat.le_add_left 1 _
  | single _ _ _ => exact le_rfl

/-- What is met behind a piece is met in front of it, and the other way round. -/
theorem Piece.meets {T : Bytes → Prop} (hT : Final T) (h : Piece piece rest) :
    Meets T (piece ++ rest) ↔ Meets T rest := by
  cases h with
  | plain _ hword => exact meets_append hT hword
  | @quoted q word _ hq hword =>
    rw [List.cons_append, List.append_assoc]
    exact meets_quoted hT hq hword
  | @pair c e rest hbyte =>
    refine ⟨fun h => ?_, .pair hbyte⟩
    have hc := isOperatorByte_of_pair c hbyte
    rcases h.operator hc with h | ⟨_, _, -, htail, h⟩ | ⟨_, _, _, -, hnot, htail, -⟩
    · exact absurd h (hT.operator hc)
    · obtain ⟨rfl, rfl⟩ := List.cons.inj (List.cons.inj htail).2
      exact h
    · obtain ⟨rfl, -⟩ := List.cons.inj htail
      exact (hnot.elim (fun h => ne_of_false_of_true h hbyte) (fun h => h rfl)).elim
  | @single c d e rest hc hne hd =>
    refine ⟨fun h => ?_, .single hc hne hd⟩
    rcases h.operator hc with h | ⟨_, _, hbyte, htail, -⟩ | ⟨_, _, _, -, -, htail, h⟩
    · exact absurd h (hT.operator hc)
    · obtain ⟨rfl, -⟩ := List.cons.inj htail
      exact (hd.elim (fun h => ne_of_false_of_true h hbyte) (fun h => h rfl)).elim
    · have hrest : d :: e :: rest = _ := htail
      rw [hrest]
      exact h

/-- Where a round throws, nothing is met but what is there. -/
theorem Stuck.not_meets {T : Bytes → Prop} (hT : Final T) (h : Stuck str) (hnot : ¬ T str) :
    ¬ Meets T str := by
  intro hmeets
  cases h with
  | quote hq hstr => exact not_meets_quote hT hq hstr hmeets
  | @short c str hc hstr =>
    rcases hmeets.operator hc with h | ⟨_, _, -, rfl, -⟩ | ⟨_, _, _, -, -, rfl, -⟩
    · exact hnot h
    · exact absurd hstr (Nat.not_lt.mpr (Nat.le_add_left 2 _))
    · exact absurd hstr (Nat.not_lt.mpr (Nat.le_add_left 2 _))
  | bang hd =>
    rcases hmeets.operator (by decide) with h | ⟨_, _, -, htail, -⟩ | ⟨_, _, _, hne, -, -, -⟩
    · exact hnot h
    · exact hd (List.cons.inj htail).1
    · exact hne rfl

/-- What a round throws at does not begin with an unknown byte. -/
theorem Stuck.not_beginsUnknown (h : Stuck str) : ¬ BeginsUnknown str := by
  cases h with
  | quote hq _ => exact final_beginsUnknown.quote hq
  | @short c str hc _ =>
    rw [beginsUnknown_cons, (operator_excludes c hc).1]
    exact Bool.false_ne_true
  | bang _ =>
    rw [beginsUnknown_cons]
    exact Bool.false_ne_true

/-- What a round of the loop can do at `c`, with `str` behind it: throw, pass a
piece of what is left, or stay where it is because no case knows `c`. -/
def Moves (c : UInt8) (str : Bytes) (line pos : ℕ) (r : Except LexStop Iteration) : Prop :=
  (∃ e, r = .error (.threw e) ∧ Stuck (c :: str))
    ∨ (∃ round piece rest, r = .ok round ∧ c :: str = piece ++ rest
        ∧ round.consumed = piece.length ∧ Piece piece rest)
    ∨ (isUnknown c ∧ r = .ok { consumed := 0, line, pos })

/-- A round that adds a token and passes its bytes. -/
theorem moves_ofToken {value : Bytes} {detail : SqlTokenDetail}
    (hsplit : c :: str = piece ++ rest) (hpiece : Piece piece rest) :
    Moves c str line pos (.ok (.ofToken value detail piece.length line pos)) :=
  Or.inr (Or.inl ⟨_, piece, rest, rfl, hsplit, rfl, hpiece⟩)

/-- A round that passes one byte which stands alone. -/
theorem moves_plain (hc : isPlain c) {round : Iteration} (hround : round.consumed = 1) :
    Moves c str line pos (.ok round) := by
  have hpiece : Piece [c] str := .plain (List.cons_ne_nil c []) fun b hb => by
    rw [List.mem_singleton.mp hb]
    exact hc
  exact Or.inr (Or.inl ⟨round, [c], str, rfl, rfl, hround, hpiece⟩)

theorem length_toLower (word : Bytes) : (toLower word).length = word.length := List.length_map _

theorem isPlain_of_wordByte (c : UInt8)
    (hc : (isLetter c || isDigit c || decide (c = 95)) = true) : isPlain c := by
  simp only [Bool.or_eq_true] at hc
  unfold isPlain isAlpha
  rcases hc with (h | h) | h <;> simp [h]

theorem wordByte_of_alpha (c : UInt8) (hc : isAlpha c) :
    (isLetter c || isDigit c || decide (c = 95)) = true := by
  simp only [isAlpha, Bool.or_eq_true] at hc
  rcases hc with h | h <;> simp [h]

theorem moves_word (hc : isAlpha c) : Moves c str line pos (.ok (.ofToken
    (toLower ((c :: str).take (getWordLength (c :: str))))
    (wordDetail (toLower ((c :: str).take (getWordLength (c :: str)))))
    (toLower ((c :: str).take (getWordLength (c :: str)))).length line pos)) := by
  have htake : (c :: str).take (getWordLength (c :: str))
      = (c :: str).takeWhile fun c => isLetter c || isDigit c || c = 95 :=
    (List.prefix_iff_eq_take.mp (List.takeWhile_prefix _)).symm
  rw [length_toLower, htake]
  refine moves_ofToken (List.takeWhile_append_dropWhile).symm (.plain ?_ fun b hb => ?_)
  · rw [List.takeWhile_cons_of_pos (by exact wordByte_of_alpha c hc)]
    exact List.cons_ne_nil _ _
  · exact isPlain_of_wordByte b (List.all_eq_true.mp List.all_takeWhile b hb)

theorem isPlain_of_digit (c : UInt8) (hc : isDigit c) : isPlain c := by
  simp [isPlain, hc]

theorem isPlain_of_space (c : UInt8) (hc : isSpace c) : isPlain c := by
  simp [isPlain, hc]

theorem isPlain_of_symbol (c : UInt8) (hc : isSymbolByte c) : isPlain c := by
  simp [isPlain, hc]

/-- The bytes of a number. -/
theorem isPlain_of_number : ∀ {dotFound : Bool} {str : Bytes},
    ∀ b ∈ str.take (getNumberLength dotFound str), isPlain b
  | _, [], b, hb => by
    rw [getNumberLength] at hb
    cases hb
  | dotFound, c :: str, b, hb => by
    rw [getNumberLength] at hb
    by_cases hdigit : isDigit c = true
    · rw [if_pos hdigit] at hb
      cases hb with
      | head => exact isPlain_of_digit c hdigit
      | tail _ hb => exact isPlain_of_number b hb
    · rw [if_neg hdigit] at hb
      by_cases hdot : (!dotFound && decide (c = 46)) = true
      · rw [if_pos hdot] at hb
        cases hb with
        | head =>
          rw [of_decide_eq_true (Bool.and_eq_true_iff.mp hdot).2]
          decide
        | tail _ hb => exact isPlain_of_number b hb
      · rw [if_neg hdot] at hb
        cases hb

theorem moves_number (hc : isDigit c) : Moves c str line pos (.ok (.ofToken
    ((c :: str).take (getNumberLength false (c :: str)))
    (numberDetail ((c :: str).take (getNumberLength false (c :: str))))
    ((c :: str).take (getNumberLength false (c :: str))).length line pos)) := by
  refine moves_ofToken (List.take_append_drop _ _).symm (.plain ?_ isPlain_of_number)
  rw [getNumberLength, if_pos hc, List.take_succ_cons]
  exact List.cons_ne_nil _ _

theorem moves_quoted (hc : c = 39 ∨ c = 34) (detail : SqlTokenDetail) (error : LexError) :
    Moves c str line pos (quoted c detail error str line pos) := by
  unfold quoted
  by_cases hclosed : str.contains c = true
  · rw [if_pos hclosed]
    obtain ⟨word, rest, rfl, hword⟩ :=
      List.eq_append_cons_of_mem (List.contains_iff_mem.mp hclosed)
    rw [takeWhile_quote hword]
    have hlength : word.length + 2 = (c :: (word ++ [c])).length := by simp
    have hsplit : c :: (word ++ c :: rest) = c :: (word ++ [c]) ++ rest := by simp
    dsimp only
    rw [hlength]
    exact moves_ofToken hsplit (.quoted hc hword)
  · rw [if_neg hclosed]
    exact Or.inl ⟨error, rfl, .quote hc fun hmem => hclosed (List.contains_iff_mem.mpr hmem)⟩

theorem moves_operator (hc : isOperatorByte c) : Moves c str line pos
    (match findOperator (c :: str) 3 with
      | some (op, detail) => .ok (.ofToken op (.operator detail) op.length line pos)
      | none => .error (.threw (.unknownOperator pos))) := by
  match str with
  | [] =>
    rw [findOperator_short (Nat.lt_of_sub_pos (by simp))]
    exact Or.inl ⟨_, rfl, .short hc (by simp)⟩
  | [d] =>
    rw [findOperator_short (Nat.lt_of_sub_pos (by simp))]
    exact Or.inl ⟨_, rfl, .short hc (by simp)⟩
  | d :: e :: rest =>
    have hfound := findOperator_long hc d e rest
    by_cases hpair : (isPairByte c && decide (d = 61)) = true
    · -- two bytes are passed
      obtain ⟨hbyte, hd⟩ := Bool.and_eq_true_iff.mp hpair
      obtain rfl : d = 61 := of_decide_eq_true hd
      rw [if_pos hpair] at hfound
      obtain ⟨op, hop, hfst⟩ := Option.map_eq_some_iff.mp hfound
      obtain ⟨word, detail⟩ := op
      obtain rfl : word = [c, 61] := hfst
      rw [hop]
      exact moves_ofToken rfl (.pair hbyte)
    · rw [if_neg hpair] at hfound
      have hsingle : isPairByte c = false ∨ d ≠ 61 := by
        rw [Bool.not_eq_true, Bool.and_eq_false_iff] at hpair
        exact hpair.imp_right of_decide_eq_false
      by_cases hbang : c = 33
      · -- there is no operator of this byte alone
        subst hbang
        rw [Option.map_eq_none_iff.mp hfound]
        exact Or.inl ⟨_, rfl, .bang (hsingle.resolve_left (by decide))⟩
      · rw [if_neg hbang] at hfound
        obtain ⟨op, hop, hfst⟩ := Option.map_eq_some_iff.mp hfound
        obtain ⟨word, detail⟩ := op
        obtain rfl : word = [c] := hfst
        rw [hop]
        exact moves_ofToken rfl (.single hc hbang hsingle)

/-- **Every round** throws, passes a piece, or stays at a byte that no case knows. -/
theorem moves_iterate (c : UInt8) (str : Bytes) (line pos : ℕ) :
    Moves c str line pos (iterate c str line pos) := by
  unfold iterate
  by_cases hspace : isSpace c = true
  · rw [if_pos hspace]
    split_ifs
    · exact moves_plain (isPlain_of_space c hspace) rfl
    · exact moves_plain (isPlain_of_space c hspace) rfl
  rw [if_neg hspace]
  by_cases halpha : isAlpha c = true
  · rw [if_pos halpha]
    exact moves_word halpha
  rw [if_neg halpha]
  by_cases hquote : c = 39
  · subst hquote
    exact moves_quoted (Or.inl rfl) _ _
  rw [if_neg hquote]
  by_cases hdouble : c = 34
  · subst hdouble
    exact moves_quoted (Or.inr rfl) _ _
  rw [if_neg hdouble]
  by_cases hdigit : isDigit c = true
  · rw [if_pos hdigit]
    exact moves_number hdigit
  rw [if_neg hdigit, startsAsOperator_eq c (Bool.eq_false_iff.mpr halpha)]
  by_cases hop : isOperatorByte c = true
  · rw [if_pos hop]
    exact moves_operator hop
  rw [if_neg hop]
  have hsymbol := lookup_symbolsMap c
  cases hfound : symbolsMap.lookup [c] with
  | some symbol =>
    rw [hfound] at hsymbol
    exact moves_plain (isPlain_of_symbol c hsymbol.symm) rfl
  | none =>
    rw [hfound] at hsymbol
    have hperiod : c ≠ 46 := by
      rintro rfl
      exact Bool.false_ne_true hsymbol
    show Moves c str line pos (if c = 46 then _ else _)
    rw [if_neg hperiod]
    refine Or.inr (Or.inr ⟨?_, rfl⟩)
    unfold isUnknown
    rw [← hsymbol, Bool.eq_false_iff.mpr hspace, Bool.eq_false_iff.mpr halpha,
      Bool.eq_false_iff.mpr hdigit, Bool.eq_false_iff.mpr hop, decide_eq_false hquote,
      decide_eq_false hdouble]
    rfl

end

/-- What a round of the loop can do at `c`, with `str` behind it: throw, move on,
or stay where it is because no case knows `c`. -/
def Round (c : UInt8) (str : Bytes) (line pos : ℕ) (r : Except LexStop Iteration) : Prop :=
  (∃ e, r = .error (.threw e) ∧ ¬ MeetsUnknown (c :: str))
    ∨ (∃ round, r = .ok round ∧ 1 ≤ round.consumed
        ∧ (MeetsUnknown (c :: str) ↔ MeetsUnknown ((c :: str).drop round.consumed)))
    ∨ (isUnknown c ∧ r = .ok { consumed := 0, line, pos })

/-- **Every round** throws, moves on, or stays at a byte that no case knows. -/
theorem round_iterate (c : UInt8) (str : Bytes) (line pos : ℕ) :
    Round c str line pos (iterate c str line pos) := by
  rcases moves_iterate c str line pos with ⟨e, herror, hstuck⟩ |
    ⟨round, piece, rest, hround, hsplit, hconsumed, hpiece⟩ | hunknown
  · refine Or.inl ⟨e, herror, fun h => ?_⟩
    exact hstuck.not_meets final_beginsUnknown hstuck.not_beginsUnknown
      ((meetsUnknown_iff _).mp h)
  · refine Or.inr (Or.inl ⟨round, hround, hconsumed ▸ hpiece.length_pos, ?_⟩)
    rw [hconsumed, hsplit, List.drop_left, meetsUnknown_iff, meetsUnknown_iff]
    exact hpiece.meets final_beginsUnknown
  · exact Or.inr (Or.inr hunknown)

/-! ## The loop -/

/-- **Where the loop gets to** in lexing a query: what is left of it, the line
and the position. -/
inductive Visits (query : Bytes) : Bytes → ℕ → ℕ → Prop
  | start : Visits query query 1 0
  | round {c : UInt8} {str : Bytes} {line pos : ℕ} {round : Iteration}
      (h : Visits query (c :: str) line pos) (hround : iterate c str line pos = .ok round) :
      Visits query ((c :: str).drop round.consumed) round.line round.pos

/-- **The lexer comes to an end**, with tokens or with an exception, and every
round on the way moves on or throws. -/
def Progresses (query : Bytes) : Prop :=
  (∃ fuel, lex fuel query ≠ .error .outOfFuel)
    ∧ ∀ c str line pos round, Visits query (c :: str) line pos →
      iterate c str line pos = .ok round → 1 ≤ round.consumed

/-- **A query with an unknown byte** is not lexed, however long one waits. -/
theorem MeetsUnknown.lexLoop_eq (fuel : ℕ) :
    ∀ {str : Bytes} {line pos : ℕ}, MeetsUnknown str →
      lexLoop fuel str line pos = .error .outOfFuel := by
  induction fuel with
  | zero => exact fun _ => rfl
  | succ fuel ih =>
    intro str line pos h
    cases str with
    | nil => cases h
    | cons c str =>
      rw [lexLoop]
      rcases round_iterate c str line pos with ⟨e, -, hnot⟩ | ⟨round, hround, -, hmeets⟩ |
        ⟨-, hround⟩
      · exact absurd h hnot
      · rw [hround]
        show (lexLoop fuel ((c :: str).drop round.consumed) round.line round.pos >>= _) = _
        rw [ih (hmeets.mp h)]
        rfl
      · rw [hround]
        show (lexLoop fuel (c :: str) line pos >>= _) = _
        rw [ih h]
        rfl

/-- A query without one is lexed: what is left gets shorter with every round. -/
theorem lexLoop_ne_outOfFuel {fuel : ℕ} :
    ∀ {str : Bytes} {line pos : ℕ}, ¬ MeetsUnknown str → str.length < fuel →
      lexLoop fuel str line pos ≠ .error .outOfFuel := by
  induction fuel with
  | zero => exact fun _ h => absurd h (Nat.not_lt_zero _)
  | succ fuel ih =>
    intro str line pos h hfuel
    cases str with
    | nil =>
      intro hrun
      cases hrun
    | cons c str =>
      rw [lexLoop]
      rcases round_iterate c str line pos with ⟨e, hround, -⟩ | ⟨round, hround, hpos, hmeets⟩ |
        ⟨hunknown, -⟩
      · rw [hround]
        intro hrun
        cases hrun
      · rw [hround]
        have hlength : ((c :: str).drop round.consumed).length < fuel := by
          rw [List.length_drop, List.length_cons]
          rw [List.length_cons] at hfuel
          omega
        have hrest : lexLoop fuel ((c :: str).drop round.consumed) round.line round.pos
            ≠ .error .outOfFuel := ih (mt hmeets.mpr h) hlength
        show (lexLoop fuel ((c :: str).drop round.consumed) round.line round.pos >>= _) ≠ _
        cases hloop : lexLoop fuel ((c :: str).drop round.consumed) round.line round.pos with
        | ok tokens =>
          intro hrun
          cases hrun
        | error stop =>
          rw [hloop] at hrest
          intro hrun
          exact hrest hrun
      · exact absurd (.here hunknown) h

/-- The loop gets to an unknown byte only if the query has one in its way. -/
theorem Visits.not_meetsUnknown {query str : Bytes} {line pos : ℕ}
    (h : Visits query str line pos) (hquery : ¬ MeetsUnknown query) : ¬ MeetsUnknown str := by
  induction h with
  | start => exact hquery
  | @round c str line pos r _ hround ih =>
    rcases round_iterate c str line pos with ⟨e, herror, -⟩ | ⟨r', hround', -, hmeets⟩ |
      ⟨hunknown, -⟩
    · rw [herror] at hround
      cases hround
    · rw [hround', Except.ok.injEq] at hround
      rw [← hround]
      exact mt hmeets.mpr ih
    · exact absurd (.here hunknown) ih

/-- **The lexer comes to an end** on exactly the queries that have no unknown byte
in its way. -/
theorem progresses_iff (query : Bytes) : Progresses query ↔ ¬ MeetsUnknown query := by
  constructor
  · rintro ⟨⟨fuel, hfuel⟩, -⟩ hmeets
    exact hfuel (hmeets.lexLoop_eq fuel)
  · intro h
    refine ⟨⟨query.length + 1, lexLoop_ne_outOfFuel h (Nat.lt_succ_self _)⟩, ?_⟩
    intro c str line pos round hvisits hround
    have hnot := hvisits.not_meetsUnknown h
    rcases round_iterate c str line pos with ⟨e, herror, -⟩ | ⟨round', hround', hpos, -⟩ |
      ⟨hunknown, -⟩
    · rw [herror] at hround
      cases hround
    · rw [hround', Except.ok.injEq] at hround
      rw [← hround]
      exact hpos
    · exact absurd (.here hunknown) hnot

/-- The query `@`. -/
theorem not_progresses : ¬ ∀ query, Progresses query := by
  intro h
  obtain ⟨⟨fuel, hfuel⟩, -⟩ := h [64]
  exact hfuel (MeetsUnknown.lexLoop_eq fuel (.here (by decide)))

end Lexer

end Sql
