import Deltabase.Sql.ParserSoundness
import Deltabase.Sql.Lexer

/-!
# When the parser comes to an end

`parse_primary` moves on behind a left parenthesis, and behind a `NOT` that is an
operator, and calls itself on what it finds there. On the last token there is
nothing behind it: the cursor stays, and the call finds the same token again. So
an expression that is **unfinished**, that is, whose last token is such an opener
(`Unfinished`), is never read to its end.

The parser does not come to an end exactly on the inputs on which it gets to
such an expression (`terminates_iff`): everything else that it calls itself or
loops for has moved on.
-/

namespace Sql

open SqlParser Stateful

/-! ## Unfinished expressions -/

/-- A token behind which `parse_primary` calls itself. -/
def IsOpener (t : SqlToken) : Prop := t.detail = .symbol .lparen ∨ t.detail = .operator .not

/-- **An unfinished expression**: operands with operators between them and openers
in front of them, up to an opener that is the last token. A `NOT` that is an
operator is one also where another operator could stand. -/
inductive Unfinished : List SqlToken → Prop
  | last {t : SqlToken} (h : IsOpener t) : Unfinished [t]
  | opener {t : SqlToken} {u : List SqlToken} (h : IsOpener t) (hu : Unfinished u) :
      Unfinished (t :: u)
  | operator {e : ExprNode} {t : SqlToken} {op op' : AstOperator} {o u : List SqlToken}
      (ht : Operand e t) (ho : OperatorTokens op op' o) (hu : Unfinished u) :
      Unfinished (t :: (o ++ u))
  | negation {e : ExprNode} {t n : SqlToken} (ht : Operand e t) (hn : n.detail = .operator .not) :
      Unfinished [t, n]

/-- **What an unfinished expression goes on with behind an operand**, at the
priority `p`. -/
inductive Resumes (p : ℕ) : List SqlToken → Prop
  | operator {op op' : AstOperator} {o u : List SqlToken} (ho : OperatorTokens op op' o)
      (hp : priority op < p) (hu : Unfinished u) : Resumes p (o ++ u)
  | negation {n : SqlToken} (hn : n.detail = .operator .not) (hp : priority .not < p) :
      Resumes p [n]

/-- No expression goes on with an operator below every priority. -/
theorem not_resumes_zero {rest : List SqlToken} : ¬ Resumes 0 rest := by
  intro h
  cases h with
  | operator _ hp _ => exact absurd hp (Nat.not_lt_zero _)
  | negation _ hp => exact absurd hp (Nat.not_lt_zero _)

theorem Resumes.mono {p q : ℕ} {rest : List SqlToken} (h : Resumes p rest) (hpq : p ≤ q) :
    Resumes q rest := by
  cases h with
  | operator ho hp hu => exact .operator ho (hp.trans_le hpq) hu
  | negation hn hp => exact .negation hn (hp.trans_le hpq)

theorem Unfinished.ne_nil {u : List SqlToken} (h : Unfinished u) : u ≠ [] := by
  cases h <;> exact List.cons_ne_nil _ _

/-- An unfinished expression does not begin with the keyword `NOT`. -/
theorem Unfinished.head {u : List SqlToken} (h : Unfinished u) :
    ∃ t ts, u = t :: ts ∧ t.detail ≠ .keyword .not := by
  have hopener : ∀ {t : SqlToken}, IsOpener t → t.detail ≠ .keyword .not := by
    rintro t (ht | ht)
    · rw [ht]
      exact SqlTokenDetail.noConfusion
    · rw [ht]
      exact SqlTokenDetail.noConfusion
  cases h with
  | last h => exact ⟨_, _, rfl, hopener h⟩
  | opener h _ => exact ⟨_, _, rfl, hopener h⟩
  | operator ht _ _ => exact ⟨_, _, rfl, (not_operand ht).2.2⟩
  | negation ht _ => exact ⟨_, _, rfl, (not_operand ht).2.2⟩

/-! ## They are not read to their end -/

section Endless

variable {fuel p : ℕ} {s s' : SqlParser} {e left : ExprNode}

/-- A run that has run out of fuel, or come to an operator of a low priority. -/
def OutOrResumes (p : ℕ) (r : EStateM.Result ParseStop SqlParser ExprNode) : Prop :=
  (∃ s', r = .error .outOfFuel s') ∨ ∃ e s', r = .ok e s' ∧ Resumes p s'.rest

theorem priority_not_lt : priority .not < operandPriority := by decide

theorem operatorOf_not {n : SqlToken} (h : n.detail = .operator .not) :
    operatorOf n = some .not := by
  rw [operatorOf, h]
  rfl

/-- An opener: the parser is on an unfinished expression again. -/
theorem outOrResumes_opener {t : SqlToken} {ts : List SqlToken} (hrest : s.rest = t :: ts)
    (ht : IsOpener t) (htree : OutOrResumes 0 (parseBinaryTree fuel 0 s.next))
    (hprimary : OutOrResumes operandPriority (parsePrimary fuel s.next)) :
    OutOrResumes operandPriority (parsePrimary (fuel + 1) s) := by
  rcases ht with hlp | hnot
  · rw [parsePrimary_paren hrest hlp, parseParenthesized]
    rcases htree with ⟨s₁, hout⟩ | ⟨e, s₁, -, hresumes⟩
    · exact Or.inl ⟨s₁, bind_error hout⟩
    · exact absurd hresumes not_resumes_zero
  · rw [parsePrimary_not hrest hnot, parseNegation]
    rcases hprimary with ⟨s₁, hout⟩ | ⟨e, s₁, hok, hresumes⟩
    · exact Or.inl ⟨s₁, bind_error hout⟩
    · refine Or.inr ⟨.prefixExpr .not e, s₁, ?_, hresumes⟩
      rw [bind_ok hok]
      rfl

/-- **No method comes to the end of an unfinished expression.** -/
theorem outOrResumes (fuel : ℕ) :
    (∀ {s : SqlParser}, Unfinished s.rest →
        OutOrResumes operandPriority (parsePrimary fuel s))
      ∧ (∀ {p : ℕ} {s : SqlParser}, Unfinished s.rest → OutOrResumes p (parseBinaryTree fuel p s))
      ∧ ∀ {p : ℕ} {left : ExprNode} {s : SqlParser}, Resumes operandPriority s.rest →
        OutOrResumes p (parseBinaryLoop fuel p left s) := by
  induction fuel with
  | zero =>
    refine ⟨fun {s} _ => Or.inl ⟨s, ?_⟩, fun {p s} _ => Or.inl ⟨s, ?_⟩,
      fun {p left s} _ => Or.inl ⟨s, ?_⟩⟩
    · rw [parsePrimary]
      rfl
    · rw [parseBinaryTree]
      rfl
    · rw [parseBinaryLoop]
      rfl
  | succ fuel ih =>
    obtain ⟨hprimary, htree, hloop⟩ := ih
    refine ⟨fun {s} h => ?_, fun {p s} h => ?_, fun {p left s} h => ?_⟩
    · -- an operand or an opener
      generalize hrest : s.rest = u at h
      cases h with
      | @last t ht =>
        have hagain : Unfinished s.next.rest := by
          rw [next_of_single hrest, hrest]
          exact .last ht
        exact outOrResumes_opener hrest ht (htree hagain) (hprimary hagain)
      | @opener t u ht hu =>
        have hnext : Unfinished s.next.rest := by
          rw [rest_next hrest hu.ne_nil]
          exact hu
        exact outOrResumes_opener hrest ht (htree hnext) (hprimary hnext)
      | @operator e t op op' o u ht ho hu =>
        refine Or.inr ⟨e, s.next, parsePrimary_operand hrest ht, ?_⟩
        rw [rest_next hrest (List.append_ne_nil_of_right_ne_nil o hu.ne_nil)]
        exact .operator ho (priority_lt op) hu
      | @negation e t n ht hn =>
        refine Or.inr ⟨e, s.next, parsePrimary_operand hrest ht, ?_⟩
        rw [rest_next hrest (List.cons_ne_nil _ _)]
        exact .negation hn priority_not_lt
    · -- a tree goes on behind its first operand
      rw [parseBinaryTree]
      rcases hprimary h with ⟨s₁, hout⟩ | ⟨e, s₁, hok, hresumes⟩
      · exact Or.inl ⟨s₁, bind_error hout⟩
      · rw [bind_ok hok]
        exact hloop hresumes
    · -- an operator is left to a loop outside, or read
      generalize hrest : s.rest = u at h
      cases h with
      | @operator op op' o u ho _ hu =>
        obtain ⟨t, o', rfl, hop⟩ := ho.head
        by_cases hp : priority op < p
        · refine Or.inr ⟨left, s, parseBinaryLoop_lt hrest hop hp, ?_⟩
          rw [hrest]
          exact .operator ho hp hu
        · obtain ⟨x, xs, rfl, hx⟩ := hu.head
          have hright : (skip (t :: o') s).rest = x :: xs := rest_skip hrest (List.cons_ne_nil _ _)
          rw [parseBinaryLoop_ge hrest hop (Nat.not_lt.mp hp),
            bind_ok (readIsNot_tokens ho hx hrest)]
          have hunfinished : Unfinished (skip (t :: o') s).rest := by
            rw [hright]
            exact hu
          rcases htree hunfinished with ⟨s₁, hout⟩ | ⟨e, s₁, hok, hresumes⟩
          · exact Or.inl ⟨s₁, bind_error hout⟩
          · rw [bind_ok hok]
            exact hloop (hresumes.mono (Nat.succ_le_of_lt (priority_lt op)))
      | @negation n hn _ =>
        by_cases hp : priority .not < p
        · refine Or.inr ⟨left, s, parseBinaryLoop_lt hrest (operatorOf_not hn) hp, ?_⟩
          rw [hrest]
          exact .negation hn hp
        · have hread : readIsNot .not s.next = .ok .not s := by
            rw [next_of_single hrest, readIsNot_eq hrest, if_neg fun h => by cases h.1]
          rw [parseBinaryLoop_ge hrest (operatorOf_not hn) (Nat.not_lt.mp hp), bind_ok hread]
          have hagain : Unfinished s.rest := by
            rw [hrest]
            exact .last (Or.inr hn)
          rcases htree hagain with ⟨s₁, hout⟩ | ⟨e, s₁, hok, hresumes⟩
          · exact Or.inl ⟨s₁, bind_error hout⟩
          · rw [bind_ok hok]
            exact hloop (hresumes.mono (Nat.succ_le_of_lt priority_not_lt))

/-- **An unfinished expression uses up all fuel.** -/
theorem parseBinaryExpr_unfinished (h : Unfinished s.rest) :
    ∃ s', parseBinaryExpr fuel 0 s = .error .outOfFuel s' := by
  rcases (outOrResumes fuel).2.1 (p := 0) h with ⟨s', hout⟩ | ⟨e, s', -, hresumes⟩
  · exact ⟨s', bind_error hout⟩
  · exact absurd hresumes not_resumes_zero

end Endless

/-! ## Everything else is -/

/-- **A run that has come to an end**: it has returned or thrown. -/
def Ends {α : Type} (r : EStateM.Result ParseStop SqlParser α) : Prop :=
  (∃ a s, r = .ok a s) ∨ Threw r

section Expressions

variable {α β : Type} {fuel p : ℕ} {s s' : SqlParser} {e left : ExprNode}

theorem ends_bind {x : Parse α} {f : α → Parse β} (hx : Ends (x s))
    (hf : ∀ a s₁, x s = .ok a s₁ → Ends (f a s₁)) : Ends ((x >>= f) s) := by
  rcases hx with ⟨a, s₁, hok⟩ | ⟨e, s₁, hthrew⟩
  · rw [bind_ok hok]
    exact hf a s₁ hok
  · exact Or.inr ⟨e, s₁, bind_error hthrew⟩

theorem ends_ok {a : α} {r : EStateM.Result ParseStop SqlParser α} (h : r = .ok a s) : Ends r :=
  Or.inl ⟨a, s, h⟩

theorem ends_threw {e : ParseError} {r : EStateM.Result ParseStop SqlParser α}
    (h : r = .error (.threw e) s) : Ends r := Or.inr ⟨e, s, h⟩

theorem ends_toBinaryExpr (node : ExprNode) : Ends (toBinaryExpr node s) := by
  unfold toBinaryExpr
  split_ifs
  · exact ends_ok rfl
  · exact ends_threw rfl

theorem ends_parseParenthesized (h : Ends (parseBinaryTree fuel 0 s)) :
    Ends (parseParenthesized fuel s) := by
  refine ends_bind h fun tree s₁ _ => ends_bind (ends_toBinaryExpr tree) fun node s₂ _ =>
    ends_bind (ends_ok rfl) fun b s₃ _ => ?_
  split_ifs
  · exact ends_ok rfl
  · exact ends_threw rfl

theorem ends_parseNegation (h : Ends (parsePrimary fuel s)) : Ends (parseNegation fuel s) :=
  ends_bind h fun _ _ _ => ends_ok rfl

/-- **An operand and what an unfinished expression goes on with** make an unfinished
expression, and so does every expression that has been read in front of it. -/
theorem OpenRendering.unfinished {w after : List SqlToken} (h : OpenRendering 0 p e w)
    (hafter : Resumes operandPriority after) : Unfinished (w ++ after) := by
  generalize hk : 0 = k at h
  induction h generalizing after with
  | operand ht =>
    cases hafter with
    | @operator op op' o u ho _ hu =>
      have hunfinished : Unfinished (_ :: (o ++ u)) := .operator ht ho hu
      exact hunfinished
    | negation hn _ => exact .negation ht hn
  | paren _ _ _ _ => cases hk
  | negation hn _ ih => exact .opener (Or.inr hn) (ih hafter hk)
  | @binary k p op op' l r wl o wr ho _ _ _ ihl ihr =>
    rw [List.append_assoc, List.append_assoc]
    exact ihl (.operator ho (priority_lt op) (ihr hafter hk)) rfl

/-- What an expression that has been read is followed by. -/
theorem Read.unfinished {after w : List SqlToken} {k : ℕ} (hw : OpenRendering k p e w)
    (hfollows : Follows k p after) (hafter : Resumes operandPriority after) :
    Unfinished (w ++ after) := by
  cases k with
  | zero => exact hw.unfinished hafter
  | succ k =>
    -- a right parenthesis does not go on with an expression
    obtain ⟨rp, ts, rfl, hrp⟩ : Closes after := hfollows
    generalize hrest : rp :: ts = rest at hafter
    cases hafter with
    | operator ho _ _ =>
      obtain ⟨t, o', rfl, hop⟩ := ho.head
      obtain ⟨rfl, -⟩ := List.cons.inj hrest
      rw [operatorOf_rparen hrp] at hop
      cases hop
    | negation hn _ =>
      obtain ⟨rfl, -⟩ := List.cons.inj hrest
      rw [hrp] at hn
      cases hn

/-- A loop on the last token of what has been read ends. -/
theorem ends_loop_last {k : ℕ} {w : List SqlToken} (hw : OpenRendering k p e w)
    (hrest : s.rest = w) (q : ℕ) : Ends (parseBinaryLoop (fuel + 1) q left (skip w s)) := by
  obtain ⟨w', t, e', rfl, ht⟩ := hw.last
  exact ends_ok (parseBinaryLoop_none (rest_skip_last hrest) (operatorOf_operand ht))

/-- A token that no expression begins with is thrown at. -/
theorem threw_tree {t : SqlToken} (hrest : s.rest = [t]) (hlp : t.detail ≠ .symbol .lparen)
    (hnot : t.detail ≠ .operator .not) (hoperand : ∀ e, ¬ Operand e t) (q : ℕ) :
    Threw (parseBinaryTree (fuel + 2) q s) := by
  rcases parsePrimary_cases fuel hrest with h | h | ⟨e, h⟩ | hthrew
  · exact absurd h hlp
  · exact absurd h hnot
  · exact absurd h (hoperand e)
  · rw [parseBinaryTree]
    exact ⟨_, _, bind_error hthrew⟩

theorem threw_bind {x : Parse α} {f : α → Parse β} (h : Threw (x s)) : Threw ((x >>= f) s) := by
  obtain ⟨e, s₁, hx⟩ := h
  exact ⟨e, s₁, bind_error hx⟩

/-- `parse_primary` comes to an end, unless the expression is unfinished, with three
units of fuel for each token. -/
def PrimaryEnds (fuel : ℕ) : Prop :=
  ∀ {s : SqlParser}, s.rest ≠ [] → 3 * s.rest.length ≤ fuel →
    Ends (parsePrimary fuel s) ∨ Unfinished s.rest

/-- So does `parse_binary_tree`. -/
def TreeEnds (fuel : ℕ) : Prop :=
  ∀ {p : ℕ} {s : SqlParser}, p ≤ operandPriority → s.rest ≠ [] → 3 * s.rest.length + 1 ≤ fuel →
    Ends (parseBinaryTree fuel p s) ∨ Unfinished s.rest

/-- And its loop. -/
def LoopEnds (fuel : ℕ) : Prop :=
  ∀ {p : ℕ} {left : ExprNode} {s : SqlParser}, s.rest ≠ [] → 3 * s.rest.length + 1 ≤ fuel →
    Ends (parseBinaryLoop fuel p left s) ∨ Resumes operandPriority s.rest

theorem primaryEnds_succ (htree : TreeEnds fuel) (hprimary : PrimaryEnds fuel) :
    PrimaryEnds (fuel + 1) := by
  intro s hne hfuel
  obtain ⟨t, ts, hrest⟩ := List.exists_cons_of_ne_nil hne
  rw [hrest] at hfuel ⊢
  rw [List.length_cons] at hfuel
  -- what is behind an opener that is not the last token
  have hnext : ∀ {x xs}, ts = x :: xs →
      s.next.rest = ts ∧ s.next.rest ≠ [] ∧ 3 * s.next.rest.length + 1 ≤ fuel := by
    rintro x xs rfl
    have hnext : s.next.rest = x :: xs := rest_next hrest (List.cons_ne_nil _ _)
    refine ⟨hnext, hnext ▸ List.cons_ne_nil _ _, ?_⟩
    rw [hnext]
    omega
  rcases parsePrimary_cases fuel hrest with hlp | hnot | ⟨e, ht⟩ | hthrew
  · rw [parsePrimary_paren hrest hlp]
    cases ts with
    | nil => exact Or.inr (.last (Or.inl hlp))
    | cons x xs =>
      obtain ⟨hx, hne', hfuel'⟩ := hnext rfl
      rw [← hx]
      exact (htree (Nat.zero_le _) hne' hfuel').imp ends_parseParenthesized (.opener (Or.inl hlp))
  · rw [parsePrimary_not hrest hnot]
    cases ts with
    | nil => exact Or.inr (.last (Or.inr hnot))
    | cons x xs =>
      obtain ⟨hx, hne', hfuel'⟩ := hnext rfl
      rw [← hx]
      exact (hprimary hne' (Nat.le_of_succ_le hfuel')).imp ends_parseNegation
        (.opener (Or.inr hnot))
  · exact Or.inl (ends_ok (parsePrimary_operand hrest ht))
  · exact Or.inl (ends_threw hthrew)

/-- The loop behind an expression that has been read. -/
theorem ends_loop_read (hloop : LoopEnds fuel) {k q : ℕ} {w after : List SqlToken}
    (hw : OpenRendering k q e w) (hfollows : Follows k q after) (hrest : s.rest = w ++ after)
    (hfuel : 3 * s.rest.length ≤ fuel) :
    Ends (parseBinaryLoop fuel p left (skip w s)) ∨ Unfinished s.rest := by
  have hlength := List.length_pos_iff.mpr hw.ne_nil
  have hsplit : s.rest.length = w.length + after.length := by
    rw [hrest, List.length_append]
  obtain ⟨f, rfl⟩ : ∃ f, fuel = f + 1 := ⟨fuel - 1, by omega⟩
  cases after with
  | nil =>
    rw [List.append_nil] at hrest
    exact Or.inl (ends_loop_last hw hrest p)
  | cons x xs =>
    have hat : (skip w s).rest = x :: xs := rest_skip hrest (List.cons_ne_nil _ _)
    have hends : Ends (parseBinaryLoop (f + 1) p left (skip w s))
        ∨ Resumes operandPriority (skip w s).rest := by
      refine hloop (hat ▸ List.cons_ne_nil _ _) ?_
      rw [hat]
      omega
    rw [hat] at hends
    rw [hrest]
    exact hends.imp_right (Read.unfinished hw hfollows)

theorem treeEnds_succ (hprimary : PrimaryEnds fuel) (hloop : LoopEnds fuel) :
    TreeEnds (fuel + 1) := by
  intro p s hp hne hfuel
  have hfuel := Nat.le_of_succ_le_succ hfuel
  rw [parseBinaryTree]
  rcases hprimary hne hfuel with (⟨e, s₁, hok⟩ | hthrew) | hunfinished
  · rw [bind_ok hok]
    obtain ⟨k, w, after, hrest, hw, hfollows, rfl⟩ := (sound fuel).1 hok
    exact ends_loop_read hloop (hw operandPriority) hfollows hrest hfuel
  · exact Or.inl (Or.inr (threw_bind hthrew))
  · exact Or.inr hunfinished

theorem loopEnds_succ (htree : TreeEnds fuel) (hloop : LoopEnds fuel) : LoopEnds (fuel + 1) := by
  intro p left s hne hfuel
  obtain ⟨t, ts, hrest⟩ := List.exists_cons_of_ne_nil hne
  rw [hrest] at hfuel ⊢
  rw [List.length_cons] at hfuel
  cases ho : operatorOf t with
  | none => exact Or.inl (ends_ok (parseBinaryLoop_none hrest ho))
  | some op =>
    by_cases hlt : priority op < p
    · exact Or.inl (ends_ok (parseBinaryLoop_lt hrest ho hlt))
    rw [parseBinaryLoop_ge hrest ho (Nat.not_lt.mp hlt)]
    rcases readIsNot_next hrest ho with
      ⟨op', o, ts', hne', htokens, hoperator, hread⟩ | ⟨op', x, s₁, hread, hx, hlast⟩
    · -- the expression behind the operator, and the loop behind that
      rw [bind_ok hread, htokens]
      have hright : (skip o s).rest = ts' := rest_skip (hrest.trans htokens) hne'
      have hlength : o.length + ts'.length = ts.length + 1 := by
        rw [← List.length_append, ← htokens, List.length_cons]
      have hpos : 0 < o.length := by
        obtain ⟨x, o', rfl, -⟩ := hoperator.head
        exact Nat.succ_pos _
      have hfuel' : 3 * (skip o s).rest.length + 1 ≤ fuel := by
        rw [hright]
        omega
      have hresumes : Unfinished (skip o s).rest → Resumes operandPriority (o ++ ts') := by
        intro hunfinished
        rw [hright] at hunfinished
        exact .operator hoperator (priority_lt op) hunfinished
      rcases htree (priority_lt op) (hright ▸ hne') hfuel' with
        (⟨e, s₁, hok⟩ | hthrew) | hunfinished
      · rw [bind_ok hok]
        obtain ⟨k, w, after, hw', hw, hfollows, rfl⟩ := parseBinaryTree_sound (priority_lt op) hok
        exact (ends_loop_read hloop hw hfollows hw' (Nat.le_of_succ_le hfuel')).imp_right hresumes
      · exact Or.inl (Or.inr (threw_bind hthrew))
      · exact Or.inr (hresumes hunfinished)
    · -- the operator is the last token
      rw [bind_ok hread]
      obtain ⟨f, rfl⟩ : ∃ f, fuel = f + 2 := ⟨fuel - 2, by omega⟩
      rcases hlast with ⟨rfl, rfl⟩ | hnot
      · by_cases hnot : x.detail = .operator .not
        · exact Or.inr (.negation hnot priority_not_lt)
        · have hlp : x.detail ≠ .symbol .lparen := fun hlp => by
            rw [operatorOf, hlp] at ho
            cases ho
          exact Or.inl (Or.inr (threw_bind
            (threw_tree hx hlp hnot (fun _ => operator_ne_operand ho) _)))
      · have hne : ∀ {d}, d ≠ SqlTokenDetail.keyword .not → x.detail ≠ d := fun hd h =>
          hd (h.symm.trans hnot)
        exact Or.inl (Or.inr (threw_bind (threw_tree hx (hne SqlTokenDetail.noConfusion)
          (hne SqlTokenDetail.noConfusion) (fun _ h => (not_operand h).2.2 hnot) _)))

theorem ends (fuel : ℕ) : PrimaryEnds fuel ∧ TreeEnds fuel ∧ LoopEnds fuel := by
  induction fuel with
  | zero =>
    refine ⟨fun {s} hne hfuel => ?_, fun {p s} _ _ hfuel => ?_, fun {p left s} _ hfuel => ?_⟩
    · have hlength := List.length_pos_iff.mpr hne
      exact absurd (Nat.le_zero.mp hfuel) (Nat.mul_pos (Nat.succ_pos 2) hlength).ne'
    · exact absurd hfuel (Nat.not_succ_le_zero _)
    · exact absurd hfuel (Nat.not_succ_le_zero _)
  | succ fuel ih =>
    obtain ⟨hprimary, htree, hloop⟩ := ih
    exact ⟨primaryEnds_succ htree hprimary, treeEnds_succ hprimary hloop,
      loopEnds_succ htree hloop⟩

/-- **A binary expression is read or thrown at**, unless it is unfinished. -/
theorem ends_parseBinaryExpr (hne : s.rest ≠ []) (hfuel : 3 * s.rest.length + 1 ≤ fuel) :
    Ends (parseBinaryExpr fuel 0 s) ∨ Unfinished s.rest :=
  ((ends fuel).2.1 (Nat.zero_le _) hne hfuel).imp_left fun h =>
    ends_bind h fun tree _ _ => ends_toBinaryExpr tree

end Expressions

/-! ## Statements -/

/-- **Assignments with a comma behind each.** -/
inductive AssignmentsPassed : List SqlToken → Prop
  | nil : AssignmentsPassed []
  | cons {e : ExprNode} {c : SqlToken} {w ws : List SqlToken} (hw : OpenRendering 0 0 e w)
      (he : IsAssignment e) (hc : c.detail = .symbol .comma) (hs : AssignmentsPassed ws) :
      AssignmentsPassed (w ++ c :: ws)

/-- **An input on which the parser gets to an unfinished expression**: the `WHERE` of a
`SELECT`, an `UPDATE` or a `DELETE`, or an assignment of an `UPDATE`. -/
inductive Stuck : List SqlToken → Prop
  | select {table : TableIdentifier} {columns surplus cw tw u : List SqlToken} {s f w : SqlToken}
      (hs : s.detail = .keyword .select) (hc : SelectList columns surplus cw)
      (hf : f.detail = .keyword .from_) (ht : TableTokens table tw)
      (hw : w.detail = .keyword .where_) (hu : Unfinished u) :
      Stuck (s :: (cw ++ f :: (tw ++ w :: u)))
  | assignment {table : TableIdentifier} {tw aw u : List SqlToken} {t s : SqlToken}
      (ht : t.detail = .keyword .update) (htable : TableTokens table tw)
      (hs : s.detail = .keyword .set) (ha : AssignmentsPassed aw) (hu : Unfinished u) :
      Stuck (t :: (tw ++ s :: (aw ++ u)))
  | update {table : TableIdentifier} {es : List ExprNode} {k : ℕ} {tw aw u : List SqlToken}
      {t s w : SqlToken} (ht : t.detail = .keyword .update) (htable : TableTokens table tw)
      (hs : s.detail = .keyword .set) (ha : AssignmentsRead es k aw (w :: u))
      (hw : w.detail = .keyword .where_) (hu : Unfinished u) :
      Stuck (t :: (tw ++ s :: (aw ++ w :: u)))
  | delete {table : TableIdentifier} {tw u : List SqlToken} {d f w : SqlToken}
      (hd : d.detail = .keyword .delete) (hf : f.detail = .keyword .from_)
      (ht : TableTokens table tw) (hw : w.detail = .keyword .where_) (hu : Unfinished u) :
      Stuck (d :: f :: (tw ++ w :: u))

/-- **The parser comes to an end** on an input: with enough fuel it returns or
throws. -/
def Terminates (ts : List SqlToken) : Prop :=
  ∃ n, ∀ fuel ≥ n, (∃ stmt, SqlParser.run fuel ts = .ok stmt)
    ∨ ∃ e, SqlParser.run fuel ts = .error (.threw e)

section Stuck

variable {α β : Type} {fuel : ℕ} {s : SqlParser} {t w : SqlToken} {u ts : List SqlToken}

/-- A run that has used up its fuel. -/
def Out {α : Type} (r : EStateM.Result ParseStop SqlParser α) : Prop :=
  ∃ s, r = .error .outOfFuel s

theorem Out.bind {x : Parse α} {f : α → Parse β} (h : Out (x s)) : Out ((x >>= f) s) := by
  obtain ⟨s₁, hx⟩ := h
  exact ⟨s₁, bind_error hx⟩

theorem Out.map {x : Parse α} {g : α → β} (h : Out (x s)) : Out ((g <$> x) s) := by
  rw [map_eq_pure_bind]
  exact h.bind

theorem tableEnds_where {table : TableIdentifier} (hw : w.detail = .keyword .where_) :
    TableEnds table (w :: u) := by
  intro _ x xs hx
  obtain ⟨rfl, -⟩ := List.cons.inj hx
  rw [hw]
  exact SqlTokenDetail.noConfusion

theorem out_parseWhere (hrest : s.rest = w :: u) (hw : w.detail = .keyword .where_)
    (hu : Unfinished u) : Out (parseWhere fuel s) := by
  have hexpr : Unfinished s.next.rest := by
    rw [rest_next hrest hu.ne_nil]
    exact hu
  rw [parseWhere, ifMatches_bind hrest, if_pos hw, advance_bind]
  exact Out.bind (parseBinaryExpr_unfinished hexpr)

theorem out_parseSelectWhere {table : TableIdentifier} {columns : List SqlToken}
    (hrest : s.rest = w :: u) (hw : w.detail = .keyword .where_) (hu : Unfinished u) :
    Out (parseSelectWhere table columns fuel s) := by
  have hexpr : Unfinished s.next.rest := by
    rw [rest_next hrest hu.ne_nil]
    exact hu
  rw [parseSelectWhere, ifMatches_bind hrest, if_pos hw, advanceOrThrow_bind hrest hu.ne_nil]
  exact Out.bind (parseBinaryExpr_unfinished hexpr)

/-- The loop over the assignments does not get over an unfinished one. -/
theorem AssignmentsPassed.out {aw : List SqlToken} (ha : AssignmentsPassed aw)
    (hu : Unfinished u) : ∀ {s t}, s.rest = t :: (aw ++ u) →
      ∃ n, ∀ fuel ≥ n, Out (parseAssignments fuel s) := by
  induction ha with
  | nil =>
    intro s t hrest
    have hexpr : Unfinished s.next.rest := by
      rw [rest_next hrest hu.ne_nil]
      exact hu
    refine ⟨1, fun fuel hfuel => ?_⟩
    obtain ⟨fuel, rfl⟩ := Nat.exists_eq_add_of_le' hfuel
    rw [parseAssignments, advanceOrThrow_bind hrest hu.ne_nil]
    exact Out.bind (parseBinaryExpr_unfinished hexpr)
  | @cons e c w ws hw he hc hs ih =>
    intro s t hrest
    rw [List.append_assoc, List.cons_append] at hrest
    have hne : w ++ c :: (ws ++ u) ≠ [] := List.append_ne_nil_of_left_ne_nil hw.ne_nil _
    have hnext : s.next.rest = w ++ c :: (ws ++ u) := rest_next hrest hne
    have hat : (skip w s.next).rest = c :: (ws ++ u) := rest_skip hnext (List.cons_ne_nil _ _)
    have hstops : Stops 0 (c :: (ws ++ u)) := by
      intro x xs op hx hop
      obtain ⟨rfl, -⟩ := List.cons.inj hx
      rw [operatorOf, hc] at hop
      cases hop
    obtain ⟨n, hexpr⟩ := returns_parseBinaryExpr hw he.isBinaryExpr hnext hstops
    obtain ⟨m, hmore⟩ := ih hat
    refine ⟨max n m + 1, fun fuel hfuel => ?_⟩
    obtain ⟨fuel, rfl⟩ := Nat.exists_eq_add_of_le' (Nat.le_of_add_left_le hfuel)
    have hfuel := Nat.le_of_succ_le_succ hfuel
    rw [parseAssignments, advanceOrThrow_bind hrest hne,
      bind_ok (hexpr fuel (le_of_max_le_left hfuel))]
    obtain ⟨l, r, rfl⟩ := he
    show Out ((matches_ (.symbol .comma) >>= _) (skip w s.next))
    rw [ifMatches_bind hat, if_pos hc]
    exact Out.bind (hmore fuel (le_of_max_le_right hfuel))

/-- **On such an input all fuel is used up.** -/
theorem Stuck.out (h : Stuck s.rest) : ∃ n, ∀ fuel ≥ n, Out (parseStatement fuel s) := by
  generalize hrest : s.rest = ts at h
  cases h with
  | select hs hc hf ht hw hu =>
    obtain ⟨hbehind, n, hselect⟩ := parseSelect_tokens hs hc hf ht (tableEnds_where hw) hrest
    refine ⟨n, fun fuel hfuel => ?_⟩
    have hout : Out (parseSelect fuel s) := by
      rw [hselect fuel hfuel]
      exact out_parseSelectWhere hbehind.rest_eq hw hu
    rw [parseStatement_eq hrest, if_pos hs]
    exact hout.map
  | assignment ht htable hs ha hu =>
    obtain ⟨hat, -⟩ := parseUpdate_tokens htable hs hrest 0
    obtain ⟨n, hout⟩ := ha.out hu hat
    refine ⟨n, fun fuel hfuel => ?_⟩
    have hupdate : Out (parseUpdate fuel s) := by
      rw [(parseUpdate_tokens htable hs hrest fuel).2]
      exact (hout fuel hfuel).bind
    simp only [parseStatement_eq hrest, ht]
    exact hupdate.map
  | update ht htable hs ha hw hu =>
    obtain ⟨hat, -⟩ := parseUpdate_tokens htable hs hrest 0
    obtain ⟨n, hread⟩ := ha.returns hat
    refine ⟨n, fun fuel hfuel => ?_⟩
    have hupdate : Out (parseUpdate fuel s) := by
      rw [(parseUpdate_tokens htable hs hrest fuel).2, bind_ok (hread fuel hfuel)]
      exact (out_parseWhere (ha.behind hat).rest_eq hw hu).bind
    simp only [parseStatement_eq hrest, ht]
    exact hupdate.map
  | delete hd hf ht hw hu =>
    refine ⟨0, fun fuel _ => ?_⟩
    obtain ⟨hbehind, hdelete⟩ := parseDelete_tokens hf ht (tableEnds_where hw) hrest fuel
    have hout : Out (parseDelete fuel s) := by
      rw [hdelete]
      exact (out_parseWhere hbehind.rest_eq hw hu).bind
    simp only [parseStatement_eq hrest, hd]
    exact hout.map

end Stuck

section Conditions

variable {fuel : ℕ} {s : SqlParser} {after : List SqlToken}

theorem length_next_le : s.next.rest.length ≤ s.rest.length := by
  unfold next
  match h : s.rest with
  | [] => simp [h]
  | [_] => simp [h]
  | _ :: _ :: _ => simp

theorem length_skip_le (w : List SqlToken) : (skip w s).rest.length ≤ s.rest.length := by
  induction w generalizing s with
  | nil => exact le_rfl
  | cons t w ih => exact ih.trans length_next_le

/-- **The `WHERE` of a `SELECT` comes to an end**, or is unfinished. -/
theorem ends_parseSelectWhere {table : TableIdentifier} {columns : List SqlToken}
    (hs : Behind s after) (hfuel : 3 * s.rest.length + 1 ≤ fuel) :
    Ends (parseSelectWhere table columns fuel s)
      ∨ ∃ w u, after = w :: u ∧ w.detail = .keyword .where_ ∧ Unfinished u := by
  obtain ⟨t, ts, hrest⟩ := hs.exists_cons
  rw [parseSelectWhere, ifMatches_bind hrest]
  by_cases ht : t.detail = .keyword .where_
  · obtain rfl := hs.eq_cons hrest ht noOperand_where
    rw [if_pos ht]
    by_cases hthrew : Threw ((advanceOrThrow >>= fun _ => parseBinaryExpr fuel 0 >>= fun expr =>
        (pure { table, columns, where_ := some expr } : Parse SelectStatement)) s)
    · exact Or.inl (Or.inr hthrew)
    · obtain ⟨z, zs, hz, hne, heq⟩ := advanceOrThrow_shape hthrew
      obtain ⟨rfl, rfl⟩ := List.cons.inj (hz.symm.trans hrest)
      have hnext : s.next.rest = zs := rest_next hz hne
      have hfuel' : 3 * s.next.rest.length + 1 ≤ fuel := by
        have hlength := length_next_le (s := s)
        omega
      rw [heq]
      rcases ends_parseBinaryExpr (hnext ▸ hne) hfuel' with hends | hunfinished
      · exact Or.inl (ends_bind hends fun _ _ _ => ends_ok rfl)
      · exact Or.inr ⟨z, zs, rfl, ht, hnext ▸ hunfinished⟩
  · rw [if_neg ht]
    exact Or.inl (ends_ok rfl)

/-- **The `WHERE` of an `UPDATE` or a `DELETE` comes to an end**, or is unfinished. -/
theorem ends_parseWhere (hs : Behind s after) (hfuel : 3 * s.rest.length + 1 ≤ fuel) :
    Ends (parseWhere fuel s)
      ∨ ∃ w u, after = w :: u ∧ w.detail = .keyword .where_ ∧ Unfinished u := by
  obtain ⟨t, ts, hrest⟩ := hs.exists_cons
  rw [parseWhere, ifMatches_bind hrest]
  by_cases ht : t.detail = .keyword .where_
  · obtain rfl := hs.eq_cons hrest ht noOperand_where
    rw [if_pos ht, advance_bind]
    cases ts with
    | nil =>
      -- the keyword itself is no expression
      rw [next_of_single hrest]
      rw [hrest] at hfuel
      obtain ⟨f, rfl⟩ : ∃ f, fuel = f + 2 := Nat.exists_eq_add_of_le' (by simp at hfuel; omega)
      have hne : ∀ {d}, d ≠ SqlTokenDetail.keyword .where_ → t.detail ≠ d := fun hd h =>
        hd (h.symm.trans ht)
      exact Or.inl (Or.inr (threw_bind (threw_bind (threw_tree hrest
        (hne SqlTokenDetail.noConfusion) (hne SqlTokenDetail.noConfusion)
        (fun e h => noOperand_where t e h ht) _))))
    | cons x xs =>
      have hnext : s.next.rest = x :: xs := rest_next hrest (List.cons_ne_nil _ _)
      have hfuel' : 3 * s.next.rest.length + 1 ≤ fuel := by
        have hlength := length_next_le (s := s)
        omega
      rcases ends_parseBinaryExpr (hnext ▸ List.cons_ne_nil _ _) hfuel' with hends | hunfinished
      · exact Or.inl (ends_bind hends fun _ _ _ => ends_ok rfl)
      · exact Or.inr ⟨t, x :: xs, rfl, ht, hnext ▸ hunfinished⟩
  · rw [if_neg ht]
    exact Or.inl (ends_ok rfl)

/-- **The assignments come to an end**, or one of them is unfinished. -/
theorem ends_parseAssignments : ∀ {fuel : ℕ} {s : SqlParser}, 3 * s.rest.length + 1 ≤ fuel →
    Ends (parseAssignments fuel s) ∨ ∃ t aw u, s.rest = t :: (aw ++ u) ∧ AssignmentsPassed aw
      ∧ Unfinished u := by
  intro fuel
  induction fuel with
  | zero => exact fun hfuel => absurd hfuel (Nat.not_succ_le_zero _)
  | succ fuel ih =>
    intro s hfuel
    by_cases hthrew : Threw (parseAssignments (fuel + 1) s)
    · exact Or.inl (Or.inr hthrew)
    obtain ⟨t, after, hrest, hne, heq⟩ := parseAssignments_shape hthrew
    have hnext : s.next.rest = after := rest_next hrest hne
    rw [heq] at hthrew ⊢
    rw [hrest, List.length_cons] at hfuel
    have hfuel' : 3 * s.next.rest.length + 1 ≤ fuel := by
      rw [hnext]
      omega
    rcases ends_parseBinaryExpr (hnext ▸ hne) hfuel' with (⟨e, s₁, hexpr⟩ | hexpr) | hunfinished
    · rw [bind_ok hexpr] at hthrew ⊢
      obtain ⟨k, w, after', hw, hrendering, hbinary, hfollows, rfl⟩ := parseBinaryExpr_eq_ok hexpr
      have hbehind := hrendering.behind hw
      obtain ⟨x, xs, hx⟩ := hbehind.exists_cons
      obtain ⟨hassign, hmore⟩ := parseMoreAssignments_shape hx hthrew
      rw [hmore]
      by_cases hcomma : x.detail = .symbol .comma
      · rw [if_pos hcomma]
        obtain rfl := hbehind.eq_cons hx hcomma (noOperand_symbol _)
        have hskip := length_skip_le (s := s.next) w
        have hfuel'' : 3 * (skip w s.next).rest.length + 1 ≤ fuel := by omega
        rcases ih hfuel'' with hends | ⟨z, aw, u, hz, haw, hu⟩
        · exact Or.inl (ends_bind hends fun _ _ _ => ends_ok rfl)
        · obtain ⟨rfl, rfl⟩ := List.cons.inj (hx.symm.trans hz)
          cases k with
          | succ k =>
            obtain ⟨rp, ts, hrp, hdetail⟩ : Closes _ := hfollows
            obtain ⟨rfl, -⟩ := List.cons.inj hrp
            rw [hcomma] at hdetail
            cases hdetail
          | zero =>
            refine Or.inr ⟨t, w ++ x :: aw, u, ?_, .cons hrendering hassign hcomma haw, hu⟩
            rw [hrest, ← hnext, hw, List.append_assoc, List.cons_append]
      · rw [if_neg hcomma]
        exact Or.inl (ends_ok rfl)
    · exact Or.inl (Or.inr (threw_bind hexpr))
    · exact Or.inr ⟨t, [], after, hrest, .nil, hnext ▸ hunfinished⟩

end Conditions

/-! ## Methods that always come to an end -/

/-- **A run that moves on**: it has thrown, or returned with a token left, and with at
most `n` of them. -/
def Moves {α : Type} (n : ℕ) (r : EStateM.Result ParseStop SqlParser α) : Prop :=
  Threw r ∨ ∃ a s, r = .ok a s ∧ s.rest ≠ [] ∧ s.rest.length ≤ n

section Moves

variable {α β : Type} {n m fuel : ℕ} {s : SqlParser} {x : Parse α} {f : α → Parse β}

theorem Moves.ends {r : EStateM.Result ParseStop SqlParser α} (h : Moves n r) : Ends r := by
  rcases h with hthrew | ⟨a, s, hok, -⟩
  · exact Or.inr hthrew
  · exact ends_ok hok

theorem Moves.mono {r : EStateM.Result ParseStop SqlParser α} (h : Moves n r) (hnm : n ≤ m) :
    Moves m r :=
  h.imp_right fun ⟨a, s, hok, hne, hlength⟩ => ⟨a, s, hok, hne, hlength.trans hnm⟩

theorem moves_bind (hx : Moves n (x s))
    (hf : ∀ a s₁, s₁.rest ≠ [] → s₁.rest.length ≤ n → Moves m (f a s₁)) :
    Moves m ((x >>= f) s) := by
  rcases hx with hthrew | ⟨a, s₁, hok, hne, hlength⟩
  · exact Or.inl (threw_bind hthrew)
  · rw [bind_ok hok]
    exact hf a s₁ hne hlength

theorem moves_pure (a : α) (hne : s.rest ≠ []) (hlength : s.rest.length ≤ n) :
    Moves n ((pure a : Parse α) s) := Or.inr ⟨a, s, rfl, hne, hlength⟩

theorem moves_throw (e : ParseError) : Moves n ((throw (.threw e) : Parse α) s) :=
  Or.inl ⟨e, s, rfl⟩

theorem moves_isAt (p : SqlToken → Bool) (hne : s.rest ≠ []) (hlength : s.rest.length ≤ n) :
    Moves n (isAt p s) := Or.inr ⟨_, s, rfl, hne, hlength⟩

theorem moves_current (hne : s.rest ≠ []) (hlength : s.rest.length ≤ n) :
    Moves n (current s) := by
  obtain ⟨t, ts, hrest⟩ := List.exists_cons_of_ne_nil hne
  refine Or.inr ⟨t, s, ?_, hne, hlength⟩
  unfold current
  rw [hrest]

theorem moves_advance (hne : s.rest ≠ []) (hlength : s.rest.length ≤ n) :
    Moves n (advance s) := by
  unfold advance
  match h : s.rest with
  | t :: t' :: ts =>
    rw [h] at hlength
    exact Or.inr ⟨true, _, rfl, List.cons_ne_nil _ _, Nat.le_of_succ_le hlength⟩
  | [t] => exact Or.inr ⟨false, s, rfl, hne, hlength⟩
  | [] => exact absurd h hne

theorem moves_advanceOrThrow (msg : String) (hlength : s.rest.length ≤ n + 1) :
    Moves n (advanceOrThrow msg s) := by
  by_cases hthrew : Threw (advanceOrThrow msg s)
  · exact Or.inl hthrew
  · have hbind : ¬ Threw ((advanceOrThrow msg >>= fun u => (pure u : Parse Unit)) s) := by
      rwa [bind_pure]
    obtain ⟨t, after, hrest, hne, heq⟩ := advanceOrThrow_shape hbind
    rw [bind_pure] at heq
    have hnext : s.next.rest = after := rest_next hrest hne
    rw [hrest, List.length_cons] at hlength
    refine Or.inr ⟨(), s.next, heq, hnext ▸ hne, ?_⟩
    rw [hnext]
    exact Nat.le_of_succ_le_succ hlength

theorem moves_matchOrThrow (d : SqlTokenDetail) (msg : String) (hlength : s.rest.length ≤ n) :
    Moves n (matchOrThrow d msg s) := by
  by_cases hthrew : Threw (matchOrThrow d msg s)
  · exact Or.inl hthrew
  · have hbind : ¬ Threw ((matchOrThrow d msg >>= fun u => (pure u : Parse Unit)) s) := by
      rwa [bind_pure]
    obtain ⟨t, ts, hrest, -, heq⟩ := matchOrThrow_shape hbind
    rw [bind_pure] at heq
    exact Or.inr ⟨(), s, heq, hrest ▸ List.cons_ne_nil _ _, hlength⟩

theorem moves_matchTypeOrThrow (d : SqlTokenType) (msg : String) (hlength : s.rest.length ≤ n) :
    Moves n (matchTypeOrThrow d msg s) := by
  by_cases hthrew : Threw (matchTypeOrThrow d msg s)
  · exact Or.inl hthrew
  · have hbind : ¬ Threw ((matchTypeOrThrow d msg >>= fun u => (pure u : Parse Unit)) s) := by
      rwa [bind_pure]
    obtain ⟨t, ts, hrest, -, heq⟩ := matchTypeOrThrow_shape hbind
    rw [bind_pure] at heq
    exact Or.inr ⟨(), s, heq, hrest ▸ List.cons_ne_nil _ _, hlength⟩

theorem moves_parseTableIdentifier (hlength : s.rest.length ≤ n) :
    Moves n (parseTableIdentifier s) := by
  by_cases hthrew : Threw (parseTableIdentifier s)
  · exact Or.inl hthrew
  · obtain ⟨table, w, after, hrest, ht, hend⟩ := parseTableIdentifier_shape hthrew
    obtain ⟨t, ts, hbehind⟩ := (ht.behind hrest).exists_cons
    exact Or.inr ⟨table, skip w s, parseTableIdentifier_tokens ht hrest hend,
      hbehind ▸ List.cons_ne_nil _ _, (length_skip_le w).trans hlength⟩

/-- Each constraint is moved over. -/
theorem moves_parseConstraints : ∀ {fuel : ℕ} {s : SqlParser}, s.rest ≠ [] →
    s.rest.length ≤ fuel → Moves s.rest.length (parseConstraints fuel s) := by
  intro fuel
  induction fuel with
  | zero =>
    intro s hne hfuel
    exact absurd (List.length_eq_zero_iff.mp (Nat.le_zero.mp hfuel)) hne
  | succ fuel ih =>
    intro s hne hfuel
    unfold parseConstraints
    refine moves_bind (moves_current hne le_rfl) fun cur s₁ h₁ hl₁ =>
      moves_bind (moves_isAt _ h₁ hl₁) fun b s₂ h₂ hl₂ =>
      moves_bind (moves_isAt _ h₂ hl₂) fun b' s₃ h₃ hl₃ => ?_
    split_ifs
    · exact moves_pure _ h₃ hl₃
    · exact moves_throw _
    · exact moves_throw _
    · refine moves_bind (n := s₃.rest.length - 1) (moves_advanceOrThrow _ (by omega))
        fun _ s₄ h₄ hl₄ => moves_bind (n := s.rest.length) ?_ fun _ s₅ h₅ hl₅ => moves_pure _ h₅ hl₅
      exact (ih h₄ (by omega)).mono (by omega)

/-- A column is moved over. -/
theorem moves_parseColumnDef (hfuel : s.rest.length ≤ fuel) :
    Moves (s.rest.length - 1) (parseColumnDef fuel s) := by
  unfold parseColumnDef
  refine moves_bind (moves_matchTypeOrThrow _ _ le_rfl) fun _ s₁ h₁ hl₁ =>
    moves_bind (moves_current h₁ hl₁) fun name s₂ h₂ hl₂ =>
    moves_bind (n := s.rest.length - 1) (moves_advanceOrThrow _ (by omega)) fun _ s₃ h₃ hl₃ =>
    moves_bind (moves_current h₃ hl₃) fun type s₄ h₄ hl₄ =>
    moves_bind (n := s.rest.length - 1) (moves_advanceOrThrow _ (by omega)) fun _ s₅ h₅ hl₅ =>
    moves_bind (moves_isAt _ h₅ hl₅) fun b s₆ h₆ hl₆ =>
    moves_bind (moves_isAt _ h₆ hl₆) fun b' s₇ h₇ hl₇ => ?_
  split_ifs
  · exact moves_pure _ h₇ hl₇
  · refine moves_bind (n := s.rest.length - 1) (moves_advanceOrThrow _ (by omega))
      fun _ s₈ h₈ hl₈ => moves_bind (n := s.rest.length - 1) ?_ fun _ s₉ h₉ hl₉ =>
        moves_pure _ h₉ hl₉
    exact (moves_parseConstraints h₈ (by omega)).mono hl₈

/-- The loop over the columns moves on with each. -/
theorem moves_parseColumnDefs : ∀ {fuel : ℕ} {s : SqlParser}, s.rest.length < fuel →
    Moves s.rest.length (parseColumnDefs fuel s) := by
  intro fuel
  induction fuel with
  | zero => exact fun hfuel => absurd hfuel (Nat.not_lt_zero _)
  | succ fuel ih =>
    intro s hfuel
    unfold parseColumnDefs
    refine moves_bind (moves_parseColumnDef (Nat.le_of_lt_succ hfuel)) fun column s₁ h₁ hl₁ =>
      moves_bind (moves_isAt _ h₁ hl₁) fun stop s₂ h₂ hl₂ =>
      moves_bind (moves_advance h₂ hl₂) fun _ s₃ h₃ hl₃ => ?_
    have hpos := List.length_pos_iff.mpr h₃
    split_ifs
    · exact moves_pure _ h₃ (by omega)
    · refine moves_bind (n := s.rest.length) ?_ fun _ s₄ h₄ hl₄ => moves_pure _ h₄ hl₄
      exact (ih (by omega)).mono (by omega)

/-- So does the loop over the operations of an `ALTER TABLE`. -/
theorem moves_parseAlterOperations : ∀ {fuel : ℕ} {s : SqlParser}, s.rest ≠ [] →
    s.rest.length < fuel → Moves s.rest.length (parseAlterOperations fuel s) := by
  intro fuel
  induction fuel with
  | zero => exact fun _ hfuel => absurd hfuel (Nat.not_lt_zero _)
  | succ fuel ih =>
    intro s hne hfuel
    unfold parseAlterOperations
    refine moves_bind (moves_isAt _ hne le_rfl) fun b s₁ h₁ hl₁ => ?_
    split_ifs
    · refine moves_bind (n := s.rest.length - 1) (moves_advanceOrThrow _ (by omega))
        fun _ s₂ h₂ hl₂ => moves_bind (moves_isAt _ h₂ hl₂) fun b' s₃ h₃ hl₃ => ?_
      split_ifs
      · refine moves_bind (n := s.rest.length - 1) (moves_advanceOrThrow _ (by omega))
          fun _ s₄ h₄ hl₄ => moves_bind (n := s.rest.length - 1)
            ((moves_parseColumnDef (by omega)).mono (by omega)) fun column s₅ h₅ hl₅ =>
          moves_bind (n := s.rest.length) ?_ fun _ s₆ h₆ hl₆ => moves_pure _ h₆ hl₆
        have hpos := List.length_pos_iff.mpr h₅
        exact (ih h₅ (by omega)).mono (by omega)
      · exact moves_throw _
    · refine moves_bind (moves_isAt _ h₁ hl₁) fun b' s₂ h₂ hl₂ => ?_
      split_ifs
      · exact moves_throw _
      · exact moves_pure _ h₂ hl₂

theorem ends_map {x : Parse α} (g : α → β) (h : Ends (x s)) : Ends ((g <$> x) s) := by
  rw [map_eq_pure_bind]
  exact ends_bind h fun _ _ _ => ends_ok rfl

theorem ends_parseCreateTable (hfuel : s.rest.length < fuel) : Ends (parseCreateTable fuel s) := by
  unfold parseCreateTable
  refine Moves.ends (n := s.rest.length) <|
    moves_bind (moves_matchOrThrow _ _ le_rfl) fun _ s₁ h₁ hl₁ =>
    moves_bind (n := s.rest.length) (moves_advanceOrThrow _ (by omega)) fun _ s₂ h₂ hl₂ =>
    moves_bind (moves_parseTableIdentifier hl₂) fun table s₃ h₃ hl₃ =>
    moves_bind (moves_isAt _ h₃ hl₃) fun b s₄ h₄ hl₄ => ?_
  split_ifs
  · refine moves_bind (n := s.rest.length) (moves_advanceOrThrow _ (by omega))
      fun _ s₅ h₅ hl₅ => moves_bind (n := s.rest.length) ?_ fun _ s₆ h₆ hl₆ => moves_pure _ h₆ hl₆
    exact (moves_parseColumnDefs (by omega)).mono hl₅
  · exact moves_pure _ h₄ hl₄

theorem ends_parseAlterTable (hfuel : s.rest.length < fuel) : Ends (parseAlterTable fuel s) := by
  unfold parseAlterTable
  refine Moves.ends (n := s.rest.length) <|
    moves_bind (moves_matchOrThrow _ _ le_rfl) fun _ s₁ h₁ hl₁ =>
    moves_bind (n := s.rest.length) (moves_advanceOrThrow _ (by omega)) fun _ s₂ h₂ hl₂ =>
    moves_bind (moves_parseTableIdentifier hl₂) fun table s₃ h₃ hl₃ =>
    moves_bind (n := s.rest.length) (moves_advanceOrThrow _ (by omega)) fun _ s₄ h₄ hl₄ =>
    moves_bind (n := s.rest.length) ?_ fun _ s₅ h₅ hl₅ => moves_pure _ h₅ hl₅
  exact (moves_parseAlterOperations h₄ (by omega)).mono hl₄

theorem ends_parseCreateDb : Ends (parseCreateDb s) := by
  unfold parseCreateDb
  exact Moves.ends (n := s.rest.length) <|
    moves_bind (moves_matchOrThrow _ _ le_rfl) fun _ s₁ h₁ hl₁ =>
    moves_bind (n := s.rest.length) (moves_advanceOrThrow _ (by omega)) fun _ s₂ h₂ hl₂ =>
    moves_current h₂ hl₂

theorem ends_parseCreateSchema : Ends (parseCreateSchema s) := by
  unfold parseCreateSchema
  exact Moves.ends (n := s.rest.length) <|
    moves_bind (moves_matchOrThrow _ _ le_rfl) fun _ s₁ h₁ hl₁ =>
    moves_bind (n := s.rest.length) (moves_advanceOrThrow _ (by omega)) fun _ s₂ h₂ hl₂ =>
    moves_current h₂ hl₂

theorem ends_parseIndexDefinition (isUnique : Option Bool) :
    Ends (parseIndexDefinition isUnique s) := by
  by_cases hthrew : Threw (parseIndexDefinition isUnique s)
  · exact Or.inr hthrew
  · obtain ⟨i, name, o, table, tw, lp, column, after, -, -, -, -, -, -, -, -, heq⟩ :=
      parseIndexDefinition_shape hthrew
    exact ends_ok heq

theorem ends_parseDropIndex : Ends (parseDropIndex s) := by
  by_cases hthrew : Threw (parseDropIndex s)
  · exact Or.inr hthrew
  · obtain ⟨i, name, o, table, tw, after, -, -, -, -, -, -, heq⟩ := parseDropIndex_shape hthrew
    exact ends_ok heq

end Moves

/-! ## Inputs -/

section Inputs

variable {fuel : ℕ} {s : SqlParser} {t : SqlToken} {ts : List SqlToken}

theorem ends_or_stuck_select (hrest : s.rest = t :: ts) (ht : t.detail = .keyword .select)
    (hfuel : 3 * s.rest.length + 1 ≤ fuel) : Ends (parseSelect fuel s) ∨ Stuck s.rest := by
  by_cases hthrew : Threw (parseSelect fuel s)
  · exact Or.inl (Or.inr hthrew)
  rcases parseSelect_shape hrest ht hthrew with ⟨hstarved, -⟩ |
    ⟨columns, surplus, cw, f, table, tw, after, hselect, hfrom, htable, hend, hall, heq⟩
  · omega
  obtain ⟨hbehind, -⟩ := parseSelect_tokens ht hselect hfrom htable hend hall
  have hlength := length_skip_le (s := s) (t :: (cw ++ f :: tw))
  rw [heq]
  refine (ends_parseSelectWhere hbehind (by omega)).imp_right ?_
  rintro ⟨w, u, rfl, hw, hu⟩
  rw [hall]
  exact .select ht hselect hfrom htable hw hu

theorem ends_parseInsert (hrest : s.rest = t :: ts) (hfuel : 3 * s.rest.length + 1 ≤ fuel) :
    Ends (parseInsert fuel s) := by
  by_cases hthrew : Threw (parseInsert fuel s)
  · exact Or.inr hthrew
  rcases parseInsert_shape hrest hthrew with ⟨hstarved, -⟩ |
    ⟨n, table, tw, lp, columns, surplus, cw, rp, v, lp', values, vw, after, -, -, -, -, -, -, -, -,
      -, -, heq⟩
  · omega
  · exact ends_ok heq

theorem ends_or_stuck_update (hrest : s.rest = t :: ts) (ht : t.detail = .keyword .update)
    (hfuel : 3 * s.rest.length + 1 ≤ fuel) : Ends (parseUpdate fuel s) ∨ Stuck s.rest := by
  by_cases hthrew : Threw (parseUpdate fuel s)
  · exact Or.inl (Or.inr hthrew)
  obtain ⟨table, tw, u, after, htable, hset, rfl, hu, heq⟩ := parseUpdate_shape hrest hthrew
  have hlength := length_skip_le (s := s) (t :: tw)
  have hfuel' : 3 * (skip (t :: tw) s).rest.length + 1 ≤ fuel := by omega
  rw [heq, hrest]
  rcases ends_parseAssignments hfuel' with
    (⟨es, s₁, hassign⟩ | hassign) | ⟨z, aw, v, hz, haw, hv⟩
  · rw [bind_ok hassign]
    obtain ⟨z, k, aw, after', hz, hread, rfl⟩ := parseAssignments_eq_ok hassign
    obtain ⟨rfl, rfl⟩ := List.cons.inj (hu.symm.trans hz)
    have hlength' := length_skip_le (s := skip (t :: tw) s) (u :: aw)
    have hfuel'' : 3 * (skip (u :: aw) (skip (t :: tw) s)).rest.length + 1 ≤ fuel := by omega
    rcases ends_parseWhere (hread.behind hz) hfuel'' with hends | ⟨w, v, rfl, hw, hv⟩
    · exact Or.inl (ends_bind hends fun _ _ _ => ends_ok rfl)
    · exact Or.inr (.update ht htable hset hread hw hv)
  · exact Or.inl (Or.inr (threw_bind hassign))
  · obtain ⟨rfl, rfl⟩ := List.cons.inj (hu.symm.trans hz)
    exact Or.inr (.assignment ht htable hset haw hv)

theorem ends_or_stuck_delete (hrest : s.rest = t :: ts) (ht : t.detail = .keyword .delete)
    (hfuel : 3 * s.rest.length + 1 ≤ fuel) : Ends (parseDelete fuel s) ∨ Stuck s.rest := by
  by_cases hthrew : Threw (parseDelete fuel s)
  · exact Or.inl (Or.inr hthrew)
  obtain ⟨f, table, tw, after, hfrom, htable, hend, rfl, hbehind, heq⟩ :=
    parseDelete_shape hrest hthrew
  have hlength := length_skip_le (s := s) (t :: f :: tw)
  have hfuel' : 3 * (skip (t :: f :: tw) s).rest.length + 1 ≤ fuel := by omega
  rw [heq, hrest]
  rcases ends_parseWhere hbehind hfuel' with hends | ⟨w, u, rfl, hw, hu⟩
  · exact Or.inl (ends_bind hends fun _ _ _ => ends_ok rfl)
  · exact Or.inr (.delete ht hfrom htable hw hu)

theorem ends_parseCreate (hfuel : 3 * s.rest.length + 1 ≤ fuel) : Ends (parseCreate fuel s) := by
  by_cases hthrew : Threw (parseCreate fuel s)
  · exact Or.inr hthrew
  have hadvance := hthrew
  unfold parseCreate at hadvance
  obtain ⟨z, x, xs, hz⟩ := advanceOrInvalid_shape hadvance
  have hnext : s.next.rest = x :: xs := rest_next hz (List.cons_ne_nil _ _)
  have hlength := length_next_le (s := s)
  rw [parseCreate_eq hz]
  split_ifs
  · exact ends_map _ (ends_parseCreateTable (by omega))
  · exact ends_map _ ends_parseCreateDb
  · exact ends_map _ ends_parseCreateSchema
  · refine ends_map _ ?_
    rw [parseCreateIndex, ifMatches_bind hnext]
    split_ifs
    · refine ends_bind (Moves.ends (n := s.next.rest.length) (moves_advanceOrThrow _ ?_))
        fun _ _ _ => ends_parseIndexDefinition _
      exact Nat.le_succ _
    · exact ends_parseIndexDefinition _
  · exact ends_threw rfl

theorem ends_parseDrop : Ends (parseDrop s) := by
  by_cases hthrew : Threw (parseDrop s)
  · exact Or.inr hthrew
  have hadvance := hthrew
  unfold parseDrop at hadvance
  obtain ⟨z, x, xs, hz⟩ := advanceOrInvalid_shape hadvance
  rw [parseDrop_eq hz]
  split_ifs
  · exact ends_map _ ends_parseDropIndex
  · exact ends_threw rfl

theorem ends_parseAlter (hfuel : 3 * s.rest.length + 1 ≤ fuel) : Ends (parseAlter fuel s) := by
  by_cases hthrew : Threw (parseAlter fuel s)
  · exact Or.inr hthrew
  unfold parseAlter at hthrew ⊢
  obtain ⟨z, x, xs, hz⟩ := advanceOrInvalid_shape hthrew
  have hnext : s.next.rest = x :: xs := rest_next hz (List.cons_ne_nil _ _)
  have hlength := length_next_le (s := s)
  rw [advanceOrInvalid_bind hz (List.cons_ne_nil _ _), ifMatches_bind hnext]
  split_ifs
  · exact ends_map _ (ends_parseAlterTable (by omega))
  · exact ends_threw rfl

/-- **Every input that the parser is not stuck on is read or thrown at.** -/
theorem ends_or_stuck (hfuel : 3 * s.rest.length + 1 ≤ fuel) :
    Ends (parseStatement fuel s) ∨ Stuck s.rest := by
  cases hrest : s.rest with
  | nil => exact Or.inl (ends_threw (parseStatement_nil hrest))
  | cons t ts =>
    rw [parseStatement_eq hrest, ← hrest]
    split_ifs with hselect hinsert hupdate hdelete hcreate hdrop halter
    · exact (ends_or_stuck_select hrest hselect hfuel).imp_left (ends_map _)
    · exact Or.inl (ends_map _ (ends_parseInsert hrest hfuel))
    · exact (ends_or_stuck_update hrest hupdate hfuel).imp_left (ends_map _)
    · exact (ends_or_stuck_delete hrest hdelete hfuel).imp_left (ends_map _)
    · exact Or.inl (ends_parseCreate hfuel)
    · exact Or.inl ends_parseDrop
    · exact Or.inl (ends_parseAlter hfuel)
    · exact Or.inl (ends_threw rfl)

/-- An input on which all fuel is used up. -/
theorem Stuck.run_eq (h : Stuck ts) :
    ∃ n, ∀ fuel ≥ n, SqlParser.run fuel ts = .error .outOfFuel := by
  obtain ⟨n, hout⟩ := Stuck.out (s := { rest := ts }) h
  refine ⟨n, fun fuel hfuel => ?_⟩
  obtain ⟨s, hs⟩ := hout fuel hfuel
  rw [SqlParser.run, SqlParser.parse, bind_error hs]

theorem Stuck.not_terminates (h : Stuck ts) : ¬ Terminates ts := by
  rintro ⟨n, hends⟩
  obtain ⟨m, hout⟩ := h.run_eq
  have hrun := hout (max n m) (le_max_right n m)
  rcases hends (max n m) (le_max_left n m) with ⟨stmt, h⟩ | ⟨e, h⟩
  · rw [hrun] at h
    cases h
  · rw [hrun] at h
    cases h

/-- **The parser comes to an end exactly on the inputs that it is not stuck on.** -/
theorem terminates_iff (ts : List SqlToken) : Terminates ts ↔ ¬ Stuck ts := by
  constructor
  · exact fun hends hstuck => hstuck.not_terminates hends
  · intro hstuck
    refine ⟨3 * ts.length + 1, fun fuel hfuel => ?_⟩
    have hends := (ends_or_stuck (s := { rest := ts }) hfuel).resolve_right hstuck
    have hparse : Ends (SqlParser.parse fuel { rest := ts }) := by
      refine ends_bind hends fun stmt s₁ _ => ends_bind ?_ fun _ s₂ _ => ends_ok rfl
      unfold checkTrailing
      split_ifs
      · exact ends_ok rfl
      · exact ends_threw rfl
    rw [SqlParser.run]
    rcases hparse with ⟨stmt, s, h⟩ | ⟨e, s, h⟩
    · rw [h]
      exact Or.inl ⟨stmt, rfl⟩
    · rw [h]
      exact Or.inr ⟨e, rfl⟩

/-- The tokens of `DELETE FROM t WHERE (`. -/
def truncatedTokens : List SqlToken :=
  [{ value := Lexer.key "delete", line := 1, pos := 0, detail := .keyword .delete },
    { value := Lexer.key "from", line := 1, pos := 7, detail := .keyword .from_ },
    { value := Lexer.key "t", line := 1, pos := 12, detail := .identifier },
    { value := Lexer.key "where", line := 1, pos := 14, detail := .keyword .where_ },
    { value := Lexer.key "(", line := 1, pos := 20, detail := .symbol .lparen }]

/-- **A query that ends with a left parenthesis** is lexed, and never parsed. -/
theorem not_terminates :
    Lexed (Lexer.key "DELETE FROM t WHERE (") truncatedTokens ∧ ¬ Terminates truncatedTokens := by
  have htable : IsIdentifier (truncatedTokens[2]) := rfl
  have hopener : IsOpener (truncatedTokens[4]) := Or.inl rfl
  have hstuck := Stuck.delete (d := truncatedTokens[0]) (f := truncatedTokens[1])
    (w := truncatedTokens[3]) rfl rfl (.plain htable) rfl (.last hopener)
  exact ⟨⟨30, by decide +kernel⟩, hstuck.not_terminates⟩

end Inputs

end Sql
