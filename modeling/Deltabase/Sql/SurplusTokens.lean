import Deltabase.Sql.ParserSoundness
import Deltabase.Sql.Lexer

/-!
# Surplus tokens and open parentheses

An input that the parser returns a statement for is a rendering of the statement,
less a final semicolon, exactly if the grammar accepts it without surplus tokens
and without missing parentheses (`returned_isRendering_iff`).

That the others are no renderings is counted: a statement has the same
**weight** of tokens in each of its renderings, where parentheses, the
`NOT` of `IS NOT` and semicolons do not count, and the parentheses of a rendering
are balanced. What is neither heavier nor unbalanced has its surplus tokens in a
list of columns, or ends with a token that ends no rendering.
-/

namespace Sql

open SqlParser

/-- **The input is a rendering** of a statement, less at most one final
semicolon. -/
def IsRendering (stmt : Statement) (ts : List SqlToken) : Prop :=
  ∃ body, InputOf body ts ∧ Renders (Rendering 0) stmt body

/-! ## What is accepted without surplus tokens -/

section Faultless

variable {stmt : Statement} {k : ℕ} {w after : List SqlToken} {where_ : Option ExprNode}

/-- What follows a statement that has been read, with at most one parenthesis
open. -/
inductive Ending : ℕ → List SqlToken → List SqlToken → Prop
  | nothing : Ending 0 [] []
  | semicolon {t : SqlToken} (h : IsSemicolon t) : Ending 0 [] [t]
  | closed {rp : SqlToken} (hrp : rp.detail = .symbol .rparen) : Ending 1 [rp] [rp]
  | closedSemicolon {rp t : SqlToken} (hrp : rp.detail = .symbol .rparen) (h : IsSemicolon t) :
      Ending 1 [rp] [rp, t]

/-- The parenthesis that closes a statement belongs to its rendering. -/
theorem Ending.inputOf {close : List SqlToken} (h : Ending k close after) (w : List SqlToken) :
    InputOf (w ++ close) (w ++ after) := by
  cases h with
  | nothing => exact .plain
  | semicolon h =>
    rw [List.append_nil]
    exact .semicolon h
  | closed _ => exact .plain
  | @closedSemicolon rp t hrp h =>
    have hsplit : w ++ [rp, t] = (w ++ [rp]) ++ [t] := by simp
    rw [hsplit]
    exact .semicolon h

theorem Trailing.ending (h : Trailing k [] after) (hk : k - 1 = 0) :
    ∃ close, Ending k close after := by
  cases h with
  | nothing => exact ⟨_, .nothing⟩
  | semicolon h => exact ⟨_, .semicolon h⟩
  | closed hrp =>
    obtain rfl : _ = 0 := hk
    exact ⟨_, .closed hrp⟩
  | closedSemicolon hrp h =>
    obtain rfl : _ = 0 := hk
    exact ⟨_, .closedSemicolon hrp h⟩

/-- The parenthesis closes an expression. -/
theorem OpenRendering.rendering_ending {p : ℕ} {e : ExprNode} {close : List SqlToken}
    (h : OpenRendering k p e w) (hend : Ending k close after) : Rendering p e (w ++ close) := by
  cases hend with
  | nothing =>
    rw [List.append_nil]
    exact h.rendering
  | semicolon _ =>
    rw [List.append_nil]
    exact h.rendering
  | closed hrp => exact h.rendering_close hrp
  | closedSemicolon hrp _ => exact h.rendering_close hrp

theorem WhereReads.tokens {close : List SqlToken} (h : WhereReads where_ k w after)
    (hend : Ending k close after) : WhereTokens (Rendering 0) where_ (w ++ close) := by
  cases h with
  | none _ =>
    cases hend with
    | nothing => exact .none
    | semicolon _ => exact .none
  | some ht hw _ _ => exact .some ht (hw.rendering_ending hend)

theorem AssignmentsRead.commas {es : List ExprNode} {close : List SqlToken}
    (h : AssignmentsRead es k w after) :
    ∀ {rest}, Ending k close rest → Commas (Rendering 0) es (w ++ close) := by
  induction h with
  | single hw _ _ _ => exact fun hend => .single (hw.rendering_ending hend)
  | cons hw _ hc _ ih =>
    intro rest hend
    rw [List.append_assoc, List.cons_append]
    exact .cons hw.rendering hc (ih hend)

/-- A list that has been read without surplus tokens. -/
theorem SelectList.tokens {columns cw : List SqlToken} (h : SelectList columns [] cw) :
    ColumnTokens columns cw := by
  cases h with
  | all hx => exact .all hx

theorem InsertList.tokens {columns cw : List SqlToken} (h : InsertList columns [] cw) :
    ColumnTokens columns cw := by
  cases h with
  | all hx => exact .all hx
  | columns h => exact .listed h

theorem Ending.one {close : List SqlToken} (h : Ending 1 close after) :
    ∃ rp, close = [rp] ∧ rp.detail = .symbol .rparen := by
  cases h with
  | closed hrp => exact ⟨_, rfl, hrp⟩
  | closedSemicolon hrp _ => exact ⟨_, rfl, hrp⟩

/-- **What has been read without surplus tokens is a rendering.** -/
theorem Reads.renders {close : List SqlToken} (h : Reads stmt k [] w after)
    (hend : Ending k close after) : Renders (Rendering 0) stmt (w ++ close) := by
  generalize hsurplus : ([] : List SqlToken) = surplus at h
  cases h with
  | select hs hc hf ht _ hw =>
    subst hsurplus
    simp only [List.cons_append, List.append_assoc]
    exact .select hs hc.tokens hf ht (hw.tokens hend)
  | insert hi hn ht hlp hc hrp hv hlp' hw _ =>
    subst hsurplus
    obtain ⟨rp, rfl, hrp'⟩ := hend.one
    simp only [List.cons_append, List.append_assoc]
    exact .insert hi hn ht hlp hc.tokens hrp hv hlp' hw hrp'
  | @update table es where_ k₁ k₂ u s tw aw ww _ hu ht hs ha hw =>
    simp only [List.cons_append, List.append_assoc]
    cases k₁ with
    | zero =>
      rw [Nat.zero_add] at hend
      have hclosed : Commas (Rendering 0) es aw := by
        have hcommas := ha.commas Ending.nothing
        rwa [List.append_nil] at hcommas
      exact .update hu ht hs hclosed (hw.tokens hend)
    | succ k₁ =>
      -- the parenthesis closes the last assignment
      obtain ⟨rfl, rfl, rfl⟩ := hw.eq_none ha.closes
      have hcommas := ha.commas hend
      rw [List.nil_append]
      have hrenders : Renders (Rendering 0)
          (.update { table, assignments := es, where_ := none }) _ :=
        .update hu ht hs hcommas .none
      rwa [List.append_nil] at hrenders
  | delete hd hf ht _ hw =>
    simp only [List.cons_append, List.append_assoc]
    exact .delete hd hf ht (hw.tokens hend)
  | createIndex hc hi hname ho ht hlp hcolumn _ =>
    obtain ⟨rp, rfl, hrp⟩ := hend.one
    simp only [List.cons_append, List.append_assoc]
    exact .createIndex hc hi hname ho ht hlp hcolumn hrp
  | createUniqueIndex hc hu hi hname ho ht hlp hcolumn _ =>
    obtain ⟨rp, rfl, hrp⟩ := hend.one
    simp only [List.cons_append, List.append_assoc]
    exact .createUniqueIndex hc hu hi hname ho ht hlp hcolumn hrp
  | dropIndex hd hi hname ho ht _ =>
    have hnil : close = [] := by
      cases hend <;> rfl
    subst hnil
    rw [List.append_nil]
    exact .dropIndex hd hi hname ho ht

/-- **An input that is accepted without surplus tokens and missing parentheses is a
rendering.** -/
theorem Accepts.isRendering {ts : List SqlToken} (h : Accepts stmt 0 [] ts) :
    IsRendering stmt ts := by
  generalize hm : 0 = missing at h
  generalize hs : ([] : List SqlToken) = surplus at h
  cases h with
  | @intro k inner extra w after hreads htrailing =>
    obtain ⟨rfl, rfl⟩ := List.append_eq_nil_iff.mp hs.symm
    obtain ⟨close, hend⟩ := htrailing.ending hm.symm
    exact ⟨_, hend.inputOf w, hreads.renders hend⟩

end Faultless

/-! ## Counting tokens -/

/-- What a token counts for. -/
def detailWeight : SqlTokenDetail → ℕ
  | .symbol .lparen => 0
  | .symbol .rparen => 0
  | .symbol .semicolon => 0
  | .keyword .not => 0
  | _ => 1

/-- **The weight of tokens.** -/
def weight (w : List SqlToken) : ℕ := (w.map fun t => detailWeight t.detail).sum

/-- The parentheses that a token opens or closes. -/
def detailDepth : SqlTokenDetail → ℤ
  | .symbol .lparen => 1
  | .symbol .rparen => -1
  | _ => 0

/-- **The parentheses that are open** behind some tokens. -/
def depth (w : List SqlToken) : ℤ := (w.map fun t => detailDepth t.detail).sum

@[simp] theorem weight_nil : weight [] = 0 := rfl

@[simp] theorem weight_cons (t : SqlToken) (w : List SqlToken) :
    weight (t :: w) = detailWeight t.detail + weight w := by
  simp [weight]

@[simp] theorem weight_append (u w : List SqlToken) : weight (u ++ w) = weight u + weight w := by
  simp [weight]

@[simp] theorem depth_nil : depth [] = 0 := rfl

@[simp] theorem depth_cons (t : SqlToken) (w : List SqlToken) :
    depth (t :: w) = detailDepth t.detail + depth w := by
  simp [depth]

@[simp] theorem depth_append (u w : List SqlToken) : depth (u ++ w) = depth u + depth w := by
  simp [depth]

/-- The weight of an expression: its operands and operators. -/
def ExprNode.weight : ExprNode → ℕ
  | .identifier _ => 1
  | .columnIdentifier _ => 1
  | .literal _ => 1
  | .binaryExpr _ left right => left.weight + 1 + right.weight
  | .prefixExpr _ right => 1 + right.weight

/-- The weight of a table. -/
def TableIdentifier.weight (table : TableIdentifier) : ℕ :=
  if table.schemaName.isSome then 3 else 1

/-- The weight of a list with commas between its members. -/
def commasWeight {α : Type} (size : α → ℕ) (items : List α) : ℕ :=
  (items.map size).sum + (items.length - 1)

/-- The weight of a list of columns, where a `*` stands for none. -/
def columnsWeight (columns : List SqlToken) : ℕ :=
  if columns = [] then 1 else commasWeight (fun _ => 1) columns

/-- The weight of a `WHERE`. -/
def whereWeight : Option ExprNode → ℕ
  | none => 0
  | some e => 1 + e.weight

/-- **The weight of a statement.** -/
def Statement.weight : Statement → ℕ
  | .select stmt => 2 + columnsWeight stmt.columns + stmt.table.weight + whereWeight stmt.where_
  | .insert stmt => 3 + stmt.table.weight + columnsWeight stmt.columns
      + commasWeight (fun _ => 1) stmt.values.flatten
  | .update stmt => 2 + stmt.table.weight + commasWeight ExprNode.weight stmt.assignments
      + whereWeight stmt.where_
  | .delete stmt => 2 + stmt.table.weight + whereWeight stmt.where_
  | .createIndex stmt => 5 + stmt.table.weight + (if stmt.isUnique = some true then 1 else 0)
  | .dropIndex stmt => 4 + stmt.table.weight
  | _ => 0

section Counting

variable {k p : ℕ} {e : ExprNode} {w after : List SqlToken}

theorem operand_counts {t : SqlToken} (h : Operand e t) :
    detailWeight t.detail = 1 ∧ detailDepth t.detail = 0 ∧ e.weight = 1 := by
  cases h with
  | identifier hd => rw [hd]; exact ⟨rfl, rfl, rfl⟩
  | literal hd => rw [hd]; exact ⟨rfl, rfl, rfl⟩
  | null hd => rw [hd]; exact ⟨rfl, rfl, rfl⟩

theorem operatorTokens_counts {op op' : AstOperator} {o : List SqlToken}
    (h : OperatorTokens op op' o) : weight o = 1 ∧ depth o = 0 := by
  have hoperator : ∀ {t : SqlToken}, operatorOf t = some op →
      detailWeight t.detail = 1 ∧ detailDepth t.detail = 0 := by
    intro t ht
    unfold operatorOf at ht
    cases hd : t.detail with
    | operator o => exact ⟨rfl, rfl⟩
    | keyword kw =>
      rw [hd] at ht
      cases kw <;> first | exact ⟨rfl, rfl⟩ | cases ht
    | _ => rw [hd] at ht; cases ht
  cases h with
  | single h => simp [hoperator h]
  | isNot h hnot =>
    obtain ⟨hweight, hdepth⟩ := hoperator h
    simp only [weight_cons, depth_cons, weight_nil, depth_nil, hweight, hdepth, hnot]
    exact ⟨rfl, rfl⟩

/-- **An open rendering** has the weight of its expression and its parentheses
open. -/
theorem OpenRendering.counts (h : OpenRendering k p e w) : weight w = e.weight ∧ depth w = k := by
  induction h with
  | operand h =>
    obtain ⟨hweight, hdepth, he⟩ := operand_counts h
    simp [hweight, hdepth, he]
  | paren hlp _ _ ih =>
    simp [hlp, ih, detailWeight, detailDepth]
    omega
  | negation hn _ ih => simp [hn, ih, detailWeight, detailDepth, ExprNode.weight]
  | binary ho _ _ _ ihl ihr =>
    obtain ⟨hweight, hdepth⟩ := operatorTokens_counts ho
    simp [hweight, hdepth, ihl, ihr, ExprNode.weight]
    omega

/-- **A rendering** has the weight of its expression, and its parentheses are
balanced. -/
theorem Rendering.counts (h : Rendering p e w) : weight w = e.weight ∧ depth w = 0 := by
  induction h with
  | operand h =>
    obtain ⟨hweight, hdepth, he⟩ := operand_counts h
    simp [hweight, hdepth, he]
  | paren hlp hrp _ ih => simp [hlp, hrp, ih, detailWeight, detailDepth]
  | negation hn _ ih => simp [hn, ih, detailWeight, detailDepth, ExprNode.weight]
  | binary ho _ _ _ ihl ihr =>
    obtain ⟨hweight, hdepth⟩ := operatorTokens_counts ho
    simp [hweight, hdepth, ihl, ihr, ExprNode.weight]
    omega

theorem tableTokens_counts {table : TableIdentifier} (h : TableTokens table w) :
    weight w = table.weight ∧ depth w = 0 := by
  cases h with
  | plain h =>
    rw [IsIdentifier] at h
    simp [h, detailWeight, detailDepth, TableIdentifier.weight]
  | qualified hs hd h =>
    rw [IsIdentifier] at hs h
    simp [hs, hd, h, detailWeight, detailDepth, TableIdentifier.weight]

theorem commas_ne_nil {α : Type} {X : α → List SqlToken → Prop} {items : List α}
    (h : Commas X items w) : items ≠ [] := by
  cases h <;> exact List.cons_ne_nil _ _

/-- A list counts its members and the commas between them. -/
theorem commas_counts {α : Type} {X : α → List SqlToken → Prop} {size : α → ℕ} {items : List α}
    (hX : ∀ a w, X a w → weight w = size a ∧ depth w = 0) (h : Commas X items w) :
    weight w = commasWeight size items ∧ depth w = 0 := by
  induction h with
  | single h =>
    obtain ⟨hweight, hdepth⟩ := hX _ _ h
    simp [hweight, hdepth, commasWeight]
  | @cons a as w ws c h hc hs ih =>
    obtain ⟨hweight, hdepth⟩ := hX _ _ h
    have hlength : 0 < as.length := List.length_pos_iff.mpr (commas_ne_nil hs)
    simp [hweight, hdepth, hc, ih, commasWeight, detailWeight, detailDepth]
    omega

theorem itself_counts {P : SqlToken → Prop}
    (hP : ∀ t, P t → detailWeight t.detail = 1 ∧ detailDepth t.detail = 0)
    {t : SqlToken} (h : Itself P t w) : weight w = 1 ∧ depth w = 0 := by
  obtain ⟨ht⟩ := h
  simp [hP t ht]

theorem identifier_counts {t : SqlToken} (h : IsIdentifier t) :
    detailWeight t.detail = 1 ∧ detailDepth t.detail = 0 := by
  rw [IsIdentifier] at h
  rw [h]
  exact ⟨rfl, rfl⟩

theorem literal_counts {t : SqlToken} (h : IsLiteral t) :
    detailWeight t.detail = 1 ∧ detailDepth t.detail = 0 := by
  obtain ⟨l, hl⟩ := h
  rw [hl]
  exact ⟨rfl, rfl⟩

theorem columnTokens_counts {columns : List SqlToken} (h : ColumnTokens columns w) :
    weight w = columnsWeight columns ∧ depth w = 0 := by
  cases h with
  | all hx => simp [hx, columnsWeight, detailWeight, detailDepth]
  | listed h =>
    rw [columnsWeight, if_neg (commas_ne_nil h)]
    exact commas_counts (fun _ _ => itself_counts fun _ => identifier_counts) h

theorem whereTokens_counts {where_ : Option ExprNode} (h : WhereTokens (Rendering 0) where_ w) :
    weight w = whereWeight where_ ∧ depth w = 0 := by
  cases h with
  | none => exact ⟨rfl, rfl⟩
  | some ht h => simp [ht, h.counts, whereWeight, detailWeight, detailDepth]

theorem whereReads_counts {where_ : Option ExprNode} (h : WhereReads where_ k w after) :
    weight w = whereWeight where_ ∧ depth w = k := by
  cases h with
  | none => exact ⟨rfl, rfl⟩
  | some ht h _ _ =>
    simp [ht, h.counts, whereWeight, detailWeight, detailDepth]

theorem assignmentsRead_counts {es : List ExprNode} (h : AssignmentsRead es k w after) :
    weight w = commasWeight ExprNode.weight es ∧ depth w = k := by
  induction h with
  | single hw _ _ _ => simp [hw.counts, commasWeight]
  | @cons e es k c w ws after hw _ hc hs ih =>
    have hlength : 0 < es.length := by
      cases hs <;> exact Nat.succ_pos _
    simp [hw.counts, hc, ih, commasWeight, detailWeight, detailDepth]
    omega

/-- **A rendering of a statement** has its weight, and balanced parentheses. -/
theorem Renders.counts {stmt : Statement} (h : Renders (Rendering 0) stmt w) :
    weight w = stmt.weight ∧ depth w = 0 := by
  cases h with
  | select hs hc hf ht hw =>
    simp [hs, hf, columnTokens_counts hc, tableTokens_counts ht, whereTokens_counts hw,
      Statement.weight, detailWeight, detailDepth]
    omega
  | insert hi hn ht hlp hc hrp hv hlp' hw hrp' =>
    have hvalues := commas_counts (fun _ _ => itself_counts fun _ => literal_counts) hw
    simp [hi, hn, hlp, hrp, hv, hlp', hrp', columnTokens_counts hc, tableTokens_counts ht, hvalues,
      Statement.weight, detailWeight, detailDepth]
    omega
  | update hu ht hs ha hw =>
    have hassign : weight _ = commasWeight ExprNode.weight _ ∧ _ :=
      commas_counts (fun _ _ h => h.counts) ha
    simp [hu, hs, hassign, tableTokens_counts ht, whereTokens_counts hw,
      Statement.weight, detailWeight, detailDepth]
    omega
  | delete hd hf ht hw =>
    simp [hd, hf, tableTokens_counts ht, whereTokens_counts hw,
      Statement.weight, detailWeight, detailDepth]
    omega
  | createIndex hc hi hname ho ht hlp hcolumn hrp =>
    rw [IsIdentifier] at hname hcolumn
    simp [hc, hi, hname, ho, hlp, hcolumn, hrp, tableTokens_counts ht, Statement.weight,
      detailWeight, detailDepth]
    omega
  | createUniqueIndex hc hu hi hname ho ht hlp hcolumn hrp =>
    rw [IsIdentifier] at hname hcolumn
    simp [hc, hu, hi, hname, ho, hlp, hcolumn, hrp, tableTokens_counts ht, Statement.weight,
      detailWeight, detailDepth]
    omega
  | dropIndex hd hi hname ho ht =>
    rw [IsIdentifier] at hname
    simp [hd, hi, hname, ho, tableTokens_counts ht,
      Statement.weight, detailWeight, detailDepth]
    omega

/-- **What has been read without surplus tokens** has the weight of the statement and
its parentheses open. -/
theorem Reads.counts {stmt : Statement} (h : Reads stmt k [] w after) :
    weight w = stmt.weight ∧ depth w = k := by
  generalize hsurplus : ([] : List SqlToken) = surplus at h
  cases h with
  | select hs hc hf ht _ hw =>
    subst hsurplus
    simp [hs, hf, columnTokens_counts hc.tokens, tableTokens_counts ht, whereReads_counts hw,
      Statement.weight, detailWeight, detailDepth]
    omega
  | insert hi hn ht hlp hc hrp hv hlp' hw _ =>
    subst hsurplus
    have hvalues := commas_counts (fun _ _ => itself_counts fun _ => literal_counts) hw
    simp [hi, hn, hlp, hrp, hv, hlp', columnTokens_counts hc.tokens, tableTokens_counts ht,
      hvalues, Statement.weight, detailWeight, detailDepth]
    omega
  | update hu ht hs ha hw =>
    simp [hu, hs, assignmentsRead_counts ha, tableTokens_counts ht, whereReads_counts hw,
      Statement.weight, detailWeight, detailDepth]
    omega
  | delete hd hf ht _ hw =>
    simp [hd, hf, tableTokens_counts ht, whereReads_counts hw,
      Statement.weight, detailWeight, detailDepth]
    omega
  | createIndex hc hi hname ho ht hlp hcolumn _ =>
    rw [IsIdentifier] at hname hcolumn
    simp [hc, hi, hname, ho, hlp, hcolumn, tableTokens_counts ht, Statement.weight,
      detailWeight, detailDepth]
    omega
  | createUniqueIndex hc hu hi hname ho ht hlp hcolumn _ =>
    rw [IsIdentifier] at hname hcolumn
    simp [hc, hu, hi, hname, ho, hlp, hcolumn, tableTokens_counts ht, Statement.weight,
      detailWeight, detailDepth]
    omega
  | dropIndex hd hi hname ho ht _ =>
    rw [IsIdentifier] at hname
    simp [hd, hi, hname, ho, tableTokens_counts ht, Statement.weight, detailWeight, detailDepth]
    omega

end Counting

/-! ## Surplus tokens in a list of columns -/

section Columns

variable {columns surplus u w rest rest' : List SqlToken}

theorem commas_itself_length {P : SqlToken → Prop} {items : List SqlToken}
    (h : Commas (Itself P) items w) : w.length = 2 * items.length - 1 := by
  induction h with
  | single h =>
    obtain ⟨-⟩ := h
    rfl
  | cons h _ hs ih =>
    obtain ⟨-⟩ := h
    have hlength := List.length_pos_iff.mpr (commas_ne_nil hs)
    simp [ih]
    omega

/-- Two lists of the same members at the same place. -/
theorem commas_itself_unique {P : SqlToken → Prop} {items : List SqlToken}
    (hu : Commas (Itself P) items u) (hw : Commas (Itself P) items w)
    (h : u ++ rest = w ++ rest') : u = w ∧ rest = rest' :=
  List.append_inj h ((commas_itself_length hu).trans (commas_itself_length hw).symm)

/-- The columns of a rendered `SELECT` are read without surplus tokens. -/
theorem SelectList.surplus_eq_nil {f x : SqlToken} (h : SelectList columns surplus u)
    (htokens : ColumnTokens columns w) (hf : f.detail = .keyword .from_) (hx : IsIdentifier x)
    (hfrom : rest = f :: x :: rest') {tail : List SqlToken} {f' : SqlToken}
    (hf' : f'.detail = .keyword .from_) (heq : u ++ f' :: tail = w ++ rest) : surplus = [] := by
  subst hfrom
  cases h with
  | all _ => rfl
  | @other y hy hid =>
    exfalso
    cases htokens with
    | all hmul =>
      obtain ⟨rfl, -⟩ := List.cons.inj heq
      exact hy hmul
    | listed hlist => exact commas_ne_nil hlist rfl
  | @columns _ cs y hcs hy =>
    exfalso
    cases htokens with
    | all _ => exact commas_ne_nil hcs rfl
    | listed hlist =>
      -- the token behind the list is `FROM`, and the next one cannot be
      rw [List.append_assoc] at heq
      obtain ⟨-, heq⟩ := commas_itself_unique hcs hlist heq
      obtain ⟨-, heq⟩ := List.cons.inj heq
      obtain ⟨rfl, -⟩ := List.cons.inj heq
      rw [IsIdentifier, hf'] at hx
      cases hx
  | @comma _ cs c y hcs hc hy =>
    exfalso
    cases htokens with
    | all _ => exact commas_ne_nil hcs rfl
    | listed hlist =>
      rw [List.append_assoc] at heq
      obtain ⟨-, heq⟩ := commas_itself_unique hcs hlist heq
      obtain ⟨rfl, -⟩ := List.cons.inj heq
      rw [hf] at hc
      cases hc

/-- And so are those of a rendered `INSERT`. -/
theorem InsertList.surplus_eq_nil {rp : SqlToken} (h : InsertList columns surplus u)
    (htokens : ColumnTokens columns w) (hrp : rp.detail = .symbol .rparen)
    {tail tail' : List SqlToken} (heq : u ++ tail = w ++ rp :: tail') : surplus = [] := by
  cases h with
  | all _ => rfl
  | columns _ => rfl
  | @other y hy hid =>
    exfalso
    cases htokens with
    | all hmul =>
      obtain ⟨rfl, -⟩ := List.cons.inj heq
      exact hy hmul
    | listed hlist => exact commas_ne_nil hlist rfl
  | @comma _ cs c y hcs hc hy =>
    exfalso
    cases htokens with
    | all _ => exact commas_ne_nil hcs rfl
    | listed hlist =>
      rw [List.append_assoc] at heq
      obtain ⟨-, heq⟩ := commas_itself_unique hcs hlist heq
      obtain ⟨rfl, -⟩ := List.cons.inj heq
      rw [hrp] at hc
      cases hc

theorem tableTokens_length {table : TableIdentifier} (h : TableTokens table w) :
    w.length = table.weight := by
  cases h <;> rfl

theorem tableTokens_head {table : TableIdentifier} (h : TableTokens table w) :
    ∃ t ts, w = t :: ts ∧ IsIdentifier t := by
  cases h with
  | plain h => exact ⟨_, _, rfl, h⟩
  | qualified hs _ _ => exact ⟨_, _, rfl, hs⟩

/-- **In front of a rendering nothing has been read with surplus tokens.** -/
theorem Reads.surplus_eq_nil {stmt : Statement} {k : ℕ} {after body tail : List SqlToken}
    (h : Reads stmt k surplus w after) (hbody : Renders (Rendering 0) stmt body)
    (heq : w ++ after = body ++ tail) : surplus = [] := by
  cases h with
  | @select table columns where_ k s f surplus cw tw ww after hs hc hf ht hend hw =>
    cases hbody with
    | select hs' hc' hf' ht' hw' =>
      obtain ⟨x, xs, rfl, hid⟩ := tableTokens_head ht'
      simp only [List.cons_append, List.append_assoc] at heq
      exact hc.surplus_eq_nil hc' hf' hid rfl hf (List.cons.inj heq).2
  | @insert table columns values i n lp rp v lp' surplus tw cw vw after hi hn ht hlp hc hrp hv hlp'
    hw hclose =>
    cases hbody with
    | insert hi' hn' ht' hlp₁ hc' hrp₁ hv₁ hlp₂ hw₁ hrp₂ =>
      simp only [List.cons_append, List.append_assoc] at heq
      have heq := (List.cons.inj (List.cons.inj heq).2).2
      have hlength := (tableTokens_length ht).trans (tableTokens_length ht').symm
      exact hc.surplus_eq_nil hc' hrp₁ (List.cons.inj (List.append_inj heq hlength).2).2
  | update _ _ _ _ _ => rfl
  | delete _ _ _ _ _ => rfl
  | createIndex _ _ _ _ _ _ _ _ => rfl
  | createUniqueIndex _ _ _ _ _ _ _ _ _ => rfl
  | dropIndex _ _ _ _ _ _ => rfl

end Columns

/-! ## Surplus tokens at the end -/

section Ends

variable {stmt : Statement} {k missing : ℕ} {surplus extra body w ts after : List SqlToken}

/-- A token with which a rendering can end. -/
def IsFinal (t : SqlToken) : Prop := t.detail = .symbol .rparen ∨ ∃ e, Operand e t

theorem Rendering.last {p : ℕ} {e : ExprNode} (h : Rendering p e w) :
    ∃ u t, w = u ++ [t] ∧ IsFinal t := by
  induction h with
  | operand h => exact ⟨[], _, rfl, Or.inr ⟨_, h⟩⟩
  | @paren p e lp rp w _ hrp _ _ => exact ⟨lp :: w, rp, rfl, Or.inl hrp⟩
  | @negation p e n w _ _ ih =>
    obtain ⟨u, t, rfl, ht⟩ := ih
    exact ⟨n :: u, t, rfl, ht⟩
  | @binary p op op' l r wl o wr _ _ _ _ _ ihr =>
    obtain ⟨u, t, rfl, ht⟩ := ihr
    refine ⟨wl ++ (o ++ u), t, ?_, ht⟩
    simp

theorem commas_last {es : List ExprNode} (h : Commas (Rendering 0) es w) :
    ∃ u t, w = u ++ [t] ∧ IsFinal t := by
  induction h with
  | single h => exact h.last
  | @cons e es w ws c _ _ _ ih =>
    obtain ⟨u, t, rfl, ht⟩ := ih
    refine ⟨w ++ c :: u, t, ?_, ht⟩
    simp

/-- **A rendering of a statement ends with an operand or a parenthesis.** -/
theorem Renders.last (h : Renders (Rendering 0) stmt body) :
    ∃ u t, body = u ++ [t] ∧ IsFinal t := by
  -- it is enough that the last part does
  have hpart : ∀ {v w : List SqlToken}, (∃ u t, w = u ++ [t] ∧ IsFinal t) →
      ∃ u t, v ++ w = u ++ [t] ∧ IsFinal t := by
    rintro v w ⟨u, t, rfl, ht⟩
    exact ⟨v ++ u, t, (List.append_assoc v u [t]).symm, ht⟩
  have htable : ∀ {table : TableIdentifier} {tw : List SqlToken}, TableTokens table tw →
      ∃ u t, tw = u ++ [t] ∧ IsFinal t := by
    intro table tw ht
    obtain ⟨u, t, rfl, hid⟩ := ht.last
    exact ⟨u, t, rfl, Or.inr ⟨_, .identifier hid⟩⟩
  have hwhere : ∀ {v ww : List SqlToken} {where_ : Option ExprNode},
      WhereTokens (Rendering 0) where_ ww → (∃ u t, v = u ++ [t] ∧ IsFinal t) →
      ∃ u t, v ++ ww = u ++ [t] ∧ IsFinal t := by
    intro v ww where_ hw hv
    cases hw with
    | none => rwa [List.append_nil]
    | @some e t w ht hw => exact hpart (hpart (v := [t]) hw.last)
  cases h with
  | @select table columns where_ s f cw tw ww hs hc hf ht hw =>
    have hend := hpart (v := s :: (cw ++ [f])) (hwhere hw (htable ht))
    simpa using hend
  | @insert table columns values i n lp rp v lp' rp' tw cw vw hi hn ht hlp hc hrp hv hlp' hw hrp' =>
    refine ⟨i :: n :: (tw ++ lp :: (cw ++ rp :: v :: lp' :: vw)), rp', ?_, Or.inl hrp'⟩
    simp
  | @update table es where_ u s tw aw ww hu ht hs ha hw =>
    have hend := hpart (v := u :: (tw ++ [s])) (hwhere hw (commas_last ha))
    simpa using hend
  | @delete table where_ d f tw ww hd hf ht hw =>
    exact hpart (v := [d, f]) (hwhere hw (htable ht))
  | @createIndex table name column c i o lp rp tw hc hi hname ho ht hlp hcolumn hrp =>
    refine ⟨c :: i :: name :: o :: (tw ++ [lp, column]), rp, ?_, Or.inl hrp⟩
    simp
  | @createUniqueIndex table name column c u i o lp rp tw hc hu hi hname ho ht hlp hcolumn hrp =>
    refine ⟨c :: u :: i :: name :: o :: (tw ++ [lp, column]), rp, ?_, Or.inl hrp⟩
    simp
  | @dropIndex table name d i o tw hd hi hname ho ht =>
    exact hpart (v := [d, i, name, o]) (htable ht)

theorem isFinal_counts {t : SqlToken} (h : IsFinal t) :
    ¬ IsSemicolon t ∧ (detailWeight t.detail = 1 ∨ detailDepth t.detail = -1) := by
  rcases h with hrp | ⟨e, he⟩
  · refine ⟨fun hsemicolon => ?_, Or.inr ?_⟩
    · rw [IsSemicolon, hrp] at hsemicolon
      cases hsemicolon
    · rw [hrp]
      rfl
  · exact ⟨fun h => noOperand_symbol _ _ _ he h, Or.inl (operand_counts he).1⟩

/-- A rendering that ends the input, less a semicolon. -/
theorem body_eq (hbody : Renders (Rendering 0) stmt body) (h : InputOf body ts) {u : List SqlToken}
    {t : SqlToken} (hts : ts = u ++ [t]) :
    (¬ IsSemicolon t ∧ body = u ++ [t]) ∨ (IsSemicolon t ∧ body = u) := by
  obtain ⟨v, x, rfl, hx⟩ := hbody.last
  cases h with
  | plain =>
    obtain ⟨rfl, hlast⟩ := List.append_inj' hts rfl
    obtain ⟨rfl, -⟩ := List.cons.inj hlast
    exact Or.inl ⟨(isFinal_counts hx).1, rfl⟩
  | semicolon ht =>
    obtain ⟨hu, hlast⟩ := List.append_inj' hts rfl
    obtain ⟨rfl, -⟩ := List.cons.inj hlast
    exact Or.inr ⟨ht, hu⟩

/-- A rendering is what has been read, with the last token but for a semicolon. -/
theorem Trailing.body_eq (htrailing : Trailing k extra after) (hinput : InputOf body (w ++ after))
    (hbody : Renders (Rendering 0) stmt body) :
    (k = 0 ∧ extra = []) ∨ ∃ x, body = w ++ [x]
      ∧ ((k = 0 ∧ extra = [x]) ∨ (0 < k ∧ extra = [] ∧ x.detail = .symbol .rparen)) := by
  cases htrailing with
  | nothing => exact Or.inl ⟨rfl, rfl⟩
  | semicolon _ => exact Or.inl ⟨rfl, rfl⟩
  | @surplus x hx =>
    rcases Sql.body_eq hbody hinput rfl with ⟨-, h⟩ | ⟨hsemicolon, -⟩
    · exact Or.inr ⟨x, h, Or.inl ⟨rfl, rfl⟩⟩
    · exact absurd hsemicolon hx
  | @surplusSemicolon x t ht =>
    have hsplit : w ++ [x, t] = (w ++ [x]) ++ [t] := by simp
    rcases Sql.body_eq hbody hinput hsplit with ⟨hsemicolon, -⟩ | ⟨-, h⟩
    · exact absurd ht hsemicolon
    · exact Or.inr ⟨x, h, Or.inl ⟨rfl, rfl⟩⟩
  | @closed k rp hrp =>
    rcases Sql.body_eq hbody hinput rfl with ⟨-, h⟩ | ⟨hsemicolon, -⟩
    · exact Or.inr ⟨rp, h, Or.inr ⟨Nat.succ_pos k, rfl, hrp⟩⟩
    · rw [IsSemicolon, hrp] at hsemicolon
      cases hsemicolon
  | @closedSemicolon k rp t hrp ht =>
    have hsplit : w ++ [rp, t] = (w ++ [rp]) ++ [t] := by simp
    rcases Sql.body_eq hbody hinput hsplit with ⟨hsemicolon, -⟩ | ⟨-, h⟩
    · exact absurd ht hsemicolon
    · exact Or.inr ⟨rp, h, Or.inr ⟨Nat.succ_pos k, rfl, hrp⟩⟩

/-- **A rendering is accepted without surplus tokens and missing parentheses.** -/
theorem Accepts.faultless (h : Accepts stmt missing surplus ts) (hts : IsRendering stmt ts) :
    missing = 0 ∧ surplus = [] := by
  obtain ⟨body, hinput, hbody⟩ := hts
  cases h with
  | @intro k inner extra w after hreads htrailing =>
    have hinner : inner = [] := by
      have hall : ∃ tail, w ++ after = body ++ tail := by
        generalize w ++ after = ts at hinput
        cases hinput with
        | plain => exact ⟨[], (List.append_nil _).symm⟩
        | semicolon _ => exact ⟨_, rfl⟩
      obtain ⟨tail, hall⟩ := hall
      exact hreads.surplus_eq_nil hbody hall
    subst hinner
    obtain ⟨hweight, hdepth⟩ := hreads.counts
    rcases htrailing.body_eq hinput hbody with ⟨rfl, rfl⟩ | ⟨x, rfl, hcase⟩
    · exact ⟨rfl, rfl⟩
    · -- the token behind what has been read neither weighs nor opens or closes too much
      obtain ⟨hweight', hdepth'⟩ := hbody.counts
      rw [weight_append, weight_cons, weight_nil] at hweight'
      rw [depth_append, depth_cons, depth_nil] at hdepth'
      rcases hcase with ⟨rfl, rfl⟩ | ⟨hk, rfl, hrp⟩
      · obtain ⟨u, t, hlast, ht⟩ := hbody.last
        obtain ⟨-, hlast⟩ := List.append_inj' hlast rfl
        obtain ⟨rfl, -⟩ := List.cons.inj hlast
        rcases (isFinal_counts ht).2 with hone | hclosed <;> omega
      · have hclosed : detailDepth x.detail = -1 := by
          rw [hrp]
          rfl
        refine ⟨?_, rfl⟩
        omega

end Ends

/-! ## What the parser returns -/

/-- **What the parser returns is a rendering of its input exactly if the input has no
surplus tokens and no parentheses are missing in it.** -/
theorem returned_isRendering_iff (ts : List SqlToken) :
    (∀ fuel stmt, SqlParser.run fuel ts = .ok stmt → Covered stmt → IsRendering stmt ts)
      ↔ ∀ stmt missing surplus, Accepts stmt missing surplus ts → missing = 0 ∧ surplus = [] := by
  constructor
  · intro h stmt missing surplus haccepts
    obtain ⟨n, hrun⟩ := parses_of_accepts haccepts
    exact haccepts.faultless (h n stmt (hrun n le_rfl) haccepts.covered)
  · intro h fuel stmt hrun hcovered
    obtain ⟨missing, surplus, haccepts⟩ := accepts_of_run hcovered hrun
    obtain ⟨rfl, rfl⟩ := h stmt missing surplus haccepts
    exact haccepts.isRendering

/-- The tokens of `DELETE FROM t x`. -/
def surplusTokens : List SqlToken :=
  [{ value := Lexer.key "delete", line := 1, pos := 0, detail := .keyword .delete },
    { value := Lexer.key "from", line := 1, pos := 7, detail := .keyword .from_ },
    { value := Lexer.key "t", line := 1, pos := 12, detail := .identifier },
    { value := Lexer.key "x", line := 1, pos := 14, detail := .identifier }]

/-- The tokens of `DELETE FROM t WHERE ((a == 1)`. -/
def openTokens : List SqlToken :=
  [{ value := Lexer.key "delete", line := 1, pos := 0, detail := .keyword .delete },
    { value := Lexer.key "from", line := 1, pos := 7, detail := .keyword .from_ },
    { value := Lexer.key "t", line := 1, pos := 12, detail := .identifier },
    { value := Lexer.key "where", line := 1, pos := 14, detail := .keyword .where_ },
    { value := Lexer.key "(", line := 1, pos := 20, detail := .symbol .lparen },
    { value := Lexer.key "(", line := 1, pos := 21, detail := .symbol .lparen },
    { value := Lexer.key "a", line := 1, pos := 22, detail := .identifier },
    { value := Lexer.key "==", line := 1, pos := 24, detail := .operator .eq },
    { value := Lexer.key "1", line := 1, pos := 27, detail := .literal .integer },
    { value := Lexer.key ")", line := 1, pos := 28, detail := .symbol .rparen }]

/-- A token behind a `DELETE` without a `WHERE` is passed over. -/
theorem accepts_surplus {d f t x : SqlToken} (hd : d.detail = .keyword .delete)
    (hf : f.detail = .keyword .from_) (ht : IsIdentifier t) (hx : IsIdentifier x) :
    Accepts (.delete { table := { tableName := t }, where_ := none }) 0 [x] [d, f, t, x] := by
  have hnext : ∀ {d : SqlTokenDetail}, d ≠ .identifier → NotNext d [x] := by
    intro d hne y ys hy hdetail
    obtain ⟨rfl, -⟩ := List.cons.inj hy
    exact hne (hdetail.symm.trans hx)
  have hreads : Reads (.delete { table := { tableName := t }, where_ := none }) 0 []
      (d :: f :: ([t] ++ [])) [x] := by
    refine .delete hd hf (.plain ht) (fun _ => hnext ?_) (.none (hnext ?_))
    · exact SqlTokenDetail.noConfusion
    · exact SqlTokenDetail.noConfusion
  have hsurplus : ¬ IsSemicolon x := by
    rw [IsSemicolon, hx]
    exact SqlTokenDetail.noConfusion
  exact .intro hreads (.surplus hsurplus)

/-- One right parenthesis closes two left ones. -/
theorem accepts_open {d f t v lp lp' a o b rp : SqlToken} {l : SqlLiteral}
    (hd : d.detail = .keyword .delete) (hf : f.detail = .keyword .from_) (ht : IsIdentifier t)
    (hv : v.detail = .keyword .where_) (hlp : lp.detail = .symbol .lparen)
    (hlp' : lp'.detail = .symbol .lparen) (ha : IsIdentifier a) (ho : o.detail = .operator .eq)
    (hb : b.detail = .literal l) (hrp : rp.detail = .symbol .rparen) :
    Accepts
      (.delete {
        table := { tableName := t }
        where_ := some (.binaryExpr .eq (.identifier a) (.literal b)) })
      1 [] [d, f, t, v, lp, lp', a, o, b, rp] := by
  have hoperator : operatorOf o = some .eq := by
    rw [operatorOf, ho]
    rfl
  have hcomparison : OpenRendering 0 0 _ ([a] ++ ([o] ++ [b])) :=
    .binary (.single hoperator) (Nat.zero_le _) (.operand (.identifier ha)) (.operand (.literal hb))
  have hparens := OpenRendering.paren (p := 0) hlp rfl (.paren hlp' rfl hcomparison)
  have hclose : Closes [rp] := ⟨rp, [], rfl, hrp⟩
  have hend : TableEnds { tableName := t }
      ((v :: lp :: lp' :: ([a] ++ ([o] ++ [b]))) ++ [rp]) := by
    intro _ y ys hy
    obtain ⟨rfl, -⟩ := List.cons.inj hy
    rw [hv]
    exact SqlTokenDetail.noConfusion
  exact .intro (.delete hd hf (.plain ht) hend (.some hv hparens rfl hclose)) (.closed hrp)

/-- An input that the parser takes and that is no rendering of what it returns. -/
def FalselyReturned (ts : List SqlToken) : Prop :=
  ∃ fuel stmt, SqlParser.run fuel ts = .ok stmt ∧ Covered stmt ∧ ¬ IsRendering stmt ts

theorem falselyReturned_of_accepts {stmt : Statement} {missing : ℕ} {surplus ts : List SqlToken}
    (h : Accepts stmt missing surplus ts) (hne : ¬ (missing = 0 ∧ surplus = [])) :
    FalselyReturned ts := by
  obtain ⟨n, hrun⟩ := parses_of_accepts h
  exact ⟨n, stmt, hrun n le_rfl, h.covered, fun hts => hne (h.faultless hts)⟩

/-- **A surplus token gets in, and a parenthesis that is not closed.** -/
theorem not_returned_isRendering :
    (Lexed (Lexer.key "DELETE FROM t x") surplusTokens ∧ FalselyReturned surplusTokens)
      ∧ Lexed (Lexer.key "DELETE FROM t WHERE ((a == 1)") openTokens
        ∧ FalselyReturned openTokens := by
  refine ⟨⟨⟨40, ?_⟩, ?_⟩, ⟨40, ?_⟩, ?_⟩
  · decide +kernel
  · refine falselyReturned_of_accepts (accepts_surplus rfl rfl rfl rfl) fun h => ?_
    exact absurd h.2 (List.cons_ne_nil _ _)
  · decide +kernel
  · refine falselyReturned_of_accepts
      (accepts_open rfl rfl rfl rfl rfl rfl rfl rfl rfl rfl) fun h => ?_
    exact absurd h.1 Nat.one_ne_zero

end Sql
