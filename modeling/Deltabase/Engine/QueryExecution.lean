import Deltabase.Executor.AcceptedStatements
import Deltabase.Executor.NodeExecutorFactory
import Deltabase.Sql.Lexer

/-!
# Executing a query

`Engine::execute_query` from the text of a query to its result: lexer, parser,
analyzer, planner and the executor of the plan.
-/

/-- `engine::Engine`, apart from the database it is attached to. -/
structure Engine where
  setup : EngineSetup
  /-- `should_stream_for_seq_scan`, which compares estimates. -/
  streams : MetaTable → Sql.PlanNode → Bool
  /-- What a `bool` holds that nobody has written to. -/
  unwritten : Bool

namespace Engine

/-- Whether a plan goes through an index. -/
def scansIndex : Sql.PlanNode → Bool
  | .indexScan .. => true
  | .project _ _ child => scansIndex child
  | .limit _ child => scansIndex child
  | _ => false

/-- `needs_stream` of a plan. -/
def needsStream (engine : Engine) (db : StdDbInstance) : Sql.Statement → Sql.PlanNode → Bool
  | .select stmt, plan => !scansIndex plan
      && (db.findNamed engine.setup.defaultSchema stmt.table).any fun mt => engine.streams mt plan
  | _, _ => false

/-- **`execute_query` comes as far as a plan**: the text is a statement, which is
let through and planned. -/
structure Plans (engine : Engine) (db : StdDbInstance) (query : Bytes) (stmt : Sql.Statement)
    (plan : Sql.PlanNode) : Prop where
  parsed : ∃ fuel tokens, Sql.Lexed query tokens ∧ Sql.SqlParser.run fuel tokens = .ok stmt
  accepts : (engine.setup.analyzer db).Accepts stmt
  planned : (engine.setup.planner db).planStatement stmt = .ok plan

/-- **What `execute_query` returns**: a table, whose rows have been found by going
through all rows or through an index, or a stream that has not begun. -/
inductive Answer where
  | scanned (rows : List DataRow)
  | indexed (rows : List DataRow)
  | streamed

/-- **`execute_query` returns.** -/
inductive Executes (engine : Engine) (db : StdDbInstance) (query : Bytes) (stmt : Sql.Statement) :
    Answer → StdDbInstance → Prop
  | materialized {plan : Sql.PlanNode} {rounds : ℕ} {rows : List DataRow}
      {schema : OutputSchema} {db' : StdDbInstance} (plans : engine.Plans db query stmt plan)
      (whole : engine.needsStream db stmt plan = false)
      (returns : executeQuery rounds (.fromPlan engine.unwritten plan) false db
        = .ok (.materialized rows schema 0) db') :
      Executes engine db query stmt (if scansIndex plan then .indexed rows else .scanned rows) db'
  | streamed {plan : Sql.PlanNode} (plans : engine.Plans db query stmt plan)
      (streams : engine.needsStream db stmt plan = true) :
      Executes engine db query stmt .streamed db

/-- **`execute_query`**, with as many rounds for the lexer, the parser and the loops of
the executors: the statement and what is returned. -/
def execute (engine : Engine) (rounds : ℕ) (query : Bytes) (db : StdDbInstance) :
    Option (Sql.Statement × Answer × StdDbInstance) :=
  match Sql.lex rounds query with
  | .error _ => none
  | .ok tokens =>
    match Sql.SqlParser.run rounds tokens with
    | .error _ => none
    | .ok stmt =>
      match (engine.setup.analyzer db).analyze stmt,
        (engine.setup.planner db).planStatement stmt with
      | .ok analysis, .ok plan =>
        if analysis.isValid = false then none
        else if engine.needsStream db stmt plan then some (stmt, .streamed, db)
        else
          match executeQuery rounds (.fromPlan engine.unwritten plan) false db with
          | .ok (.materialized rows _ 0) db' =>
            some (stmt, if scansIndex plan then .indexed rows else .scanned rows, db')
          | _ => none
      | _, _ => none

/-- **What is computed is executed.** -/
theorem executes_of_execute {engine : Engine} {rounds : ℕ} {query : Bytes} {db db' : StdDbInstance}
    {stmt : Sql.Statement} {answer : Answer}
    (h : engine.execute rounds query db = some (stmt, answer, db')) :
    engine.Executes db query stmt answer db' := by
  unfold execute at h
  split at h
  · cases h
  · rename_i tokens hlexed
    split at h
    · cases h
    · rename_i stmt' hparsed
      split at h
      · rename_i analysis plan hanalysis hplanned
        by_cases hvalid : analysis.isValid = false
        · rw [if_pos hvalid] at h
          cases h
        rw [if_neg hvalid] at h
        have hplans : engine.Plans db query stmt' plan :=
          ⟨⟨rounds, tokens, ⟨rounds, hlexed⟩, hparsed⟩,
            ⟨analysis, hanalysis, Bool.eq_true_of_not_eq_false hvalid⟩, hplanned⟩
        by_cases hstream : engine.needsStream db stmt' plan = true
        · rw [if_pos hstream] at h
          cases h
          exact .streamed hplans hstream
        rw [if_neg hstream] at h
        split at h
        · rename_i hreturns
          cases h
          exact .materialized hplans (Bool.eq_false_iff.mpr hstream) hreturns
        · cases h
      · cases h

end Engine
