import Taskq.Invariants.Identifiers

/-! The record of a run: its calls in order, each with its surroundings and its statements. -/
namespace Taskq
open Relational

/-- One call of a run. -/
structure Record where
  env : Env
  command : Command
  entries : List Logged

/-- What a call did to the tables with triggers: it made statements, or it configured. -/
def Made (env : Env) (entries : List Logged) (db db' : Db) : Prop :=
  Statements env entries db db' ∨ entries = [] ∧ Configures db db'

theorem Command.made {env : Env} {command : Command} {db db' : Db}
    (run : command.exec env db = .ok db') : ∃ entries, Made env entries db db' := by
  obtain ⟨entries, statements⟩ | setting := Command.exec_made run
  · exact ⟨entries, .inl statements⟩
  · exact ⟨[], .inr ⟨rfl, setting.configures⟩⟩

/-- The calls that lead from one state to another. -/
inductive System.History (site : Site) (allowed : System → Env → Command → Prop) (s : System) :
    List Record → System → Prop
  | start : System.History site allowed s [] s
  | step {log : List Record} {t u : System} {env : Env} {command : Command} {entries : List Logged}
      (before : System.History site allowed s log t) (permitted : allowed t env command)
      (step : System.Step site env command t u) (made : Made env entries t.db u.db) :
      System.History site allowed s (log ++ [⟨env, command, entries⟩]) u

variable {site : Site} {allowed : System → Env → Command → Prop} {s t : System}

theorem System.Run.history (run : System.Run site allowed s t) :
    ∃ log, System.History site allowed s log t := by
  induction run with
  | start => exact ⟨[], .start⟩
  | step _ permitted step ih =>
    obtain ⟨log, before⟩ := ih
    obtain ⟨entries, made⟩ := Command.made step.exec
    exact ⟨_, .step before permitted step made⟩

theorem System.History.run {log : List Record} (history : System.History site allowed s log t) :
    System.Run site allowed s t := by
  induction history with
  | start => exact .start
  | step _ permitted step _ ih => exact .step ih permitted step

/-- One call of a run between the tables that it met and those that it left. -/
structure Moment where
  env : Env
  command : Command
  before : Db
  after : Db

/-- The calls that lead from one state to another, each with its tables. -/
inductive System.Trace (site : Site) (allowed : System → Env → Command → Prop) (s : System) :
    List Moment → System → Prop
  | start : System.Trace site allowed s [] s
  | step {moments : List Moment} {t u : System} {env : Env} {command : Command}
      (before : System.Trace site allowed s moments t) (permitted : allowed t env command)
      (step : System.Step site env command t u) :
      System.Trace site allowed s (moments ++ [⟨env, command, t.db, u.db⟩]) u

theorem System.Run.trace (run : System.Run site allowed s t) :
    ∃ moments, System.Trace site allowed s moments t := by
  induction run with
  | start => exact ⟨[], .start⟩
  | step _ permitted step ih =>
    obtain ⟨moments, before⟩ := ih
    exact ⟨_, .step before permitted step⟩

theorem System.Trace.run {moments : List Moment} (trace : System.Trace site allowed s moments t) :
    System.Run site allowed s t := by
  induction trace with
  | start => exact .start
  | step _ permitted step ih => exact .step ih permitted step

end Taskq
