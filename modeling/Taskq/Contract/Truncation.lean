import Taskq.Invariants.ReachableTexts

/-! Texts of any length are cut to the longest prefix within their limit, and no settlement depends on what is cut off. -/
namespace Taskq
open Relational

section Settlements

variable {env : Env} {id attempt : Uuid} {worker : Option String}

theorem storedText_twice (text : Option String) : storedText (storedText text) = storedText text := by
  cases text with
  | none => rfl
  | some s => exact congrArg some (truncateUtf8_twice le_rfl s)

/-- The message of an event is shorter than a stored text. -/
theorem emitEvent_storedText (attempt : Option Uuid) (kind : String) (actor text : Option String) (data : Option Jsonb)
    (db : Db) : emitEvent env id attempt kind actor (storedText text) data db =
      emitEvent env id attempt kind actor text data db := by
  have message : (storedText text).map (truncateUtf8 · 500) = text.map (truncateUtf8 · 500) := by
    cases text with
    | none => rfl
    | some s => exact congrArg some (truncateUtf8_twice (by decide) s)
  unfold emitEvent insertEvent
  rw [message]

theorem settleCancelled_storedText (text : Option String) (row : JobRow → JobRow) (ledger : Attempt → Attempt) (job : Job)
    (db : Db) : settleCancelled env id attempt worker (storedText text) row ledger job db =
      settleCancelled env id attempt worker text row ledger job db := by
  simp only [settleCancelled, emitEvent_storedText]

theorem failJob_storedText (error : Option String) (retryable : Option Bool) (retryAfter : Option ℤ)
    (progress stats : Option Jsonb) (db : Db) :
    failJob env id attempt worker (storedText error) retryable retryAfter progress stats db =
      failJob env id attempt worker error retryable retryAfter progress stats db := by
  simp only [failJob, scheduleRetry, buryJob, settleCancelled_storedText, storedText_twice, emitEvent_storedText]

theorem snoozeJob_storedText (delay : Option ℤ) (reason : Option String) (progress : Option Jsonb) (db : Db) :
    snoozeJob env id attempt worker delay (storedText reason) progress db =
      snoozeJob env id attempt worker delay reason progress db := by
  simp only [snoozeJob, storedText_twice, emitEvent_storedText]

theorem cancelRunningJob_storedText (reason : Option String) (db : Db) :
    cancelRunningJob env id attempt worker (storedText reason) db =
      cancelRunningJob env id attempt worker reason db := by
  simp only [cancelRunningJob, settleCancelled_storedText, storedText_twice]

end Settlements

/-- The search for the cut of a text ends with the longest prefix within the limit, the text itself when it fits; its
bounds stay below the length of the text. Every text that a reachable state stores is within its limit, and a settlement
with a text of any length does what it does with the cut one. -/
theorem texts_cut_to_longest_prefix :
    (∀ (text : String) (maxBytes : ℕ),
      WellFounded (flip (Round (Fits text maxBytes))) ∧
      LongestPrefix text maxBytes (truncateUtf8 text maxBytes) ∧
      (octetLength text ≤ maxBytes → truncateUtf8 text maxBytes = text) ∧
      (maxBytes < octetLength text → ∃ k,
        Relation.ReflTransGen (Round (Fits text maxBytes)) (0, min text.length maxBytes) (k, k) ∧
        truncateUtf8 text maxBytes = leftChars text k) ∧
      ∀ low high, Relation.ReflTransGen (Round (Fits text maxBytes)) (0, min text.length maxBytes) (low, high) →
        low < high → low + high + 1 ≤ 2 * min text.length maxBytes) ∧
    (∀ (site : Site) (allowed : System → Env → Command → Prop) (s : System),
      System.Reachable site allowed s → s.db.Brief) ∧
    ∀ (env : Env) (id attempt : Uuid) (worker text : Option String) (retryable : Option Bool) (delay : Option ℤ)
      (progress stats : Option Jsonb) (db : Db),
      failJob env id attempt worker text retryable delay progress stats db =
        failJob env id attempt worker (storedText text) retryable delay progress stats db ∧
      snoozeJob env id attempt worker delay text progress db =
        snoozeJob env id attempt worker delay (storedText text) progress db ∧
      cancelRunningJob env id attempt worker text db =
        cancelRunningJob env id attempt worker (storedText text) db := by
  refine ⟨fun text maxBytes => ⟨Round.terminates _, truncateUtf8_longest text maxBytes, fun short => ?_,
    fun long => truncateUtf8_run long, fun low high run apart => rounds_sum run apart⟩,
    fun site allowed s reachable => reachable.brief,
    fun env id attempt worker text retryable delay progress stats db => ⟨?_, ?_, ?_⟩⟩
  · rw [truncateUtf8, if_pos short]
  · exact (failJob_storedText text retryable delay progress stats db).symm
  · exact (snoozeJob_storedText delay text progress db).symm
  · exact (cancelRunningJob_storedText text db).symm

/-- One to four bytes a character: the third one fits, the fourth one does not. -/
theorem texts_cut_to_longest_prefix_mixed :
    LongestPrefix "aé€😀" 9 (truncateUtf8 "aé€😀" 9) ∧ truncateUtf8 "aé€😀" 9 = "aé€" ∧
      (∃ k, Relation.ReflTransGen (Round (Fits "aé€😀" 9)) (0, min "aé€😀".length 9) (k, k) ∧
        truncateUtf8 "aé€😀" 9 = leftChars "aé€😀" k) ∧
      ∃ s : System, System.Reachable .plain anyCall s ∧ s.db.Brief ∧
        ∃ job, s.db.jobs.get? 2 = some job ∧ job.status = .failed ∧ job.error = some "boom" := by
  obtain ⟨cut, states, -⟩ := texts_cut_to_longest_prefix
  obtain ⟨-, longest, -, run, -⟩ := cut "aé€😀" 9
  have played : System.plays .plain [(0, .ensureQueue (some "q") none), (0, .enqueue (.simple "q")),
      (0, .claimJobs (.simple "q" 1)), (0, .failJob 2 3 (some "w") (some "boom") (some false) none none none)]
      (.installed .plain 0) (fun s => (s.db.jobs.get? 2).any fun j => j.status = .failed && j.error = some "boom") = true := by
    decide +kernel
  obtain ⟨s, reached, there⟩ := System.plays_run anyCall played fun _ _ _ => trivial
  obtain ⟨job, stored, there⟩ := (Option.any_eq_true _ _).mp there
  simp only [Bool.and_eq_true, decide_eq_true_eq] at there
  exact ⟨longest, by decide +kernel, run (by decide +kernel), s, ⟨0, reached⟩, states _ _ s ⟨0, reached⟩, job, stored, there⟩

end Taskq
